import CLib.Base.Runs
import CLib.Db.Store

namespace CLib.Db
open CLib.Base

/-- The calls of a program that uses the library; `reopen` is `db_close` and `db_open`. -/
inductive Call
  | store (key data : Text) (flag : Flag)
  | delete (key : Text)
  | fetch (key : Text)
  | reopen
  deriving DecidableEq

inductive Result
  | status (rc : ℤ)
  | data (data : Option Text)
  | opened
  deriving DecidableEq

def DB.call (db : DB) : Call → Option (Result × DB)
  | .store key data flag => (db.store key data flag).map fun (rc, db) => (.status rc, db)
  | .delete key => (db.delete key).map fun (rc, db) => (.status rc, db)
  | .fetch key => (db.fetch key).map fun (data, db) => (.data data, db)
  | .reopen => some (.opened, DB.opened db.idxFile db.datFile)

/-- One call of a run, whose results are kept in order. -/
def step (s : DB × List Result) (c : Call) : Option (DB × List Result) :=
  (s.1.call c).map fun (r, db) => (db, s.2 ++ [r])

/-- What the same call does to a finite map, and its result. -/
def answer (m : Text → Option Text) : Call → Result × (Text → Option Text)
  | .store key data flag =>
    if flag = .other ∨ flag = .replace ∧ m key = none then (.status (-1), m)
    else if flag = .insert ∧ m key ≠ none then (.status 1, m)
    else (.status 0, Function.update m key (some data))
  | .delete key =>
    if m key = none then (.status (-1), m) else (.status 0, Function.update m key none)
  | .fetch key => (.data (m key), m)
  | .reopen => (.opened, m)

def stepMap (a : (Text → Option Text) × List Result) (c : Call) : (Text → Option Text) × List Result :=
  ((answer a.1 c).2, a.2 ++ [(answer a.1 c).1])

/-- A record is stored only if it is valid, the index file has not grown beyond `PTR_MAX`, and
its index record is no longer than `IDXLEN_MAX` at the end of the files. -/
def Allowed (s : DB × List Result) : Call → Prop
  | .store key data _ => ValidKey key ∧ ValidData data ∧ s.1.idxFile.length ≤ ptrMax ∧
      (indexRecord key s.1.datFile.length (data.length + 1)).length ≤ idxlenMax
  | _ => True

section Calls
variable {db : DB} {L : Layout} {m : Text → Option Text} {key data : Text} {flag : Flag}

theorem Keeps.store (h : Keeps db m) (hkey : ValidKey key) (hdata : ValidData data)
    (hidx : db.idxFile.length ≤ ptrMax)
    (hrecord : (indexRecord key db.datFile.length (data.length + 1)).length ≤ idxlenMax) :
    ∃ db', db.call (.store key data flag) = some ((answer m (.store key data flag)).1, db') ∧
      Keeps db' (answer m (.store key data flag)).2 := by
  obtain ⟨L, lists, k⟩ := h
  have hlen : ¬ (data.length + 1 < datlenMin ∨ datlenMax < data.length + 1) := by
    have hpos := List.length_pos_iff.mpr hdata.ne_nil
    have hmax := hdata.length
    rw [datlenMin]
    omega
  by_cases hother : flag = .other
  · refine ⟨db, ?_, ?_⟩
    · rw [DB.call, DB.store, if_pos hother, answer, if_pos (.inl hother), Option.map_some]
    · rw [answer, if_pos (.inl hother)]
      exact ⟨L, lists, k⟩
  rw [DB.call, DB.store, if_neg hother, if_neg hlen, answer]
  cases hm : m key with
  | none =>
    obtain ⟨db₁, hfind, k₁, hchain⟩ := k.findAndLock_none hm
    have hlengths := k.holds.lengths k₁.holds rfl rfl
    rw [hfind, Option.bind_some]
    by_cases hreplace : flag = .replace
    · rw [if_pos (.inr ⟨hreplace, rfl⟩)]
      refine ⟨db₁, ?_, L, lists, k₁⟩
      simp [hreplace]
    · obtain ⟨db', hrun, h'⟩ := k₁.storeNew hm hchain hkey hdata (hlengths.1 ▸ hidx)
        (hlengths.2 ▸ hrecord)
      rw [if_neg (by simp [hother, hreplace]), if_neg (by simp)]
      refine ⟨db', ?_, h'⟩
      simp [hreplace, hrun]
  | some old =>
    obtain ⟨i, ys, zs, hl, hrec, hys⟩ := k.exists_split hm
    obtain ⟨db₁, hfind, k₁, hon, hchain, hptroff⟩ := k.findAndLock_some hl hrec hys
    have hlengths := k.holds.lengths k₁.holds rfl rfl
    rw [hfind, Option.bind_some, if_neg (by simp [hother])]
    by_cases hinsert : flag = .insert
    · rw [if_pos ⟨hinsert, by simp⟩]
      refine ⟨db₁, ?_, L, lists, k₁⟩
      simp [hinsert]
    · obtain ⟨db', hrun, h'⟩ := k₁.storeOver hl hrec hon hchain hptroff hkey hdata (hlengths.1 ▸ hidx)
        (hlengths.2 ▸ hrecord)
      rw [if_neg (by simp [hinsert])]
      refine ⟨db', ?_, h'⟩
      simp [hinsert, hrun]

theorem Keeps.delete (h : Keeps db m) (key : Text) :
    ∃ db', db.call (.delete key) = some ((answer m (.delete key)).1, db') ∧
      Keeps db' (answer m (.delete key)).2 := by
  obtain ⟨L, lists, k⟩ := h
  rw [DB.call, DB.delete, answer]
  cases hm : m key with
  | none =>
    obtain ⟨db₁, hfind, k₁, -⟩ := k.findAndLock_none hm
    rw [hfind, if_pos rfl]
    exact ⟨db₁, rfl, L, lists, k₁⟩
  | some old =>
    obtain ⟨i, ys, zs, hl, hrec, hys⟩ := k.exists_split hm
    obtain ⟨db₁, hfind, k₁, hon, -, hptroff⟩ := k.findAndLock_some hl hrec hys
    obtain ⟨db', hrun, h', -⟩ := k₁.dodelete hl (congrArg Prod.fst hrec) hon hptroff
    rw [hfind, if_neg (by simp)]
    refine ⟨db', ?_, h'⟩
    simp [hrun]

theorem Keeps.fetch (h : Keeps db m) (key : Text) :
    ∃ db', db.call (.fetch key) = some ((answer m (.fetch key)).1, db') ∧
      Keeps db' (answer m (.fetch key)).2 := by
  obtain ⟨L, lists, k⟩ := h
  rw [DB.call, DB.fetch, answer]
  cases hm : m key with
  | none =>
    obtain ⟨db₁, hfind, k₁, -⟩ := k.findAndLock_none hm
    rw [hfind]
    exact ⟨db₁, rfl, L, lists, k₁⟩
  | some old =>
    obtain ⟨i, ys, zs, hl, hrec, hys⟩ := k.exists_split hm
    obtain ⟨db₁, hfind, k₁, hon, -⟩ := k.findAndLock_some hl hrec hys
    have hi : i < L.slots.length := by
      apply k.slot_lt (chainHead_mem_headCells key)
      rw [hl]
      exact List.mem_append_right ys List.mem_cons_self
    have hdata : (L.slot i).data = old := congrArg Prod.snd hrec
    refine ⟨db₁, ?_, L, lists, k₁⟩
    rw [hfind, Option.bind_some]
    simp [k₁.holds.readdat hi hon, hdata]

theorem Keeps.reopen (h : Keeps db m) : Keeps (DB.opened db.idxFile db.datFile) m := by
  obtain ⟨L, lists, k⟩ := h
  exact ⟨L, lists, ⟨k.holds.idx, k.holds.dat, k.holds.fits⟩, k.dealt, k.filed⟩

theorem Keeps.call (h : Keeps db m) {out : List Result} (c : Call) (hc : Allowed (db, out) c) :
    ∃ db', db.call c = some ((answer m c).1, db') ∧ Keeps db' (answer m c).2 := by
  cases c with
  | store key data flag =>
    obtain ⟨hkey, hdata, hidx, hrecord⟩ := hc
    exact h.store hkey hdata hidx hrecord
  | delete key => exact h.delete key
  | fetch key => exact h.fetch key
  | reopen => exact ⟨_, rfl, h.reopen⟩

/-- The results so far are the same, and the files hold the map. -/
def Agrees (s : DB × List Result) (a : (Text → Option Text) × List Result) : Prop :=
  Keeps s.1 a.1 ∧ s.2 = a.2

theorem Agrees.step {s : DB × List Result} {a : (Text → Option Text) × List Result} {c : Call}
    (h : Agrees s a) (hc : Allowed s c) : ∃ t, step s c = some t ∧ Agrees t (stepMap a c) := by
  obtain ⟨db', hcall, hkeeps⟩ := h.1.call c hc
  refine ⟨(db', s.2 ++ [(answer a.1 c).1]), ?_, hkeeps, ?_⟩
  · rw [CLib.Db.step, hcall, Option.map_some]
  · rw [h.2]
    rfl

end Calls

end CLib.Db
