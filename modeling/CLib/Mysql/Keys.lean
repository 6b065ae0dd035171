import CLib.Mysql.Exception

namespace CLib.Mysql
open CLib.Base

/-- A database and a statement: a `dbhost` and the id of the normalized text. -/
abbrev Pair := Text × UInt32

def Pair.key (p : Pair) : Text := cacheKey p.1 p.2

/-- One of the hosts continues the other by some digits with which the id at the
other one begins, so that the two keys run together. -/
def Collide (p q : Pair) : Prop :=
  Continues (strLen - 1) p.1 (percentU p.2.toNat) q.1 (percentU q.2.toNat) ∨
    Continues (strLen - 1) q.1 (percentU q.2.toNat) p.1 (percentU p.2.toNat)

theorem key_eq_iff_collide (p q : Pair) : p.key = q.key ↔ Collide p q :=
  take_append_eq_take_append_iff

/-- An entry of the exception or the suspect table: the pair that the insertion
was for, and the host and the id that the key was built from. -/
structure Entry where
  inserted : Pair
  keyed : Pair

def Entry.key (e : Entry) : Text := e.keyed.key

/-- The checker's tables together with the insertions that were made into them. -/
structure Ledger where
  caches : Caches
  exceptions : List Entry
  suspects : List Entry

/-- The pairs that were inserted into the exception or the suspect table. -/
def Ledger.inserted (s : Ledger) : List Pair := (s.exceptions ++ s.suspects).map Entry.inserted

/-- A row of a table that `sql_init` loads: `db_host` and `int_data`. -/
abbrev Row := UInt32 × UInt32

def Row.entry (r : Row) : Entry :=
  ⟨(percentU r.1.toNat, r.2), (percentU r.1.toNat, r.2)⟩

/-- The tables after `sql_init` has read the rows of the database. -/
def sqlInit (normalRows errorRows : List UInt32) (exceptionRows suspectRows : List Row) : Ledger where
  caches := ⟨normalRows, exceptionRows.map fun r => cacheKey (percentU r.1.toNat) r.2, errorRows,
    suspectRows.map fun r => cacheKey (percentU r.1.toNat) r.2, 0, 0, 0, 0⟩
  exceptions := exceptionRows.map Row.entry
  suspects := suspectRows.map Row.entry

/-- A call for a decimal host: a record to check, or the option `D###S` to insert. -/
inductive Request
  | check (D : Host) (sql : Text) (answers : Answers)
  | insert (D : Host) (sql : Text) (executes : Bool)

/-- The call and its answer came from the exception or the suspect table. -/
def Outcome.fromKeyed : Outcome → Bool
  | .exceptionHit | .suspectHit => true
  | _ => false

section
variable (normalize : Text → UInt32) (ml : Bool)

/-- A call, with the insertion it makes noted down. -/
def Ledger.step (s : Ledger) : Request → Option Ledger
  | .check D sql a =>
    let r := sqlCheckSql normalize ml s.caches D.text sql a
    let p : Pair := (D.text, sqlId normalize sql)
    if r.2 = .exited then none
    else if r.2 = .suspectInserted then
      some { s with caches := r.1, suspects := ⟨p, p⟩ :: s.suspects }
    else some { s with caches := r.1 }
  | .insert D sql executes =>
    (insertException normalize s.caches (D.text ++ (separator ++ sql)) executes).map fun r =>
      let id := sqlId normalize sql
      -- The key is that of the host without its last digit.
      if r.2 then
        { s with caches := r.1, exceptions := ⟨(D.text, id), (D.text.dropLast, id)⟩ :: s.exceptions }
      else { s with caches := r.1 }

/-- A check that one of the two tables cuts short is for a pair that was inserted. -/
def OnlyInserted (s : Ledger) : Request → Prop
  | .check D sql a =>
    (sqlCheckSql normalize ml s.caches D.text sql a).2.fromKeyed →
      (D.text, sqlId normalize sql) ∈ s.inserted
  | .insert .. => True

/-- No key in a table that the check looks into collides with the pair of the check. -/
def Unmistaken (s : Ledger) : Request → Prop
  | .check D sql _ =>
    let p : Pair := (D.text, sqlId normalize sql)
    p ∈ s.inserted ∨ exempt sql ∨ p.2 ∈ s.caches.normalDistinct ∨
      (∀ e ∈ s.exceptions, ¬ Collide e.keyed p) ∧
        (p.2 ∈ s.caches.error ∨ ∀ e ∈ s.suspects, ¬ Collide e.keyed p)
  | .insert .. => True

end

/-- The two tables hold the keys of what was inserted into them. -/
structure Ledger.Kept (s : Ledger) : Prop where
  exception : s.caches.exception = s.exceptions.map Entry.key
  suspect : s.caches.suspect = s.suspects.map Entry.key

section Tables
variable {normalize : Text → UInt32} {ml : Bool}

theorem kept_sqlInit (normalRows errorRows : List UInt32) (exceptionRows suspectRows : List Row) :
    (sqlInit normalRows errorRows exceptionRows suspectRows).Kept :=
  ⟨by simp only [sqlInit, List.map_map]; rfl, by simp only [sqlInit, List.map_map]; rfl⟩

theorem acceptSql_suspect {c : Caches} {key : Text} {id : UInt32} (a : Answers) :
    (acceptSql ml c key id a).1.suspect =
      if (acceptSql ml c key id a).2 = .suspectInserted then key :: c.suspect else c.suspect := by
  obtain ⟨_, reMatches, reply, _, _⟩ := a
  cases reMatches <;> cases ml <;> cases reply <;> rfl

theorem rejectSql_suspect {c : Caches} {key : Text} {id : UInt32} (a : Answers) :
    (rejectSql c id a).1.suspect =
      if (rejectSql c id a).2 = .suspectInserted then key :: c.suspect else c.suspect := by
  obtain ⟨_, _, _, binds, executes⟩ := a
  cases binds <;> cases executes <;> rfl

/-- The only key that a check puts into the suspect table is its own. -/
theorem sqlCheckSql_suspect {c : Caches} {dbhost sql : Text} (a : Answers) :
    (sqlCheckSql normalize ml c dbhost sql a).1.suspect =
      if (sqlCheckSql normalize ml c dbhost sql a).2 = .suspectInserted then
        cacheKey dbhost (sqlId normalize sql) :: c.suspect
      else c.suspect := by
  generalize hr : sqlCheckSql normalize ml c dbhost sql a = r
  unfold sqlCheckSql at hr
  dsimp only at hr
  split_ifs at hr <;> subst hr
  · rfl
  · rfl
  · rfl
  · rfl
  · rfl
  · exact acceptSql_suspect a
  · exact rejectSql_suspect a

theorem acceptSql_fromKeyed {c : Caches} {key : Text} {id : UInt32} (a : Answers) :
    (acceptSql ml c key id a).2.fromKeyed = false := by
  obtain ⟨_, reMatches, reply, _, _⟩ := a
  cases reMatches <;> cases ml <;> cases reply <;> rfl

theorem rejectSql_fromKeyed {c : Caches} {id : UInt32} (a : Answers) :
    (rejectSql c id a).2.fromKeyed = false := by
  obtain ⟨_, _, _, binds, executes⟩ := a
  cases binds <;> cases executes <;> rfl

theorem sqlCheckSql_fromKeyed_iff {c : Caches} {dbhost sql : Text} (a : Answers) :
    (sqlCheckSql normalize ml c dbhost sql a).2.fromKeyed ↔
      ¬ exempt sql ∧ sqlId normalize sql ∉ c.normalDistinct ∧
        (cacheKey dbhost (sqlId normalize sql) ∈ c.exception ∨
          sqlId normalize sql ∉ c.error ∧ cacheKey dbhost (sqlId normalize sql) ∈ c.suspect) := by
  generalize hr : sqlCheckSql normalize ml c dbhost sql a = r
  unfold sqlCheckSql at hr
  dsimp only at hr
  split_ifs at hr with hexempt hnormal hexception herror hsuspect haccepts <;> subst hr
  · simp [Outcome.fromKeyed, hexempt]
  · simp [Outcome.fromKeyed, hnormal]
  · simp [Outcome.fromKeyed, hexempt, hnormal, hexception]
  · simp [Outcome.fromKeyed, hexception, herror]
  · simp [Outcome.fromKeyed, hexempt, hnormal, herror, hsuspect]
  · simp [acceptSql_fromKeyed, hexception, hsuspect]
  · simp [rejectSql_fromKeyed, hexception, hsuspect]

theorem mem_map_key_iff {entries : List Entry} {p : Pair} :
    p.key ∈ entries.map Entry.key ↔ ¬ ∀ e ∈ entries, ¬ Collide e.keyed p := by
  simp only [List.mem_map, Entry.key, key_eq_iff_collide]
  push Not
  rfl

theorem onlyInserted_iff_unmistaken {s : Ledger} (hs : s.Kept) (r : Request) :
    OnlyInserted normalize ml s r ↔ Unmistaken normalize s r := by
  cases r with
  | insert => exact Iff.rfl
  | check D sql a =>
    have hkey : cacheKey D.text (sqlId normalize sql) = Pair.key (D.text, sqlId normalize sql) := rfl
    dsimp only [OnlyInserted, Unmistaken]
    rw [sqlCheckSql_fromKeyed_iff, hs.exception, hs.suspect, hkey, mem_map_key_iff, mem_map_key_iff]
    tauto

theorem kept_of_step {s t : Ledger} {r : Request} (hs : s.Kept)
    (h : s.step normalize ml r = some t) : t.Kept := by
  cases r with
  | check D sql a =>
    have hexception :
        (sqlCheckSql normalize ml s.caches D.text sql a).1.exception = s.caches.exception :=
      sqlCheckSql_exception
    have hsuspect := @sqlCheckSql_suspect normalize ml s.caches D.text sql a
    dsimp only [Ledger.step] at h
    split_ifs at h with hexited hinserted
    · cases h
      rw [if_pos hinserted, hs.suspect] at hsuspect
      exact ⟨hexception.trans hs.exception, hsuspect⟩
    · cases h
      rw [if_neg hinserted] at hsuspect
      exact ⟨hexception.trans hs.exception, hsuspect.trans hs.suspect⟩
  | insert D sql executes =>
    obtain ⟨r, hr, rfl⟩ := Option.map_eq_some_iff.mp h
    rw [insertException_option] at hr
    dsimp only at hr
    split_ifs at hr <;> cases hr
    · exact ⟨congrArg (cacheKey D.text.dropLast (sqlId normalize sql) :: ·) hs.exception, hs.suspect⟩
    · exact hs

end Tables

/-- Two pairs that differ have different keys exactly if they do not collide, and in
every history the tables cut short only checks of pairs that were inserted exactly
if each check meets no entry that it collides with. -/
theorem keysSeparate_iff (normalize : Text → UInt32) (ml : Bool) (normalRows errorRows : List UInt32)
    (exceptionRows suspectRows : List Row) (history : List Request) :
    (∀ p q : Pair, (p.key = q.key → p = q) ↔ p = q ∨ ¬ Collide p q) ∧
      (Along (Ledger.step normalize ml) (OnlyInserted normalize ml)
          (sqlInit normalRows errorRows exceptionRows suspectRows) history ↔
        Along (Ledger.step normalize ml) (fun s => Unmistaken normalize s)
          (sqlInit normalRows errorRows exceptionRows suspectRows) history) := by
  constructor
  · intro p q
    rw [key_eq_iff_collide]
    tauto
  · -- The tables hold exactly the keys of the entries, so a hit on another pair is a collision.
    apply along_congr (kept_sqlInit normalRows errorRows exceptionRows suspectRows)
    · exact fun s r t => kept_of_step
    · exact fun s r hs => onlyInserted_iff_unmistaken hs r

section Examples

def hostOne : Host where
  text := ['1']
  ne_nil := by decide
  digits := by simp
  length_lt := by simp [strLen]

def hostTwelve : Host where
  text := ['1', '2']
  ne_nil := by decide
  digits := by simp
  length_lt := by simp [strLen]

/-- The server calls the statement dubious. -/
def dubious : Answers := ⟨true, false, .one, true, true⟩

def idOf (t : Text) : UInt32 := if t = ['a'] then 23 else 3

/-- The statement `a` is suspect on the host `1`, and the statement `b` on the host `12`
is then taken for it: both keys are `123`. -/
theorem not_keysSeparate :
    (¬ ∀ (D D' : Host) (id id' : UInt32),
        Pair.key (D.text, id) = Pair.key (D'.text, id') → (D.text, id) = (D'.text, id')) ∧
      ¬ ∀ (normalize : Text → UInt32) (ml : Bool) (normalRows errorRows : List UInt32)
          (exceptionRows suspectRows : List Row) (history : List Request),
        Along (Ledger.step normalize ml) (OnlyInserted normalize ml)
          (sqlInit normalRows errorRows exceptionRows suspectRows) history := by
  constructor
  · intro h
    exact absurd (h hostOne hostTwelve 23 3 (by decide)) (by decide)
  · intro h
    have hmem := h idOf true [] [] [] [] [.check hostOne ['a'] dubious, .check hostTwelve ['b'] dubious]
      _ (.check hostTwelve ['b'] dubious) ⟨[.check hostOne ['a'] dubious], List.prefix_rfl, rfl, rfl⟩
      (by decide)
    exact absurd hmem (by decide)

end Examples

end CLib.Mysql
