import CLib.Mysql.Actions
import Mathlib.Data.List.Nodup

namespace CLib.Mysql
open CLib.Base

/-- A call with what came of it: the outcome of a record, or whether the key of an option has
been added. -/
inductive Handled
  | checked (dbhost sql : Text) (answers : Answers) (outcome : Outcome)
  | option (sql : Text) (executes added : Bool)

def Handled.call : Handled → Call
  | .checked dbhost sql a _ => .check dbhost sql a
  | .option sql executes _ => .insert sql executes

/-- The checker in a run, with the calls that it has handled, the last one first. -/
structure Audited where
  caches : Caches
  history : List Handled

/-- `sql_check_sql_re` has been called. -/
def Outcome.accepted : Outcome → Bool
  | .reMatch | .mlGarbage | .suspectInserted | .normalInserted => true
  | _ => false

/-- The outcome for a statement that is in none of the tables. -/
def firstVerdict (ml : Bool) (a : Answers) : Outcome :=
  if !a.checkSqlSucceeds then .errorInserted
  else if a.reMatches then .reMatch
  else if !ml then .normalInserted
  else match a.ml with
    | .exits => .exited
    | .one => .suspectInserted
    | .zero => .normalInserted
    | .other => .mlGarbage

def outcomes (h : List Handled) : List Outcome :=
  h.filterMap fun
    | .checked _ _ _ o => some o
    | .option .. => none

section
variable (normalize : Text → UInt32) (ml : Bool) (c₀ : Caches)

def Audited.step (s : Audited) : Call → Option Audited
  | .check dbhost sql a =>
    let r := sqlCheckSql normalize ml s.caches dbhost sql a
    if r.2 = .exited then none else some ⟨r.1, .checked dbhost sql a r.2 :: s.history⟩
  | .insert option executes =>
    (insertException normalize s.caches option executes).map fun r =>
      ⟨r.1, .option option executes r.2 :: s.history⟩

/-- The ids of the records with an outcome. -/
def idsOf (o : Outcome) (h : List Handled) : List UInt32 :=
  h.filterMap fun
    | .checked _ sql _ o' => if o' = o then some (sqlId normalize sql) else none
    | .option .. => none

/-- The keys of the records that were found suspect. -/
def suspectsOf (h : List Handled) : List Text :=
  h.filterMap fun
    | .checked dbhost sql _ o =>
      if o = .suspectInserted then some (cacheKey dbhost (sqlId normalize sql)) else none
    | .option .. => none

def optionKey (sql : Text) : Text :=
  match strstr sql separator with
  | none => []
  | some dbHostPtr =>
    cacheKey (snprintf (sql.length - dbHostPtr.length) sql) (sqlId normalize (dbHostPtr.drop 3))

/-- The keys of the options that were added. -/
def exceptionsOf (h : List Handled) : List Text :=
  h.filterMap fun
    | .checked .. => none
    | .option sql _ added => if added then some (optionKey normalize sql) else none

/-- The keys that go into each table. -/
structure Added where
  normal : List UInt32
  error : List UInt32
  suspect : List Text
  exception : List Text

/-- What the calls have added. -/
def added (h : List Handled) : Added :=
  ⟨idsOf normalize .normalInserted h, idsOf normalize .errorInserted h, suspectsOf normalize h,
    exceptionsOf normalize h⟩

/-- A record gets the outcome of its key if that was in a table or has been added by an earlier
call, and else its first verdict; an option is added unless its key was. -/
def Judged (h : List Handled) : Handled → Prop
  | .checked dbhost sql a o =>
    let id := sqlId normalize sql
    let newId := cacheKey dbhost id
    o = if exempt sql then .exempt
      else if id ∈ (added normalize h).normal ++ c₀.normalDistinct then .normalHit
      else if newId ∈ (added normalize h).exception ++ c₀.exception then .exceptionHit
      else if id ∈ (added normalize h).error ++ c₀.error then .errorHit
      else if newId ∈ (added normalize h).suspect ++ c₀.suspect then .suspectHit
      else firstVerdict ml a
  | .option sql executes isAdded =>
    isAdded = decide (optionKey normalize sql ∉ (added normalize h).exception ++ c₀.exception ∧ executes)

/-- Each call is judged after the ones before it. -/
def AllJudged : List Handled → Prop
  | [] => True
  | x :: h => Judged normalize ml c₀ h x ∧ AllJudged h

end

/-- The tables are those of the start and what was added, each key once and none that was there. -/
structure Added.Tables (new : Added) (c₀ c : Caches) : Prop where
  normal : c.normalDistinct = new.normal ++ c₀.normalDistinct
  error : c.error = new.error ++ c₀.error
  suspect : c.suspect = new.suspect ++ c₀.suspect
  exception : c.exception = new.exception ++ c₀.exception
  /-- No statement is both normal and an error. -/
  verdicts : (new.normal ++ new.error).Nodup
  verdicts_new : ∀ id ∈ new.normal ++ new.error, id ∉ c₀.normalDistinct ∧ id ∉ c₀.error
  suspect_nodup : new.suspect.Nodup
  suspect_new : ∀ k ∈ new.suspect, k ∉ c₀.suspect ∧ k ∉ c₀.exception
  exception_nodup : new.exception.Nodup
  exception_new : ∀ k ∈ new.exception, k ∉ c₀.exception

/-- The counters have grown by the numbers of the outcomes. -/
structure Counted (ml : Bool) (c₀ c : Caches) (os : List Outcome) : Prop where
  totalCount : c.totalCount = c₀.totalCount + .ofNat (os.countP (· ≠ .exempt))
  normalCount : c.normalCount = c₀.normalCount + .ofNat (if ml then os.count .normalInserted else 0)
  errorCount : c.errorCount = c₀.errorCount + .ofNat (os.count .errorInserted)
  reSqlCount : c.reSqlCount = c₀.reSqlCount + .ofNat (os.countP Outcome.accepted)

/-- What a run from the tables `c₀` keeps. -/
structure Audited.Sound (normalize : Text → UInt32) (ml : Bool) (c₀ : Caches) (s : Audited) : Prop where
  judged : AllJudged normalize ml c₀ s.history
  tables : (added normalize s.history).Tables c₀ s.caches
  counted : Counted ml c₀ s.caches (outcomes s.history)

section History
variable {normalize : Text → UInt32}

theorem length_idsOf (o : Outcome) (h : List Handled) :
    (idsOf normalize o h).length = (outcomes h).count o := by
  induction h with
  | nil => rfl
  | cons x h ih =>
    cases x with
    | checked dbhost sql a o' =>
      by_cases ho : o' = o
      · subst ho
        simpa [idsOf, outcomes] using ih
      · simpa [idsOf, outcomes, ho] using ih
    | option => exact ih

theorem length_suspectsOf (h : List Handled) :
    (suspectsOf normalize h).length = (outcomes h).count .suspectInserted := by
  induction h with
  | nil => rfl
  | cons x h ih =>
    cases x with
    | checked dbhost sql a o =>
      by_cases ho : o = .suspectInserted
      · subst ho
        simpa [suspectsOf, outcomes] using ih
      · simpa [suspectsOf, outcomes, ho] using ih
    | option => exact ih

theorem length_outcomes_le (h : List Handled) : (outcomes h).length ≤ h.length :=
  List.length_filterMap_le _ h

theorem length_exceptionsOf_le (h : List Handled) : (exceptionsOf normalize h).length ≤ h.length :=
  List.length_filterMap_le _ h

end History

section Step
variable {normalize : Text → UInt32} {ml : Bool} {c₀ c c' : Caches} {s t : Audited}
  {h : List Handled} {os : List Outcome} {dbhost sql : Text} {a : Answers} {o : Outcome}

/-- What a call of `sql_check_sql` that returns does to the tables and the counters. -/
inductive Checked (normalize : Text → UInt32) (ml : Bool) (c : Caches) (dbhost sql : Text) :
    Caches → Outcome → Prop
  | exempt : Checked normalize ml c dbhost sql c .exempt
  | hit (o : Outcome) (ho : o ∈ [.normalHit, .exceptionHit, .errorHit, .suspectHit]) :
      Checked normalize ml c dbhost sql { c with totalCount := c.totalCount + 1 } o
  | passed (o : Outcome) (ho : o ∈ [.reMatch, .mlGarbage]) :
      Checked normalize ml c dbhost sql
        { c with totalCount := c.totalCount + 1, reSqlCount := c.reSqlCount + 1 } o
  | suspect (h : ¬ CutShort normalize c dbhost sql) :
      Checked normalize ml c dbhost sql
        { c with
          totalCount := c.totalCount + 1
          reSqlCount := c.reSqlCount + 1
          suspect := cacheKey dbhost (sqlId normalize sql) :: c.suspect } .suspectInserted
  | normal (h : ¬ CutShort normalize c dbhost sql) :
      Checked normalize ml c dbhost sql
        { c with
          totalCount := c.totalCount + 1
          reSqlCount := c.reSqlCount + 1
          normalCount := if ml then c.normalCount + 1 else c.normalCount
          normalDistinct := sqlId normalize sql :: c.normalDistinct } .normalInserted
  | error (h : ¬ CutShort normalize c dbhost sql) :
      Checked normalize ml c dbhost sql
        { c with
          totalCount := c.totalCount + 1
          errorCount := c.errorCount + 1
          error := sqlId normalize sql :: c.error } .errorInserted

theorem checked_of_cutShort (h : CutShort normalize c dbhost sql) (a : Answers) :
    Checked normalize ml c dbhost sql (sqlCheckSql normalize ml c dbhost sql a).1
      (sqlCheckSql normalize ml c dbhost sql a).2 := by
  unfold sqlCheckSql
  dsimp only
  split_ifs
  · exact .exempt
  · exact .hit _ (by simp)
  · exact .hit _ (by simp)
  · exact .hit _ (by simp)
  · exact .hit _ (by simp)
  all_goals exact absurd h (by simp_all [CutShort])

theorem checked_of_returns (h : (sqlCheckSql normalize ml c dbhost sql a).2 ≠ .exited) :
    Checked normalize ml c dbhost sql (sqlCheckSql normalize ml c dbhost sql a).1
      (sqlCheckSql normalize ml c dbhost sql a).2 := by
  by_cases hcut : CutShort normalize c dbhost sql
  · exact checked_of_cutShort hcut a
  rw [sqlCheckSql_of_not_cutShort hcut] at h ⊢
  dsimp only at h ⊢
  by_cases haccepted : a.checkSqlSucceeds
  · rw [if_pos haccepted, acceptSql] at h ⊢
    dsimp only at h ⊢
    by_cases hre : a.reMatches
    · rw [if_pos hre]
      exact .passed .reMatch (by simp)
    rw [if_neg hre] at h ⊢
    by_cases hml : ml
    · subst hml
      rw [if_pos rfl] at h ⊢
      cases hreply : a.ml with
      | exits =>
        rw [hreply] at h
        exact absurd rfl h
      | one => exact .suspect hcut
      | zero => exact .normal hcut
      | other => exact .passed .mlGarbage (by simp)
    · obtain rfl : ml = false := by simpa using hml
      exact .normal hcut
  · rw [if_neg haccepted, rejectSql] at h ⊢
    dsimp only at h ⊢
    by_cases hrow : a.errorBinds && a.errorExecutes
    · rw [if_pos hrow]
      exact .error hcut
    · rw [if_neg hrow] at h
      exact absurd rfl h

theorem CutShort.not_mem (h : ¬ CutShort normalize c dbhost sql) :
    sqlId normalize sql ∉ c.normalDistinct ∧
      cacheKey dbhost (sqlId normalize sql) ∉ c.exception ∧ sqlId normalize sql ∉ c.error ∧
        cacheKey dbhost (sqlId normalize sql) ∉ c.suspect := by
  simpa only [CutShort, not_or] using (not_or.mp h).2

theorem acceptSql_outcome {key : Text} {id : UInt32} (haccepted : a.checkSqlSucceeds = true) :
    (acceptSql ml c key id a).2 = firstVerdict ml a := by
  obtain ⟨_, reMatches, reply, _, _⟩ := a
  obtain rfl : _ = true := haccepted
  cases reMatches <;> cases ml <;> cases reply <;> rfl

theorem rejectSql_outcome {id : UInt32} (hreject : ¬ a.checkSqlSucceeds = true)
    (h : (rejectSql c id a).2 ≠ .exited) : (rejectSql c id a).2 = firstVerdict ml a := by
  rw [firstVerdict, if_pos (by simpa using hreject)]
  rw [rejectSql] at h ⊢
  dsimp only at h ⊢
  split_ifs at h ⊢
  · rfl
  · exact absurd rfl h

theorem Added.Tables.judged (ht : (added normalize h).Tables c₀ c)
    (hreturns : (sqlCheckSql normalize ml c dbhost sql a).2 ≠ .exited) :
    Judged normalize ml c₀ h (.checked dbhost sql a (sqlCheckSql normalize ml c dbhost sql a).2) := by
  dsimp only [Judged]
  rw [← ht.normal, ← ht.exception, ← ht.error, ← ht.suspect]
  unfold sqlCheckSql at hreturns ⊢
  dsimp only at hreturns ⊢
  split_ifs at hreturns ⊢ with _ _ _ _ _ haccepted
  · rfl
  · rfl
  · rfl
  · rfl
  · rfl
  · exact acceptSql_outcome haccepted
  · exact rejectSql_outcome haccepted hreturns

theorem Added.Tables.verdict {new : Added} (ht : new.Tables c₀ c) {id : UInt32}
    (hnormal : id ∉ c.normalDistinct) (herror : id ∉ c.error) :
    id ∉ new.normal ∧ id ∉ new.error ∧ id ∉ c₀.normalDistinct ∧ id ∉ c₀.error := by
  rw [ht.normal, List.mem_append, not_or] at hnormal
  rw [ht.error, List.mem_append, not_or] at herror
  exact ⟨hnormal.1, herror.1, hnormal.2, herror.2⟩

theorem Added.Tables.check (ht : (added normalize h).Tables c₀ c)
    (hc : Checked normalize ml c dbhost sql c' o) :
    (added normalize (.checked dbhost sql a o :: h)).Tables c₀ c' := by
  cases hc with
  | exempt => exact ht
  | hit o ho =>
    simp only [List.mem_cons, List.not_mem_nil, or_false] at ho
    rcases ho with rfl | rfl | rfl | rfl <;> exact { ht with }
  | passed o ho =>
    simp only [List.mem_cons, List.not_mem_nil, or_false] at ho
    rcases ho with rfl | rfl <;> exact { ht with }
  | suspect hcut =>
    obtain ⟨-, hexception, -, hsuspect⟩ := CutShort.not_mem hcut
    rw [ht.exception, List.mem_append, not_or] at hexception
    rw [ht.suspect, List.mem_append, not_or] at hsuspect
    exact { ht with
      suspect := congrArg (_ :: ·) ht.suspect
      suspect_nodup := List.nodup_cons.mpr ⟨hsuspect.1, ht.suspect_nodup⟩
      suspect_new := List.forall_mem_cons.mpr ⟨⟨hsuspect.2, hexception.2⟩, ht.suspect_new⟩ }
  | normal hcut =>
    obtain ⟨hnormal, -, herror, -⟩ := CutShort.not_mem hcut
    obtain ⟨hn, he, hn₀, he₀⟩ := ht.verdict hnormal herror
    exact { ht with
      normal := congrArg (_ :: ·) ht.normal
      verdicts :=
        List.nodup_cons.mpr ⟨List.mem_append.not.mpr (not_or.mpr ⟨hn, he⟩), ht.verdicts⟩
      verdicts_new := List.forall_mem_cons.mpr ⟨⟨hn₀, he₀⟩, ht.verdicts_new⟩ }
  | error hcut =>
    obtain ⟨hnormal, -, herror, -⟩ := CutShort.not_mem hcut
    obtain ⟨hn, he, hn₀, he₀⟩ := ht.verdict hnormal herror
    exact { ht with
      error := congrArg (_ :: ·) ht.error
      verdicts := List.nodup_middle.mpr
        (List.nodup_cons.mpr ⟨List.mem_append.not.mpr (not_or.mpr ⟨hn, he⟩), ht.verdicts⟩)
      verdicts_new := by
        intro id hid
        rcases List.mem_cons.mp (List.perm_middle.mem_iff.mp hid) with rfl | hid
        · exact ⟨hn₀, he₀⟩
        · exact ht.verdicts_new id hid }

theorem Counted.cons (hc : Counted ml c₀ c os)
    (htotal : c'.totalCount = .ofNat ([o].countP (· ≠ .exempt)) + c.totalCount)
    (hnormal : c'.normalCount = .ofNat (if ml then [o].count .normalInserted else 0) + c.normalCount)
    (herror : c'.errorCount = .ofNat ([o].count .errorInserted) + c.errorCount)
    (hre : c'.reSqlCount = .ofNat ([o].countP Outcome.accepted) + c.reSqlCount) :
    Counted ml c₀ c' (o :: os) := by
  have hadd : ∀ (x : UInt32) (m n : ℕ), .ofNat m + (x + .ofNat n) = x + .ofNat (m + n) := by
    intro x m n
    rw [UInt32.ofNat_add, UInt32.add_comm, UInt32.add_assoc, UInt32.add_comm (.ofNat n)]
  rw [← List.singleton_append]
  refine ⟨?_, ?_, ?_, ?_⟩
  · rw [htotal, hc.totalCount, List.countP_append, hadd]
  · rw [hnormal, hc.normalCount, List.count_append, hadd]
    cases ml <;> rfl
  · rw [herror, hc.errorCount, List.count_append, hadd]
  · rw [hre, hc.reSqlCount, List.countP_append, hadd]

theorem Counted.check (hc : Counted ml c₀ c os) (h : Checked normalize ml c dbhost sql c' o) :
    Counted ml c₀ c' (o :: os) := by
  cases h with
  | exempt => refine hc.cons ?_ ?_ ?_ ?_ <;> simp [Outcome.accepted]
  | hit o ho =>
    simp only [List.mem_cons, List.not_mem_nil, or_false] at ho
    refine hc.cons ?_ ?_ ?_ ?_ <;>
    rcases ho with rfl | rfl | rfl | rfl <;> simp [Outcome.accepted, UInt32.add_comm]
  | passed o ho =>
    simp only [List.mem_cons, List.not_mem_nil, or_false] at ho
    refine hc.cons ?_ ?_ ?_ ?_ <;>
    rcases ho with rfl | rfl <;> simp [Outcome.accepted, UInt32.add_comm]
  | suspect => refine hc.cons ?_ ?_ ?_ ?_ <;> simp [Outcome.accepted, UInt32.add_comm]
  | normal => refine hc.cons ?_ ?_ ?_ ?_ <;> cases ml <;> simp [Outcome.accepted, UInt32.add_comm]
  | error => refine hc.cons ?_ ?_ ?_ ?_ <;> simp [Outcome.accepted, UInt32.add_comm]

theorem insertException_eq {option : Text} {executes : Bool} {r : Caches × Bool}
    (h : insertException normalize c option executes = some r) :
    r = if optionKey normalize option ∉ c.exception ∧ executes then
        ({ c with exception := optionKey normalize option :: c.exception }, true)
      else (c, false) := by
  unfold insertException at h
  unfold optionKey
  cases hptr : strstr option separator with
  | none =>
    rw [hptr] at h
    cases h
  | some dbHostPtr =>
    rw [hptr] at h
    dsimp only at h ⊢
    split_ifs at h ⊢ <;> exact (Option.some.inj h).symm

theorem Audited.Sound.insert {option : Text} {executes : Bool} {r : Caches × Bool}
    (hs : s.Sound normalize ml c₀) (h : insertException normalize s.caches option executes = some r) :
    Audited.Sound normalize ml c₀ ⟨r.1, .option option executes r.2 :: s.history⟩ := by
  have hr := insertException_eq h
  have ht := hs.tables
  have hkey : optionKey normalize option ∉ s.caches.exception ∧ executes ↔
      optionKey normalize option ∉ (added normalize s.history).exception ++ c₀.exception ∧ executes := by
    rw [ht.exception]
  split_ifs at hr with hadd
  · subst hr
    have hnew := hadd.1
    rw [ht.exception, List.mem_append, not_or] at hnew
    refine ⟨⟨(decide_eq_true (hkey.mp hadd)).symm, hs.judged⟩, { ht with
      exception := congrArg (_ :: ·) ht.exception
      exception_nodup := List.nodup_cons.mpr ⟨hnew.1, ht.exception_nodup⟩
      exception_new := List.forall_mem_cons.mpr ⟨hnew.2, ht.exception_new⟩ }, { hs.counted with }⟩
  · subst hr
    exact ⟨⟨(decide_eq_false (mt hkey.mpr hadd)).symm, hs.judged⟩, ht, hs.counted⟩

theorem Audited.Sound.step {call : Call} (hs : s.Sound normalize ml c₀)
    (h : s.step normalize ml call = some t) : t.Sound normalize ml c₀ := by
  cases call with
  | check dbhost sql a =>
    obtain ⟨hreturns, h⟩ := Option.ite_none_left_eq_some.mp h
    rw [← Option.some.inj h]
    have hchecked := checked_of_returns hreturns
    exact ⟨⟨hs.tables.judged hreturns, hs.judged⟩, hs.tables.check hchecked, hs.counted.check hchecked⟩
  | insert option executes =>
    obtain ⟨r, hr, rfl⟩ := Option.map_eq_some_iff.mp h
    exact hs.insert hr

theorem Audited.call_of_step {call : Call} (h : s.step normalize ml call = some t) :
    t.history.map Handled.call = call :: s.history.map Handled.call := by
  cases call with
  | check dbhost sql a =>
    obtain ⟨-, h⟩ := Option.ite_none_left_eq_some.mp h
    rw [← Option.some.inj h]
    rfl
  | insert option executes =>
    obtain ⟨r, -, rfl⟩ := Option.map_eq_some_iff.mp h
    rfl

end Step

section Runs
variable {normalize : Text → UInt32} {ml : Bool} {c₀ : Caches} {s t : Audited} {calls : List Call}

theorem calls_of_run (h : runFrom (Audited.step normalize ml) s calls = some t) :
    t.history.map Handled.call = calls.reverse ++ s.history.map Handled.call := by
  induction calls generalizing s with
  | nil =>
    obtain rfl : s = t := Option.some.inj h
    rfl
  | cons call calls ih =>
    rw [runFrom_cons] at h
    obtain ⟨u, hu, hrun⟩ := Option.bind_eq_some_iff.mp h
    rw [ih hrun, Audited.call_of_step hu]
    simp

theorem sound_of_run (h : runFrom (Audited.step normalize ml) ⟨c₀, []⟩ calls = some s) :
    s.Sound normalize ml c₀ := by
  apply Reachable.invariant (I := Audited.Sound normalize ml c₀) ⟨calls, h⟩
  · exact ⟨trivial, by constructor <;> simp [added, idsOf, suspectsOf, exceptionsOf],
      by constructor <;> simp [outcomes]⟩
  · exact fun s call t hs hstep => hs.step hstep

end Runs

section Examples

def noCaches : Caches := ⟨[], [], [], [], 0, 0, 0, 0⟩

/-- A statement that is found to be normal, and is known when it comes again. -/
def twiceNormal : List Call :=
  [.check "1".toList "a".toList plain.toAnswers, .check "2".toList "a".toList plain.toAnswers]

def twiceNormalEnd : Audited :=
  (runFrom (Audited.step (fun _ => 7) true) ⟨noCaches, []⟩ twiceNormal).get (by decide +kernel)

theorem run_twiceNormal :
    runFrom (Audited.step (fun _ => 7) true) ⟨noCaches, []⟩ twiceNormal = some twiceNormalEnd :=
  (Option.some_get _).symm

end Examples
end CLib.Mysql
