import CLib.Mysql.Checker
import CLib.Server.Pipeline

namespace CLib.Server
open CLib.Base CLib.Mysql

/-- The statement behind the header of a record. -/
def sqlOf (record : Text) : Option Text := (strstr record "##*/".toList).map fun rest => rest.drop 4

section
variable (normalize : Text → UInt32) (ml : Bool)

/-- `dispatch_func` on a record that it has popped: what `sql_check_sql` leaves behind,
where it is called at all. -/
def dispatch (c : Caches) (record : Text) (a : Answers) : Option (Caches × Outcome) :=
  if dispatchBranch record = .checked then
    (sqlOf record).map fun sql => sqlCheckSql normalize ml c (parseRecord record).dbhost sql a
  else none

/-- The record does not get to the lookups of `sql_check_sql`. -/
def DroppedBeforeLookup (c : Caches) (record : Text) (a : Answers) : Prop :=
  ∀ r, dispatch normalize ml c record a = some r → r.2 = .exempt

end

/-- The bytes of an identifier or a keyword. -/
def isWordChar (c : Char) : Bool := c.isAlphanum || c = '_' || c = '$' || decide (128 ≤ c.toNat)

def firstKeyword (sql : Text) : Text := (sql.dropWhile isSpace).takeWhile isWordChar

/-- The statement begins with the keyword `XA`, in any case. -/
def XaStatement (sql : Text) : Prop := (firstKeyword sql).map Char.toUpper = "XA".toList

/-- The third word of the header. -/
def queryTypeField (record : Text) : Text := (headerWords record).getD 2 []

/-- The header marks the record as one not to check, or its statement is too long or has
been cut. -/
def Unchecked (queryType record sql : Text) : Prop :=
  ¬ recordMark <:+: record ∨ syntaxError <+: queryType ∨ davinciBufferSize * 10 ≤ sql.length ∨
    "......".toList <:+: sql

/-- A long statement with one of the normal fragments. -/
def LongNormal (sql : Text) : Prop :=
  davinciBufferSize ≤ sql.length ∧ ∃ f ∈ normalSqlFragments, f <:+: sql

/-- The records that are not to be checked: those without the two marks, and those whose
statement is one of the listed kinds. -/
def IntendedDrop (record : Text) : Prop :=
  ∀ sql, sqlOf record = some sql →
    Unchecked (queryTypeField record) record sql ∨ LongNormal sql ∨ XaStatement sql

/-- The record is dropped exactly if it should be, and its header is parsed without a write
past `log_rec_head`, which would leave open what becomes of it. -/
def FilteredAsIntended (normalize : Text → UInt32) (ml : Bool) (c : Caches) (record : Text)
    (a : Answers) : Prop :=
  ¬ HeaderOverruns record ∧ (DroppedBeforeLookup normalize ml c record a ↔ IntendedDrop record)

/-- The letters `XA` occur, in any case. -/
def ContainsXa (sql : Text) : Prop := strcasestr sql "XA".toList

/-- An `xa` in the statement begins an XA statement, unless it is a long normal one; and a
long statement with one of the fragments has all of them, unless an `xa` is in it. -/
def NoSlip (sql : Text) : Prop :=
  (ContainsXa sql → XaStatement sql ∨ LongNormal sql) ∧
    (LongNormal sql → ContainsXa sql ∨ ∀ f ∈ normalSqlFragments, f <:+: sql)

/-- The header has no third word, and one of the first two reaches into `queryType`, with
`SYNTAX_ERROR` there. -/
def Spills (record : Text) : Prop :=
  (headerWords record).length < 3 ∧ syntaxError <+: spilled (headerWords record)

theorem XaStatement.containsXa {sql : Text} (h : XaStatement sql) : ContainsXa sql := by
  have hword : firstKeyword sql <:+: sql :=
    (List.takeWhile_prefix isWordChar).isInfix.trans (List.dropWhile_suffix isSpace).isInfix
  have hupper := hword.map Char.toUpper
  rw [h] at hupper
  exact (strstr_isSome_iff _ _).mpr hupper

section Branches
variable {normalize : Text → UInt32} {ml : Bool} {c : Caches} {record sql : Text} {a : Answers}

theorem acceptSql_invokesRules (key : Text) (id : UInt32) :
    (acceptSql ml c key id a).2.invokesRules := by
  unfold acceptSql
  split_ifs
  · rfl
  · cases a.ml <;> rfl
  · rfl

theorem rejectSql_invokesRules (id : UInt32) : (rejectSql c id a).2.invokesRules := by
  unfold rejectSql
  split_ifs <;> rfl

theorem ne_exempt_of_invokesRules {o : Outcome} (h : o.invokesRules) : o ≠ .exempt := by
  rintro rfl
  cases h

theorem sqlCheckSql_eq_exempt_iff (dbhost : Text) :
    (sqlCheckSql normalize ml c dbhost sql a).2 = .exempt ↔ exempt sql := by
  generalize hr : sqlCheckSql normalize ml c dbhost sql a = r
  unfold sqlCheckSql at hr
  dsimp only at hr
  split_ifs at hr with hexempt <;> subst hr
  · exact iff_of_true rfl hexempt
  iterate 4 exact iff_of_false nofun hexempt
  · exact iff_of_false (ne_exempt_of_invokesRules (acceptSql_invokesRules _ _)) hexempt
  · exact iff_of_false (ne_exempt_of_invokesRules (rejectSql_invokesRules _)) hexempt

/-- When `dispatch_func` calls the rule engine: the disjunction lets a long statement
pass as soon as one of the fragments is missing. -/
theorem dispatchBranch_eq_checked_iff (h : sqlOf record = some sql) :
    dispatchBranch record = .checked ↔
      recordMark <:+: record ∧ ¬ syntaxError <+: (parseRecord record).queryType ∧
        sql.length < davinciBufferSize * 10 ∧
          (sql.length < davinciBufferSize ∨ ∃ f ∈ normalSqlFragments, ¬ f <:+: sql) := by
  obtain ⟨rest, hrest, rfl⟩ := Option.map_eq_some_iff.mp h
  have hquery : strncmpZero (parseRecord record).queryType syntaxError syntaxError.length ↔
      syntaxError <+: (parseRecord record).queryType := strncmpZero_length_right _ _
  unfold dispatchBranch
  rw [hrest]
  dsimp only
  by_cases hmark : recordMark <:+: record
  · rw [if_neg (fun hnone => (strstr_isNone_iff _ _).mp hnone hmark), ite_eq_left_iff]
    simp only [reduceCtorEq, imp_false, not_not, Bool.and_eq_true, Bool.or_eq_true,
      decide_eq_true_eq, List.any_eq_true, strstr_isNone_iff, Bool.not_eq_true', ← Bool.not_eq_true,
      hquery]
    tauto
  · rw [if_pos ((strstr_isNone_iff _ _).mpr hmark)]
    exact iff_of_false nofun fun h => hmark h.1

theorem droppedBeforeLookup_iff :
    DroppedBeforeLookup normalize ml c record a ↔
      ∀ sql, sqlOf record = some sql →
        Unchecked (parseRecord record).queryType record sql ∨ ContainsXa sql ∨
        davinciBufferSize ≤ sql.length ∧ ∀ f ∈ normalSqlFragments, f <:+: sql := by
  unfold DroppedBeforeLookup dispatch
  cases hsql : sqlOf record with
  | none => simp
  | some sql =>
    have hexempt : exempt sql ↔ ContainsXa sql ∨ "......".toList <:+: sql := by
      rw [exempt, Bool.or_eq_true, strstr_isSome_iff]
      rfl
    have hchecked := dispatchBranch_eq_checked_iff hsql
    by_cases hbranch : dispatchBranch record = .checked
    · rw [if_pos hbranch]
      rw [hbranch, eq_self_iff_true, true_iff] at hchecked
      obtain ⟨hmark, hquery, hlong, hpass⟩ := hchecked
      simp only [Option.map_some, Option.some.injEq, forall_eq', sqlCheckSql_eq_exempt_iff, hexempt,
        Unchecked]
      constructor
      · tauto
      · rintro ((h | h | h | h) | h | ⟨h, hall⟩)
        · exact absurd hmark h
        · exact absurd h hquery
        · omega
        · exact .inr h
        · exact .inl h
        · obtain hshort | ⟨f, hf, hno⟩ := hpass
          · omega
          · exact absurd (hall f hf) hno
    · rw [if_neg hbranch]
      refine iff_of_true nofun fun sql' hsql' => ?_
      obtain rfl := Option.some.inj hsql'
      rw [hchecked] at hbranch
      by_contra hno
      apply hbranch
      unfold Unchecked at hno
      push Not at hno
      obtain ⟨⟨hmark, hquery, hlong, -⟩, -, hpass⟩ := hno
      refine ⟨hmark, hquery, hlong, ?_⟩
      by_cases hshort : sql.length < davinciBufferSize
      · exact .inl hshort
      · exact .inr (hpass (by omega))

/-- The test of `queryType` goes by the third word of the header, and without one by what the
first two leave there. -/
theorem syntaxError_prefix_iff (h : WordsFit (headerWords record)) :
    syntaxError <+: (parseRecord record).queryType ↔
      syntaxError <+: queryTypeField record ∨ Spills record := by
  have hlen : syntaxError.length ≤ strLen := by decide
  have hne : ¬ syntaxError <+: [] := by decide
  change _ <+: member (storeWords (headerWords record)) .queryType ↔ _
  unfold Spills queryTypeField
  revert h
  generalize headerWords record = words
  intro h
  rcases Nat.lt_or_ge words.length 3 with hfew | hmany
  · have hthird : words.getD 2 [] = [] := by simp [Nat.le_of_lt_succ hfew]
    rw [queryType_eq_spilled h hfew, hthird]
    simp only [hne, hfew, true_and, false_or]
  · match words, hmany with
    | d :: t :: q :: words, hmany =>
      rw [prefix_queryType_iff h hlen]
      simp only [List.getD_cons_succ, List.getD_cons_zero, not_lt.mpr hmany, false_and, or_false]

end Branches

/-- The records dropped before the lookups are exactly those intended, if and only if the
header stays inside `log_rec_head`, and the record is one not to check or its statement is
free of the two slips; where the first two words of the header make it look like one not to
check, its statement has to be of the listed kinds. -/
theorem filteredAsIntended_iff (normalize : Text → UInt32) (ml : Bool) (c : Caches) (record : Text)
    (a : Answers) :
    FilteredAsIntended normalize ml c record a ↔
      ¬ HeaderOverruns record ∧ ∀ sql, sqlOf record = some sql →
        Unchecked (queryTypeField record) record sql ∨
          (Spills record ∧ (LongNormal sql ∨ XaStatement sql)) ∨ (¬ Spills record ∧ NoSlip sql) := by
  unfold FilteredAsIntended
  refine and_congr_right fun hover => ?_
  rw [droppedBeforeLookup_iff, IntendedDrop]
  cases hsql : sqlOf record with
  | none => simp
  | some sql =>
    have hend : "##*/".toList <:+: record := by
      obtain ⟨rest, hrest, -⟩ := Option.map_eq_some_iff.mp hsql
      exact (strstr_isSome_iff _ _).mp (by rw [hrest]; rfl)
    have hxa : XaStatement sql → ContainsXa sql := XaStatement.containsXa
    have hall : (davinciBufferSize ≤ sql.length ∧ ∀ f ∈ normalSqlFragments, f <:+: sql) ↔
        LongNormal sql ∧ ∀ f ∈ normalSqlFragments, f <:+: sql := by
      refine ⟨fun h => ⟨⟨h.1, _, List.mem_cons_self, h.2 _ List.mem_cons_self⟩, h.2⟩, fun h => ⟨h.1.1, h.2⟩⟩
    have hquery : Unchecked (parseRecord record).queryType record sql ↔
        Unchecked (queryTypeField record) record sql ∨ recordMark <:+: record ∧ Spills record := by
      unfold Unchecked
      by_cases hmark : recordMark <:+: record
      · rw [syntaxError_prefix_iff (by_contra fun hfit => hover ⟨hend, hmark, hfit⟩)]
        tauto
      · simp [hmark]
    simp only [Option.some.injEq, forall_eq', NoSlip, hall, hquery]
    by_cases hunchecked : Unchecked (queryTypeField record) record sql
    · simp only [hunchecked, true_or]
    · have hmark : recordMark <:+: record := by_contra fun hmark => hunchecked (.inl hmark)
      by_cases hspills : Spills record
      · simp only [hunchecked, hmark, hspills, true_and, not_true, false_and, true_or, or_true,
          true_iff, false_or, or_false]
      · simp only [hunchecked, hspills, and_false, false_and, false_or, not_false_eq_true, true_and]
        constructor
        · exact fun h =>
            ⟨fun hx => (h.mp (.inl hx)).symm, fun hl => (h.mpr (.inl hl)).imp_right And.right⟩
        · rintro ⟨hx, hl⟩
          refine ⟨fun h => ?_, fun h => h.elim (fun hlong => ?_) fun hk => .inl (hxa hk)⟩
          · exact h.elim (fun h => (hx h).symm) fun h => .inl h.1
          · exact (hl hlong).imp_right fun hall => ⟨hlong, hall⟩

section Examples

/-- The statement `select exact` has the letters `xa` in a name. -/
def exactRecord : Text := "d t SELECT/*##r 5 ##*/select exact".toList

theorem not_filteredAsIntended_exact :
    ¬ ∀ (normalize : Text → UInt32) (ml : Bool) (c : Caches) (record : Text) (a : Answers),
      FilteredAsIntended normalize ml c record a := by
  intro h
  have hsql : sqlOf exactRecord = some "select exact".toList := by decide +kernel
  have hdropped : DroppedBeforeLookup (fun _ => 7) false ⟨[], [], [], [], 0, 0, 0, 0⟩ exactRecord
      ⟨true, false, .zero, true, true⟩ := by
    refine droppedBeforeLookup_iff.mpr fun sql hsome => .inr (.inl ?_)
    obtain rfl := Option.some.inj (hsql.symm.trans hsome)
    unfold ContainsXa
    decide +kernel
  rcases (h _ _ _ _ _).2.mp hdropped _ hsql with (hmark | hquery | hlong | hdots) | hnormal | hxa
  · exact hmark (by decide +kernel)
  · exact absurd hquery (by decide +kernel)
  · exact absurd hlong (by decide +kernel)
  · exact absurd hdots (by decide +kernel)
  · exact absurd hnormal.1 (by decide +kernel)
  · exact absurd hxa (by unfold XaStatement; decide +kernel)

end Examples

end CLib.Server
