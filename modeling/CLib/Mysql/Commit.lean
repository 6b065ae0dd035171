import CLib.Mysql.Actions

namespace CLib.Mysql
open CLib.Base

/-- Every key that a call has put into a table stands for a row that it inserted, and
all the rows that it inserted are committed. -/
structure Backed (c c' : Caches) (as : List Action) : Prop where
  error : ∀ id ∈ c'.error, id ∉ c.error → ∃ columns, NewRow.event id columns ∈ inserted as
  suspect : ∀ key ∈ c'.suspect, key ∉ c.suspect →
    ∃ d p columns, Pair.key p = key ∧ NewRow.suspect d p columns ∈ inserted as
  exception : ∀ key ∈ c'.exception, key ∉ c.exception →
    ∃ p, Pair.key p = key ∧ NewRow.exception p ∈ inserted as
  committed : uncommitted as = []

/-- When the call returns, the tables are not ahead of the database. -/
def KeepsUp (normalize : Text → UInt32) (ml : Bool) (c : Caches) (call : DbCall) : Prop :=
  ∀ c', dbStep normalize ml c call = some c' → Backed c c' (call.actions normalize ml c)

/-- A check that a regular expression ends inserts no row, and the INSERT for a statement
that the machine-learning server calls dubious succeeds. -/
def InOrder (normalize : Text → UInt32) (ml : Bool) (c : Caches) : DbCall → Prop
  | .check dbhost sql _ r =>
    ¬ CutShort normalize c dbhost sql → r.checkSqlSucceeds →
      if r.reMatches then ¬ r.suspectExecutes else ml → r.ml = .one → r.suspectExecutes
  | .insert .. => True

section
variable {normalize : Text → UInt32} {ml : Bool} {c c' : Caches} {as : List Action}

theorem backed_of_sameTables (h : SameTables c c') (hcommitted : uncommitted as = []) :
    Backed c c' as where
  error _ hid hnew := absurd (h.error ▸ hid) hnew
  suspect _ hkey hnew := absurd (h.suspect ▸ hkey) hnew
  exception _ hkey hnew := absurd (h.exception ▸ hkey) hnew
  committed := hcommitted

@[simp] theorem uncommitted_leave (fd : ℕ) : uncommitted (leave fd) = [] := rfl

theorem uncommitted_sqlCheckSqlRe (p : Pair) (sql : Text) (r : Replies) :
    uncommitted (sqlCheckSqlRe p sql r) = [] ↔ ¬ r.suspectExecutes := by
  unfold sqlCheckSqlRe
  cases r.suspectExecutes <;> simp [uncommitted]

theorem uncommitted_insert_leave (row : NewRow) (executed : Bool) (fd : ℕ) :
    uncommitted (.insert row executed :: leave fd) = [] := by
  cases executed <;> simp [uncommitted, leave, myOnExit]

theorem CheckEffect.backed_iff {dbhost sql sqlPtr : Text} {r : Replies} {o : Outcome}
    (h : CheckEffect normalize ml c dbhost sql sqlPtr r c' o as) (hreturns : o ≠ .exited) :
    Backed c c' as ↔ InOrder normalize ml c (.check dbhost sql sqlPtr r) := by
  cases h with
  | cutShort hcut tables actions =>
    rw [actions]
    exact iff_of_true (backed_of_sameTables tables rfl) fun hfree => absurd hcut hfree
  | matched hfree accepted re tables _ actions =>
    have hguard : InOrder normalize ml c (.check dbhost sql sqlPtr r) ↔ ¬ r.suspectExecutes := by
      simp [InOrder, hfree, accepted, re]
    rw [hguard, ← uncommitted_sqlCheckSqlRe, actions]
    exact ⟨fun h => h.committed, fun h => backed_of_sameTables tables h⟩
  | learned hfree accepted re on reply _ error suspect exception actions =>
    have hguard : InOrder normalize ml c (.check dbhost sql sqlPtr r) ↔ r.suspectExecutes := by
      simp [InOrder, hfree, accepted, re, on, reply]
    rw [hguard, actions]
    constructor
    · intro h
      -- The key was not in the table, so it has to stand for a row.
      have hnew : cacheKey dbhost (sqlId normalize sql) ∉ c.suspect := fun hmem =>
        hfree (.inr (.inr (.inr (.inr hmem))))
      obtain ⟨d, p, columns, -, hrow⟩ := h.suspect _ (by rw [suspect]; exact List.mem_cons_self) hnew
      by_contra hfails
      simp [hfails] at hrow
    · intro hexecutes
      refine ⟨?_, ?_, ?_, uncommitted_insert_leave _ _ _⟩
      · exact fun id hid hnew => absurd (error ▸ hid) hnew
      · intro key hkey hnew
        rw [suspect] at hkey
        obtain rfl := (List.mem_cons.mp hkey).resolve_right hnew
        refine ⟨.machineLearning, (dbhost, sqlId normalize sql),
          suspectColumns (sqlId normalize sql) r.errText r.tm sql sqlPtr, rfl, ?_⟩
        rw [inserted_cons_socket, inserted_cons_insert, if_pos hexecutes]
        exact List.mem_cons_self
      · exact fun key hkey hnew => absurd (exception ▸ hkey) hnew
  | normal hfree accepted re reply tables _ actions =>
    rw [actions]
    apply iff_of_true (backed_of_sameTables tables (by split_ifs <;> rfl))
    intro _ _
    rw [if_neg re]
    intro hml hone
    rw [reply hml] at hone
    cases hone
  | garbage hfree accepted re on reply tables _ actions =>
    rw [actions]
    apply iff_of_true (backed_of_sameTables tables rfl)
    intro _ _
    rw [if_neg re, reply]
    intro _ hone
    cases hone
  | rejected hfree hrejected _ _ _ error suspect exception actions =>
    rw [actions]
    refine iff_of_true ⟨?_, ?_, ?_, uncommitted_insert_leave _ _ _⟩ fun _ h => absurd h hrejected
    · intro id hid hnew
      rw [error] at hid
      obtain rfl := (List.mem_cons.mp hid).resolve_right hnew
      exact ⟨_, List.mem_cons_self⟩
    · exact fun key hkey hnew => absurd (suspect ▸ hkey) hnew
    · exact fun key hkey hnew => absurd (exception ▸ hkey) hnew
  | exited _ outcome => exact absurd outcome hreturns

theorem CheckEffect.inOrder_of_exited {dbhost sql sqlPtr : Text} {r : Replies} {o : Outcome}
    (h : CheckEffect normalize ml c dbhost sql sqlPtr r c' o as) (hexits : o = .exited) :
    InOrder normalize ml c (.check dbhost sql sqlPtr r) := by
  subst hexits
  cases h with
  | cutShort _ _ _ outcome => cases outcome
  | exited _ _ _ cause =>
    intro _ haccepted
    rcases cause with ⟨-, re, -, hexits⟩ | ⟨hrejected, -⟩
    · rw [if_neg re, hexits]
      exact fun _ hone => by cases hone
    · exact absurd haccepted hrejected
  | matched _ _ _ _ outcome => cases outcome
  | learned _ _ _ _ _ outcome => cases outcome
  | normal _ _ _ _ _ outcome => cases outcome
  | garbage _ _ _ _ _ _ outcome => cases outcome
  | rejected _ _ _ _ outcome => cases outcome

theorem keepsUp_check_iff (dbhost sql sqlPtr : Text) (r : Replies) :
    KeepsUp normalize ml c (.check dbhost sql sqlPtr r) ↔
      InOrder normalize ml c (.check dbhost sql sqlPtr r) := by
  have heffect : CheckEffect normalize ml c dbhost sql sqlPtr r _ _ _ := check_effect sqlPtr r
  by_cases hexits : (sqlCheckSql normalize ml c dbhost sql r.toAnswers).2 = .exited
  · have hstep : dbStep normalize ml c (.check dbhost sql sqlPtr r) = none := if_pos hexits
    refine iff_of_true (fun c' h => ?_) (heffect.inOrder_of_exited hexits)
    rw [hstep] at h
    cases h
  · have hstep : dbStep normalize ml c (.check dbhost sql sqlPtr r) = some _ := if_neg hexits
    rw [← heffect.backed_iff hexits, KeepsUp, hstep]
    simp only [Option.some.injEq, forall_eq']
    rfl

theorem keepsUp_insert (option : Text) (binds executes : Bool) :
    KeepsUp normalize ml c (.insert option binds executes) := by
  intro c' h
  obtain ⟨p, heffect⟩ := insert_effect_of_dbStep h
  change Backed c c' (insertActions normalize c option executes)
  cases heffect with
  | present _ same actions =>
    rw [same, actions]
    exact backed_of_sameTables ⟨rfl, rfl, rfl⟩ rfl
  | failed _ _ same actions =>
    rw [same, actions]
    exact backed_of_sameTables ⟨rfl, rfl, rfl⟩ rfl
  | added _ _ tables actions =>
    rw [tables, actions]
    refine ⟨fun id hid hnew => absurd hid hnew, fun key hkey hnew => absurd hkey hnew, ?_, rfl⟩
    intro key hkey hnew
    obtain rfl := (List.mem_cons.mp hkey).resolve_right hnew
    exact ⟨p, rfl, List.mem_cons_self⟩

end

/-- Along every sequence of calls the tables are never ahead of the database when a call
returns, exactly if no check of it is out of order. -/
theorem keepsUp_iff (normalize : Text → UInt32) (ml : Bool) (c : Caches) (history : List DbCall) :
    Along (dbStep normalize ml) (KeepsUp normalize ml) c history ↔
      Along (dbStep normalize ml) (InOrder normalize ml) c history := by
  apply along_congr (I := fun _ => True) trivial
  · exact fun _ _ _ _ _ => trivial
  · intro d call _
    cases call with
    | check dbhost sql sqlPtr r => exact keepsUp_check_iff dbhost sql sqlPtr r
    | insert option binds executes => exact iff_of_true (keepsUp_insert option binds executes) trivial

section Examples

/-- The machine-learning server calls the statement dubious, and the INSERT fails. -/
def lost : Replies := { plain with ml := .one, suspectExecutes := false }

/-- The key of a dubious statement is in the table, and no row in the database. -/
theorem not_keepsUp :
    ¬ ∀ (normalize : Text → UInt32) (ml : Bool) (c : Caches) (history : List DbCall),
      Along (dbStep normalize ml) (KeepsUp normalize ml) c history := by
  intro h
  have hkeeps := h (fun _ => 7) true emptyCaches [.check ['5'] ['a'] [] lost] emptyCaches
    (.check ['5'] ['a'] [] lost) ⟨[], List.prefix_rfl, rfl, rfl⟩
  have hguard := (keepsUp_check_iff ['5'] ['a'] [] lost).mp hkeeps (by decide) rfl
  exact absurd (hguard rfl rfl) (by decide)

end Examples

end CLib.Mysql
