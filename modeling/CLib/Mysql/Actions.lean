import CLib.Mysql.Columns
import CLib.Mysql.Keys

namespace CLib.Mysql
open CLib.Base

/-- What finds a statement suspect. -/
inductive Detector
  | regularExpression | machineLearning
  deriving DecidableEq

/-- A row that is inserted into `ids_event`, `suspect_sql_new` or `exception_sql`,
with the statement that it is for. -/
inductive NewRow
  | event (id : UInt32) (columns : List Param)
  | suspect (d : Detector) (p : Pair) (columns : List Param)
  | exception (p : Pair)
  deriving DecidableEq

/-- What a call does to the database and to the descriptors of the process. -/
inductive Action
  | insert (r : NewRow) (executed : Bool)
  | commit
  | socket (fd : ℕ)
  | close (fd : ℕ)
  deriving DecidableEq

/-- All the answers that a call of `sql_check_sql` gets. `tm` is what its local
`tm_time` holds before it is filled. -/
structure Replies extends Answers where
  suspectBinds : Bool
  suspectExecutes : Bool
  socket : ℕ
  errText : Text
  tm : Tm

/-- Nothing is found, and every statement succeeds. -/
def plain : Replies where
  checkSqlSucceeds := true
  reMatches := false
  ml := .zero
  errorBinds := true
  errorExecutes := true
  suspectBinds := true
  suspectExecutes := true
  socket := 3
  errText := []
  tm := ⟨0, 0, 0, 0, 0, 0⟩

def myOnExit (fd fdRead : ℕ) : List Action :=
  (if fd ≠ 0 then [.close fd] else []) ++ (if fdRead ≠ 0 then [.close fdRead] else [])

/-- The end of `sql_check_sql`: `fd` and `fd_read` are 0 all along. -/
def leave (clientSocket : ℕ) : List Action := .commit :: (myOnExit 0 0 ++ [.close clientSocket])

/-- `sql_check_sql_re` on a match. A failed `mysql_stmt_bind_param` is only logged. -/
def sqlCheckSqlRe (p : Pair) (sql : Text) (r : Replies) : List Action :=
  [.insert (.suspect .regularExpression p (reColumns sql)) r.suspectExecutes]

section
variable (normalize : Text → UInt32)

/-- The tests of `sql_check_sql` in front of `check_sql`. -/
def CutShort (c : Caches) (dbhost sql : Text) : Prop :=
  exempt sql ∨ sqlId normalize sql ∈ c.normalDistinct ∨
    cacheKey dbhost (sqlId normalize sql) ∈ c.exception ∨ sqlId normalize sql ∈ c.error ∨
      cacheKey dbhost (sqlId normalize sql) ∈ c.suspect

instance (c : Caches) (dbhost sql : Text) : Decidable (CutShort normalize c dbhost sql) := by
  unfold CutShort
  infer_instance

/-- The actions of `sql_check_sql` after a rule engine without complaint. -/
def acceptActions (machineLearningOn : Bool) (p : Pair) (sql sqlPtr : Text) (r : Replies) :
    List Action :=
  if r.reMatches then sqlCheckSqlRe p sql r ++ myOnExit 0 0
  else if machineLearningOn then
    .socket r.socket ::
      match r.ml with
      | .exits => []
      | .one =>
        -- Failures of `mysql_stmt_bind_param` and `mysql_stmt_execute` are only logged.
        .insert (.suspect .machineLearning p (suspectColumns p.2 r.errText r.tm sql sqlPtr))
          r.suspectExecutes :: leave r.socket
      | .zero => leave r.socket
      | .other => myOnExit 0 0
  else leave 0

/-- The actions of `sql_check_sql` for a statement that the rule engine complains about. -/
def rejectActions (p : Pair) (sql sqlPtr : Text) (r : Replies) : List Action :=
  let row := NewRow.event p.2 (eventColumns r.errText r.tm sql sqlPtr)
  if !r.errorBinds then []
  else if !r.errorExecutes then [.insert row false]
  else .insert row true :: leave 0

/-- The actions of `sql_check_sql` for the record `sqlPtr` with this `dbhost` and statement. -/
def checkActions (machineLearningOn : Bool) (c : Caches) (dbhost sql sqlPtr : Text) (r : Replies) :
    List Action :=
  if CutShort normalize c dbhost sql then myOnExit 0 0
  else if r.checkSqlSucceeds then
    acceptActions machineLearningOn (dbhost, sqlId normalize sql) sql sqlPtr r
  else rejectActions (dbhost, sqlId normalize sql) sql sqlPtr r

/-- The actions of `insert_exception`. A failed `mysql_stmt_bind_param` is only logged. -/
def insertActions (c : Caches) (sql : Text) (executes : Bool) : List Action :=
  match strstr sql separator with
  | none => []
  | some dbHostPtr =>
    let p : Pair := (snprintf (sql.length - dbHostPtr.length) sql, sqlId normalize (dbHostPtr.drop 3))
    if p.key ∈ c.exception then []
    else if executes then [.insert (.exception p) true, .commit]
    else [.insert (.exception p) false]

/-- A call of the checker with all that it is answered. -/
inductive DbCall
  | check (dbhost sql sqlPtr : Text) (replies : Replies)
  | insert (option : Text) (binds executes : Bool)

/-- The call without the answers that the tables do not depend on. -/
def DbCall.toCall : DbCall → Call
  | .check dbhost sql _ r => .check dbhost sql r.toAnswers
  | .insert option _ executes => .insert option executes

def DbCall.actions (machineLearningOn : Bool) (c : Caches) : DbCall → List Action
  | .check dbhost sql sqlPtr r => checkActions normalize machineLearningOn c dbhost sql sqlPtr r
  | .insert option _ executes => insertActions normalize c option executes

/-- The tables after a call, unless the process exits in it. -/
def dbStep (machineLearningOn : Bool) (c : Caches) (call : DbCall) : Option Caches :=
  c.step normalize machineLearningOn call.toCall

end

def inserted (as : List Action) : List NewRow :=
  as.filterMap fun
    | .insert r true => some r
    | _ => none

/-- The rows that were inserted after the last commit. -/
def uncommitted : List Action → List NewRow
  | [] => []
  | .insert r true :: as => if .commit ∈ as then uncommitted as else r :: uncommitted as
  | _ :: as => uncommitted as

@[simp] theorem inserted_cons_insert (r : NewRow) (executed : Bool) (as : List Action) :
    inserted (.insert r executed :: as) = if executed then r :: inserted as else inserted as := by
  cases executed <;> rfl

@[simp] theorem inserted_cons_socket (fd : ℕ) (as : List Action) :
    inserted (.socket fd :: as) = inserted as := rfl

@[simp] theorem inserted_leave (fd : ℕ) : inserted (leave fd) = [] := rfl

@[simp] theorem inserted_nil : inserted [] = [] := rfl

/-- The tables that rows are inserted for are the same. -/
structure SameTables (c c' : Caches) : Prop where
  error : c'.error = c.error
  suspect : c'.suspect = c.suspect
  exception : c'.exception = c.exception

section Effect
variable {normalize : Text → UInt32} {ml : Bool} {c : Caches} {dbhost sql : Text}

theorem sqlCheckSql_of_cutShort (ml : Bool) (h : CutShort normalize c dbhost sql) (a : Answers) :
    SameTables c (sqlCheckSql normalize ml c dbhost sql a).1 ∧
      (sqlCheckSql normalize ml c dbhost sql a).2.invokesRules = false := by
  unfold sqlCheckSql
  dsimp only
  split_ifs
  iterate 5 exact ⟨⟨rfl, rfl, rfl⟩, rfl⟩
  all_goals exact absurd h (by simp_all [CutShort])

theorem sqlCheckSql_of_not_cutShort (h : ¬ CutShort normalize c dbhost sql) (a : Answers) :
    sqlCheckSql normalize ml c dbhost sql a =
      let c := { c with totalCount := c.totalCount + 1 }
      if a.checkSqlSucceeds then
        acceptSql ml c (cacheKey dbhost (sqlId normalize sql)) (sqlId normalize sql) a
      else rejectSql c (sqlId normalize sql) a := by
  simp only [CutShort, not_or] at h
  obtain ⟨hexempt, hnormal, hexception, herror, hsuspect⟩ := h
  rw [sqlCheckSql, if_neg hexempt]
  dsimp only
  rw [if_neg hnormal, if_neg hexception, if_neg herror, if_neg hsuspect]

/-- What each exit of `sql_check_sql` requires, leaves in the tables and has done. -/
inductive CheckEffect (normalize : Text → UInt32) (ml : Bool) (c : Caches)
    (dbhost sql sqlPtr : Text) (r : Replies) (c' : Caches) (o : Outcome) (as : List Action) : Prop
  | cutShort (h : CutShort normalize c dbhost sql) (tables : SameTables c c') (actions : as = [])
      (outcome : o.invokesRules = false)
  | matched (h : ¬ CutShort normalize c dbhost sql) (accepted : r.checkSqlSucceeds)
      (re : r.reMatches) (tables : SameTables c c') (outcome : o = .reMatch)
      (actions : as = sqlCheckSqlRe (dbhost, sqlId normalize sql) sql r)
  | learned (h : ¬ CutShort normalize c dbhost sql) (accepted : r.checkSqlSucceeds)
      (re : ¬ r.reMatches) (on : ml) (reply : r.ml = .one) (outcome : o = .suspectInserted)
      (error : c'.error = c.error)
      (suspect : c'.suspect = cacheKey dbhost (sqlId normalize sql) :: c.suspect)
      (exception : c'.exception = c.exception)
      (actions : as = .socket r.socket ::
        .insert (.suspect .machineLearning (dbhost, sqlId normalize sql)
          (suspectColumns (sqlId normalize sql) r.errText r.tm sql sqlPtr)) r.suspectExecutes ::
        leave r.socket)
  | normal (h : ¬ CutShort normalize c dbhost sql) (accepted : r.checkSqlSucceeds)
      (re : ¬ r.reMatches) (reply : ml → r.ml = .zero) (tables : SameTables c c')
      (outcome : o = .normalInserted)
      (actions : as = if ml then .socket r.socket :: leave r.socket else leave 0)
  | garbage (h : ¬ CutShort normalize c dbhost sql) (accepted : r.checkSqlSucceeds)
      (re : ¬ r.reMatches) (on : ml) (reply : r.ml = .other) (tables : SameTables c c')
      (outcome : o = .mlGarbage) (actions : as = [.socket r.socket])
  | rejected (h : ¬ CutShort normalize c dbhost sql) (rejected : ¬ r.checkSqlSucceeds)
      (binds : r.errorBinds) (executes : r.errorExecutes) (outcome : o = .errorInserted)
      (error : c'.error = sqlId normalize sql :: c.error) (suspect : c'.suspect = c.suspect)
      (exception : c'.exception = c.exception)
      (actions : as = .insert (.event (sqlId normalize sql)
        (eventColumns r.errText r.tm sql sqlPtr)) true :: leave 0)
  | exited (h : ¬ CutShort normalize c dbhost sql) (outcome : o = .exited)
      (rows : inserted as = [])
      (cause : r.checkSqlSucceeds ∧ ¬ r.reMatches ∧ ml ∧ r.ml = .exits ∨
        ¬ r.checkSqlSucceeds ∧ ¬ (r.errorBinds ∧ r.errorExecutes))

theorem check_effect (sqlPtr : Text) (r : Replies) :
    CheckEffect normalize ml c dbhost sql sqlPtr r
      (sqlCheckSql normalize ml c dbhost sql r.toAnswers).1
      (sqlCheckSql normalize ml c dbhost sql r.toAnswers).2
      (checkActions normalize ml c dbhost sql sqlPtr r) := by
  by_cases h : CutShort normalize c dbhost sql
  · obtain ⟨htables, houtcome⟩ := sqlCheckSql_of_cutShort ml h r.toAnswers
    exact .cutShort h htables (if_pos h) houtcome
  rw [sqlCheckSql_of_not_cutShort h, checkActions, if_neg h]
  dsimp only
  by_cases haccepted : r.checkSqlSucceeds
  · rw [if_pos haccepted, if_pos haccepted, acceptSql, acceptActions]
    dsimp only
    by_cases hre : r.reMatches
    · rw [if_pos hre, if_pos hre]
      exact .matched h haccepted hre ⟨rfl, rfl, rfl⟩ rfl rfl
    rw [if_neg hre, if_neg hre]
    by_cases hml : ml
    · rw [if_pos hml, if_pos hml]
      cases hreply : r.ml with
      | exits => exact .exited h rfl rfl (.inl ⟨haccepted, hre, hml, hreply⟩)
      | one => exact .learned h haccepted hre hml hreply rfl rfl rfl rfl rfl
      | zero =>
        refine .normal h haccepted hre (fun _ => hreply) ⟨rfl, rfl, rfl⟩ rfl ?_
        rw [if_pos hml]
      | other => exact .garbage h haccepted hre hml hreply ⟨rfl, rfl, rfl⟩ rfl rfl
    · rw [if_neg hml, if_neg hml]
      refine .normal h haccepted hre (fun h => absurd h hml) ⟨rfl, rfl, rfl⟩ rfl ?_
      rw [if_neg hml]
  · rw [if_neg haccepted, if_neg haccepted, rejectSql, rejectActions]
    dsimp only
    by_cases hrow : r.errorBinds ∧ r.errorExecutes
    · obtain ⟨hbinds, hexecutes⟩ := hrow
      rw [if_pos (by rw [hbinds, hexecutes]; rfl), if_neg (by rw [hbinds]; simp),
        if_neg (by rw [hexecutes]; simp)]
      exact .rejected h haccepted hbinds hexecutes rfl rfl rfl rfl rfl
    · rw [if_neg (by rwa [Bool.and_eq_true])]
      refine .exited h rfl ?_ (.inr ⟨haccepted, hrow⟩)
      split_ifs with hbinds hexecutes
      · rfl
      · rfl
      · exact absurd (by simpa using And.intro hbinds hexecutes) hrow

/-- The three ways through `insert_exception` for a pair. -/
inductive InsertEffect (c : Caches) (p : Pair) (executes : Bool) (c' : Caches)
    (as : List Action) : Prop
  | present (key : p.key ∈ c.exception) (same : c' = c) (actions : as = [])
  | failed (key : p.key ∉ c.exception) (fails : ¬ executes) (same : c' = c)
      (actions : as = [.insert (.exception p) false])
  | added (key : p.key ∉ c.exception) (succeeds : executes)
      (tables : c' = { c with exception := p.key :: c.exception })
      (actions : as = [.insert (.exception p) true, .commit])

variable {c' : Caches}

theorem check_effect_of_dbStep {sqlPtr : Text} {r : Replies}
    (h : dbStep normalize ml c (.check dbhost sql sqlPtr r) = some c') :
    ∃ o ≠ Outcome.exited, CheckEffect normalize ml c dbhost sql sqlPtr r c' o
      (checkActions normalize ml c dbhost sql sqlPtr r) := by
  obtain ⟨hreturns, hc⟩ := Option.ite_none_left_eq_some.mp h
  refine ⟨_, hreturns, ?_⟩
  rw [← Option.some.inj hc]
  exact check_effect sqlPtr r

theorem insert_effect_of_dbStep {option : Text} {binds executes : Bool}
    (h : dbStep normalize ml c (.insert option binds executes) = some c') :
    ∃ p, InsertEffect c p executes c' (insertActions normalize c option executes) := by
  obtain ⟨res, hres, rfl⟩ := Option.map_eq_some_iff.mp h
  unfold insertException at hres
  unfold insertActions
  cases hptr : strstr option separator with
  | none =>
    rw [hptr] at hres
    cases hres
  | some dbHostPtr =>
    rw [hptr] at hres
    dsimp only at hres ⊢
    refine ⟨(snprintf (option.length - dbHostPtr.length) option, sqlId normalize (dbHostPtr.drop 3)), ?_⟩
    by_cases hkey : cacheKey (snprintf (option.length - dbHostPtr.length) option)
        (sqlId normalize (dbHostPtr.drop 3)) ∈ c.exception
    · rw [if_neg (fun hrow => hrow.1 hkey)] at hres
      rw [← Option.some.inj hres]
      exact .present hkey rfl (if_pos hkey)
    · by_cases hexecutes : executes
      · rw [if_pos ⟨hkey, hexecutes⟩] at hres
        rw [← Option.some.inj hres]
        exact .added hkey hexecutes rfl ((if_neg hkey).trans (if_pos hexecutes))
      · rw [if_neg (fun hrow => hexecutes hrow.2)] at hres
        rw [← Option.some.inj hres]
        exact .failed hkey hexecutes rfl ((if_neg hkey).trans (if_neg hexecutes))

/-- No call takes a key out of one of the tables that rows are inserted for. -/
structure Caches.Grows (c c' : Caches) : Prop where
  error : c.error ⊆ c'.error
  suspect : c.suspect ⊆ c'.suspect
  exception : c.exception ⊆ c'.exception

theorem SameTables.grows (h : SameTables c c') : c.Grows c' :=
  ⟨h.error ▸ List.Subset.refl _, h.suspect ▸ List.Subset.refl _, h.exception ▸ List.Subset.refl _⟩

theorem grows_of_dbStep {call : DbCall} (h : dbStep normalize ml c call = some c') : c.Grows c' := by
  cases call with
  | check dbhost sql sqlPtr r =>
    obtain ⟨o, hreturns, heffect⟩ := check_effect_of_dbStep h
    cases heffect with
    | cutShort _ tables => exact tables.grows
    | matched _ _ _ tables => exact tables.grows
    | normal _ _ _ _ tables => exact tables.grows
    | garbage _ _ _ _ _ tables => exact tables.grows
    | learned _ _ _ _ _ _ error suspect exception =>
      exact ⟨error ▸ List.Subset.refl _, suspect ▸ List.subset_cons_self _ _,
        exception ▸ List.Subset.refl _⟩
    | rejected _ _ _ _ _ error suspect exception =>
      exact ⟨error ▸ List.subset_cons_self _ _, suspect ▸ List.Subset.refl _,
        exception ▸ List.Subset.refl _⟩
    | exited _ outcome => exact absurd outcome hreturns
  | insert option binds executes =>
    obtain ⟨p, heffect⟩ := insert_effect_of_dbStep h
    cases heffect with
    | present _ same => exact same ▸ ⟨List.Subset.refl _, List.Subset.refl _, List.Subset.refl _⟩
    | failed _ _ same => exact same ▸ ⟨List.Subset.refl _, List.Subset.refl _, List.Subset.refl _⟩
    | added _ _ tables =>
      exact tables ▸ ⟨List.Subset.refl _, List.Subset.refl _, List.subset_cons_self _ _⟩

theorem grows_of_reachable (h : Reachable (dbStep normalize ml) c c') : c.Grows c' := by
  apply h.invariant (I := fun d => c.Grows d)
  · exact ⟨List.Subset.refl _, List.Subset.refl _, List.Subset.refl _⟩
  · intro d call d' hgrows hstep
    have hnext := grows_of_dbStep hstep
    exact ⟨List.Subset.trans hgrows.error hnext.error,
      List.Subset.trans hgrows.suspect hnext.suspect,
      List.Subset.trans hgrows.exception hnext.exception⟩

end Effect

end CLib.Mysql
