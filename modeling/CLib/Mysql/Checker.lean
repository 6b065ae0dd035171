import CLib.Base.Runs
import CLib.Mysql.LogRec

namespace CLib.Mysql
open CLib.Base

/-- `BUFFER_SIZE` of the server and of the checker. -/
def bufferSize : ℕ := 16384

/-- The hash tables of the checker, their keys compared by value, and its counters. -/
structure Caches where
  normalDistinct : List UInt32
  exception : List Text
  error : List UInt32
  suspect : List Text
  totalCount : UInt32
  normalCount : UInt32
  errorCount : UInt32
  reSqlCount : UInt32

/-- What the exchange with the machine-learning server leads to: the process
ends, or the first byte of the reply is `1`, `0` or another one. -/
inductive MlReply
  | exits | one | zero | other
  deriving DecidableEq

/-- The answers that one call of `sql_check_sql` gets: from the rule engine, the
regular expressions, the machine-learning server and the database. -/
structure Answers where
  checkSqlSucceeds : Bool
  reMatches : Bool
  ml : MlReply
  errorBinds : Bool
  errorExecutes : Bool

/-- How a call of `sql_check_sql` ends. -/
inductive Outcome
  | exempt | normalHit | exceptionHit | errorHit | suspectHit
  | reMatch | mlGarbage | suspectInserted | normalInserted | errorInserted | exited
  deriving DecidableEq

/-- The call has got as far as `check_sql`. -/
def Outcome.invokesRules : Outcome → Bool
  | .exempt | .normalHit | .exceptionHit | .errorHit | .suspectHit => false
  | _ => true

def strcasestr (t needle : Text) : Bool :=
  (strstr (t.map Char.toUpper) (needle.map Char.toUpper)).isSome

/-- The statements that `sql_check_sql` does not look at. -/
def exempt (sql : Text) : Bool :=
  strcasestr sql "XA".toList || (strstr sql "......".toList).isSome

/-- The key of the exception and suspect tables: `snprintf(new_id, STR_LEN, "%s%u", ...)`. -/
def cacheKey (dbhost : Text) (id : UInt32) : Text := snprintf strLen (dbhost ++ percentU id.toNat)

section
variable (normalize : Text → UInt32)

/-- The id that `sql_normalize_en` gives the copy of the statement in `sql_text`. -/
def sqlId (sql : Text) : UInt32 := normalize (snprintf bufferSize sql)

/-- The part of `sql_check_sql` after a rule engine without complaint. -/
def acceptSql (machineLearningOn : Bool) (c : Caches) (key : Text) (id : UInt32) (a : Answers) :
    Caches × Outcome :=
  let c := { c with reSqlCount := c.reSqlCount + 1 }
  let suspect : Caches × Outcome := ({ c with suspect := key :: c.suspect }, .suspectInserted)
  let normal (c : Caches) : Caches × Outcome :=
    ({ c with normalDistinct := id :: c.normalDistinct }, .normalInserted)
  if a.reMatches then (c, .reMatch)
  else if machineLearningOn then
    match a.ml with
    | .exits => (c, .exited)
    | .one => suspect
    | .zero => normal { c with normalCount := c.normalCount + 1 }
    | .other => (c, .mlGarbage)
  else normal c

/-- The part of `sql_check_sql` for a statement that the rule engine complains about. -/
def rejectSql (c : Caches) (id : UInt32) (a : Answers) : Caches × Outcome :=
  let c := { c with errorCount := c.errorCount + 1 }
  if a.errorBinds && a.errorExecutes then ({ c with error := id :: c.error }, .errorInserted)
  else (c, .exited)

/-- `sql_check_sql`, for a record with this `dbhost`. -/
def sqlCheckSql (machineLearningOn : Bool) (c : Caches) (dbhost sql : Text) (a : Answers) :
    Caches × Outcome :=
  if exempt sql then (c, .exempt)
  else
    let c := { c with totalCount := c.totalCount + 1 }
    let id := sqlId normalize sql
    let newId := cacheKey dbhost id
    -- The normal and the error table know the id alone.
    if id ∈ c.normalDistinct then (c, .normalHit)
    else if newId ∈ c.exception then (c, .exceptionHit)
    else if id ∈ c.error then (c, .errorHit)
    else if newId ∈ c.suspect then (c, .suspectHit)
    else if a.checkSqlSucceeds then acceptSql machineLearningOn c newId id a
    else rejectSql c id a

def separator : Text := "###".toList

/-- `insert_exception`: the tables afterwards and whether a row was inserted, or
`none` where the process exits for want of a separator. The size that is
given to `snprintf` for the host is the length of the host itself. -/
def insertException (c : Caches) (sql : Text) (executes : Bool) : Option (Caches × Bool) :=
  match strstr sql separator with
  | none => none
  | some dbHostPtr =>
    let dbHost := snprintf (sql.length - dbHostPtr.length) sql
    let newId := cacheKey dbHost (sqlId normalize (dbHostPtr.drop 3))
    if newId ∉ c.exception ∧ executes then
      some ({ c with exception := newId :: c.exception }, true)
    else some (c, false)

def optionMark : Text := "OPTION:".toList

/-- `process_exception_insert` on the command in `g_cmd_buffer`. -/
def processExceptionInsert (c : Caches) (cmd : Text) (executes : Bool) : Option (Caches × Bool) :=
  match strstr cmd optionMark with
  | none => some (c, false)
  | some optionPtr => insertException normalize c (snprintf bufferSize (optionPtr.drop 7)) executes

/-- A call that changes the tables. -/
inductive Call
  | check (dbhost sql : Text) (answers : Answers)
  | insert (option : Text) (executes : Bool)

/-- The tables after a call, unless the process exits in it. -/
def Caches.step (machineLearningOn : Bool) (c : Caches) : Call → Option Caches
  | .check dbhost sql a =>
    let r := sqlCheckSql normalize machineLearningOn c dbhost sql a
    if r.2 = .exited then none else some r.1
  | .insert option executes => (insertException normalize c option executes).map Prod.fst

end

end CLib.Mysql
