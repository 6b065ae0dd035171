import CLib.Mysql.Checker

namespace CLib.Mysql
open CLib.Base

def errMsgLen : ℕ := 100

/-- The fields of `struct tm` that are read, each the bits of an `int`. -/
structure Tm where
  year : UInt32
  mon : UInt32
  mday : UInt32
  hour : UInt32
  min : UInt32
  sec : UInt32
  deriving DecidableEq

/-- A conversion of the format `"%Y-%m-%d %H:%M:%S"` and the character in front of it. -/
structure TimeField where
  separator : Option Char
  low : ℕ
  high : ℕ
  width : ℕ
  store : UInt32 → Tm → Tm

def timeFormat : List TimeField :=
  [⟨none, 0, 9999, 4, fun v tm => { tm with year := v - 1900 }⟩,
    ⟨some '-', 1, 12, 2, fun v tm => { tm with mon := v - 1 }⟩,
    ⟨some '-', 1, 31, 2, fun v tm => { tm with mday := v }⟩,
    ⟨some ' ', 0, 23, 2, fun v tm => { tm with hour := v }⟩,
    ⟨some ':', 0, 59, 2, fun v tm => { tm with min := v }⟩,
    ⟨some ':', 0, 61, 2, fun v tm => { tm with sec := v }⟩]

/-- The digits of a number, as long as it stays in reach of the bound. -/
def readDigits (high : ℕ) : ℕ → ℕ → Text → ℕ × Text
  | width + 1, v, c :: t =>
    if c.isDigit ∧ v * 10 ≤ high then readDigits high width (v * 10 + (c.toNat - '0'.toNat)) t
    else (v, c :: t)
  | _, v, t => (v, t)

def readNumber (f : TimeField) (t : Text) : Option (ℕ × Text) :=
  let t := t.dropWhile isSpace
  let r := readDigits f.high f.width 0 t
  if (t.head?.any Char.isDigit) ∧ f.low ≤ r.1 ∧ r.1 ≤ f.high then some r else none

/-- A blank of a format stands for any number of blanks. -/
def skipSeparator : Option Char → Text → Option Text
  | none, t => some t
  | some c, t =>
    if c = ' ' then some (t.dropWhile isSpace) else if t.head? = some c then some t.tail else none

/-- `strptime`: the fields behind a conversion that fails keep their values. -/
def strptime : List TimeField → Text → Tm → Tm
  | [], _, tm => tm
  | f :: fs, t, tm =>
    match (skipSeparator f.separator t).bind (readNumber f) with
    | none => tm
    | some (v, rest) => strptime fs rest (f.store (UInt32.ofNat v) tm)

structure MysqlTime where
  year : UInt32
  month : UInt32
  day : UInt32
  hour : UInt32
  minute : UInt32
  second : UInt32
  deriving DecidableEq

/-- The fields of `davinci_log_rec_t` that go into a row. -/
structure LogRec where
  dbname : Text
  tbname : Text
  dbhost : Text
  dbport : Text
  username : Text
  userhost : Text
  queryDate : Text
  queryTime : Text
  queryCount : Text
  logType : Text

/-- The second parse of a record, over what the first one has left in the structure: the
first five conversions write the same again. -/
def parseLogRec (sqlPtr : Text) : LogRec :=
  let head := storeWords (sscanf logRecFormat sqlPtr)
  { dbname := member head .dbname
    tbname := member head .tbname
    dbhost := member head .dbhost
    dbport := member head .dbport
    username := member head .username
    userhost := member head .userhost
    queryDate := member head .queryDate
    queryTime := member head .queryTime
    queryCount := member head .queryCount
    logType := member head .logType }

/-- The time of a row; `tm` is what `tm_time` holds before `strptime`. -/
def intrudeTime (head : LogRec) (tm : Tm) : MysqlTime :=
  let datetime := snprintf strLen (head.queryDate ++ ' ' :: head.queryTime)
  let tmTime := strptime timeFormat datetime tm
  { year := tmTime.year + 1900
    month := tmTime.mon + 1
    day := tmTime.mday
    hour := tmTime.hour
    minute := tmTime.min
    second := tmTime.sec }

/-- The value that a bound `MYSQL_BIND` sends, by its `buffer_type`. -/
inductive Param
  | decimal (t : Text)
  | long (v : UInt32)
  | longLong (v : UInt64)
  | string (t : Text)
  | datetime (t : MysqlTime)
  deriving DecidableEq

/-- A `MYSQL_BIND` after `memset`: `MYSQL_TYPE_DECIMAL` is 0, and the buffer is empty. -/
def Param.zeroed : Param := .decimal []

/-- The copy of the statement that goes into a row. -/
def storedText (sql : Text) : Text := snprintf (bufferSize - 1) sql

/-- `g_bind_err`. -/
def eventColumns (errText : Text) (tm : Tm) (sql sqlPtr : Text) : List Param :=
  let head := parseLogRec sqlPtr
  [.string (snprintf (errMsgLen - 1) errText),
    .datetime (intrudeTime head tm),
    .longLong (UInt64.ofInt (atol head.dbhost)),
    .long (UInt32.ofNat (atoiUnsigned head.dbport)),
    .string head.username,
    .string head.userhost,
    .string head.dbname,
    .string head.tbname,
    .long (UInt32.ofNat (atoiUnsigned head.queryCount)),
    .string head.logType,
    .string (storedText sql)]

/-- `g_bind_suspect` in `sql_check_sql`: the id in front of the same columns. -/
def suspectColumns (id : UInt32) (errText : Text) (tm : Tm) (sql sqlPtr : Text) : List Param :=
  .long id :: eventColumns errText tm sql sqlPtr

/-- `g_bind_suspect` in `sql_check_sql_re`, which sets only its first entry. -/
def reColumns (sql : Text) : List Param := .string (storedText sql) :: List.replicate 11 .zeroed

/-- The row of `sql_check_sql_re` has no column in common with that of `sql_check_sql`. -/
theorem forall₂_ne_reColumns_suspectColumns (id : UInt32) (errText : Text) (tm : Tm)
    (sql sql' sqlPtr : Text) :
    List.Forall₂ (· ≠ ·) (reColumns sql) (suspectColumns id errText tm sql' sqlPtr) := by
  simp [reColumns, suspectColumns, eventColumns, Param.zeroed, List.replicate]

end CLib.Mysql
