import CLib.Base.Words
import CLib.Mysql.Columns
import CLib.Server.Filter

namespace CLib.Server
open CLib.Base CLib.Mysql

/-- `davinci_log_rec_t` in the order of the record, with a value of `α` for each field. -/
structure LogRecHead (α : Type) where
  dbname : α
  tbname : α
  queryType : α
  reserved : α
  dbhost : α
  dbport : α
  username : α
  userhost : α
  queryDate : α
  queryTime : α
  sendQueryTime : α
  receiveResultTime : α
  sendResultTime : α
  totalTime : α
  affectedRows : α
  resultSize : α
  queryCount : α
  logType : α
  json : α
  getSign : α

namespace LogRecHead
variable {α β : Type}

/-- The fields behind the mark of the header. -/
def marked (r : LogRecHead α) : List α :=
  [r.reserved, r.dbhost, r.dbport, r.username, r.userhost, r.queryDate, r.queryTime,
    r.sendQueryTime, r.receiveResultTime, r.sendResultTime, r.totalTime, r.affectedRows,
    r.resultSize, r.queryCount, r.logType, r.json, r.getSign]

def map (f : α → β) (r : LogRecHead α) : LogRecHead β :=
  ⟨f r.dbname, f r.tbname, f r.queryType, f r.reserved, f r.dbhost, f r.dbport, f r.username,
    f r.userhost, f r.queryDate, f r.queryTime, f r.sendQueryTime, f r.receiveResultTime,
    f r.sendResultTime, f r.totalTime, f r.affectedRows, f r.resultSize, f r.queryCount,
    f r.logType, f r.json, f r.getSign⟩

def ofMemory (m : Memory) : LogRecHead Text :=
  ⟨member m .dbname, member m .tbname, member m .queryType, member m .reserved, member m .dbhost,
    member m .dbport, member m .username, member m .userhost, member m .queryDate,
    member m .queryTime, member m .sendQueryTime, member m .receiveResultTime,
    member m .sendResultTime, member m .totalTime, member m .affectedRows, member m .resultSize,
    member m .queryCount, member m .logType, member m .json, member m .getSign⟩

end LogRecHead

/-- The `sscanf` of `sql_check_sql`. -/
def parseLogRecHead (sqlPtr : Text) : LogRecHead Text :=
  .ofMemory (storeWords (sscanf logRecFormat sqlPtr))

/-- A value that a field of `davinci_log_rec_t` has room for, and that does not contain
the mark of the statement. -/
structure Field extends Word where
  length_lt : text.length < strLen
  no_end : ¬ "##*/".toList <:+: text

/-- A record: its fields and its statement. -/
structure LogRecord where
  head : LogRecHead Field
  queryType_free : ∀ c ∈ head.queryType.text, c ∉ "/*##".toList
  sql : Text

namespace LogRecord
variable (r : LogRecord)

def words : List Word := r.head.marked.map Field.toWord

/-- `dbname tbname queryType/*## reserved ... GetSign ##*/sql`. -/
def layout : Text :=
  r.head.dbname.text ++ ' ' :: (r.head.tbname.text ++ ' ' :: (r.head.queryType.text ++
    ("/*##".toList ++ (spaced r.words ++ ' ' :: ("##*/".toList ++ r.sql)))))

/-- The part of both formats up to the mark of the header. -/
def formatStart : List Directive :=
  [.string, .blank, .string, .blank, .excluding "/*##".toList, .literal '/', .literal '*',
    .literal '#', .literal '#']

theorem sscanf_layout {n : ℕ} (hn : n ≤ 17) :
    sscanf (formatStart ++ (List.replicate n [Directive.blank, .string]).flatten) r.layout =
      r.head.dbname.text :: r.head.tbname.text :: r.head.queryType.text ::
        (r.words.take n).map Word.text := by
  have hwords : sscanf (List.replicate n [Directive.blank, .string]).flatten
      (spaced r.words ++ ' ' :: ("##*/".toList ++ r.sql)) = (r.words.take n).map Word.text :=
    sscanf_words hn (startsBlank_cons _)
  rw [← hwords]
  unfold layout formatStart
  simp only [List.cons_append, List.nil_append]
  rw [r.head.dbname.sscanf_string _ (startsBlank_cons _), r.head.tbname.sscanf_blank,
    r.head.tbname.sscanf_string _ (startsBlank_cons _), r.head.queryType.sscanf_blank]
  -- The scanset stops at the `/` of the mark, which the literals then take.
  have hexcluding := r.head.queryType.sscanf_excluding
    (.literal '/' :: .literal '*' :: .literal '#' :: .literal '#' ::
      (List.replicate n [Directive.blank, .string]).flatten) r.queryType_free
    (show '/' ∈ "/*##".toList by decide)
    ("*##".toList ++ (spaced r.words ++ ' ' :: ("##*/".toList ++ r.sql)))
  refine congrArg _ (congrArg _ (hexcluding.trans ?_))
  rfl

theorem text_length_lt {n : ℕ} : ∀ w ∈ r.head.dbname.text :: r.head.tbname.text ::
    r.head.queryType.text :: (r.words.take n).map Word.text, w.length < strLen := by
  intro w hw
  simp only [List.mem_cons, List.mem_map] at hw
  rcases hw with rfl | rfl | rfl | ⟨v, hv, rfl⟩
  · exact r.head.dbname.length_lt
  · exact r.head.tbname.length_lt
  · exact r.head.queryType.length_lt
  · obtain ⟨f, -, rfl⟩ := List.mem_map.mp (List.mem_of_mem_take hv)
    exact f.length_lt

theorem parseLogRecHead_layout : parseLogRecHead r.layout = r.head.map fun f => f.text := by
  have hformat : logRecFormat =
      formatStart ++ (List.replicate 17 [Directive.blank, .string]).flatten := rfl
  have hread : ∀ {f : LogRecMember} {t : Text}, (f, t) ∈ scannedMembers.zip
      (r.head.dbname.text :: r.head.tbname.text :: r.head.queryType.text ::
        (r.words.take 17).map Word.text) →
      member (storeWords (sscanf logRecFormat r.layout)) f = t := by
    intro f t hmem
    rw [hformat, r.sscanf_layout le_rfl]
    exact member_storeWords r.text_length_lt hmem
  unfold parseLogRecHead LogRecHead.ofMemory LogRecHead.map
  congr <;> exact hread (by simp [scannedMembers, words, LogRecHead.marked])

theorem parseRecord_layout :
    parseRecord r.layout = ⟨r.head.dbname.text, r.head.tbname.text, r.head.queryType.text,
      r.head.reserved.text, r.head.dbhost.text⟩ := by
  have hformat : recordFormat =
      formatStart ++ (List.replicate 2 [Directive.blank, .string]).flatten := rfl
  have hread : ∀ {f : LogRecMember} {t : Text}, (f, t) ∈ scannedMembers.zip
      (r.head.dbname.text :: r.head.tbname.text :: r.head.queryType.text ::
        (r.words.take 2).map Word.text) → member (storeWords (headerWords r.layout)) f = t := by
    intro f t hmem
    rw [headerWords, hformat, r.sscanf_layout (by decide)]
    exact member_storeWords r.text_length_lt hmem
  dsimp only [parseRecord]
  congr <;> exact hread (by simp [scannedMembers, words, LogRecHead.marked])

/-- The mark of the statement is not in the word that ends with the mark of the header. -/
theorem not_end_queryType : ¬ "##*/".toList <:+: r.head.queryType.text ++ "/*##".toList := by
  have hfree : '#' ∉ r.head.queryType.text := fun hmem =>
    r.queryType_free '#' hmem (by decide)
  -- A search for the mark of the statement would start behind the field.
  rw [← strstr_isNone_iff]
  have hsearch := strstr_append_of_not_mem hfree "/*##".toList "#*/".toList
  show (strstr (r.head.queryType.text ++ "/*##".toList) ('#' :: "#*/".toList)).isNone
  rw [hsearch]
  decide

theorem sqlOf_layout : sqlOf r.layout = some r.sql := by
  have hne : "##*/".toList ≠ [] := by decide
  have hblank : ' ' ∉ "##*/".toList := by decide
  have hwords : ∀ w ∈ r.words, ¬ "##*/".toList <:+: w.text := by
    intro w hw
    obtain ⟨f, -, rfl⟩ := List.mem_map.mp hw
    exact f.no_end
  have hfind : strstr r.layout "##*/".toList = some ("##*/".toList ++ r.sql) := by
    rw [layout, strstr_append_cons hne hblank r.head.dbname.no_end,
      strstr_append_cons hne hblank r.head.tbname.no_end, ← List.append_assoc,
      strstr_spaced_append hne hblank r.not_end_queryType hwords]
    exact strstr_append_self r.sql _
  rw [sqlOf, hfind]
  rfl

end LogRecord

/-- The fields of a row are members of the same parse. -/
theorem parseLogRec_eq (sqlPtr : Text) :
    parseLogRec sqlPtr =
      ⟨(parseLogRecHead sqlPtr).dbname, (parseLogRecHead sqlPtr).tbname,
        (parseLogRecHead sqlPtr).dbhost, (parseLogRecHead sqlPtr).dbport,
        (parseLogRecHead sqlPtr).username, (parseLogRecHead sqlPtr).userhost,
        (parseLogRecHead sqlPtr).queryDate, (parseLogRecHead sqlPtr).queryTime,
        (parseLogRecHead sqlPtr).queryCount, (parseLogRecHead sqlPtr).logType⟩ := rfl

/-- Both parses undo the layout of a record and agree on the fields they share, and
`dispatch_func` hands on the statement behind the header. -/
theorem header_parse_undoes_layout (r : LogRecord) :
    parseRecord r.layout = ⟨r.head.dbname.text, r.head.tbname.text, r.head.queryType.text,
        r.head.reserved.text, r.head.dbhost.text⟩ ∧
      parseLogRecHead r.layout = (r.head.map fun f => f.text) ∧
      parseRecord r.layout = ⟨(parseLogRecHead r.layout).dbname, (parseLogRecHead r.layout).tbname,
        (parseLogRecHead r.layout).queryType, (parseLogRecHead r.layout).reserved,
        (parseLogRecHead r.layout).dbhost⟩ ∧
      sqlOf r.layout = some r.sql ∧
      ∀ normalize ml c a, dispatch normalize ml c r.layout a =
        if dispatchBranch r.layout = .checked then
          some (sqlCheckSql normalize ml c r.head.dbhost.text r.sql a)
        else none := by
  have hfull := r.parseLogRecHead_layout
  refine ⟨r.parseRecord_layout, hfull, ?_, r.sqlOf_layout, ?_⟩
  · rw [r.parseRecord_layout, hfull]
    rfl
  · intro normalize ml c a
    rw [dispatch, r.sqlOf_layout, r.parseRecord_layout]
    rfl

def Field.byte (c : Char) (hspace : isSpace c = false) : Field :=
  ⟨⟨[c], by simp, by simpa using hspace⟩, by change 1 < strLen; decide, fun h => by simpa using h.length_le⟩

example : LogRecord.layout ⟨⟨.byte 'a' rfl, .byte 'b' rfl, .byte 'c' rfl, .byte 'd' rfl,
    .byte 'e' rfl, .byte 'f' rfl, .byte 'g' rfl, .byte 'h' rfl, .byte 'i' rfl, .byte 'j' rfl,
    .byte 'k' rfl, .byte 'l' rfl, .byte 'm' rfl, .byte 'n' rfl, .byte 'o' rfl, .byte 'p' rfl,
    .byte 'q' rfl, .byte 'r' rfl, .byte 's' rfl, .byte 't' rfl⟩,
    List.forall_iff_forall_mem.mp (by decide), "select 1".toList⟩ =
    "a b c/*## d e f g h i j k l m n o p q r s t ##*/select 1".toList := by decide +kernel

end CLib.Server
