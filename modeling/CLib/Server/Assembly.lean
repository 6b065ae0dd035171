import CLib.Base.Lines

namespace CLib.Server
open CLib.Base

/-- `DAVINCI_BUFFER_SIZE_BIG`, one megabyte. -/
def bufferSizeBig : ℕ := 1048576

/-- The bytes that mark the first line of a record. -/
def recordMark : Text := "/*##".toList

def hasMark (buf : Text) : Bool := (strstr buf recordMark).isSome

/-- `current_line`, and the strings `enqueue_func` has passed to `enqueue`. -/
structure Assembly where
  currentLine : Text
  enqueued : List Text
  deriving DecidableEq

def Assembly.empty : Assembly := ⟨[], []⟩

/-- The line completes the record in `current_line`. -/
def Assembly.completes (a : Assembly) (buf : Text) : Bool :=
  hasMark buf && decide (0 < a.currentLine.length)

/-- The end of the loop body of `enqueue_func`, for one line after the header. -/
def Assembly.feed (a : Assembly) (buf : Text) : Assembly :=
  if hasMark buf = false then
    if 0 < a.currentLine.length then
      if a.currentLine.length + buf.length < bufferSizeBig then
        { a with currentLine := a.currentLine ++ buf }
      else a
    else { a with currentLine := snprintf bufferSizeBig buf }
  else if a.currentLine.length = 0 then
    { a with currentLine := snprintf bufferSizeBig buf }
  else
    -- `snprintf(sql_ptr, sql_len, ...)` leaves the last byte of the record out.
    { currentLine := snprintf bufferSizeBig buf
      enqueued := a.enqueued ++ [snprintf a.currentLine.length a.currentLine] }

def Assembly.feedAll (a : Assembly) (ls : List Text) : Assembly := ls.foldl Assembly.feed a

theorem hasMark_iff (buf : Text) : hasMark buf ↔ recordMark <:+: buf := strstr_isSome_iff _ _

@[simp] theorem Assembly.feedAll_nil (a : Assembly) : a.feedAll [] = a := rfl

@[simp] theorem Assembly.feedAll_cons (a : Assembly) (l : Text) (ls : List Text) :
    a.feedAll (l :: ls) = (a.feed l).feedAll ls := rfl

theorem Assembly.feedAll_append (a : Assembly) (ls ms : List Text) :
    a.feedAll (ls ++ ms) = (a.feedAll ls).feedAll ms := List.foldl_append

section Feed
variable {a : Assembly} {buf : Text}

theorem Assembly.feed_first (ha : a.currentLine = []) (hb : buf.length < bufferSizeBig) :
    a.feed buf = { a with currentLine := buf } := by
  have h : snprintf bufferSizeBig buf = buf := snprintf_of_lt hb
  cases hm : hasMark buf <;> simp [feed, hm, ha, h]

theorem Assembly.feed_marked (ha : a.currentLine ≠ []) (hm : hasMark buf = true)
    (hb : buf.length < bufferSizeBig) :
    a.feed buf = ⟨buf, a.enqueued ++ [a.currentLine.dropLast]⟩ := by
  have hlen : ¬ a.currentLine.length = 0 := fun h => ha (List.length_eq_zero_iff.mp h)
  rw [feed, if_neg (by simp [hm]), if_neg hlen, snprintf_of_lt hb, List.dropLast_eq_take]
  rfl

theorem Assembly.feed_unmarked (ha : a.currentLine ≠ []) (hm : hasMark buf = false)
    (hb : a.currentLine.length + buf.length < bufferSizeBig) :
    a.feed buf = { a with currentLine := a.currentLine ++ buf } := by
  have hlen : 0 < a.currentLine.length := List.length_pos_iff.mpr ha
  rw [feed, if_pos hm, if_pos hlen, if_pos hb]

theorem Assembly.feed_currentLine_ne_nil (hbuf : buf ≠ []) (hb : buf.length < bufferSizeBig) :
    (a.feed buf).currentLine ≠ [] := by
  by_cases ha : a.currentLine = []
  · rw [feed_first ha hb]
    exact hbuf
  · cases hm : hasMark buf with
    | true =>
      rw [feed_marked ha hm hb]
      exact hbuf
    | false =>
      have hlen : 0 < a.currentLine.length := List.length_pos_iff.mpr ha
      rw [feed, if_pos hm, if_pos hlen]
      split_ifs
      · simp [ha]
      · exact ha

theorem Assembly.feed_enqueued_length (ha : a.currentLine ≠ []) :
    (a.feed buf).enqueued.length = a.enqueued.length + if hasMark buf then 1 else 0 := by
  have hlen : 0 < a.currentLine.length := List.length_pos_iff.mpr ha
  cases hm : hasMark buf with
  | true =>
    rw [feed, if_neg (by simp [hm]), if_neg (by omega)]
    simp
  | false =>
    rw [feed, if_pos hm, if_pos hlen]
    split_ifs <;> simp_all

end Feed

theorem Assembly.feedAll_enqueued_length {a : Assembly} (ha : a.currentLine ≠ []) {ls : List Text}
    (hls : ∀ l ∈ ls, l ≠ [] ∧ l.length < bufferSizeBig) :
    (a.feedAll ls).enqueued.length = a.enqueued.length + ls.countP hasMark := by
  induction ls generalizing a with
  | nil => rfl
  | cons l ls ih =>
    obtain ⟨⟨hne, hlen⟩, hls⟩ := List.forall_mem_cons.mp hls
    rw [feedAll_cons, ih (feed_currentLine_ne_nil hne hlen) hls, feed_enqueued_length ha,
      List.countP_cons]
    omega

theorem Assembly.feedAll_empty_enqueued_length {l : Text} {ls : List Text}
    (hls : ∀ m ∈ l :: ls, m ≠ [] ∧ m.length < bufferSizeBig) :
    (empty.feedAll (l :: ls)).enqueued.length = ls.countP hasMark := by
  obtain ⟨⟨hne, hlen⟩, hls⟩ := List.forall_mem_cons.mp hls
  have hl : empty.feed l = ⟨l, []⟩ := feed_first rfl hlen
  rw [feedAll_cons, hl, feedAll_enqueued_length hne hls]
  simp

/-- A record of the log: a marked line, then lines without the mark, all of
them together within the buffer. -/
structure Record where
  head : Text
  tail : List Text
  head_line : IsLine head
  tail_line : ∀ l ∈ tail, IsLine l
  head_mark : hasMark head = true
  tail_mark : ∀ l ∈ tail, hasMark l = false
  length_lt : (head ++ tail.flatten).length < bufferSizeBig

def Record.lines (r : Record) : List Text := r.head :: r.tail

def Record.text (r : Record) : Text := r.lines.flatten

/-- What the server enqueues for a record: its text without the last newline. -/
def Record.body (r : Record) : Text := r.text.dropLast

theorem Record.text_ne_nil (r : Record) : r.text ≠ [] := by
  simp [text, lines, r.head_line.ne_nil]

theorem Record.lines_length_lt (r : Record) : ∀ l ∈ r.lines, l.length < bufferSizeBig := by
  have hlt : r.text.length < bufferSizeBig := r.length_lt
  intro l hl
  exact (List.sublist_flatten_of_mem hl).length_le.trans_lt hlt

theorem Record.lines_isLine (r : Record) : ∀ l ∈ r.lines, IsLine l :=
  List.forall_mem_cons.mpr ⟨r.head_line, r.tail_line⟩

theorem Assembly.feedAll_unmarked {a : Assembly} (ha : a.currentLine ≠ []) {ls : List Text}
    (hls : ∀ l ∈ ls, hasMark l = false)
    (hlen : a.currentLine.length + ls.flatten.length < bufferSizeBig) :
    a.feedAll ls = { a with currentLine := a.currentLine ++ ls.flatten } := by
  induction ls generalizing a with
  | nil => simp
  | cons l ls ih =>
    obtain ⟨hm, hls⟩ := List.forall_mem_cons.mp hls
    rw [List.flatten_cons, List.length_append] at hlen
    rw [feedAll_cons, feed_unmarked ha hm (by omega),
      ih (by simp [ha]) hls (by rw [List.length_append]; omega)]
    simp

theorem Assembly.feedAll_record_first (r : Record) : empty.feedAll r.lines = ⟨r.text, []⟩ := by
  have hlt := r.length_lt
  rw [List.length_append] at hlt
  rw [Record.lines, feedAll_cons, feed_first rfl (by omega),
    feedAll_unmarked r.head_line.ne_nil r.tail_mark hlt]
  rfl

theorem Assembly.feedAll_record {a : Assembly} (ha : a.currentLine ≠ []) (r : Record) :
    a.feedAll r.lines = ⟨r.text, a.enqueued ++ [a.currentLine.dropLast]⟩ := by
  have hlt := r.length_lt
  rw [List.length_append] at hlt
  rw [Record.lines, feedAll_cons, feed_marked ha r.head_mark (by omega),
    feedAll_unmarked r.head_line.ne_nil r.tail_mark hlt]
  rfl

theorem Assembly.feedAll_records {a : Assembly} (ha : a.currentLine ≠ []) (rs : List Record) :
    (a.feedAll (rs.flatMap Record.lines)).enqueued =
      a.enqueued ++ ((a.currentLine :: rs.map Record.text).dropLast).map List.dropLast := by
  induction rs generalizing a with
  | nil => simp
  | cons r rs ih =>
    rw [List.flatMap_cons, feedAll_append, feedAll_record ha, ih r.text_ne_nil]
    simp [List.dropLast_cons_of_ne_nil]

theorem Assembly.feedAll_records_first (rs : List Record) :
    (empty.feedAll (rs.flatMap Record.lines)).enqueued = (rs.map Record.body).dropLast := by
  cases rs with
  | nil => rfl
  | cons r rs =>
    rw [List.flatMap_cons, feedAll_append, feedAll_record_first, feedAll_records r.text_ne_nil]
    rw [List.map_dropLast, List.map_cons, List.map_cons, List.map_map]
    rfl

end CLib.Server
