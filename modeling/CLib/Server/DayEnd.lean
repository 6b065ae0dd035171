import CLib.Server.Tailing

namespace CLib.Server
open CLib.Base

theorem infix_append_newline {m w t : Text} (hm : '\n' ∉ m) (h : m <:+: w ++ '\n' :: t) :
    m <:+: w ∨ m <:+: t := by
  rcases List.infix_append_iff.mp h with hw | ht | ⟨m₁, m₂, rfl, h₁, h₂⟩
  · exact .inl hw
  · rcases List.infix_cons_iff.mp ht with hp | ht
    · cases m with
      | nil => exact .inl List.nil_infix
      | cons d m => exact absurd (by simp [(List.cons_prefix_cons.mp hp).1]) hm
    · exact .inr ht
  · cases m₂ with
    | nil => exact .inl (by simpa using h₁.isInfix)
    | cons d m₂ => exact absurd (by simp [(List.cons_prefix_cons.mp h₂).1]) hm

theorem newline_not_mem_recordMark : '\n' ∉ recordMark := by decide

theorem hasMark_append_newline {w t : Text} (h : hasMark (w ++ '\n' :: t) = true) :
    hasMark w = true ∨ hasMark t = true := by
  simp only [hasMark_iff] at h ⊢
  exact infix_append_newline newline_not_mem_recordMark h

theorem hasMark_of_infix {t u : Text} (htu : t <:+: u) (h : hasMark t = true) : hasMark u = true := by
  rw [hasMark_iff] at h ⊢
  exact h.trans htu

theorem hasMark_left_eq_false {t u : Text} (h : hasMark (t ++ u) = false) : hasMark t = false := by
  by_contra hm
  have hmu := hasMark_of_infix (List.prefix_append t u).isInfix (Bool.not_eq_false _ ▸ hm)
  rw [h] at hmu
  cases hmu

theorem Record.hasMark_body (r : Record) : hasMark r.body = true := by
  obtain ⟨w, -, hw⟩ := r.head_line
  have hmark : hasMark w = true := by
    have hhead := r.head_mark
    rw [hw] at hhead
    exact (hasMark_append_newline hhead).resolve_right (by decide)
  have hbody : r.body = w ++ ('\n' :: r.tail.flatten).dropLast := by
    rw [body, text, lines, List.flatten_cons, hw, List.append_assoc, List.singleton_append,
      List.dropLast_append_of_ne_nil (List.cons_ne_nil _ _)]
  exact hasMark_of_infix (hbody ▸ (List.prefix_append w _).isInfix) hmark

/-- Nothing enqueued, and whole lines without the mark pending. -/
structure Assembly.Plain (a : Assembly) : Prop where
  enqueued : a.enqueued = []
  currentLine : ∃ w, a.currentLine = w ++ ['\n'] ∧ hasMark w = false

theorem Assembly.Plain.feed {a : Assembly} (h : a.Plain) {l : Text} (hl : IsLine l)
    (hm : hasMark l = false) : (a.feed l).Plain := by
  obtain ⟨w, hw, hwm⟩ := h.currentLine
  obtain ⟨v, -, rfl⟩ := hl
  rw [Assembly.feed, if_pos hm, if_pos (by rw [hw]; simp)]
  split_ifs
  · refine ⟨h.enqueued, w ++ '\n' :: v, by simp [hw], ?_⟩
    by_contra hmark
    rcases hasMark_append_newline (Bool.not_eq_false _ ▸ hmark) with hmw | hmv
    · simp [hmw] at hwm
    · simp [hasMark_left_eq_false hm] at hmv
  · exact h

theorem Assembly.Plain.feedAll {a : Assembly} (h : a.Plain) {ls : List Text}
    (hls : ∀ l ∈ ls, IsLine l ∧ hasMark l = false) : (a.feedAll ls).Plain := by
  induction ls generalizing a with
  | nil => exact h
  | cons l ls ih =>
    obtain ⟨⟨hl, hm⟩, hls⟩ := List.forall_mem_cons.mp hls
    exact ih (h.feed hl hm) hls

/-- The log file of one day: the header that the server's peer writes first,
without the mark, and complete records. -/
structure DayLog where
  header : List Text
  records : List Record
  header_length : header.length = 3
  header_line : ∀ l ∈ header, IsLine l
  header_plain : ∀ l ∈ header, hasMark l = false
  header_short : ∀ l ∈ header, l.length < bufferSizeBig
  no_nul : nul ∉ header.flatten ++ (records.map Record.text).flatten

namespace DayLog
variable (d : DayLog)

def content : Text := d.header.flatten ++ (d.records.map Record.text).flatten

/-- The reader meets the file line by line. -/
def chunked : Chunked bufferSizeBig where
  chunks := d.header ++ d.records.flatMap Record.lines
  rest := []
  isChunk l hl := by
    rcases List.mem_append.mp hl with hl | hl
    · exact .inl ⟨d.header_line l hl, d.header_short l hl⟩
    · obtain ⟨r, -, hr⟩ := List.mem_flatMap.mp hl
      exact .inl ⟨r.lines_isLine l hr, r.lines_length_lt l hr⟩
  rest_newline := List.not_mem_nil
  rest_length := by decide

theorem chunked_text : d.chunked.text = d.content := by
  have hlines : (d.records.flatMap Record.lines).flatten = (d.records.map Record.text).flatten := by
    induction d.records with
    | nil => rfl
    | cons r rs ih => rw [List.flatMap_cons, List.flatten_append, ih, List.map_cons,
        List.flatten_cons, Record.text]
  rw [Chunked.text, chunked, content, List.flatten_append, hlines, List.append_nil]

theorem enqueued_of_leaked {p : Text} {ps : List Text} (hps : ∀ l ∈ p :: ps, l ∈ d.header) :
    (Assembly.empty.feedAll ((p :: ps) ++ d.records.flatMap Record.lines)).enqueued =
      d.records.map Record.body ↔ d.records = [] := by
  obtain ⟨hp, hps⟩ := List.forall_mem_cons.mp hps
  obtain ⟨w, -, hw⟩ := d.header_line p hp
  have hfirst : (Assembly.empty.feed p).Plain := by
    rw [Assembly.feed_first rfl (d.header_short p hp)]
    exact ⟨rfl, w, hw, hasMark_left_eq_false (hw ▸ d.header_plain p hp)⟩
  have hplain := hfirst.feedAll fun l hl => ⟨d.header_line l (hps l hl), d.header_plain l (hps l hl)⟩
  obtain ⟨v, hv, hvm⟩ := hplain.currentLine
  rw [Assembly.feedAll_append, Assembly.feedAll_cons,
    Assembly.feedAll_records (by rw [hv]; simp), hplain.enqueued, hv]
  cases hr : d.records with
  | nil => simp
  | cons r rs =>
    -- The first string enqueued is made of header lines, so it is no record.
    simp only [List.map_cons, List.dropLast_cons_of_ne_nil (List.cons_ne_nil _ _),
      List.dropLast_concat, List.nil_append, List.cons.injEq, reduceCtorEq, iff_false, not_and]
    rintro rfl
    rw [r.hasMark_body] at hvm
    cases hvm

theorem enqueued_of_consumed {j : ℕ} {r : Reader}
    (h : Tailing d.chunked d.chunked.chunks.length j r) :
    r.assembly.enqueued = d.records.map Record.body ↔ d.records = [] := by
  have hj : j ≤ d.header.length := h.skipped_le_three.trans d.header_length.ge
  have hdrop : d.chunked.chunks.drop j = d.header.drop j ++ d.records.flatMap Record.lines :=
    List.drop_append_of_le_length hj
  rw [h.assembly, List.take_length, hdrop]
  cases hleak : d.header.drop j with
  | nil =>
    rw [List.nil_append, Assembly.feedAll_records_first]
    constructor
    · intro heq
      have hlen := congrArg List.length heq
      rw [List.length_dropLast, List.length_map] at hlen
      exact List.length_eq_zero_iff.mp (by omega)
    · intro hr
      rw [hr]
      rfl
  | cons p ps =>
    refine d.enqueued_of_leaked fun l hl => List.mem_of_mem_drop (i := j) ?_
    rwa [hleak]

end DayLog

/-- Only an `fgets` without error that meets end of file leads to the rotation exit. -/
theorem Reader.fgetsFailed_exit (r : Reader) (hrun : r.exit = none) (e : Attempt) :
    (r.fgetsFailed e).exit ≠ some .rotation := by
  unfold fgetsFailed
  dsimp only
  split_ifs <;> simp [leave, unlock, hrun]

/-- The reader that finds the complete file at the rotation has accepted every line. -/
theorem Tailing.consumed_of_rotation {c : Chunked bufferSizeBig} {k j : ℕ} {r : Reader} {e : Attempt}
    (h : Tailing c k j r) (hrun : r.exit = none) (hnul : nul ∉ c.text) (hfile : e.file = c.text)
    (hexit : (r.attempt e).exit = some .rotation) : Tailing c c.chunks.length j (r.attempt e) := by
  have htake : e.file = c.text.take c.text.length := by rw [hfile, List.take_length]
  have herr : e.fgetsErrno = 0 := by
    by_contra he
    have hattempt : r.attempt e = r.lock.fgetsFailed e := by simp [Reader.attempt, hrun, he]
    exact Reader.fgetsFailed_exit r.lock hrun e (hattempt ▸ hexit)
  rcases h.le.lt_or_eq with hk | rfl
  · obtain ⟨-, hnone, -⟩ := h.visible hrun herr htake hnul hk (c.start_length_le _)
    rw [hnone] at hexit
    cases hexit
  · exact (h.hidden hrun herr htake fun hk => absurd hk (lt_irrefl _)).1

/-- At the end of the day, the reader that leaves through the rotation branch has
enqueued every record of the file in order if and only if there was none. -/
theorem rotation_enqueued_iff (d : DayLog) (es : List Attempt) (e : Attempt)
    (hes : ∀ a ∈ es, a.file <+: d.content) (he : e.file = d.content)
    (hrun : (Reader.opened.attempts es).exit = none)
    (hexit : (Reader.opened.attempts (es ++ [e])).exit = some .rotation) :
    (Reader.opened.attempts (es ++ [e])).assembly.enqueued = d.records.map Record.body ↔
      d.records = [] := by
  have hnul : nul ∉ d.chunked.text := d.chunked_text ▸ d.no_nul
  obtain ⟨k, j, h⟩ := exists_tailing d.chunked hnul es (by simpa only [d.chunked_text] using hes)
  rw [Reader.attempts_concat] at hexit ⊢
  exact d.enqueued_of_consumed
    (h.consumed_of_rotation hrun hnul (he.trans d.chunked_text.symm) hexit)

section Examples

def headerLines : List Text := ["a\n".toList, "b\n".toList, "c\n".toList]

/-- A day on which nothing was logged. -/
def emptyDay : DayLog where
  header := headerLines
  records := []
  header_length := rfl
  header_line := by
    simp only [headerLines, List.forall_mem_cons]
    exact ⟨⟨['a'], by decide⟩, ⟨['b'], by decide⟩, ⟨['c'], by decide⟩, by simp⟩
  header_plain := by decide
  header_short := by decide
  no_nul := by decide

def shortRecord : Record where
  head := "/*##1\n".toList
  tail := []
  head_line := ⟨"/*##1".toList, by decide⟩
  tail_line := by simp
  head_mark := by decide
  tail_mark := by simp
  length_lt := by decide

/-- A day with one record. -/
def shortDay : DayLog := { emptyDay with records := [shortRecord], no_nul := by decide }

/-- A round at the end of the day. -/
def Attempt.midnight (file : Text) : Attempt := { Attempt.quiet file with rotated := true }

def emptyDayRounds : List Attempt := List.replicate 3 (.quiet emptyDay.content)

def shortDayRounds : List Attempt := List.replicate 4 (.quiet shortDay.content)

theorem rotation_enqueued_emptyDay :
    (Reader.opened.attempts (emptyDayRounds ++ [.midnight emptyDay.content])).assembly.enqueued =
        emptyDay.records.map Record.body ∧
      (Reader.opened.attempts (shortDayRounds ++ [.midnight shortDay.content])).assembly.enqueued ≠
        shortDay.records.map Record.body :=
  ⟨(rotation_enqueued_iff emptyDay emptyDayRounds (.midnight emptyDay.content)
      (by simp [emptyDayRounds, Attempt.quiet]) rfl (by decide) (by decide)).mpr rfl,
    (rotation_enqueued_iff shortDay shortDayRounds (.midnight shortDay.content)
      (by simp [shortDayRounds, Attempt.quiet]) rfl (by decide) (by decide)).not.mpr
      (List.cons_ne_nil _ _)⟩

/-- The reader removes the file of `shortDay` with its record still in `current_line`. -/
theorem not_rotation_enqueued :
    ¬ ∀ (d : DayLog) (es : List Attempt) (e : Attempt), (∀ a ∈ es, a.file <+: d.content) →
      e.file = d.content → (Reader.opened.attempts es).exit = none →
      (Reader.opened.attempts (es ++ [e])).exit = some .rotation →
      (Reader.opened.attempts (es ++ [e])).assembly.enqueued = d.records.map Record.body := by
  intro h
  have hlost := h shortDay shortDayRounds (.midnight shortDay.content)
    (by simp [shortDayRounds, Attempt.quiet]) rfl (by decide) (by decide)
  revert hlost
  decide

end Examples
end CLib.Server
