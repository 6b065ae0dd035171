import CLib.Server.Reader

namespace CLib.Server
open CLib.Base

/-- A round that accepts nothing: the reader is at the same place of the file,
with the same record pending, and if it goes on, its handle is at `offset`. -/
structure Reader.Idles (r r' : Reader) : Prop where
  offset : r'.offset = r.offset
  assembly : r'.assembly = r.assembly
  pos : r'.exit = none → r'.pos = r.offset

theorem Reader.Idles.congr {r s r' : Reader} (h : s.Idles r') (ho : s.offset = r.offset)
    (ha : s.assembly = r.assembly) : r.Idles r' :=
  ⟨h.offset.trans ho, h.assembly.trans ha, fun he => (h.pos he).trans ho⟩

theorem Reader.reopen_idles (r : Reader) (e : Attempt) : r.Idles (r.reopen e) := by
  unfold reopen
  dsimp only
  split_ifs <;> exact ⟨rfl, rfl, by simp [leave]⟩

@[simp] theorem Reader.reopen_lineCount (r : Reader) (e : Attempt) :
    (r.reopen e).lineCount = r.lineCount := by
  unfold reopen
  dsimp only
  split_ifs <;> rfl

theorem Reader.fgetsFailed_idles (r : Reader) (e : Attempt) : r.Idles (r.fgetsFailed e) := by
  unfold fgetsFailed
  dsimp only
  split_ifs <;> exact ⟨rfl, rfl, by simp [leave, unlock]⟩

@[simp] theorem Reader.fgetsFailed_lineCount (r : Reader) (e : Attempt) :
    (r.fgetsFailed e).lineCount = r.lineCount := by
  unfold fgetsFailed
  dsimp only
  split_ifs <;> rfl

/-- Where the reader stands in a text cut into chunks: `k` chunks accepted, of
which the first `j` were taken for header lines. -/
structure Tailing (c : Chunked bufferSizeBig) (k j : ℕ) (r : Reader) : Prop where
  le : k ≤ c.chunks.length
  skipped_le : j ≤ k
  skipped_le_three : j ≤ 3
  skipped_pos : 0 < k → 0 < j
  offset : r.offset = c.start k
  pos : r.exit = none → r.pos = c.start k
  untouched : k = 0 → r.exit = none → r.lineCount = 0
  count : k ≤ r.lineCount
  header : r.lineCount ≤ 3 → j = k
  assembly : r.assembly = Assembly.empty.feedAll ((c.chunks.take k).drop j)

theorem tailing_opened (c : Chunked bufferSizeBig) : Tailing c 0 0 .opened where
  le := Nat.zero_le _
  skipped_le := le_rfl
  skipped_le_three := Nat.zero_le _
  skipped_pos h := h
  offset := c.start_zero.symm
  pos _ := c.start_zero.symm
  untouched _ _ := rfl
  count := le_rfl
  header _ := rfl
  assembly := rfl

section Step
variable {c : Chunked bufferSizeBig} {k j v : ℕ} {r : Reader} {e : Attempt}

theorem Tailing.idle {r' : Reader} (h : Tailing c k j r) (hi : r.Idles r')
    (hcount : r.lineCount ≤ r'.lineCount)
    (huntouched : k = 0 → r'.exit = none → r'.lineCount = 0) : Tailing c k j r' where
  le := h.le
  skipped_le := h.skipped_le
  skipped_le_three := h.skipped_le_three
  skipped_pos := h.skipped_pos
  offset := hi.offset.trans h.offset
  pos he := (hi.pos he).trans h.offset
  untouched := huntouched
  count := h.count.trans hcount
  header hl := h.header (hcount.trans hl)
  assembly := hi.assembly.trans h.assembly

theorem Tailing.failed (h : Tailing c k j r) (hrun : r.exit = none) (he : e.fgetsErrno ≠ 0) :
    Tailing c k j (r.attempt e) := by
  have hattempt : r.attempt e = r.lock.fgetsFailed e := by simp [Reader.attempt, hrun, he]
  have hi : r.Idles (r.lock.fgetsFailed e) := (r.lock.fgetsFailed_idles e).congr rfl rfl
  rw [hattempt]
  refine h.idle hi (by rw [Reader.fgetsFailed_lineCount]; rfl) fun hk _ => ?_
  rw [Reader.fgetsFailed_lineCount]
  exact h.untouched hk hrun

/-- The state after the `fgets` of a round, with what it took and its lock released. -/
def Reader.afterFgets (r : Reader) (n : ℕ) : Reader :=
  { r.lock with pos := r.pos + n, lineCount := r.lineCount + 1 }.unlock

theorem Reader.attempt_eof (hrun : r.exit = none) (he : e.fgetsErrno = 0)
    (heof : (fgets (e.file.drop r.pos) bufferSizeBig).2 = true) :
    r.attempt e =
      let s := r.afterFgets (fgets (e.file.drop r.pos) bufferSizeBig).1.length
      if r.offset = 0 then s.leave .offsetZero
      else if e.rotated then s.lock.unlock.leave .rotation
      else s.lock.unlock.reopen e := by
  simp [attempt, hrun, he, heof, afterFgets, lock, unlock, accept]

theorem Reader.attempt_chunk {l : Text} (hrun : r.exit = none) (he : e.fgetsErrno = 0)
    (hl : fgets (e.file.drop r.pos) bufferSizeBig = (l, false)) :
    r.attempt e = (r.afterFgets l.length).accept e (cstr l) := by
  simp [attempt, hrun, he, hl, afterFgets, lock, unlock]

/-- At the end of what is there the reader leaves or waits, and its counter goes up. -/
theorem Tailing.hidden (h : Tailing c k j r) (hrun : r.exit = none) (he : e.fgetsErrno = 0)
    (hfile : e.file = c.text.take v) (hv : k < c.chunks.length → v < c.start (k + 1)) :
    Tailing c k j (r.attempt e) ∧ (r.attempt e).lineCount = r.lineCount + 1 ∧
      (k = 0 → (r.attempt e).exit = some .offsetZero) := by
  have heof : (fgets (e.file.drop r.pos) bufferSizeBig).2 = true := by
    rw [hfile, h.pos hrun]
    exact c.fgets_hidden hv
  rw [Reader.attempt_eof hrun he heof]
  have hzero : k = 0 → r.offset = 0 := by
    rintro rfl
    rw [h.offset, c.start_zero]
  have hpos : ¬ r.offset = 0 → k ≠ 0 := fun hne hk => hne (hzero hk)
  dsimp only
  split_ifs with h0 hrot
  · refine ⟨h.idle ⟨rfl, rfl, by simp [Reader.leave]⟩ (Nat.le_succ _) ?_, rfl, fun _ => rfl⟩
    simp [Reader.leave]
  · refine ⟨h.idle ⟨rfl, rfl, by simp [Reader.leave]⟩ (Nat.le_succ _) ?_, rfl, fun hk => ?_⟩
    · simp [Reader.leave]
    · exact absurd hk (hpos h0)
  · refine ⟨h.idle ((Reader.reopen_idles _ e).congr rfl rfl) ?_ (fun hk => absurd hk (hpos h0)), ?_,
      fun hk => absurd hk (hpos h0)⟩
    · rw [Reader.reopen_lineCount]
      exact Nat.le_succ _
    · rw [Reader.reopen_lineCount]
      rfl

theorem nul_not_mem_chunk (hnul : nul ∉ c.text) (hk : k < c.chunks.length) :
    nul ∉ c.chunks[k] := fun hm =>
  hnul (List.mem_append.mpr (.inl (List.mem_flatten.mpr ⟨_, List.getElem_mem hk, hm⟩)))

/-- What the skip of the header makes of the next chunk. -/
def skippedNext (r : Reader) (j : ℕ) : ℕ := if r.lineCount + 1 ≤ 3 then j + 1 else j

/-- A chunk that is there whole is accepted; whether it is skipped as a header
line depends on how often `fgets` has been called. -/
theorem Tailing.visible (h : Tailing c k j r) (hrun : r.exit = none) (he : e.fgetsErrno = 0)
    (hfile : e.file = c.text.take v) (hnul : nul ∉ c.text) (hk : k < c.chunks.length)
    (hv : c.start (k + 1) ≤ v) :
    Tailing c (k + 1) (skippedNext r j) (r.attempt e) ∧ (r.attempt e).exit = none ∧
      (r.attempt e).lineCount = r.lineCount + 1 := by
  have hchunk : fgets (e.file.drop r.pos) bufferSizeBig = (c.chunks[k], false) := by
    rw [hfile, h.pos hrun]
    exact c.fgets_visible hk hv
  have hcstr : cstr c.chunks[k] = c.chunks[k] := cstr_of_not_mem (nul_not_mem_chunk hnul hk)
  have hne : ¬ c.chunks[k].length = 0 := fun h0 =>
    (c.isChunk _ (List.getElem_mem hk)).ne_nil (by decide) (List.length_eq_zero_iff.mp h0)
  rw [Reader.attempt_chunk hrun he hchunk, hcstr]
  have hpos : r.pos + c.chunks[k].length = c.start (k + 1) := by rw [h.pos hrun, c.start_succ hk]
  have hoff : r.offset + c.chunks[k].length = c.start (k + 1) := by rw [h.offset, c.start_succ hk]
  have htake : c.chunks.take (k + 1) = c.chunks.take k ++ [c.chunks[k]] :=
    List.take_succ_eq_append_getElem hk
  have hcount := h.count
  have hskip := h.skipped_le
  have hskip3 := h.skipped_le_three
  have hhead := h.header
  unfold Reader.accept skippedNext
  dsimp only
  rw [if_neg hne]
  by_cases hl : r.lineCount + 1 ≤ 3
  · -- Still among the first three calls: nothing has been assembled so far.
    obtain rfl : j = k := hhead (by omega)
    have hasm : r.assembly = Assembly.empty.feedAll ((c.chunks.take (j + 1)).drop (j + 1)) := by
      rw [h.assembly, List.drop_take, List.drop_take]
      simp
    rw [if_pos hl, if_pos (show (r.afterFgets c.chunks[j].length).lineCount ≤ 3 from hl)]
    exact ⟨⟨hk, le_rfl, by omega, fun _ => Nat.succ_pos _, hoff, fun _ => hpos, by simp,
      by change j + 1 ≤ r.lineCount + 1; omega, fun _ => rfl, hasm⟩, hrun, rfl⟩
  · have hj : 0 < j := by
      have hk0 : k ≠ 0 := fun hk0 => hl (by rw [h.untouched hk0 hrun]; omega)
      exact h.skipped_pos (Nat.pos_of_ne_zero hk0)
    have hasm : r.assembly.feed c.chunks[k] =
        Assembly.empty.feedAll ((c.chunks.take (k + 1)).drop j) := by
      rw [htake, List.drop_append_of_le_length (by rw [List.length_take]; omega),
        Assembly.feedAll_append, ← h.assembly]
      rfl
    rw [if_neg hl, if_neg (show ¬ (r.afterFgets c.chunks[k].length).lineCount ≤ 3 from hl)]
    split_ifs <;>
    exact ⟨⟨hk, by omega, hskip3, fun _ => hj, hoff, fun _ => hpos, by simp,
      by change k + 1 ≤ r.lineCount + 1; omega, fun h3 => absurd h3 hl, hasm⟩, hrun, rfl⟩

theorem Tailing.attempt (h : Tailing c k j r) (hfile : e.file <+: c.text) (hnul : nul ∉ c.text) :
    ∃ k' j', k ≤ k' ∧ Tailing c k' j' (r.attempt e) := by
  have htake : e.file = c.text.take e.file.length := List.prefix_iff_eq_take.mp hfile
  by_cases hrun : r.exit = none
  · by_cases he : e.fgetsErrno = 0
    · by_cases hv : k < c.chunks.length ∧ c.start (k + 1) ≤ e.file.length
      · exact ⟨k + 1, _, Nat.le_succ k, (h.visible hrun he htake hnul hv.1 hv.2).1⟩
      · exact ⟨k, j, le_rfl, (h.hidden hrun he htake fun hk => by omega).1⟩
    · exact ⟨k, j, le_rfl, h.failed hrun he⟩
  · exact ⟨k, j, le_rfl, by rwa [Reader.attempt_of_exit (Option.isSome_iff_ne_none.mpr hrun)]⟩

end Step

/-- The run lemma: after any rounds on prefixes of a text, errors included, the
reader has accepted a number of its chunks and assembled all but the skipped ones. -/
theorem exists_tailing (c : Chunked bufferSizeBig) (hnul : nul ∉ c.text) (es : List Attempt)
    (hes : ∀ e ∈ es, e.file <+: c.text) : ∃ k j, Tailing c k j (Reader.opened.attempts es) := by
  induction es using List.reverseRecOn with
  | nil => exact ⟨0, 0, tailing_opened c⟩
  | append_singleton es e ih =>
    obtain ⟨k, j, h⟩ := ih fun e' he' => hes e' (by simp [he'])
    obtain ⟨k', j', -, h'⟩ := h.attempt (hes e (by simp)) hnul
    rw [Reader.attempts_concat]
    exact ⟨k', j', h'⟩

end CLib.Server
