import CLib.Server.Tailing
import Mathlib.Order.Monotone.Basic
import Mathlib.Data.Nat.Find

namespace CLib.Server
open CLib.Base

/-- The contents a log file may have in the end: no NUL, at least three lines,
and every line within the read buffer. -/
structure WellFormedLog (F : Text) : Prop where
  no_nul : nul ∉ F
  lines_short : ∀ l ∈ (splitLines F).1, l.length < bufferSizeBig
  rest_short : (splitLines F).2.length < bufferSizeBig
  header : 3 ≤ (splitLines F).1.length

/-- Append-only growth: `σ n` bytes of the file are there at call `n` of `fgets`. -/
structure GrowthSchedule (F : Text) (σ : ℕ → ℕ) : Prop where
  mono : Monotone σ
  complete : ∃ N, F.length ≤ σ N

/-- The reader after `n` rounds without errors while the file grows to `F`. -/
def tailRun (F : Text) (σ : ℕ → ℕ) : ℕ → Reader
  | 0 => .opened
  | n + 1 => (tailRun F σ n).attempt (.quiet (F.take (σ n)))

/-- The whole file is there before the first read. -/
def wholeFile (F : Text) : ℕ → ℕ := fun _ => F.length

/-- Nothing of the final file is left that `fgets` would take. -/
def Consumed (F : Text) (r : Reader) : Prop :=
  (fgets (F.drop r.offset) bufferSizeBig).2 = true

/-- Fewer than `MAX_WAITING_COUNT` waits until the file is consumed. -/
def FewWaits (F : Text) (σ : ℕ → ℕ) : Prop :=
  ∀ n, ¬ Consumed F (tailRun F σ n) → (tailRun F σ n).nsl < maxWaitingCount

/-- The reader consumes the file, and has then enqueued the same strings as the
reader that finds the whole file in place. -/
def GrowthIndependent (F : Text) (σ : ℕ → ℕ) : Prop :=
  (∃ n, Consumed F (tailRun F σ n)) ∧ (∃ m, Consumed F (tailRun F (wholeFile F) m)) ∧
    ∀ n m, Consumed F (tailRun F σ n) → Consumed F (tailRun F (wholeFile F) m) →
      (tailRun F σ n).assembly.enqueued = (tailRun F (wholeFile F) m).assembly.enqueued

/-- Each of the first three calls of `fgets` finds its header line complete. -/
def HeaderPresent (F : Text) (σ : ℕ → ℕ) : Prop :=
  ∀ i < 3, ((splitLines F).1.take (i + 1)).flatten.length ≤ σ i

/-- The line after the header starts a record. -/
def BodyMarked (F : Text) : Prop := ∃ b, (splitLines F).1[3]? = some b ∧ hasMark b = true

theorem Reader.reopen_nsl (r : Reader) (e : Attempt) : (r.reopen e).nsl = r.nsl + 1 := by
  unfold reopen
  dsimp only
  split_ifs <;> rfl

theorem Reader.fgetsFailed_nsl_le (r : Reader) (e : Attempt) :
    (r.fgetsFailed e).nsl ≤ r.nsl + 1 := by
  unfold fgetsFailed
  dsimp only
  split_ifs
  iterate 4 exact le_rfl
  exact Nat.le_succ _

theorem Reader.accept_nsl_le (r : Reader) (e : Attempt) (buf : Text) :
    (r.accept e buf).nsl ≤ r.nsl + 1 := by
  unfold accept
  dsimp only
  split_ifs
  · exact (Reader.reopen_nsl _ e).le
  iterate 3 exact Nat.le_succ _

theorem Reader.attempt_nsl_le (r : Reader) (e : Attempt) : (r.attempt e).nsl ≤ r.nsl + 1 := by
  unfold attempt
  dsimp only
  split_ifs
  · exact Nat.le_succ _
  · exact Reader.fgetsFailed_nsl_le r.lock e
  iterate 2 exact Nat.le_succ _
  · exact Reader.accept_nsl_le (r.afterFgets _).lock.unlock e []
  · exact Reader.accept_nsl_le (r.afterFgets _) e _

theorem tailRun_nsl_le (F : Text) (σ : ℕ → ℕ) (n : ℕ) : (tailRun F σ n).nsl ≤ n := by
  induction n with
  | zero => exact le_rfl
  | succ n ih => exact (Reader.attempt_nsl_le _ _).trans (Nat.succ_le_succ ih)

theorem tailRun_succ (F : Text) (σ : ℕ → ℕ) (n : ℕ) :
    tailRun F σ (n + 1) = (tailRun F σ n).attempt (.quiet (F.take (σ n))) := rfl

section Run
variable {c : Chunked bufferSizeBig} {k j n : ℕ} {r : Reader} {σ : ℕ → ℕ}

theorem Tailing.consumed_iff (h : Tailing c k j r) : Consumed c.text r ↔ k = c.chunks.length := by
  have hfull : c.text.drop r.offset = (c.text.take c.text.length).drop (c.start k) := by
    rw [List.take_length, h.offset]
  rw [Consumed, hfull]
  constructor
  · intro heof
    by_contra hne
    have hk : k < c.chunks.length := lt_of_le_of_ne h.le hne
    rw [c.fgets_visible hk (c.start_length_le _)] at heof
    cases heof
  · rintro rfl
    exact c.fgets_hidden fun hk => absurd hk (lt_irrefl _)

theorem Tailing.hidden_quiet {v : ℕ} (h : Tailing c k j r) (hrun : r.exit = none) (hk : k ≠ 0)
    (hnsl : r.nsl < maxWaitingCount) (hv : k < c.chunks.length → v < c.start (k + 1)) :
    (r.attempt (.quiet (c.text.take v))).exit = none := by
  have heof : (fgets ((c.text.take v).drop r.pos) bufferSizeBig).2 = true := by
    rw [h.pos hrun]
    exact c.fgets_hidden hv
  have hoff : r.offset ≠ 0 := by
    have hle := h.le
    have h0 : c.start 0 < c.start 1 := c.start_lt_succ (by decide) (by omega)
    have hmono : c.start 1 ≤ c.start k := c.start_mono (by omega)
    rw [h.offset]
    omega
  rw [Reader.attempt_eof (e := .quiet (c.text.take v)) hrun rfl heof]
  dsimp only
  rw [if_neg hoff, if_neg (show ¬ (Attempt.quiet (c.text.take v)).rotated = true from nofun),
    Reader.reopen_quiet (r := (r.afterFgets _).lock.unlock) hnsl]
  exact hrun

theorem Tailing.quiet (h : Tailing c k j r) (hnul : nul ∉ c.text) (hrun : r.exit = none) (v : ℕ) :
    (k < c.chunks.length ∧ c.start (k + 1) ≤ v ∧
      Tailing c (k + 1) (skippedNext r j) (r.attempt (.quiet (c.text.take v))) ∧
      (r.attempt (.quiet (c.text.take v))).exit = none ∧
      (r.attempt (.quiet (c.text.take v))).lineCount = r.lineCount + 1) ∨
    ((k < c.chunks.length → v < c.start (k + 1)) ∧
      Tailing c k j (r.attempt (.quiet (c.text.take v))) ∧
      (r.attempt (.quiet (c.text.take v))).lineCount = r.lineCount + 1 ∧
      (k = 0 → (r.attempt (.quiet (c.text.take v))).exit = some .offsetZero)) := by
  by_cases hv : k < c.chunks.length ∧ c.start (k + 1) ≤ v
  · exact .inl ⟨hv.1, hv.2, h.visible hrun rfl rfl hnul hv.1 hv.2⟩
  · have hv' : k < c.chunks.length → v < c.start (k + 1) := fun hk => by
      by_contra hle
      exact hv ⟨hk, not_lt.mp hle⟩
    exact .inr ⟨hv', h.hidden hrun rfl rfl hv'⟩

theorem Tailing.settled (h : Tailing c k j r) (hnul : nul ∉ c.text) (h3 : 3 ≤ r.lineCount) (v : ℕ) :
    3 ≤ (r.attempt (.quiet (c.text.take v))).lineCount ∧
      ∃ k', Tailing c k' j (r.attempt (.quiet (c.text.take v))) := by
  by_cases hrun : r.exit = none
  · rcases h.quiet hnul hrun v with ⟨-, -, h', -, hl⟩ | ⟨-, h', hl, -⟩
    · rw [skippedNext, if_neg (by omega)] at h'
      exact ⟨by omega, k + 1, h'⟩
    · exact ⟨by omega, k, h'⟩
  · rw [Reader.attempt_of_exit (Option.isSome_iff_ne_none.mpr hrun)]
    exact ⟨h3, k, h⟩

theorem tailing_header (hnul : nul ∉ c.text) (h3 : 3 ≤ c.chunks.length) {m : ℕ} (hm : m ≤ 3)
    (hσ : ∀ i < m, c.start (i + 1) ≤ σ i) :
    Tailing c m m (tailRun c.text σ m) ∧ (tailRun c.text σ m).exit = none ∧
      (tailRun c.text σ m).lineCount = m := by
  induction m with
  | zero => exact ⟨tailing_opened c, rfl, rfl⟩
  | succ m ih =>
    obtain ⟨h, hrun, hl⟩ := ih (by omega) fun i hi => hσ i (by omega)
    obtain ⟨h', hrun', hl'⟩ := h.visible (e := .quiet (c.text.take (σ m))) hrun rfl rfl hnul
      (by omega) (hσ m (by omega))
    rw [skippedNext, if_pos (by omega)] at h'
    exact ⟨h', hrun', by rw [tailRun_succ, hl', hl]⟩

theorem tailing_of_header (hnul : nul ∉ c.text) (h3 : 3 ≤ c.chunks.length)
    (hσ : ∀ i < 3, c.start (i + 1) ≤ σ i) (n : ℕ) :
    3 ≤ (tailRun c.text σ (3 + n)).lineCount ∧ ∃ k, Tailing c k 3 (tailRun c.text σ (3 + n)) := by
  induction n with
  | zero =>
    obtain ⟨h, -, hl⟩ := tailing_header hnul h3 le_rfl hσ
    exact ⟨hl.ge, 3, h⟩
  | succ n ih =>
    obtain ⟨hl, k, h⟩ := ih
    exact h.settled hnul hl _

/-- A call that finds a header line incomplete uses up one of the three: from
then on fewer than three chunks are skipped. -/
theorem tailing_of_no_header (hnul : nul ∉ c.text) (h3 : 3 ≤ c.chunks.length) {i : ℕ} (hi : i < 3)
    (hbefore : ∀ m < i, c.start (m + 1) ≤ σ m) (hσ : σ i < c.start (i + 1)) (n : ℕ) :
    ∃ k j, Tailing c k j (tailRun c.text σ (i + 1 + n)) ∧
      k < (tailRun c.text σ (i + 1 + n)).lineCount ∧ j ≤ 2 := by
  induction n with
  | zero =>
    obtain ⟨h, hrun, hl⟩ := tailing_header hnul h3 (by omega) hbefore
    -- This call raises `line_count` and takes no chunk.
    obtain ⟨h', hl', -⟩ := h.hidden (e := .quiet (c.text.take (σ i))) hrun rfl rfl fun _ => hσ
    exact ⟨i, i, h', by rw [Nat.add_zero, tailRun_succ, hl', hl]; omega, by omega⟩
  | succ n ih =>
    obtain ⟨k, j, h, hk, hj⟩ := ih
    rw [← Nat.add_assoc, tailRun_succ]
    by_cases hrun : (tailRun c.text σ (i + 1 + n)).exit = none
    · rcases h.quiet hnul hrun (σ (i + 1 + n)) with ⟨-, -, h', -, hl⟩ | ⟨-, h', hl, -⟩
      · refine ⟨k + 1, _, h', by omega, ?_⟩
        have hhead := h.header
        rw [skippedNext]
        split_ifs with hle
        · have := hhead (by omega)
          omega
        · exact hj
      · exact ⟨k, j, h', by omega, hj⟩
    · rw [Reader.attempt_of_exit (Option.isSome_iff_ne_none.mpr hrun)]
      exact ⟨k, j, h, hk, hj⟩

theorem chunk_feedable (c : Chunked bufferSizeBig) (j : ℕ) :
    ∀ l ∈ c.chunks.drop j, l ≠ [] ∧ l.length < bufferSizeBig := fun l hl =>
  have hchunk := c.isChunk l (List.mem_of_mem_drop hl)
  ⟨hchunk.ne_nil (by decide), hchunk.length_lt⟩

theorem Tailing.enqueued_length (h : Tailing c c.chunks.length j r) (hj : j < c.chunks.length) :
    r.assembly.enqueued.length = (c.chunks.drop (j + 1)).countP hasMark := by
  have hfeed := chunk_feedable c j
  rw [List.drop_eq_getElem_cons hj] at hfeed
  rw [h.assembly, List.take_length, List.drop_eq_getElem_cons hj]
  exact Assembly.feedAll_empty_enqueued_length hfeed

/-- Under the header condition the reader stays in its loop until the file is consumed. -/
theorem running_of_header (hnul : nul ∉ c.text) (h3 : 3 ≤ c.chunks.length)
    (hσ : ∀ i < 3, c.start (i + 1) ≤ σ i) (hw : FewWaits c.text σ)
    (hnot : ∀ n, ¬ Consumed c.text (tailRun c.text σ n)) (n : ℕ) :
    (tailRun c.text σ (3 + n)).exit = none ∧
      ∃ k, 0 < k ∧ Tailing c k 3 (tailRun c.text σ (3 + n)) := by
  induction n with
  | zero =>
    obtain ⟨h, hrun, -⟩ := tailing_header hnul h3 le_rfl hσ
    exact ⟨hrun, 3, by omega, h⟩
  | succ n ih =>
    obtain ⟨hrun, k, hk, h⟩ := ih
    have hl := (tailing_of_header hnul h3 hσ n).1
    rw [← Nat.add_assoc, tailRun_succ]
    rcases h.quiet hnul hrun (σ (3 + n)) with ⟨-, -, h', hrun', -⟩ | ⟨hv, h', -, -⟩
    · rw [skippedNext, if_neg (by omega)] at h'
      exact ⟨hrun', k + 1, by omega, h'⟩
    · exact ⟨h.hidden_quiet hrun (by omega) (hw _ (hnot _)) hv, k, hk, h'⟩

theorem exists_tailing_run (hnul : nul ∉ c.text) (n : ℕ) :
    ∃ k j, Tailing c k j (tailRun c.text σ n) := by
  induction n with
  | zero => exact ⟨0, 0, tailing_opened c⟩
  | succ n ih =>
    obtain ⟨k, j, h⟩ := ih
    obtain ⟨k', j', -, h'⟩ := h.attempt (e := .quiet (c.text.take (σ n))) (List.take_prefix _ _) hnul
    exact ⟨k', j', h'⟩

theorem consumed_of_le (hnul : nul ∉ c.text) (hn : Consumed c.text (tailRun c.text σ n)) {m : ℕ}
    (hm : n ≤ m) : Consumed c.text (tailRun c.text σ m) := by
  induction m, hm using Nat.le_induction with
  | base => exact hn
  | succ m _ ih =>
    obtain ⟨k, j, h⟩ := exists_tailing_run hnul m
    obtain ⟨k', j', hk, h'⟩ := h.attempt (e := .quiet (c.text.take (σ m))) (List.take_prefix _ _) hnul
    have hlen := h.consumed_iff.mp ih
    exact h'.consumed_iff.mpr (le_antisymm h'.le (hlen ▸ hk))

theorem exists_consumed (hnul : nul ∉ c.text) (h3 : 3 ≤ c.chunks.length)
    (hσ : ∀ i < 3, c.start (i + 1) ≤ σ i) (hgrow : GrowthSchedule c.text σ)
    (hw : FewWaits c.text σ) : ∃ n, Consumed c.text (tailRun c.text σ n) := by
  by_contra hnone
  have hnot : ∀ n, ¬ Consumed c.text (tailRun c.text σ n) := fun n hn => hnone ⟨n, hn⟩
  obtain ⟨N, hN⟩ := hgrow.complete
  -- Otherwise `N + d` rounds would accept `d` chunks, for every `d`.
  have hprogress : ∀ d, ∃ k, d ≤ k ∧ Tailing c k 3 (tailRun c.text σ (3 + (N + d))) := by
    intro d
    induction d with
    | zero =>
      obtain ⟨-, k, -, h⟩ := running_of_header hnul h3 hσ hw hnot N
      exact ⟨k, Nat.zero_le k, h⟩
    | succ d ih =>
      obtain ⟨k, hk, h⟩ := ih
      have hrun := (running_of_header hnul h3 hσ hw hnot (N + d)).1
      have hl := (tailing_of_header hnul h3 hσ (N + d)).1
      have hlt : k < c.chunks.length :=
        lt_of_le_of_ne h.le fun hk => hnot _ (h.consumed_iff.mpr hk)
      have hfull : c.text.length ≤ σ (3 + (N + d)) := hN.trans (hgrow.mono (by omega))
      obtain ⟨h', -⟩ := h.visible (e := .quiet (c.text.take (σ (3 + (N + d))))) hrun rfl rfl hnul hlt
        ((c.start_length_le _).trans hfull)
      rw [skippedNext, if_neg (by omega)] at h'
      exact ⟨k + 1, by omega, h'⟩
  obtain ⟨k, hk, h⟩ := hprogress (c.chunks.length + 1)
  have := h.le
  omega

theorem tailing_wholeFile (hnul : nul ∉ c.text) {m : ℕ} (hm : m ≤ c.chunks.length) :
    (tailRun c.text (wholeFile c.text) m).exit = none ∧
      ∃ j, Tailing c m j (tailRun c.text (wholeFile c.text) m) := by
  induction m with
  | zero => exact ⟨rfl, 0, tailing_opened c⟩
  | succ m ih =>
    obtain ⟨hrun, j, h⟩ := ih (by omega)
    obtain ⟨h', hrun', -⟩ := h.visible (e := .quiet (c.text.take c.text.length)) hrun rfl rfl hnul
      (by omega) (c.start_length_le _)
    exact ⟨hrun', _, h'⟩

theorem header_wholeFile (c : Chunked bufferSizeBig) :
    ∀ i < 3, c.start (i + 1) ≤ wholeFile c.text i := fun i _ => c.start_length_le (i + 1)

theorem wholeFile_consumed (hnul : nul ∉ c.text) :
    Consumed c.text (tailRun c.text (wholeFile c.text) c.chunks.length) := by
  obtain ⟨-, j, h⟩ := tailing_wholeFile hnul le_rfl
  exact h.consumed_iff.mpr rfl

/-- A consumed file, where the header was in place: all chunks after the header are assembled. -/
theorem tailing_consumed_of_header (hnul : nul ∉ c.text) (h3 : 3 ≤ c.chunks.length)
    (hσ : ∀ i < 3, c.start (i + 1) ≤ σ i) (hn : Consumed c.text (tailRun c.text σ n)) :
    Tailing c c.chunks.length 3 (tailRun c.text σ n) := by
  by_cases hle : n ≤ 3
  · obtain ⟨h, -⟩ := tailing_header hnul h3 hle fun i hi => hσ i (by omega)
    have hk := h.consumed_iff.mp hn
    obtain rfl : n = 3 := by omega
    rwa [← hk]
  · obtain ⟨d, rfl⟩ : ∃ d, n = 3 + d := ⟨n - 3, by omega⟩
    obtain ⟨-, k, h⟩ := tailing_of_header hnul h3 hσ d
    rwa [h.consumed_iff.mp hn] at h

/-- Both runs skip the header lines and nothing else, so they enqueue the same. -/
theorem growthIndependent_of_header (hnul : nul ∉ c.text) (h3 : 3 ≤ c.chunks.length)
    (hσ : ∀ i < 3, c.start (i + 1) ≤ σ i) (hgrow : GrowthSchedule c.text σ)
    (hw : FewWaits c.text σ) : GrowthIndependent c.text σ := by
  refine ⟨exists_consumed hnul h3 hσ hgrow hw, ⟨_, wholeFile_consumed hnul⟩, fun n m hn hm => ?_⟩
  have hlast := tailing_consumed_of_header hnul h3 hσ hn
  have hlast' := tailing_consumed_of_header hnul h3 (header_wholeFile c) hm
  rw [hlast.assembly, hlast'.assembly]

/-- Where a header line was incomplete, one of the header lines is assembled, and
before a body that starts with a record this shows in the number of strings. -/
theorem not_growthIndependent (hnul : nul ∉ c.text) (h3 : 3 < c.chunks.length)
    (hmark : hasMark c.chunks[3] = true) (hσ : ∃ i < 3, σ i < c.start (i + 1)) :
    ¬ GrowthIndependent c.text σ := by
  classical
  rintro ⟨⟨n, hn⟩, -, hsame⟩
  have hfirst := Nat.find_spec hσ
  have hbefore : ∀ m < Nat.find hσ, c.start (m + 1) ≤ σ m := fun m hm => by
    by_contra hlt
    exact Nat.find_min hσ hm ⟨by omega, not_le.mp hlt⟩
  generalize Nat.find hσ = i at hfirst hbefore
  have hlong : i < n := by
    by_contra hle
    obtain ⟨h, -⟩ := tailing_header hnul h3.le (m := n) (by omega) fun m hm => hbefore m (by omega)
    have := h.consumed_iff.mp hn
    omega
  obtain ⟨d, rfl⟩ : ∃ d, n = i + 1 + d := ⟨n - (i + 1), by omega⟩
  obtain ⟨k, j, h, -, hj⟩ := tailing_of_no_header hnul h3.le hfirst.1 hbefore hfirst.2 d
  obtain rfl := h.consumed_iff.mp hn
  have hwhole := wholeFile_consumed hnul
  have hlast := tailing_consumed_of_header hnul h3.le (header_wholeFile c) hwhole
  have hlen := congrArg List.length (hsame _ _ hn hwhole)
  rw [h.enqueued_length (by omega), hlast.enqueued_length h3] at hlen
  have hsub : (c.chunks.drop 3).Sublist (c.chunks.drop (j + 1)) :=
    (List.drop_sublist_drop_left c.chunks (by omega : j + 1 ≤ 3))
  have hcount := hsub.countP_le (p := hasMark)
  rw [List.drop_eq_getElem_cons h3, List.countP_cons, if_pos hmark] at hcount
  omega

end Run

section Main
variable {F : Text} {σ : ℕ → ℕ}

theorem WellFormedLog.exists_chunked (hF : WellFormedLog F) :
    ∃ c : Chunked bufferSizeBig, c.text = F ∧ (splitLines F).1 <+: c.chunks :=
  Base.exists_chunked hF.lines_short hF.rest_short (by decide)

/-- The header condition in terms of the chunks, whose first three are the header lines. -/
theorem headerPresent_iff {c : Chunked bufferSizeBig} (h3 : 3 ≤ (splitLines F).1.length)
    (hpre : (splitLines F).1 <+: c.chunks) :
    HeaderPresent F σ ↔ ∀ i < 3, c.start (i + 1) ≤ σ i := by
  have htake : ∀ i < 3, (splitLines F).1.take (i + 1) = c.chunks.take (i + 1) := fun i hi => by
    obtain ⟨t, ht⟩ := hpre
    rw [← ht, List.take_append_of_le_length (by omega)]
  unfold HeaderPresent Chunked.start
  exact forall₂_congr fun i hi => by rw [htake i hi]

theorem fewWaits_of_consumed (hF : WellFormedLog F) {n : ℕ} (hn : Consumed F (tailRun F σ n))
    (hle : n ≤ maxWaitingCount) : FewWaits F σ := by
  obtain ⟨c, rfl, -⟩ := hF.exists_chunked
  intro m hm
  have hlt : m < n := by
    by_contra hge
    exact hm (consumed_of_le hF.no_nul hn (not_lt.mp hge))
  exact (tailRun_nsl_le _ _ m).trans_lt (hlt.trans_le hle)

/-- What the reader enqueues is independent of how the file grew if the header
lines were complete when they were read, and, where the body starts with a
record, only then. -/
theorem growthIndependent_iff (hF : WellFormedLog F) (hgrow : GrowthSchedule F σ)
    (hw : FewWaits F σ) :
    (HeaderPresent F σ → GrowthIndependent F σ) ∧
      (BodyMarked F → (GrowthIndependent F σ ↔ HeaderPresent F σ)) := by
  obtain ⟨c, rfl, hpre⟩ := hF.exists_chunked
  have h3 : 3 ≤ c.chunks.length := hF.header.trans hpre.length_le
  have hsuff : HeaderPresent c.text σ → GrowthIndependent c.text σ := fun h =>
    growthIndependent_of_header hF.no_nul h3 ((headerPresent_iff hF.header hpre).mp h) hgrow hw
  refine ⟨hsuff, fun ⟨b, hb, hmark⟩ => ⟨fun hind => ?_, hsuff⟩⟩
  by_contra hno
  obtain ⟨hlt, hget⟩ := List.getElem?_eq_some_iff.mp hb
  have h4 : 3 < c.chunks.length := hlt.trans_le hpre.length_le
  rw [hpre.getElem hlt] at hget
  refine not_growthIndependent hF.no_nul h4 (hget ▸ hmark) ?_ hind
  rw [headerPresent_iff hF.header hpre] at hno
  push Not at hno
  exact hno

end Main

section Examples

/-- Three header lines and two records. -/
def shortLog : Text := "a\nb\nc\n/*##1\n/*##2\n".toList

/-- The header is written at once, the records later. -/
def headerFirst (n : ℕ) : ℕ := if n < 4 then 6 else 18

/-- The downloader stops for a moment after the first header line. -/
def headerLate (n : ℕ) : ℕ := if n < 2 then 2 else 18

theorem shortLog_wellFormed : WellFormedLog shortLog := by
  constructor <;> decide

theorem headerFirst_schedule : GrowthSchedule shortLog headerFirst where
  mono := monotone_nat_of_le_succ fun n => by unfold headerFirst; split_ifs <;> omega
  complete := ⟨4, by decide⟩

theorem headerLate_schedule : GrowthSchedule shortLog headerLate where
  mono := monotone_nat_of_le_succ fun n => by unfold headerLate; split_ifs <;> omega
  complete := ⟨2, by decide⟩

theorem headerFirst_consumed : Consumed shortLog (tailRun shortLog headerFirst 6) := by
  unfold Consumed
  decide

theorem headerLate_consumed : Consumed shortLog (tailRun shortLog headerLate 6) := by
  unfold Consumed
  decide

theorem growthIndependent_headerFirst : GrowthIndependent shortLog headerFirst :=
  (growthIndependent_iff shortLog_wellFormed headerFirst_schedule
    (fewWaits_of_consumed shortLog_wellFormed headerFirst_consumed (by decide))).1
    (by unfold HeaderPresent; decide)

/-- The call of `fgets` that met end of file was counted as a header line, so the
third header line was taken for the start of a record. -/
theorem not_growthIndependent_headerLate :
    ¬ ∀ (F : Text) (σ : ℕ → ℕ), WellFormedLog F → GrowthSchedule F σ → FewWaits F σ →
      GrowthIndependent F σ := by
  intro h
  have hwhole : Consumed shortLog (tailRun shortLog (wholeFile shortLog) 5) := by
    unfold Consumed
    decide
  obtain ⟨-, -, hsame⟩ := h shortLog headerLate shortLog_wellFormed headerLate_schedule
    (fewWaits_of_consumed shortLog_wellFormed headerLate_consumed (by decide))
  have hne : (tailRun shortLog headerLate 6).assembly.enqueued ≠
      (tailRun shortLog (wholeFile shortLog) 5).assembly.enqueued := by decide
  exact hne (hsame 6 5 headerLate_consumed hwhole)

end Examples
end CLib.Server
