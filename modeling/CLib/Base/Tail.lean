import CLib.Base.Lines
import Mathlib.Data.List.Chain

namespace CLib.Base

/-- What a program knows that follows a growing file with `fgets`: how many bytes it
has counted, where its handle stands, the buffers it has taken, and whether it goes on. -/
structure Follower where
  offset : ℕ
  pos : ℕ
  taken : List Text
  running : Bool

namespace Follower

/-- One round on the bytes that are in the file: a buffer is taken at the handle and
counted, or nothing is, and then the handle is back at the count. -/
inductive Round (n : ℕ) (file : Text) (s s' : Follower) : Prop
  | takes (l : Text) (run : s.running) (got : fgets (file.drop s.pos) n = (l, false))
      (offset : s'.offset = s.offset + (cstr l).length) (pos : s'.pos = s.pos + l.length)
      (taken : s'.taken = s.taken ++ [cstr l])
  | idles (offset : s'.offset = s.offset) (pos : s'.running → s'.pos = s.offset)
      (taken : s'.taken = s.taken)

/-- The buffers taken are the first bytes of the file, as many as have been counted,
none of them cut short, and the handle is right behind them. -/
structure Intact (n : ℕ) (file : Text) (s : Follower) : Prop where
  flatten : s.taken.flatten = file.take s.offset
  le : s.offset ≤ file.length
  isChunk : ∀ l ∈ s.taken, IsChunk n l
  pos : s.running → s.pos = s.offset

variable {n : ℕ} {file file' : Text} {s s' : Follower}

theorem Intact.grow (h : Intact n file s) (hfile : file <+: file') : Intact n file' s where
  flatten := by
    obtain ⟨rest, rfl⟩ := hfile
    rw [h.flatten, List.take_append_of_le_length h.le]
  le := h.le.trans hfile.length_le
  isChunk := h.isChunk
  pos := h.pos

/-- The step lemma: a round on a file without a NUL byte keeps the copy intact. -/
theorem Intact.round (h : Intact n file s) (hn : 0 < n) (hnul : nul ∉ file) (hr : Round n file s s') :
    Intact n file s' := by
  cases hr with
  | idles offset pos taken =>
    refine ⟨?_, ?_, ?_, ?_⟩
    · rw [taken, offset, h.flatten]
    · rw [offset]
      exact h.le
    · rw [taken]
      exact h.isChunk
    · rw [offset]
      exact pos
  | takes l run got offset pos taken =>
    -- The handle is at the count, so the buffer is the next piece of the file.
    rw [h.pos run] at got pos
    have hpre : l <+: file.drop s.offset := by
      have hl := fgets_isPrefix (file.drop s.offset) n
      rwa [got] at hl
    have hcstr : cstr l = l :=
      cstr_of_not_mem fun hmem => hnul (List.mem_of_mem_drop (hpre.subset hmem))
    have hlen : l.length ≤ file.length - s.offset := by
      rw [← List.length_drop]
      exact hpre.length_le
    have hle := h.le
    rw [hcstr] at offset taken
    refine ⟨?_, ?_, ?_, ?_⟩
    · rw [taken, offset, List.flatten_append, List.flatten_singleton, h.flatten, List.take_add,
        ← List.prefix_iff_eq_take.mp hpre]
    · rw [offset]
      omega
    · intro m hm
      rw [taken, List.mem_append, List.mem_singleton] at hm
      rcases hm with hm | hm
      · exact h.isChunk m hm
      · rw [hm]
        exact isChunk_of_fgets hn got
    · intro _
      rw [pos, offset]

end Follower

/-- A file that only grows by appending, seen at the given moments. -/
def Growing (files : List Text) : Prop := files.IsChain (· <+: ·)

instance (files : List Text) : Decidable (Growing files) :=
  inferInstanceAs (Decidable (files.IsChain (· <+: ·)))

theorem growing_concat_concat {files : List Text} {f t : Text} :
    Growing (files ++ [f] ++ [t]) ↔ Growing (files ++ [f]) ∧ f <+: t := by
  rw [Growing, List.isChain_append]
  simp [Growing]

/-- The run lemma: a program whose every round follows the file, whatever it sees of it
and whatever else happens in the round, has an intact copy at every moment. -/
theorem Follower.intact_of_rounds {ε : Type*} (file : ε → Text) (view : List ε → Follower) {n : ℕ}
    (hn : 0 < n) (h0 : view [] = ⟨0, 0, [], true⟩)
    (hround : ∀ es e, Round n (file e) (view es) (view (es ++ [e]))) {es : List ε} {t : Text}
    (hgrow : Growing (es.map file ++ [t])) (hnul : nul ∉ t) : Intact n t (view es) := by
  induction es using List.reverseRecOn generalizing t with
  | nil =>
    rw [h0]
    exact ⟨rfl, Nat.zero_le _, by simp, fun _ => rfl⟩
  | append_singleton es e ih =>
    rw [List.map_append, List.map_singleton, growing_concat_concat] at hgrow
    obtain ⟨hgrow, hpre⟩ := hgrow
    have hnul' : nul ∉ file e := fun hmem => hnul (hpre.subset hmem)
    exact ((ih hgrow hnul').round hn hnul' (hround es e)).grow hpre

end CLib.Base
