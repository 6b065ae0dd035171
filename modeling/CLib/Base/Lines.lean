import CLib.Base.CString
import Mathlib.Order.Monotone.Defs

namespace CLib.Base

/-- `fgets(buf, n, a)` on the bytes after the handle's position: the bytes it
takes, and whether it met end of file. -/
def fgets : Text → ℕ → Text × Bool
  | [], n => ([], decide (1 < n))
  | c :: cs, n =>
    if n ≤ 1 then ([], false)
    else if c = '\n' then ([c], false)
    else (c :: (fgets cs (n - 1)).1, (fgets cs (n - 1)).2)

/-- A complete line: no newline but its last byte. -/
def IsLine (l : Text) : Prop := ∃ w, '\n' ∉ w ∧ l = w ++ ['\n']

/-- What one `fgets` takes without meeting end of file: a complete line that
fits the buffer, or as many bytes as the buffer holds. -/
def IsChunk (n : ℕ) (l : Text) : Prop :=
  (IsLine l ∧ l.length < n) ∨ ('\n' ∉ l ∧ l.length + 1 = n)

/-- The complete lines of a text and the unfinished line after them. -/
def splitLines : Text → List Text × Text
  | [] => ([], [])
  | c :: cs =>
    if c = '\n' then ([c] :: (splitLines cs).1, (splitLines cs).2)
    else match (splitLines cs).1 with
      | [] => ([], c :: (splitLines cs).2)
      | l :: ls => ((c :: l) :: ls, (splitLines cs).2)

theorem IsLine.ne_nil {l : Text} (h : IsLine l) : l ≠ [] := by
  obtain ⟨w, -, rfl⟩ := h
  simp

theorem isLine_newline : IsLine ['\n'] := ⟨[], by simp, rfl⟩

theorem IsLine.cons {l : Text} (h : IsLine l) {c : Char} (hc : c ≠ '\n') : IsLine (c :: l) := by
  obtain ⟨w, hw, rfl⟩ := h
  exact ⟨c :: w, by simp [hw, hc.symm], rfl⟩

/-- No proper prefix of a complete line holds a newline. -/
theorem IsLine.not_mem_of_prefix {l p : Text} (h : IsLine l) (hp : p <+: l) (hlen : p.length < l.length) :
    '\n' ∉ p := by
  obtain ⟨w, hw, rfl⟩ := h
  rw [List.length_append, List.length_singleton] at hlen
  have hpw : p <+: w :=
    List.prefix_of_prefix_length_le hp (List.prefix_append w _) (Nat.lt_succ_iff.mp hlen)
  exact fun hmem => hw (hpw.subset hmem)

theorem IsChunk.length_lt {n : ℕ} {l : Text} (h : IsChunk n l) : l.length < n := by
  rcases h with ⟨-, hn⟩ | ⟨-, hn⟩ <;> omega

theorem IsChunk.ne_nil {n : ℕ} {l : Text} (hn : 1 < n) (h : IsChunk n l) : l ≠ [] := by
  rcases h with ⟨hl, -⟩ | ⟨-, hl⟩
  · exact hl.ne_nil
  · rintro rfl
    simp at hl
    omega

theorem IsChunk.not_mem_of_prefix {n : ℕ} {l p : Text} (h : IsChunk n l) (hp : p <+: l)
    (hlen : p.length < l.length) : '\n' ∉ p := by
  rcases h with ⟨hl, -⟩ | ⟨hl, -⟩
  · exact hl.not_mem_of_prefix hp hlen
  · exact fun hmem => hl (hp.subset hmem)

theorem fgets_isPrefix (t : Text) (n : ℕ) : (fgets t n).1 <+: t := by
  induction t generalizing n with
  | nil => exact List.prefix_rfl
  | cons c cs ih =>
    rw [fgets]
    split_ifs
    · exact List.nil_prefix
    · exact List.cons_prefix_cons.mpr ⟨rfl, List.nil_prefix⟩
    · exact List.cons_prefix_cons.mpr ⟨rfl, ih (n - 1)⟩

theorem fgets_length_le (t : Text) (n : ℕ) : (fgets t n).1.length ≤ n - 1 := by
  induction t generalizing n with
  | nil => exact Nat.zero_le _
  | cons c cs ih =>
    rw [fgets]
    split_ifs with hn
    · exact Nat.zero_le _
    · rw [List.length_singleton]
      omega
    · have hlen := ih (n - 1)
      rw [List.length_cons]
      omega

theorem fgets_ne_nil {t : Text} (ht : t ≠ []) {n : ℕ} (hn : 1 < n) : (fgets t n).1 ≠ [] := by
  cases t with
  | nil => exact absurd rfl ht
  | cons c cs =>
    rw [fgets, if_neg (by omega)]
    split_ifs <;> simp

theorem isChunk_of_fgets {t l : Text} {n : ℕ} (hn : 0 < n) (h : fgets t n = (l, false)) :
    IsChunk n l := by
  induction t generalizing n l with
  | nil =>
    rw [fgets, Prod.mk.injEq, decide_eq_false_iff_not] at h
    obtain ⟨rfl, hn'⟩ := h
    exact .inr ⟨List.not_mem_nil, by rw [List.length_nil]; omega⟩
  | cons c cs ih =>
    rw [fgets] at h
    split_ifs at h with hn' hc
    · obtain ⟨rfl, -⟩ := Prod.mk.inj h
      exact .inr ⟨List.not_mem_nil, by rw [List.length_nil]; omega⟩
    · obtain ⟨rfl, -⟩ := Prod.mk.inj h
      subst hc
      exact .inl ⟨isLine_newline, by rw [List.length_singleton]; omega⟩
    · obtain ⟨rfl, heof⟩ := Prod.mk.inj h
      have hcs : fgets cs (n - 1) = ((fgets cs (n - 1)).1, false) := by rw [← heof]
      rcases ih (by omega) hcs with ⟨hl, hlen⟩ | ⟨hl, hlen⟩
      · exact .inl ⟨hl.cons hc, by rw [List.length_cons]; omega⟩
      · exact .inr ⟨List.not_mem_cons_of_ne_of_not_mem (Ne.symm hc) hl,
          by rw [List.length_cons]; omega⟩

/-- Bytes without a newline that leave room in the buffer: `fgets` runs into end of file. -/
theorem fgets_unfinished {r : Text} (hr : '\n' ∉ r) {n : ℕ} (hn : r.length + 1 < n) :
    fgets r n = (r, true) := by
  induction r generalizing n with
  | nil => simpa [fgets] using hn
  | cons c cs ih =>
    obtain ⟨hc, hcs⟩ := not_or.mp (List.mem_cons.not.mp hr)
    rw [List.length_cons] at hn
    rw [fgets, if_neg (by omega), if_neg (Ne.symm hc), ih hcs (by omega)]

theorem fgets_full {l : Text} (hl : '\n' ∉ l) {n : ℕ} (hn : l.length + 1 = n) (t : Text) :
    fgets (l ++ t) n = (l, false) := by
  induction l generalizing n with
  | nil =>
    obtain rfl : 1 = n := by simpa using hn
    cases t <;> simp [fgets]
  | cons c cs ih =>
    obtain ⟨hc, hcs⟩ := not_or.mp (List.mem_cons.not.mp hl)
    rw [List.length_cons] at hn
    rw [List.cons_append, fgets, if_neg (by omega), if_neg (Ne.symm hc), ih hcs (by omega)]

theorem fgets_line {w : Text} (hw : '\n' ∉ w) {n : ℕ} (hn : w.length + 1 < n) (t : Text) :
    fgets (w ++ '\n' :: t) n = (w ++ ['\n'], false) := by
  induction w generalizing n with
  | nil =>
    rw [List.length_nil] at hn
    rw [List.nil_append, fgets, if_neg (by omega), if_pos rfl, List.nil_append]
  | cons c cs ih =>
    obtain ⟨hc, hcs⟩ := not_or.mp (List.mem_cons.not.mp hw)
    rw [List.length_cons] at hn
    rw [List.cons_append, fgets, if_neg (by omega), if_neg (Ne.symm hc), ih hcs (by omega)]
    rfl

theorem fgets_chunk {n : ℕ} {l : Text} (h : IsChunk n l) (t : Text) : fgets (l ++ t) n = (l, false) := by
  rcases h with ⟨⟨w, hw, rfl⟩, hn⟩ | ⟨hl, hn⟩
  · rw [List.append_assoc]
    exact fgets_line hw (by simpa using hn) t
  · exact fgets_full hl hn t

theorem fgets_of_prefix_chunk {n : ℕ} {l p : Text} (h : IsChunk n l) (hp : p <+: l)
    (hlen : p.length < l.length) : fgets p n = (p, true) :=
  fgets_unfinished (h.not_mem_of_prefix hp hlen) (by have := h.length_lt; omega)

theorem splitLines_flatten (t : Text) : (splitLines t).1.flatten ++ (splitLines t).2 = t := by
  induction t with
  | nil => rfl
  | cons c cs ih =>
    rw [splitLines]
    split_ifs with hc
    · simpa using ih
    · cases hl : (splitLines cs).1 with
      | nil => simpa [hl] using ih
      | cons l ls => simpa [hl] using ih

theorem splitLines_isLine (t : Text) : ∀ l ∈ (splitLines t).1, IsLine l := by
  induction t with
  | nil => simp [splitLines]
  | cons c cs ih =>
    rw [splitLines]
    split_ifs with hc
    · subst hc
      simpa [isLine_newline] using ih
    · cases hl : (splitLines cs).1 with
      | nil => simp
      | cons l ls =>
        rw [hl] at ih
        intro m hm
        rcases List.mem_cons.mp hm with rfl | hm
        · exact (ih l (by simp)).cons hc
        · exact ih m (by simp [hm])

theorem splitLines_rest (t : Text) : '\n' ∉ (splitLines t).2 := by
  induction t with
  | nil => simp [splitLines]
  | cons c cs ih =>
    rw [splitLines]
    split_ifs with hc
    · exact ih
    · cases hl : (splitLines cs).1 with
      | nil => simp [ih, Ne.symm hc]
      | cons l ls => exact ih

/-- A text cut into the chunks that `fgets` takes one after the other, and an
unfinished line on which it would meet end of file. -/
structure Chunked (n : ℕ) where
  chunks : List Text
  rest : Text
  isChunk : ∀ l ∈ chunks, IsChunk n l
  rest_newline : '\n' ∉ rest
  rest_length : rest.length + 1 < n

namespace Chunked
variable {n : ℕ} (c : Chunked n)

def text : Text := c.chunks.flatten ++ c.rest

/-- The position in the text at which chunk number `k` starts. -/
def start (k : ℕ) : ℕ := (c.chunks.take k).flatten.length

@[simp] theorem start_zero : c.start 0 = 0 := by simp [start]

theorem start_succ {k : ℕ} (hk : k < c.chunks.length) :
    c.start (k + 1) = c.start k + c.chunks[k].length := by
  rw [start, start, List.take_add_one, List.getElem?_eq_getElem hk, List.flatten_append,
    List.length_append]
  simp

theorem start_lt_succ (hn : 1 < n) {k : ℕ} (hk : k < c.chunks.length) :
    c.start k < c.start (k + 1) := by
  have hpos := List.length_pos_iff.mpr ((c.isChunk _ (List.getElem_mem hk)).ne_nil hn)
  rw [c.start_succ hk]
  omega

theorem start_mono : Monotone c.start := by
  intro k m hkm
  have hpre : c.chunks.take k <+: c.chunks.take m := List.take_prefix_take_left hkm
  obtain ⟨t, ht⟩ := hpre
  rw [start, start, ← ht, List.flatten_append, List.length_append]
  exact Nat.le_add_right _ _

theorem start_length_le (k : ℕ) : c.start k ≤ c.text.length := by
  have hsplit : c.chunks.flatten = (c.chunks.take k).flatten ++ (c.chunks.drop k).flatten := by
    rw [← List.flatten_append, List.take_append_drop]
  rw [text, hsplit, start, List.length_append, List.length_append]
  omega

theorem text_drop_start (k : ℕ) : c.text.drop (c.start k) = (c.chunks.drop k).flatten ++ c.rest := by
  have hsplit : c.text = (c.chunks.take k).flatten ++ ((c.chunks.drop k).flatten ++ c.rest) := by
    rw [← List.append_assoc, ← List.flatten_append, List.take_append_drop, text]
  rw [hsplit, start, List.drop_left]

theorem fgets_visible {k v : ℕ} (hk : k < c.chunks.length) (hv : c.start (k + 1) ≤ v) :
    fgets ((c.text.take v).drop (c.start k)) n = (c.chunks[k], false) := by
  rw [c.start_succ hk] at hv
  rw [List.drop_take, c.text_drop_start, List.drop_eq_getElem_cons hk, List.flatten_cons,
    List.append_assoc, List.take_append, List.take_of_length_le (by omega)]
  exact fgets_chunk (c.isChunk _ (List.getElem_mem hk)) _

theorem fgets_hidden {k v : ℕ} (hv : k < c.chunks.length → v < c.start (k + 1)) :
    (fgets ((c.text.take v).drop (c.start k)) n).2 = true := by
  rw [List.drop_take, c.text_drop_start]
  by_cases hk : k < c.chunks.length
  · have hlt := hv hk
    rw [c.start_succ hk] at hlt
    have hpos := List.length_pos_iff.mpr
      ((c.isChunk _ (List.getElem_mem hk)).ne_nil (by have := c.rest_length; omega))
    rw [List.drop_eq_getElem_cons hk, List.flatten_cons, List.append_assoc,
      List.take_append_of_le_length (by omega)]
    rw [fgets_of_prefix_chunk (c.isChunk _ (List.getElem_mem hk)) (List.take_prefix _ _)
      (by rw [List.length_take]; omega)]
  · rw [List.drop_eq_nil_of_le (by omega), List.flatten_nil, List.nil_append]
    have hlen := (List.take_prefix (v - c.start k) c.rest).length_le
    rw [fgets_unfinished (fun hm => c.rest_newline ((List.take_subset _ _) hm))
      (by have := c.rest_length; omega)]

end Chunked

theorem exists_chunked {n : ℕ} {t : Text} (hls : ∀ l ∈ (splitLines t).1, l.length < n)
    (hrest : (splitLines t).2.length < n) (hn : 1 < n) :
    ∃ c : Chunked n, c.text = t ∧ (splitLines t).1 <+: c.chunks := by
  have hchunk : ∀ l ∈ (splitLines t).1, IsChunk n l :=
    fun l hl => .inl ⟨splitLines_isLine t l hl, hls l hl⟩
  by_cases hr : (splitLines t).2.length + 1 < n
  · exact ⟨⟨(splitLines t).1, (splitLines t).2, hchunk, splitLines_rest t, hr⟩,
      splitLines_flatten t, List.prefix_rfl⟩
  · -- The unfinished line fills the buffer, so `fgets` takes it without meeting end of file.
    have hfull : IsChunk n (splitLines t).2 := .inr ⟨splitLines_rest t, by omega⟩
    refine ⟨⟨(splitLines t).1 ++ [(splitLines t).2], [], ?_, by simp, by simpa using hn⟩, ?_,
      List.prefix_append _ _⟩
    · intro l hl
      rcases List.mem_append.mp hl with hl | hl
      · exact hchunk l hl
      · exact List.mem_singleton.mp hl ▸ hfull
    · simpa [Chunked.text] using splitLines_flatten t

end CLib.Base
