import CLib.Base.CString

namespace CLib.Base

/-- `read` of `n` bytes at an offset: what is there of them. -/
def pread (f : Text) (off n : ℕ) : Text := (f.drop off).take n

/-- `write` at an offset. Behind the end of the file it leaves a hole. -/
def pwrite (f : Text) (off : ℕ) (b : Text) : Text :=
  f.take off ++ List.replicate (off - f.length) nul ++ b ++ f.drop (off + b.length)

/-- `sprintf("%*u", w, n)`. -/
def percentPad (w n : ℕ) : Text := List.replicate (w - (percentU n).length) ' ' ++ percentU n

section Files
variable {f a b b' c : Text} {off off' n : ℕ}

theorem pread_append (a b c : Text) : pread (a ++ b ++ c) a.length b.length = b := by
  rw [pread, List.append_assoc, List.drop_left, List.take_left]

theorem pwrite_append (a c : Text) (h : b'.length = b.length) :
    pwrite (a ++ b ++ c) a.length b' = a ++ b' ++ c := by
  have hle : a.length ≤ (a ++ b ++ c).length := by
    rw [List.append_assoc, List.length_append]
    exact Nat.le_add_right _ _
  rw [pwrite, Nat.sub_eq_zero_of_le hle, List.replicate_zero, List.append_nil, h, ← List.drop_drop,
    List.append_assoc a, List.drop_left, List.drop_left, List.take_left]

theorem pwrite_end (f b : Text) : pwrite f f.length b = f ++ b := by
  rw [pwrite, List.take_length, Nat.sub_self, List.replicate_zero, List.append_nil,
    List.drop_eq_nil_of_le (Nat.le_add_right _ _), List.append_nil]

end Files

section Fields
variable {w n : ℕ}

theorem notMem_percentU {c : Char} (hc : c.isDigit = false) (n : ℕ) : c ∉ percentU n := by
  intro hmem
  have hdigit : c.isDigit := Nat.isDigit_of_mem_toDigits (by omega) (by omega) hmem
  rw [hc] at hdigit
  cases hdigit

theorem percentPad_length (h : n < 10 ^ w) (hw : 0 < w) : (percentPad w n).length = w := by
  have hlen : (percentU n).length ≤ w := (Nat.length_toDigits_le_iff (by omega) hw).mpr h
  rw [percentPad, List.length_append, List.length_replicate]
  omega

theorem atol_percentPad (w : ℕ) (h : n < 2 ^ 63) : atol (percentPad w n) = n := by
  have hdrop : (percentPad w n).dropWhile isSpace = (percentU n).dropWhile isSpace := by
    rw [percentPad, List.dropWhile_append_of_pos]
    intro c hc
    rw [List.eq_of_mem_replicate hc]
    rfl
  rw [← atol_percentU h]
  unfold atol
  rw [hdrop]

theorem atol_percentU_append (h : n < 2 ^ 63) {t : Text} (ht : ∀ c, t.head? = some c → c.isDigit = false) :
    atol (percentU n ++ t) = n := by
  have hdigit : ∀ c ∈ percentU n, c.isDigit := fun c hc =>
    Nat.isDigit_of_mem_toDigits (by omega) (by omega) hc
  have htake : t.takeWhile Char.isDigit = [] := by
    cases t with
    | nil => rfl
    | cons c t => rw [List.takeWhile_cons, ht c rfl, if_neg (Bool.false_ne_true)]
  have hdigits : (percentU n ++ t).takeWhile Char.isDigit = percentU n := by
    rw [List.takeWhile_append_of_pos hdigit, htake, List.append_nil]
  have hvalue : Nat.ofDigitChars 10 (percentU n) 0 = n := Nat.ofDigitChars_ten_toDigits
  obtain ⟨c, cs, hcs⟩ := List.exists_cons_of_ne_nil (show percentU n ≠ [] from Nat.toDigits_ne_nil)
  have hc : c.isDigit := hdigit c (hcs ▸ List.mem_cons_self)
  have hdrop : (percentU n ++ t).dropWhile isSpace = percentU n ++ t := by
    rw [hcs, List.cons_append, List.dropWhile_cons_of_neg (by rw [isSpace_of_isDigit hc]; decide)]
  have hhead : ∀ r e, percentU n ++ t = e :: r → e.isDigit := by
    intro r e hr
    rw [hcs, List.cons_append, List.cons.injEq] at hr
    exact hr.1 ▸ hc
  rw [atol, hdrop]
  split
  · next r hr => exact absurd (hhead r '-' hr) (by decide)
  · next r hr => exact absurd (hhead r '+' hr) (by decide)
  · rw [hdigits, hvalue]
    omega

theorem pwrite_percentU {m : ℕ} (h : m ≤ n) : pwrite (percentU m) 0 (percentU n) = percentU n := by
  have hlen : (percentU m).length ≤ (percentU n).length := by
    rw [percentU, Nat.length_toDigits_le_iff (by omega) (percentU_length_pos n)]
    exact h.trans_lt ((Nat.length_toDigits_le_iff (by omega) (percentU_length_pos n)).mp le_rfl)
  rw [pwrite, List.take_zero, Nat.zero_sub, List.replicate_zero, Nat.zero_add,
    List.drop_eq_nil_of_le hlen, List.append_nil]
  rfl

end Fields
end CLib.Base
