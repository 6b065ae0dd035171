import Mathlib.Algebra.Ring.Int.Defs
import Mathlib.Algebra.Ring.Nat
import Mathlib.Data.List.Infix
import Mathlib.Data.List.TakeWhile
import Mathlib.Tactic.Common

namespace CLib.Base

/-- A byte string. A C string is one without the byte NUL. -/
abbrev Text := List Char

/-- Whether a text is in a table is decided byte by byte. -/
instance : LawfulBEq Text := inferInstance

def nul : Char := Char.ofNat 0

/-- The C string in a buffer: the bytes before its first NUL. -/
def cstr (b : Text) : Text := b.takeWhile (· != nul)

/-- `snprintf(buf, n, "%s", t)` keeps at most `n - 1` bytes, and none for `n = 0`. -/
def snprintf (n : ℕ) (t : Text) : Text := t.take (n - 1)

/-- `strncmp(a, b, n) == 0` for C strings `a` and `b`. -/
def strncmpZero (a b : Text) (n : ℕ) : Bool := a.take n == b.take n

/-- `strstr`: the suffix of the text from the first occurrence of the needle on. -/
def strstr : Text → Text → Option Text
  | [], needle => if needle = [] then some [] else none
  | c :: cs, needle => if needle <+: c :: cs then some (c :: cs) else strstr cs needle

/-- The digits that `%u` prints. -/
def percentU (n : ℕ) : Text := Nat.toDigits 10 n

def isSpace (c : Char) : Bool :=
  c = ' ' || (Char.ofNat 9 ≤ c && c ≤ Char.ofNat 13)

/-- `strtol(t, NULL, 10)` on a 64-bit `long`: blanks, one sign, digits, clamped. -/
def atol (t : Text) : ℤ :=
  match t.dropWhile isSpace with
  | '-' :: r => max (-2 ^ 63) (-(Nat.ofDigitChars 10 (r.takeWhile Char.isDigit) 0 : ℤ))
  | '+' :: r => min (2 ^ 63 - 1) (Nat.ofDigitChars 10 (r.takeWhile Char.isDigit) 0 : ℤ)
  | r => min (2 ^ 63 - 1) (Nat.ofDigitChars 10 (r.takeWhile Char.isDigit) 0 : ℤ)

/-- `atoi` stored in an `unsigned int`. -/
def atoiUnsigned (t : Text) : ℕ := (atol t % 2 ^ 32).toNat

/-- The directives of a `sscanf` format; a literal byte matches itself. -/
inductive Directive
  | string
  | excluding (set : Text)
  | blank
  | literal (c : Char)

/-- `sscanf`: the strings that it stores, up to the first directive that fails. -/
def sscanf : List Directive → Text → List Text
  | [], _ => []
  | .string :: ds, t =>
    let w := (t.dropWhile isSpace).takeWhile fun c => !isSpace c
    if w = [] then [] else w :: sscanf ds ((t.dropWhile isSpace).dropWhile fun c => !isSpace c)
  | .excluding set :: ds, t =>
    let w := t.takeWhile fun c => !set.contains c
    if w = [] then [] else w :: sscanf ds (t.dropWhile fun c => !set.contains c)
  | .blank :: ds, t => sscanf ds (t.dropWhile isSpace)
  | .literal c :: ds, t => if t.head? = some c then sscanf ds t.tail else []

theorem cstr_of_not_mem {b : Text} (h : nul ∉ b) : cstr b = b := by
  rw [cstr, List.takeWhile_eq_self_iff]
  intro c hc
  simpa using fun he : c = nul => h (he ▸ hc)

theorem nul_not_mem_cstr (b : Text) : nul ∉ cstr b := by
  intro h
  have hne := List.mem_takeWhile_imp h
  simp at hne

theorem cstr_isPrefix (b : Text) : cstr b <+: b := List.takeWhile_prefix _

theorem cstr_append_nul (b r : Text) : cstr (b ++ nul :: r) = cstr b := by
  induction b with
  | nil => simp [cstr]
  | cons c b ih =>
    by_cases hc : c = nul
    · simp [cstr, hc]
    · have hne : (c != nul) = true := by simpa using hc
      simp only [cstr, List.cons_append, List.takeWhile_cons_of_pos (p := (· != nul)) hne] at ih ⊢
      rw [ih]

theorem snprintf_of_lt {n : ℕ} {t : Text} (h : t.length < n) : snprintf n t = t :=
  List.take_of_length_le (by omega)

theorem strncmpZero_length_right (a b : Text) : strncmpZero a b b.length ↔ b <+: a := by
  rw [strncmpZero, beq_iff_eq, List.take_length, List.prefix_iff_eq_take]
  exact eq_comm

theorem strncmpZero_length_left (a b : Text) : strncmpZero a b a.length ↔ a <+: b := by
  rw [strncmpZero, beq_iff_eq, List.take_length, List.prefix_iff_eq_take]

theorem strstr_isSome_iff (t needle : Text) : (strstr t needle).isSome ↔ needle <:+: t := by
  induction t with
  | nil => by_cases h : needle = [] <;> simp [strstr, h]
  | cons c cs ih =>
    rw [List.infix_cons_iff, ← ih, strstr]
    by_cases h : needle <+: c :: cs <;> simp [h]

theorem strstr_isNone_iff (t needle : Text) : (strstr t needle).isNone ↔ ¬ needle <:+: t := by
  rw [← strstr_isSome_iff, Option.not_isSome_iff_eq_none, Option.isNone_iff_eq_none]

theorem strstr_eq_some {t needle r : Text} (h : strstr t needle = some r) :
    needle <+: r ∧ r <:+ t := by
  induction t with
  | nil =>
    rw [strstr] at h
    split_ifs at h with hneedle
    obtain rfl : [] = r := Option.some.inj h
    exact ⟨by rw [hneedle], List.suffix_rfl⟩
  | cons c cs ih =>
    rw [strstr] at h
    split_ifs at h with hneedle
    · obtain rfl : c :: cs = r := Option.some.inj h
      exact ⟨hneedle, List.suffix_rfl⟩
    · obtain ⟨hpre, hsuf⟩ := ih h
      exact ⟨hpre, hsuf.trans (List.suffix_cons c cs)⟩

theorem strstr_append_of_not_mem {pre : Text} {c : Char} (h : c ∉ pre) (t needle : Text) :
    strstr (pre ++ t) (c :: needle) = strstr t (c :: needle) := by
  induction pre with
  | nil => rfl
  | cons d pre ih =>
    obtain ⟨hd, hpre⟩ := not_or.mp (List.mem_cons.not.mp h)
    have hno : ¬ c :: needle <+: d :: (pre ++ t) := by
      rw [List.cons_prefix_cons]
      exact fun hp => hd hp.1
    rw [List.cons_append, strstr, if_neg hno, ih hpre]

theorem strstr_append_self (t needle : Text) : strstr (needle ++ t) needle = some (needle ++ t) := by
  cases h : needle ++ t with
  | nil => simp [strstr, (List.append_eq_nil_iff.mp h).1]
  | cons c cs => rw [strstr, if_pos (h ▸ List.prefix_append needle t)]

theorem exists_strstr_append (pre needle t : Text) :
    ∃ r, strstr (pre ++ (needle ++ t)) needle = some r ∧ needle ++ t <:+ r := by
  induction pre with
  | nil => exact ⟨needle ++ t, strstr_append_self t needle, List.suffix_rfl⟩
  | cons c pre ih =>
    rw [List.cons_append, strstr]
    split_ifs with hpre
    · exact ⟨_, rfl, (List.suffix_append pre _).trans (List.suffix_cons c _)⟩
    · exact ih

theorem strstr_append_of_not_infix {pre needle : Text}
    (h : ¬ needle <:+: pre ++ needle.dropLast) (t : Text) :
    strstr (pre ++ (needle ++ t)) needle = some (needle ++ t) := by
  induction pre with
  | nil => exact strstr_append_self t needle
  | cons c pre ih =>
    have hno : ¬ needle <+: c :: (pre ++ (needle ++ t)) := by
      intro hpre
      have hcut : c :: (pre ++ needle.dropLast) <+: c :: (pre ++ (needle ++ t)) := by
        rw [List.cons_prefix_cons, List.prefix_append_right_inj]
        exact ⟨rfl, (List.dropLast_prefix needle).trans (List.prefix_append needle t)⟩
      refine h (List.prefix_of_prefix_length_le hpre hcut ?_).isInfix
      rw [List.length_cons, List.length_append, List.length_dropLast]
      omega
    rw [List.cons_append, strstr, if_neg hno]
    exact ih fun hin => h (hin.trans (List.suffix_cons c _).isInfix)

/-- How many strings the directives store if none of them fails. -/
def conversions : List Directive → ℕ
  | [] => 0
  | .string :: ds => conversions ds + 1
  | .excluding _ :: ds => conversions ds + 1
  | .blank :: ds => conversions ds
  | .literal _ :: ds => conversions ds

/-- More directives at the end of a format store nothing unless the first ones have stored
all they can. -/
theorem exists_sscanf_append (ds es : List Directive) (t : Text) :
    ∃ more, sscanf (ds ++ es) t = sscanf ds t ++ more ∧
      ((sscanf ds t).length < conversions ds → more = []) := by
  induction ds generalizing t with
  | nil => exact ⟨sscanf es t, rfl, fun h => absurd h (Nat.not_lt_zero _)⟩
  | cons d ds ih =>
    cases d with
    | string =>
      simp only [List.cons_append, sscanf]
      split_ifs
      · exact ⟨[], rfl, fun _ => rfl⟩
      · obtain ⟨more, happend, hmore⟩ := ih ((t.dropWhile isSpace).dropWhile fun c => !isSpace c)
        exact ⟨more, by rw [happend, List.cons_append], fun h => hmore (Nat.lt_of_succ_lt_succ h)⟩
    | excluding set =>
      simp only [List.cons_append, sscanf]
      split_ifs
      · exact ⟨[], rfl, fun _ => rfl⟩
      · obtain ⟨more, happend, hmore⟩ := ih (t.dropWhile fun c => !set.contains c)
        exact ⟨more, by rw [happend, List.cons_append], fun h => hmore (Nat.lt_of_succ_lt_succ h)⟩
    | blank => exact ih _
    | literal c =>
      simp only [List.cons_append, sscanf]
      split_ifs
      · exact ih _
      · exact ⟨[], rfl, fun _ => rfl⟩

theorem length_sscanf_le (ds : List Directive) (t : Text) : (sscanf ds t).length ≤ conversions ds := by
  induction ds generalizing t with
  | nil => exact le_rfl
  | cons d ds ih =>
    cases d with
    | string | excluding set =>
      unfold sscanf
      dsimp only
      split_ifs
      · exact Nat.zero_le _
      · exact Nat.succ_le_succ (ih _)
    | blank => exact ih _
    | literal c =>
      unfold sscanf
      split_ifs
      · exact ih _
      · exact Nat.zero_le _

theorem isSpace_of_isDigit {c : Char} (h : c.isDigit) : isSpace c = false := by
  have hlow : 48 ≤ c.toNat := (Char.isDigit_iff_toNat.mp h).1
  have hspace : c ≠ ' ' := fun hc => absurd (hc ▸ hlow) (by decide)
  have htab : ¬ c ≤ Char.ofNat 13 := by
    intro hc
    have hle : c.toNat ≤ 13 := UInt32.le_iff_toNat_le.mp (Char.le_def.mp hc)
    omega
  simp [isSpace, hspace, htab]

theorem atol_percentU {n : ℕ} (h : n < 2 ^ 63) : atol (percentU n) = n := by
  have hdigit : ∀ c ∈ percentU n, c.isDigit := fun c hc =>
    Nat.isDigit_of_mem_toDigits (by omega) (by omega) hc
  have hvalue : Nat.ofDigitChars 10 (percentU n) 0 = n := Nat.ofDigitChars_ten_toDigits
  have htake : (percentU n).takeWhile Char.isDigit = percentU n :=
    List.takeWhile_eq_self_iff.mpr hdigit
  have hdrop : (percentU n).dropWhile isSpace = percentU n := by
    have hne : percentU n ≠ [] := Nat.toDigits_ne_nil
    obtain ⟨c, cs, hcs⟩ := List.exists_cons_of_ne_nil hne
    have hc : isSpace c = false := isSpace_of_isDigit (hdigit c (hcs ▸ List.mem_cons_self))
    rw [hcs, List.dropWhile_cons_of_neg (by rw [hc]; decide)]
  rw [atol, hdrop]
  split
  · next r hr => exact absurd (hdigit '-' (by rw [hr]; exact List.mem_cons_self)) (by decide)
  · next r hr => exact absurd (hdigit '+' (by rw [hr]; exact List.mem_cons_self)) (by decide)
  · rw [htake, hvalue]
    omega

theorem percentU_injective : Function.Injective percentU := by
  intro n m h
  have hv := congrArg (fun t => Nat.ofDigitChars 10 t 0) h
  simpa only [percentU, Nat.ofDigitChars_ten_toDigits] using hv

theorem percentU_length_pos (n : ℕ) : 0 < (percentU n).length := Nat.length_toDigits_pos

/-- Up to byte `k`, the string `t` is `s` with `w` after it, and `a` begins with
`w` and goes on as `b`, for some `w`. -/
def Continues (k : ℕ) (s a t b : Text) : Prop :=
  ∃ w, t.take k = s.take k ++ w ∧ a.take (k - s.length) = (w ++ b).take (k - s.length)

theorem take_append_of_take_eq {k : ℕ} {s t w : Text} (h : t.take k = s.take k ++ w) (b : Text) :
    (w ++ b).take (k - s.length) = w ++ b.take (k - t.length) := by
  have hlen := congrArg List.length h
  simp only [List.length_append, List.length_take] at hlen
  rw [List.take_append, List.take_of_length_le (by omega),
    show k - s.length - w.length = k - t.length by omega]

theorem Continues.take_append_eq {k : ℕ} {s a t b : Text} (h : Continues k s a t b) :
    (s ++ a).take k = (t ++ b).take k := by
  obtain ⟨w, ht, ha⟩ := h
  rw [List.take_append, List.take_append, ha, take_append_of_take_eq ht, ht, List.append_assoc]

/-- Two concatenations agree in their first `k` bytes exactly if one continues the other. -/
theorem take_append_eq_take_append_iff {k : ℕ} {s a t b : Text} :
    (s ++ a).take k = (t ++ b).take k ↔ Continues k s a t b ∨ Continues k t b s a := by
  constructor
  · intro h
    rw [List.take_append, List.take_append, List.append_eq_append_iff] at h
    rcases h with ⟨w, ht, ha⟩ | ⟨w, hs, hb⟩
    · exact .inl ⟨w, ht, by rw [ha, take_append_of_take_eq ht]⟩
    · exact .inr ⟨w, hs, by rw [hb, take_append_of_take_eq hs]⟩
  · rintro (h | h)
    · exact h.take_append_eq
    · exact h.take_append_eq.symm

end CLib.Base
