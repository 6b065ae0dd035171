import CLib.Base.CString

namespace CLib.Base

/-- Bytes by offset; `none` is the NUL that ends a string. -/
abbrev Memory := ℕ → Option Char

namespace Memory

def zeroed : Memory := fun _ => none

/-- A string and its NUL are copied to an offset. -/
def store (m : Memory) (o : ℕ) (t : Text) : Memory :=
  fun i => if o ≤ i ∧ i ≤ o + t.length then t[i - o]? else m i

/-- The string at an offset, of at most `n` bytes. -/
def stringAt (m : Memory) : ℕ → ℕ → Text
  | 0, _ => []
  | n + 1, o => (m o).elim [] fun c => c :: m.stringAt n (o + 1)

variable {m m' : Memory} {n o o' : ℕ} {t : Text}

theorem stringAt_eq (h : ∀ i ≤ t.length, m (o + i) = t[i]?) (hn : t.length ≤ n) :
    m.stringAt n o = t := by
  induction t generalizing n o with
  | nil =>
    have hnul : m o = none := h 0 le_rfl
    cases n with
    | zero => rfl
    | succ n => rw [stringAt, hnul, Option.elim_none]
  | cons c t ih =>
    cases n with
    | zero => cases hn
    | succ n =>
      have hfirst : m o = some c := h 0 (Nat.zero_le _)
      have hrest : m.stringAt n (o + 1) = t := by
        apply ih
        · intro i hi
          have hnext := h (i + 1) (Nat.succ_le_succ hi)
          rwa [List.getElem?_cons_succ, ← Nat.add_assoc, Nat.add_right_comm] at hnext
        · exact Nat.le_of_succ_le_succ hn
      rw [stringAt, hfirst, Option.elim_some, hrest]

theorem stringAt_congr (h : ∀ i < n, m' (o + i) = m (o + i)) :
    m'.stringAt n o = m.stringAt n o := by
  induction n generalizing o with
  | zero => rfl
  | succ n ih =>
    have hfirst : m' o = m o := h 0 (Nat.zero_lt_succ n)
    have hrest : m'.stringAt n (o + 1) = m.stringAt n (o + 1) := by
      apply ih
      intro i hi
      rw [Nat.add_assoc, Nat.add_comm 1 i]
      exact h (i + 1) (Nat.succ_lt_succ hi)
    rw [stringAt, stringAt, hfirst, hrest]

theorem apply_of_stringAt (h : m.stringAt n o = t) (hn : t.length < n) {i : ℕ} (hi : i ≤ t.length) :
    m (o + i) = t[i]? := by
  induction t generalizing n o i with
  | nil =>
    obtain ⟨n, rfl⟩ := Nat.exists_eq_succ_of_ne_zero (Nat.ne_of_gt hn)
    obtain rfl : i = 0 := Nat.le_zero.mp hi
    cases hfirst : m o with
    | none => rfl
    | some c =>
      rw [stringAt, hfirst] at h
      cases h
  | cons c t ih =>
    obtain ⟨n, rfl⟩ := Nat.exists_eq_succ_of_ne_zero (Nat.ne_of_gt (Nat.zero_lt_of_lt hn))
    cases hfirst : m o with
    | none =>
      rw [stringAt, hfirst] at h
      cases h
    | some d =>
      rw [stringAt, hfirst, Option.elim_some] at h
      obtain ⟨rfl, hrest⟩ := List.cons.inj h
      cases i with
      | zero => exact hfirst
      | succ i =>
        have hnext := ih hrest (Nat.lt_of_succ_lt_succ hn) (Nat.le_of_succ_le_succ hi)
        rwa [Nat.add_right_comm] at hnext

theorem prefix_stringAt_iff {p : Text} (hp : p.length ≤ n) :
    p <+: m.stringAt n o ↔ ∀ i, (h : i < p.length) → m (o + i) = some p[i] := by
  induction p generalizing n o with
  | nil => simp
  | cons c p ih =>
    obtain ⟨n, rfl⟩ := Nat.exists_eq_succ_of_ne_zero (Nat.ne_of_gt (Nat.zero_lt_of_lt hp))
    have hrest := ih (n := n) (o := o + 1) (Nat.le_of_succ_le_succ hp)
    have hsplit : (∀ i, (h : i < (c :: p).length) → m (o + i) = some (c :: p)[i]) ↔
        m o = some c ∧ ∀ i, (h : i < p.length) → m (o + 1 + i) = some p[i] := by
      refine ⟨fun h => ⟨h 0 (Nat.zero_lt_succ _), fun i hi => ?_⟩, fun h i hi => ?_⟩
      · rw [Nat.add_right_comm]
        exact h (i + 1) (Nat.succ_lt_succ hi)
      · cases i with
        | zero => exact h.1
        | succ i =>
          have hnext := h.2 i (Nat.lt_of_succ_lt_succ hi)
          rwa [Nat.add_right_comm] at hnext
    rw [hsplit, ← hrest, stringAt]
    cases m o with
    | none => simp
    | some d => rw [Option.elim_some, List.cons_prefix_cons, Option.some.injEq, eq_comm]

theorem store_apply_of_not (h : ¬ (o ≤ o' ∧ o' ≤ o + t.length)) : m.store o t o' = m o' := if_neg h

theorem stringAt_store_add {k : ℕ} (hk : k ≤ t.length) (hn : t.length ≤ k + n) :
    (m.store o t).stringAt n (o + k) = t.drop k := by
  apply stringAt_eq
  · intro i hi
    rw [List.length_drop] at hi
    have hin : o ≤ o + k + i ∧ o + k + i ≤ o + t.length := by omega
    rw [store, if_pos hin, List.getElem?_drop]
    congr 1
    omega
  · rw [List.length_drop]
    omega

theorem stringAt_store (hn : t.length ≤ n) : (m.store o t).stringAt n o = t :=
  stringAt_store_add (Nat.zero_le _) (by omega)

theorem stringAt_store_of_lt (h : o + t.length < o') :
    (m.store o t).stringAt n o' = m.stringAt n o' :=
  stringAt_congr fun i _ => store_apply_of_not (by omega)

theorem stringAt_store_of_gt {t' : Text} (h : m.stringAt n o = t) (hn : t.length < n)
    (ho : o + t.length < o') : (m.store o' t').stringAt n o = t := by
  refine stringAt_eq (fun i hi => ?_) hn.le
  rw [store_apply_of_not (by omega)]
  exact apply_of_stringAt h hn hi

theorem stringAt_zeroed (n o : ℕ) : zeroed.stringAt n o = [] := stringAt_eq (by simp [zeroed]) (by simp)

end Memory
end CLib.Base
