import Mathlib.Logic.Function.Basic
import Mathlib.Tactic.Common

namespace CLib.Base
variable {ι κ : Type*} {isOpen isOpen' : κ → Prop} {holder : ι → Option κ}
  {i j : ι} {k : κ}

/-- The open resources are those that are held. -/
def Conserved (isOpen : κ → Prop) (holder : ι → Option κ) : Prop :=
  ∀ k, isOpen k ↔ ∃ i, holder i = some k

/-- The open resources are those that are held, each of them by one holder. -/
structure Held (isOpen : κ → Prop) (holder : ι → Option κ) : Prop where
  conserved : Conserved isOpen holder
  unique : ∀ i j k, holder i = some k → holder j = some k → i = j

theorem Held.congr (h : Held isOpen holder) (hopen : ∀ k, isOpen' k ↔ isOpen k) :
    Held isOpen' holder where
  conserved k := (hopen k).trans (h.conserved k)
  unique := h.unique

/-- A resource that is opened for nobody breaks the conservation. -/
theorem Held.not_conserved_of_opened (h : Held isOpen holder) (hk : ¬ isOpen k) :
    ¬ Conserved (fun k' => k' = k ∨ isOpen k') holder :=
  fun hu => hk ((h.conserved k).mpr ((hu k).mp (.inl rfl)))

variable [DecidableEq ι]

theorem comp_update_of_eq {δ ε : Type*} {f : ι → δ} {w : δ → ε} {x : δ} (h : w x = w (f i)) :
    w ∘ Function.update f i x = w ∘ f := by
  rw [Function.comp_update, h]
  exact Function.update_eq_self i (w ∘ f)

theorem Held.acquire (h : Held isOpen holder) (hi : holder i = none) (hk : ¬ isOpen k) :
    Held (fun k' => k' = k ∨ isOpen k') (Function.update holder i (some k)) := by
  have hfree : ∀ j, holder j ≠ some k := fun j hj => hk ((h.conserved k).mpr ⟨j, hj⟩)
  constructor
  · intro k'
    simp only [h.conserved k']
    constructor
    · rintro (rfl | ⟨j, hj⟩)
      · exact ⟨i, Function.update_self ..⟩
      · have hji : j ≠ i := fun hji => by rw [hji, hi] at hj; cases hj
        exact ⟨j, by rwa [Function.update_of_ne hji]⟩
    · rintro ⟨j, hj⟩
      by_cases hji : j = i
      · rw [hji, Function.update_self] at hj
        exact .inl (Option.some.inj hj).symm
      · rw [Function.update_of_ne hji] at hj
        exact .inr ⟨j, hj⟩
  · intro a b k' ha hb
    by_cases hai : a = i <;> by_cases hbi : b = i
    · rw [hai, hbi]
    · rw [hai, Function.update_self] at ha
      rw [Function.update_of_ne hbi, ← ha] at hb
      exact absurd hb (hfree b)
    · rw [hbi, Function.update_self] at hb
      rw [Function.update_of_ne hai, ← hb] at ha
      exact absurd ha (hfree a)
    · rw [Function.update_of_ne hai] at ha
      rw [Function.update_of_ne hbi] at hb
      exact h.unique a b k' ha hb

theorem Held.release (h : Held isOpen holder) (hi : holder i = some k) :
    Held (fun k' => k' ≠ k ∧ isOpen k') (Function.update holder i none) := by
  constructor
  · intro k'
    simp only [h.conserved k']
    constructor
    · rintro ⟨hne, j, hj⟩
      have hji : j ≠ i := fun hji => hne (Option.some.inj (hj.symm.trans (hji ▸ hi)))
      exact ⟨j, by rwa [Function.update_of_ne hji]⟩
    · rintro ⟨j, hj⟩
      have hji : j ≠ i := fun hji => by rw [hji, Function.update_self] at hj; cases hj
      rw [Function.update_of_ne hji] at hj
      exact ⟨fun hk => hji (h.unique j i k (hk ▸ hj) hi), j, hj⟩
  · intro a b k' ha hb
    have hai : a ≠ i := fun hai => by rw [hai, Function.update_self] at ha; cases ha
    have hbi : b ≠ i := fun hbi => by rw [hbi, Function.update_self] at hb; cases hb
    rw [Function.update_of_ne hai] at ha
    rw [Function.update_of_ne hbi] at hb
    exact h.unique a b k' ha hb

theorem Held.transfer (h : Held isOpen holder) (hi : holder i = some k) (hj : holder j = none) :
    Held isOpen (Function.update (Function.update holder i none) j (some k)) := by
  have hji : j ≠ i := fun hji => by rw [hji, hi] at hj; cases hj
  have hnone : Function.update holder i none j = none := by rwa [Function.update_of_ne hji]
  apply ((h.release hi).acquire hnone fun hk => hk.1 rfl).congr
  intro k'
  by_cases hk : k' = k
  · simp only [hk, true_or, iff_true]
    exact (h.conserved k).mpr ⟨i, hi⟩
  · simp [hk]

theorem Held.eq_of_conserved_update (h : Held isOpen holder) (hi : holder i = some k) {o : Option κ}
    (hu : Conserved isOpen (Function.update holder i o)) : o = some k := by
  obtain ⟨j, hj⟩ := (hu k).mp ((h.conserved k).mpr ⟨i, hi⟩)
  by_cases hji : j = i
  · rwa [hji, Function.update_self] at hj
  · rw [Function.update_of_ne hji] at hj
    exact absurd (h.unique j i k hj hi) hji

end CLib.Base
