import Mathlib.Data.List.Infix
import Mathlib.Tactic.Common

namespace CLib.Base

/-- A cut of a list into pieces, none of them empty. -/
structure Cut {α : Type*} (xs : List α) where
  pieces : List (List α)
  ne_nil : [] ∉ pieces
  flatten_eq : pieces.flatten = xs

namespace Cut
variable {α : Type*} {xs a b : List α}

/-- The list in one piece. -/
def whole (h : xs ≠ []) : Cut xs where
  pieces := [xs]
  ne_nil := by simpa using h.symm
  flatten_eq := by rw [List.flatten_cons, List.flatten_nil, List.append_nil]

/-- The list in two pieces. -/
def two (ha : a ≠ []) (hb : b ≠ []) (h : a ++ b = xs) : Cut xs where
  pieces := [a, b]
  ne_nil := by simp [ha.symm, hb.symm]
  flatten_eq := by simpa using h

theorem infix_of_mem (cut : Cut xs) {p : List α} (hp : p ∈ cut.pieces) : p <:+: xs := by
  have hin : p <:+: cut.pieces.flatten := List.infix_of_mem_flatten hp
  rwa [cut.flatten_eq] at hin

theorem exists_cons (cut : Cut xs) (h : xs ≠ []) : ∃ first rest, cut.pieces = first :: rest := by
  apply List.exists_cons_of_ne_nil
  intro hnil
  have hflat := cut.flatten_eq
  rw [hnil] at hflat
  exact h hflat.symm

theorem flatten_ne_nil {pieces : List (List α)} (hne : [] ∉ pieces) (h : pieces ≠ []) :
    pieces.flatten ≠ [] := by
  obtain ⟨p, rest, rfl⟩ := List.exists_cons_of_ne_nil h
  intro hflat
  exact hne (List.mem_cons.mpr (.inl (List.append_eq_nil_iff.mp hflat).1.symm))

end Cut
end CLib.Base
