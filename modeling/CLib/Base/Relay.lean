import CLib.Base.Getline

namespace CLib.Base

/-- A text on its way through two places: `a` has been taken from the first, `p` is there, and `q`
is in the second. What has been taken stops at the end of a line unless nothing is left, and the
second place starts at one unless nothing is there. -/
structure Relay (text a p q : Text) : Prop where
  eq : text = a ++ (p ++ q)
  taken : LineEnd a ∨ p ++ q = []
  first : LineEnd (a ++ p) ∨ q = []

namespace Relay
variable {text a p q l : Text}

theorem empty : Relay [] [] [] [] := ⟨rfl, .inl rfl, .inl rfl⟩

theorem lineEnd (h : Relay text a p q) (hne : p ++ q ≠ []) : LineEnd a := h.taken.resolve_right hne

theorem receive (h : Relay text a p q) (b : Text) (hq : q = [] → LineEnd text) :
    Relay (text ++ b) a p (q ++ b) := by
  have hfirst : LineEnd (a ++ p) := by
    rcases h.first with hfirst | hnil
    · exact hfirst
    · have htext := hq hnil
      rwa [h.eq, hnil, List.append_nil] at htext
  refine ⟨by rw [h.eq]; simp only [List.append_assoc], .inl ?_, .inl hfirst⟩
  rcases h.taken with htaken | hnil
  · exact htaken
  · obtain ⟨rfl, -⟩ := List.append_eq_nil_iff.mp hnil
    rwa [List.append_nil] at hfirst

theorem rotate (h : Relay text a [] q) : Relay text a q [] :=
  ⟨by rw [h.eq, List.nil_append, List.append_nil], by simpa using h.taken, .inr rfl⟩

theorem takeLine (h : Relay text a (l ++ p) q) (hl : IsLine l) : Relay text (a ++ l) p q := by
  have hne : l ++ p ++ q ≠ [] := by simp [hl.ne_nil]
  refine ⟨by rw [h.eq]; simp only [List.append_assoc], .inl ?_, ?_⟩
  · obtain ⟨w, hw, rfl⟩ := hl
    exact (h.lineEnd hne).append (lineEnd_line hw)
  · rw [List.append_assoc]
    exact h.first

theorem takeRest (h : Relay text a p q) : Relay text (a ++ p) [] q :=
  ⟨by rw [h.eq]; simp only [List.append_assoc, List.nil_append], h.first, by
    rw [List.append_nil]
    exact h.first⟩

theorem getlines_prefix (h : Relay text a p q) : getlines a <+: getlines text := by
  rcases h.taken with htaken | hnil
  · rw [h.eq, getlines_append htaken]
    exact List.prefix_append ..
  · rw [h.eq, hnil, List.append_nil]

end Relay
end CLib.Base
