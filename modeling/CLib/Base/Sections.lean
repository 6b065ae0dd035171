import Mathlib.Data.List.SplitBy

namespace CLib.Base

section Sections
variable {α : Type*} {p : α → Bool} {l : List α} {a : α}

/-- The list `l`, cut in front of every element that satisfies `p`. -/
def sections (p : α → Bool) (l : List α) : List (List α) := l.splitBy fun _ a => !p a

/-- An element that satisfies `p`, and elements after it that do not. -/
def IsSection (p : α → Bool) (g : List α) : Prop :=
  ∃ a t, g = a :: t ∧ p a = true ∧ ∀ b ∈ t, p b = false

theorem IsSection.ne_nil {g : List α} (h : IsSection p g) : g ≠ [] := by
  obtain ⟨a, t, rfl, -, -⟩ := h
  exact List.cons_ne_nil a t

theorem isSection_singleton (ha : p a = true) : IsSection p [a] := ⟨a, [], rfl, ha, by simp⟩

theorem IsSection.concat {g : List α} (h : IsSection p g) (ha : p a = false) :
    IsSection p (g ++ [a]) := by
  obtain ⟨b, t, rfl, hb, ht⟩ := h
  refine ⟨b, t ++ [a], rfl, hb, fun c hc => ?_⟩
  obtain hc | hc := List.mem_append.mp hc
  · exact ht c hc
  · rwa [List.mem_singleton.mp hc]

theorem forall_mem_of_isChain {P : α → Prop} {t : List α}
    (h : (a :: t).IsChain fun _ b => P b) : ∀ b ∈ t, P b := by
  induction t generalizing a with
  | nil => simp
  | cons c t ih =>
    obtain ⟨hc, ht⟩ := List.isChain_cons_cons.mp h
    exact List.forall_mem_cons.mpr ⟨hc, ih ht⟩

theorem sections_flatten (p : α → Bool) (l : List α) : (sections p l).flatten = l :=
  List.flatten_splitBy _ l

@[simp] theorem sections_nil (p : α → Bool) : sections p [] = [] := rfl

theorem tail_unmarked_of_mem_sections {t : List α} (h : a :: t ∈ sections p l) :
    ∀ b ∈ t, p b = false := by
  have hchain := List.isChain_of_mem_splitBy h
  intro b hb
  simpa using forall_mem_of_isChain hchain b hb

theorem head_marked_of_mem_sections (hl : ∀ a ∈ l.head?, p a = true) {t : List α}
    (h : a :: t ∈ sections p l) : p a = true := by
  have hchain := List.isChain_getLast_head_splitBy (fun _ a => !p a) l
  have hchain' : (sections p l).IsChain fun _ g => ∀ b ∈ g.head?, p b = true := by
    refine hchain.imp fun g g' hr b hb => ?_
    obtain ⟨-, hg', hr⟩ := hr
    rw [List.head?_eq_some_head hg', Option.mem_some_iff] at hb
    subst hb
    simpa using hr
  cases hs : sections p l with
  | nil => simp [hs] at h
  | cons g gs =>
    rw [hs] at h hchain'
    obtain rfl | hmem := List.mem_cons.mp h
    · apply hl
      rw [← sections_flatten p l, hs]
      rfl
    · exact forall_mem_of_isChain hchain' _ hmem a rfl

/-- What `sections` computes: the only way to write a list that starts with `p`
as sections one after the other. -/
theorem sections_eq_iff (hl : ∀ a ∈ l.head?, p a = true) {gs : List (List α)} :
    sections p l = gs ↔ l = gs.flatten ∧ ∀ g ∈ gs, IsSection p g := by
  constructor
  · rintro rfl
    refine ⟨(sections_flatten p l).symm, fun g hg => ?_⟩
    cases g with
    | nil => exact absurd hg (List.nil_notMem_splitBy _ l)
    | cons a t =>
      exact ⟨a, t, rfl, head_marked_of_mem_sections hl hg, tail_unmarked_of_mem_sections hg⟩
  · rintro ⟨hflat, hgs⟩
    apply List.splitBy_eq_iff.mpr
    refine ⟨hflat, fun hnil => (hgs [] hnil).ne_nil rfl, fun g hg => ?_, ?_⟩
    · obtain ⟨a, t, rfl, -, ht⟩ := hgs g hg
      apply List.Pairwise.isChain
      apply List.pairwise_cons.mpr
      refine ⟨fun b hb => by simp [ht b hb], ?_⟩
      exact List.pairwise_of_forall_mem_list fun b _ c hc => by simp [ht c hc]
    · apply List.Pairwise.isChain
      apply List.pairwise_of_forall_mem_list
      intro g hg g' hg'
      obtain ⟨a, t, rfl, ha, -⟩ := hgs g' hg'
      exact ⟨(hgs g hg).ne_nil, List.cons_ne_nil a t, by simp [ha]⟩

theorem isSection_of_mem_sections (hl : ∀ a ∈ l.head?, p a = true) {g : List α}
    (hg : g ∈ sections p l) : IsSection p g :=
  ((sections_eq_iff hl).mp rfl).2 g hg

theorem head_append_marked (hl : ∀ a ∈ l.head?, p a = true) (hne : l ≠ []) (m : List α) :
    ∀ b ∈ (l ++ m).head?, p b = true := by
  rw [List.head?_append_of_ne_nil l hne]
  exact hl

theorem ne_nil_of_sections_concat {gs : List (List α)} {g : List α}
    (hgs : sections p l = gs ++ [g]) : l ≠ [] := by
  rintro rfl
  simp at hgs

theorem sections_concat_marked (hl : ∀ a ∈ l.head?, p a = true) (ha : p a = true) :
    sections p (l ++ [a]) = sections p l ++ [[a]] := by
  have hhead : ∀ b ∈ (l ++ [a]).head?, p b = true := by
    cases l with
    | nil => simpa using ha
    | cons c l => exact hl
  apply (sections_eq_iff hhead).mpr
  refine ⟨by simp [sections_flatten], fun g hg => ?_⟩
  obtain hg | hg := List.mem_append.mp hg
  · exact isSection_of_mem_sections hl hg
  · rw [List.mem_singleton.mp hg]
    exact isSection_singleton ha

theorem sections_concat_unmarked (hl : ∀ a ∈ l.head?, p a = true) {gs : List (List α)}
    {g : List α} (hgs : sections p l = gs ++ [g]) (ha : p a = false) :
    sections p (l ++ [a]) = gs ++ [g ++ [a]] := by
  have hflat : l = (gs ++ [g]).flatten := by rw [← hgs, sections_flatten]
  have hsec : ∀ h ∈ gs ++ [g], IsSection p h := fun h hh =>
    isSection_of_mem_sections hl (by rwa [hgs])
  apply (sections_eq_iff (head_append_marked hl (ne_nil_of_sections_concat hgs) [a])).mpr
  refine ⟨by simp [hflat], fun h hh => ?_⟩
  obtain hh | hh := List.mem_append.mp hh
  · exact hsec h (List.mem_append_left _ hh)
  · rw [List.mem_singleton.mp hh]
    exact (hsec g (by simp)).concat ha

theorem exists_sections_concat (hne : l ≠ []) : ∃ gs g, sections p l = gs ++ [g] := by
  have hs : sections p l ≠ [] := List.splitBy_ne_nil.mpr hne
  exact ⟨_, _, (List.dropLast_append_getLast hs).symm⟩

theorem exists_sections_append (hl : ∀ a ∈ l.head?, p a = true) {gs : List (List α)}
    {g : List α} (hgs : sections p l = gs ++ [g]) (m : List α) :
    ∃ g' gs', sections p (l ++ m) = gs ++ (g ++ g') :: gs' := by
  induction m using List.reverseRecOn with
  | nil => exact ⟨[], [], by simpa using hgs⟩
  | append_singleton m a ih =>
    obtain ⟨g', gs', ih⟩ := ih
    have hhead := head_append_marked hl (ne_nil_of_sections_concat hgs) m
    rw [← List.append_assoc]
    cases ha : p a with
    | true =>
      refine ⟨g', gs' ++ [[a]], ?_⟩
      rw [sections_concat_marked hhead ha, ih]
      simp
    | false =>
      obtain rfl | ⟨gs', h, rfl⟩ := gs'.eq_nil_or_concat
      · refine ⟨g' ++ [a], [], ?_⟩
        rw [sections_concat_unmarked hhead ih ha, List.append_assoc]
      · refine ⟨g', gs' ++ [h ++ [a]], ?_⟩
        have ih' : sections p (l ++ m) = (gs ++ (g ++ g') :: gs') ++ [h] := by
          rw [ih]
          simp
        rw [sections_concat_unmarked hhead ih' ha]
        simp

end Sections
end CLib.Base
