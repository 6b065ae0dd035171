import Mathlib.Logic.Function.Basic
import Mathlib.Data.List.Nodup
import Mathlib.Tactic.Common

namespace CLib.Base
variable {κ : Type*}

section Links
variable (next prev : κ → Option κ)

/-- A part of a doubly linked list, between the cells `a` and `b`. -/
def Segment : Option κ → List κ → Option κ → Prop
  | _, [], _ => True
  | a, p :: xs, b => prev p = a ∧ next p = xs.head?.or b ∧ Segment (some p) xs b

/-- A doubly linked list: from the head the next cells lead to the tail, and from the tail the
previous ones lead back. -/
structure Doubly (head tail : Option κ) (l : List κ) : Prop where
  head : head = l.head?
  tail : tail = l.getLast?
  nodup : l.Nodup
  links : Segment next prev none l none

end Links

variable {next prev next' prev' : κ → Option κ} {a b head tail : Option κ} {xs ys l : List κ} {p : κ}

theorem segment_append : Segment next prev a (xs ++ ys) b ↔
    Segment next prev a xs (ys.head?.or b) ∧ Segment next prev (xs.getLast?.or a) ys b := by
  induction xs generalizing a with
  | nil => simp [Segment]
  | cons x xs ih =>
    have hlast : (x :: xs).getLast?.or a = xs.getLast?.or (some x) := by
      rw [List.getLast?_cons]
      cases xs.getLast? <;> rfl
    have hhead : (xs ++ ys).head?.or b = xs.head?.or (ys.head?.or b) := by
      cases xs <;> rfl
    rw [List.cons_append, Segment, Segment, ih, hlast, hhead]
    exact ⟨fun ⟨h₁, h₂, h₃, h₄⟩ => ⟨⟨h₁, h₂, h₃⟩, h₄⟩, fun ⟨⟨h₁, h₂, h₃⟩, h₄⟩ => ⟨h₁, h₂, h₃, h₄⟩⟩

theorem Segment.congr (h : Segment next prev a xs b) (hnext : ∀ x ∈ xs, next' x = next x)
    (hprev : ∀ x ∈ xs, prev' x = prev x) : Segment next' prev' a xs b := by
  induction xs generalizing a with
  | nil => trivial
  | cons x xs ih =>
    obtain ⟨hp, hn, h⟩ := h
    refine ⟨(hprev x List.mem_cons_self).trans hp, (hnext x List.mem_cons_self).trans hn, ?_⟩
    apply ih h
    · exact fun y hy => hnext y (List.mem_cons_of_mem x hy)
    · exact fun y hy => hprev y (List.mem_cons_of_mem x hy)

variable [DecidableEq κ]

/-- A field of a cell is written, if there is the cell. -/
def link (f : κ → Option κ) (o v : Option κ) : κ → Option κ :=
  match o with
  | none => f
  | some q => Function.update f q v

theorem link_of_ne {f : κ → Option κ} {o : Option κ} (h : o ≠ some p) (v : Option κ) :
    link f o v p = f p := by
  cases o with
  | none => rfl
  | some q => exact Function.update_of_ne (fun heq => h (congrArg some heq.symm)) v f

theorem Segment.relink_head (h : Segment next prev a xs b) (hnodup : xs.Nodup) (a' : Option κ) :
    Segment next (link prev xs.head? a') a' xs b := by
  cases xs with
  | nil => trivial
  | cons x xs =>
    obtain ⟨-, hn, h⟩ := h
    refine ⟨Function.update_self .., hn, h.congr (fun _ _ => rfl) fun y hy => ?_⟩
    apply Function.update_of_ne
    rintro rfl
    exact (List.nodup_cons.mp hnodup).1 hy

theorem Segment.relink_last (h : Segment next prev a xs b) (hnodup : xs.Nodup) (b' : Option κ) :
    Segment (link next xs.getLast? b') prev a xs b' := by
  rcases List.eq_nil_or_concat xs with rfl | ⟨ys, y, rfl⟩
  · trivial
  rw [List.concat_eq_append] at h hnodup ⊢
  rw [segment_append] at h ⊢
  rw [List.getLast?_concat]
  obtain ⟨hys, hy, -, -⟩ := h
  refine ⟨hys.congr (fun x hx => ?_) fun _ _ => rfl, hy, Function.update_self .., trivial⟩
  apply Function.update_of_ne
  rintro rfl
  exact (List.nodup_append.mp hnodup).2.2 x hx x (List.mem_singleton_self x) rfl

namespace Doubly

omit [DecidableEq κ] in
theorem nil : Doubly next prev none none [] := ⟨rfl, rfl, List.nodup_nil, trivial⟩

omit [DecidableEq κ] in
theorem next_eq (h : Doubly next prev head tail (xs ++ p :: ys)) : next p = ys.head? := by
  have hp := (segment_append.mp h.links).2.2.1
  rwa [Option.or_none] at hp

omit [DecidableEq κ] in
theorem prev_eq (h : Doubly next prev head tail (xs ++ p :: ys)) : prev p = xs.getLast? := by
  have hp := (segment_append.mp h.links).2.1
  rwa [Option.or_none] at hp

omit [DecidableEq κ] in
theorem head_iff (h : Doubly next prev head tail (xs ++ p :: ys)) : head = some p ↔ xs = [] := by
  rw [h.head]
  cases xs with
  | nil => simp
  | cons x xs =>
    have hne : x ≠ p := by
      rintro rfl
      exact (List.nodup_cons.mp h.nodup).1 (List.mem_append_right _ List.mem_cons_self)
    simp [hne]

omit [DecidableEq κ] in
theorem tail_iff (h : Doubly next prev head tail (xs ++ p :: ys)) : tail = some p ↔ ys = [] := by
  rw [h.tail]
  rcases List.eq_nil_or_concat ys with rfl | ⟨ys, y, rfl⟩
  · simp
  · have hne : y ≠ p := by
      rintro rfl
      have hrest := (List.nodup_append.mp h.nodup).2.1
      exact (List.nodup_cons.mp hrest).1 (by simp)
    rw [List.concat_eq_append, ← List.cons_append, ← List.append_assoc, List.getLast?_concat]
    simp [hne]

theorem cons (h : Doubly next prev head tail l) (hp : p ∉ l) :
    Doubly (Function.update next p head) (link (Function.update prev p none) head (some p)) (some p)
      (if head = none then some p else tail) (p :: l) := by
  have hne : ∀ x ∈ l, x ≠ p := by
    rintro x hx rfl
    exact hp hx
  have hhead : head ≠ some p := by
    rw [h.head]
    exact fun hl => hp (List.mem_of_head? hl)
  refine ⟨rfl, ?_, List.nodup_cons.mpr ⟨hp, h.nodup⟩, ?_, ?_, ?_⟩
  · rw [h.head, h.tail]
    cases l with
    | nil => rfl
    | cons x xs => simp [List.getLast?_cons]
  · rw [link_of_ne hhead, Function.update_self]
  · rw [Function.update_self, Option.or_none, h.head]
  · have hlinks := h.links.relink_head h.nodup (some p)
    rw [← h.head] at hlinks
    refine hlinks.congr (fun x hx => Function.update_of_ne (hne x hx) ..) fun x hx => ?_
    cases head with
    | none => exact Function.update_of_ne (hne x hx) ..
    | some q =>
      rw [link, link]
      by_cases hq : x = q
      · rw [hq, Function.update_self, Function.update_self]
      · rw [Function.update_of_ne hq, Function.update_of_ne hq, Function.update_of_ne (hne x hx)]

theorem concat (h : Doubly next prev head tail l) (hp : p ∉ l) :
    Doubly (link (Function.update next p none) tail (some p)) (Function.update prev p tail)
      (if tail = none then some p else head) (some p) (l ++ [p]) := by
  have hne : ∀ x ∈ l, x ≠ p := by
    rintro x hx rfl
    exact hp hx
  have htail : tail ≠ some p := by
    rw [h.tail]
    exact fun hl => hp (List.mem_of_getLast? hl)
  refine ⟨?_, List.getLast?_concat.symm, List.nodup_append.mpr ⟨h.nodup, List.nodup_singleton p, ?_⟩,
    segment_append.mpr ⟨?_, ?_, ?_, trivial⟩⟩
  · rw [h.head, h.tail]
    cases l with
    | nil => rfl
    | cons x xs => simp [List.getLast?_cons]
  · rintro x hx y hy
    rw [List.mem_singleton.mp hy]
    exact hne x hx
  · have hlinks := h.links.relink_last h.nodup (some p)
    rw [← h.tail] at hlinks
    refine hlinks.congr (fun x hx => ?_) fun x hx => Function.update_of_ne (hne x hx) ..
    cases tail with
    | none => exact Function.update_of_ne (hne x hx) ..
    | some q =>
      rw [link, link]
      by_cases hq : x = q
      · rw [hq, Function.update_self, Function.update_self]
      · rw [Function.update_of_ne hq, Function.update_of_ne hq, Function.update_of_ne (hne x hx)]
  · rw [Function.update_self, Option.or_none, h.tail]
  · rw [link_of_ne htail, Function.update_self]
    rfl

theorem remove (h : Doubly next prev head tail (xs ++ p :: ys)) :
    Doubly (link next (prev p) (next p)) (link prev (next p) (prev p))
      (if head = some p then next p else head) (if tail = some p then prev p else tail)
      (xs ++ ys) := by
  have hnext := h.next_eq
  have hprev := h.prev_eq
  obtain ⟨hxs, hpys, hdisjoint⟩ := List.nodup_append.mp h.nodup
  obtain ⟨hlinks, -, -, hlinks'⟩ := segment_append.mp h.links
  refine ⟨?_, ?_, h.nodup.sublist (List.Sublist.append_left (List.sublist_cons_self p ys) xs),
    segment_append.mpr ⟨?_, ?_⟩⟩
  · by_cases hnil : xs = []
    · rw [if_pos (h.head_iff.mpr hnil), hnext, hnil, List.nil_append]
    · rw [if_neg (mt h.head_iff.mp hnil), h.head]
      cases xs with
      | nil => exact absurd rfl hnil
      | cons x xs => rfl
  · by_cases hnil : ys = []
    · rw [if_pos (h.tail_iff.mpr hnil), hprev, hnil, List.append_nil]
    · rw [if_neg (mt h.tail_iff.mp hnil), h.tail, List.getLast?_append, List.getLast?_append,
        List.getLast?_cons, List.getLast?_eq_some_getLast hnil]
      rfl
  · rw [hprev, hnext, Option.or_none]
    refine (hlinks.relink_last hxs ys.head?).congr (fun _ _ => rfl) fun x hx => link_of_ne ?_ _
    exact fun hy => hdisjoint x hx x (List.mem_cons_of_mem p (List.mem_of_head? hy)) rfl
  · rw [hprev, hnext, Option.or_none]
    refine (hlinks'.relink_head (List.nodup_cons.mp hpys).2 xs.getLast?).congr (fun x hx => link_of_ne ?_ _)
      fun _ _ => rfl
    exact fun hx' => hdisjoint x (List.mem_of_getLast? hx') x (List.mem_cons_of_mem p hx) rfl

end Doubly
end CLib.Base
