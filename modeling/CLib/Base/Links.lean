import Mathlib.Logic.Function.Basic
import Mathlib.Data.List.Nodup
import Mathlib.Data.Set.Insert
import Mathlib.Tactic.Common

namespace CLib.Base
variable {κ ι : Type*} (null : ι) (addr : κ → ι) (next : κ → ι)

/-- From the pointer `p` the links lead through these cells, in this order, to the null pointer. -/
def Links : ι → List κ → Prop
  | p, [] => p = null
  | p, x :: xs => p = addr x ∧ p ≠ null ∧ Links (next x) xs

/-- The cells are dealt out to the linked lists that begin at the heads. -/
structure Dealt (heads cells : Set κ) (lists : κ → List κ) : Prop where
  linked : ∀ a ∈ heads, Links null addr next (next a) (lists a)
  nodup : ∀ a ∈ heads, (lists a).Nodup
  mem_cells : ∀ x, x ∈ cells ↔ ∃ a ∈ heads, x ∈ lists a
  apart : ∀ a ∈ heads, ∀ b ∈ heads, ∀ x, x ∈ lists a → x ∈ lists b → a = b
  heads_apart : ∀ a ∈ heads, a ∉ cells

variable {null addr next}
variable {addr' next' : κ → ι} {p : ι} {xs ys : List κ} {x y a b : κ}

theorem Links.congr (h : Links null addr next p xs) (haddr : ∀ x ∈ xs, addr' x = addr x)
    (hnext : ∀ x ∈ xs, next' x = next x) : Links null addr' next' p xs := by
  induction xs generalizing p with
  | nil => exact h
  | cons x xs ih =>
    obtain ⟨hp, hne, h⟩ := h
    refine ⟨hp.trans (haddr x List.mem_cons_self).symm, hne, ?_⟩
    rw [hnext x List.mem_cons_self]
    apply ih h
    · exact fun y hy => haddr y (List.mem_cons_of_mem x hy)
    · exact fun y hy => hnext y (List.mem_cons_of_mem x hy)

theorem forall_not_or_exists_first (P : κ → Prop) (xs : List κ) : (∀ x ∈ xs, ¬ P x) ∨
    ∃ ys x zs, xs = ys ++ x :: zs ∧ (∀ y ∈ ys, ¬ P y) ∧ P x := by
  induction xs with
  | nil => exact .inl fun x hx => (nomatch hx)
  | cons x xs ih =>
    by_cases hx : P x
    · exact .inr ⟨[], x, xs, rfl, fun y hy => (nomatch hy), hx⟩
    rcases ih with hall | ⟨ys, y, zs, rfl, hys, hy⟩
    · refine .inl fun y hy => ?_
      rcases List.mem_cons.mp hy with rfl | hy
      · exact hx
      · exact hall y hy
    · refine .inr ⟨x :: ys, y, zs, rfl, fun z hz => ?_, hy⟩
      rcases List.mem_cons.mp hz with rfl | hz
      · exact hx
      · exact hys z hz

theorem Links.addr_eq (h : Links null addr next p xs) (hx : x ∈ xs) :
    addr x = p ∨ ∃ y ∈ xs, addr x = next y := by
  induction xs generalizing p with
  | nil => cases hx
  | cons y xs ih =>
    obtain ⟨hp, -, h⟩ := h
    rcases List.mem_cons.mp hx with rfl | hx
    · exact .inl hp.symm
    · rcases ih h hx with haddr | ⟨z, hz, haddr⟩
      · exact .inr ⟨y, List.mem_cons_self, haddr⟩
      · exact .inr ⟨z, List.mem_cons_of_mem y hz, haddr⟩

theorem Links.of_append (h : Links null addr next p (xs ++ x :: ys)) :
    Links null addr next (next x) ys := by
  induction xs generalizing p with
  | nil => exact h.2.2
  | cons y xs ih => exact ih h.2.2

theorem Links.exists_addr (h : Links null addr next p xs) : p = null ∨ ∃ x ∈ xs, p = addr x := by
  cases xs with
  | nil => exact .inl h
  | cons x xs => exact .inr ⟨x, List.mem_cons_self, h.1⟩

namespace Dealt
variable {heads cells : Set κ} {lists : κ → List κ}

theorem mem_of_mem (h : Dealt null addr next heads cells lists) (ha : a ∈ heads)
    (hx : x ∈ lists a) : x ∈ cells := (h.mem_cells x).mpr ⟨a, ha, hx⟩

theorem ne_of_mem (h : Dealt null addr next heads cells lists) (ha : a ∈ heads) (hx : x ∈ cells) :
    x ≠ a := fun hxa => h.heads_apart a ha (hxa ▸ hx)

/-- Only the links and the addresses of the heads and of the cells count. -/
theorem congr (h : Dealt null addr next heads cells lists) (haddr : ∀ x ∈ cells, addr' x = addr x)
    (hnext : ∀ x, x ∈ heads ∨ x ∈ cells → next' x = next x) :
    Dealt null addr' next' heads cells lists := by
  refine ⟨fun a ha => ?_, h.nodup, h.mem_cells, h.apart, h.heads_apart⟩
  rw [hnext a (.inl ha)]
  apply (h.linked a ha).congr
  · exact fun x hx => haddr x (h.mem_of_mem ha hx)
  · exact fun x hx => hnext x (.inr (h.mem_of_mem ha hx))

theorem nodup_cons (h : Dealt null addr next heads cells lists) (ha : a ∈ heads) :
    (a :: lists a).Nodup :=
  List.nodup_cons.mpr ⟨fun hmem => h.heads_apart a ha (h.mem_of_mem ha hmem), h.nodup a ha⟩

theorem previous (hl : lists a = xs ++ x :: ys) :
    (a :: xs).getLast (List.cons_ne_nil a xs) = a ∨
      (a :: xs).getLast (List.cons_ne_nil a xs) ∈ lists a := by
  rcases List.mem_cons.mp (List.getLast_mem (List.cons_ne_nil a xs)) with hlast | hlast
  · exact .inl hlast
  · exact .inr (hl ▸ List.mem_append_left _ hlast)

theorem previous_ne (h : Dealt null addr next heads cells lists) (ha : a ∈ heads)
    (hl : lists a = xs ++ x :: ys) : (a :: xs).getLast (List.cons_ne_nil a xs) ≠ x := by
  have hnodup := h.nodup_cons ha
  rw [hl, ← List.cons_append] at hnodup
  intro hlast
  exact List.disjoint_of_nodup_append hnodup (hlast ▸ List.getLast_mem _) List.mem_cons_self

theorem previous_ne_of_ne (h : Dealt null addr next heads cells lists) (ha : a ∈ heads)
    (hb : b ∈ heads) (hab : a ≠ b) (hl : lists a = xs ++ x :: ys) :
    (a :: xs).getLast (List.cons_ne_nil a xs) ≠ b ∧
      (a :: xs).getLast (List.cons_ne_nil a xs) ∉ lists b := by
  rcases previous hl with hlast | hlast
  · rw [hlast]
    exact ⟨hab, fun hmem => h.heads_apart a ha (h.mem_of_mem hb hmem)⟩
  · exact ⟨h.ne_of_mem hb (h.mem_of_mem ha hlast), fun hmem => hab (h.apart a ha b hb _ hlast hmem)⟩

end Dealt

variable [DecidableEq κ]

theorem Links.update_of_notMem (h : Links null addr next p xs) (hx : x ∉ xs) (v : ι) :
    Links null addr (Function.update next x v) p xs := by
  apply h.congr fun _ _ => rfl
  intro y hy
  apply Function.update_of_ne
  rintro rfl
  exact hx hy

theorem Links.unlink (h : Links null addr next (next a) (xs ++ x :: ys))
    (hnodup : (a :: (xs ++ x :: ys)).Nodup) :
    Links null addr (Function.update next ((a :: xs).getLast (List.cons_ne_nil a xs)) (next x))
      (Function.update next ((a :: xs).getLast (List.cons_ne_nil a xs)) (next x) a) (xs ++ ys) := by
  induction xs generalizing a with
  | nil =>
    have ha : a ∉ ys := fun ha =>
      (List.nodup_cons.mp hnodup).1 (List.mem_cons_of_mem x ha)
    rw [List.getLast_singleton, Function.update_self]
    exact h.2.2.update_of_notMem ha _
  | cons b xs ih =>
    obtain ⟨hb, hne, h⟩ := h
    have htail : (b :: (xs ++ x :: ys)).Nodup := (List.nodup_cons.mp hnodup).2
    have hlast : (b :: xs).getLast (List.cons_ne_nil b xs) ≠ a := by
      intro hl
      apply (List.nodup_cons.mp hnodup).1
      rw [← hl, List.cons_append, ← List.cons_append]
      exact List.mem_append_left _ (List.getLast_mem _)
    rw [List.getLast_cons (List.cons_ne_nil b xs), Function.update_of_ne hlast.symm]
    exact ⟨hb, hne, ih h htail⟩

namespace Dealt
variable {heads cells : Set κ} {lists : κ → List κ}

theorem mem_remove_iff (h : Dealt null addr next heads cells lists) (ha : a ∈ heads) (hb : b ∈ heads)
    (hl : lists a = xs ++ x :: ys) :
    y ∈ Function.update lists a (xs ++ ys) b ↔ y ∈ lists b ∧ y ≠ x := by
  have hx : x ∈ lists a := by
    rw [hl]
    exact List.mem_append_right xs List.mem_cons_self
  by_cases hba : b = a
  · have hnodup : (xs ++ x :: ys).Nodup := hl ▸ h.nodup a ha
    have hxs : x ∉ xs ++ ys := (List.nodup_cons.mp (List.nodup_middle.mp hnodup)).1
    rw [hba, Function.update_self, hl]
    simp only [List.mem_append, List.mem_cons] at hxs ⊢
    constructor
    · intro hy
      refine ⟨hy.imp_right .inr, ?_⟩
      rintro rfl
      exact hxs hy
    · tauto
  · rw [Function.update_of_ne hba]
    refine ⟨fun hy => ⟨hy, ?_⟩, And.left⟩
    rintro rfl
    exact hba (h.apart b hb a ha y hy hx)

theorem remove (h : Dealt null addr next heads cells lists) (ha : a ∈ heads)
    (hl : lists a = xs ++ x :: ys) :
    Dealt null addr (Function.update next ((a :: xs).getLast (List.cons_ne_nil a xs)) (next x))
      heads (cells \ {x}) (Function.update lists a (xs ++ ys)) := by
  refine ⟨fun b hb => ?_, fun b hb => ?_, fun y => ?_, fun b hb c hc y hy hy' => ?_, fun b hb hbx => ?_⟩
  · by_cases hba : b = a
    · subst hba
      rw [Function.update_self]
      apply (hl ▸ h.linked b hb).unlink
      exact hl ▸ h.nodup_cons hb
    · obtain ⟨hne, hnot⟩ := h.previous_ne_of_ne ha hb (Ne.symm hba) hl
      rw [Function.update_of_ne hba, Function.update_of_ne hne.symm]
      exact (h.linked b hb).update_of_notMem hnot _
  · by_cases hba : b = a
    · have hsub : (xs ++ ys).Sublist (lists a) := by
        rw [hl]
        exact (List.Sublist.refl xs).append (List.sublist_cons_self x ys)
      rw [hba, Function.update_self]
      exact hsub.nodup (h.nodup a ha)
    · rw [Function.update_of_ne hba]
      exact h.nodup b hb
  · rw [Set.mem_sdiff, Set.mem_singleton_iff, h.mem_cells]
    constructor
    · rintro ⟨⟨b, hb, hy⟩, hyx⟩
      exact ⟨b, hb, (h.mem_remove_iff ha hb hl).mpr ⟨hy, hyx⟩⟩
    · rintro ⟨b, hb, hy⟩
      obtain ⟨hy, hyx⟩ := (h.mem_remove_iff ha hb hl).mp hy
      exact ⟨⟨b, hb, hy⟩, hyx⟩
  · apply h.apart b hb c hc y
    · exact ((h.mem_remove_iff ha hb hl).mp hy).1
    · exact ((h.mem_remove_iff ha hc hl).mp hy').1
  · exact h.heads_apart b hb hbx.1

theorem mem_push_iff : y ∈ Function.update lists a (x :: lists a) b ↔
    (b = a ∧ y = x) ∨ y ∈ lists b := by
  by_cases hba : b = a
  · rw [hba, Function.update_self, List.mem_cons, and_iff_right rfl]
  · rw [Function.update_of_ne hba]
    tauto

theorem push (h : Dealt null addr next heads cells lists) (ha : a ∈ heads) (hx : x ∉ cells)
    (hheads : x ∉ heads) (haddr : addr x ≠ null) :
    Dealt null addr (Function.update (Function.update next x (next a)) a (addr x)) heads
      (insert x cells) (Function.update lists a (x :: lists a)) := by
  have hnot : ∀ b ∈ heads, x ∉ lists b := fun b hb hmem => hx (h.mem_of_mem hb hmem)
  have hne : ∀ b ∈ heads, x ≠ b := fun b hb hxb => hheads (hxb.symm ▸ hb)
  have hold : ∀ b ∈ heads, ∀ q, Links null addr next q (lists b) →
      Links null addr (Function.update (Function.update next x (next a)) a (addr x)) q (lists b) := by
    intro b hb q hq
    apply (hq.update_of_notMem (hnot b hb) _).update_of_notMem
    exact fun hmem => h.heads_apart a ha (h.mem_of_mem hb hmem)
  refine ⟨fun b hb => ?_, fun b hb => ?_, fun y => ?_, fun b hb c hc y hy hy' => ?_, fun b hb hbx => ?_⟩
  · by_cases hba : b = a
    · subst hba
      rw [Function.update_self, Function.update_self]
      refine ⟨rfl, haddr, ?_⟩
      rw [Function.update_of_ne (hne b hb), Function.update_self]
      exact hold b hb _ (h.linked b hb)
    · rw [Function.update_of_ne hba, Function.update_of_ne hba, Function.update_of_ne (hne b hb).symm]
      exact hold b hb _ (h.linked b hb)
  · by_cases hba : b = a
    · rw [hba, Function.update_self]
      exact List.nodup_cons.mpr ⟨hnot a ha, h.nodup a ha⟩
    · rw [Function.update_of_ne hba]
      exact h.nodup b hb
  · rw [Set.mem_insert_iff, h.mem_cells]
    simp only [mem_push_iff]
    constructor
    · rintro (hyx | ⟨b, hb, hy⟩)
      · exact ⟨a, ha, .inl ⟨rfl, hyx⟩⟩
      · exact ⟨b, hb, .inr hy⟩
    · rintro ⟨b, hb, ⟨-, hyx⟩ | hy⟩
      · exact .inl hyx
      · exact .inr ⟨b, hb, hy⟩
  · rw [mem_push_iff] at hy hy'
    obtain ⟨rfl, rfl⟩ | hy := hy
    · obtain ⟨rfl, -⟩ | hy' := hy'
      · rfl
      · exact absurd hy' (hnot c hc)
    · obtain ⟨rfl, rfl⟩ | hy' := hy'
      · exact absurd hy (hnot b hb)
      · exact h.apart b hb c hc y hy hy'
  · rcases Set.mem_insert_iff.mp hbx with rfl | hb'
    · exact hheads hb
    · exact h.heads_apart b hb hb'

end Dealt
end CLib.Base
