import Mathlib.Data.List.Nodup
import Mathlib.Data.List.Perm.Basic
import Mathlib.Logic.Function.Basic
import Mathlib.Tactic.Common

namespace CLib.Base
variable {α κ : Type*}

/-- From `p` the links lead through exactly the elements of the list, and then to `NULL`. -/
def Leads (next : α → Option α) : Option α → List α → Prop
  | p, [] => p = none
  | p, a :: l => p = some a ∧ Leads next (next a) l

theorem Leads.congr {next next' : α → Option α} {p : Option α} {l : List α} (h : Leads next p l)
    (hnext : ∀ a ∈ l, next' a = next a) : Leads next' p l := by
  induction l generalizing p with
  | nil => exact h
  | cons a l ih =>
    refine ⟨h.1, ?_⟩
    rw [hnext a List.mem_cons_self]
    exact ih h.2 fun b hb => hnext b (List.mem_cons_of_mem a hb)

/-- A linked list on which elements are put once and from which each is taken by one taker,
who holds it until he gives it up for good. -/
structure HandedOver (next : α → Option α) (head : Option α) (put : List α)
    (taken given : List (α × κ)) (holds : κ → Option α) : Prop where
  once : put.Nodup
  shared : ∃ l, Leads next head l ∧ (l ++ taken.map Prod.fst).Perm put
  held : ∀ a k, (a, k) ∈ taken ↔ (a, k) ∈ given ∨ holds k = some a
  givenOnce : given.Nodup
  gone : ∀ a k, (a, k) ∈ given → holds k ≠ some a

theorem handedOver_start (next : α → Option α) :
    HandedOver next none [] [] [] (fun _ : κ => none) :=
  ⟨List.nodup_nil, ⟨[], rfl, List.Perm.nil⟩, by simp, List.nodup_nil, by simp⟩

namespace HandedOver
variable {next next' : α → Option α} {head : Option α} {put : List α} {taken given : List (α × κ)}
  {holds : κ → Option α} {a : α} {k l : κ}

theorem takenOnce (h : HandedOver next head put taken given holds) :
    (taken.map Prod.fst).Nodup := by
  obtain ⟨l, -, hperm⟩ := h.shared
  exact (hperm.nodup_iff.mpr h.once).of_append_right

theorem taker_unique (h : HandedOver next head put taken given holds) (hk : (a, k) ∈ taken)
    (hl : (a, l) ∈ taken) : k = l := by
  have heq := List.inj_on_of_nodup_map h.takenOnce hk hl rfl
  exact congrArg Prod.snd heq

theorem mem_put_of_taken (h : HandedOver next head put taken given holds)
    (ha : a ∈ taken.map Prod.fst) : a ∈ put := by
  obtain ⟨l, -, hperm⟩ := h.shared
  exact hperm.mem_iff.mp (List.mem_append_right l ha)

theorem mem_taken_of_given (h : HandedOver next head put taken given holds)
    (ha : a ∈ given.map Prod.fst) : a ∈ taken.map Prod.fst := by
  obtain ⟨⟨a, k⟩, hmem, rfl⟩ := List.mem_map.mp ha
  exact List.mem_map_of_mem ((h.held a k).mpr (.inl hmem))

theorem head_not_taken (h : HandedOver next (some a) put taken given holds) :
    a ∉ taken.map Prod.fst := by
  obtain ⟨l, hl, hperm⟩ := h.shared
  cases l with
  | nil => cases hl
  | cons b l =>
    obtain rfl : a = b := Option.some.inj hl.1
    have hnodup := hperm.nodup_iff.mpr h.once
    exact (List.nodup_append'.mp hnodup).2.2 List.mem_cons_self

theorem head_not_given (h : HandedOver next (some a) put taken given holds) :
    a ∉ given.map Prod.fst :=
  fun ha => h.head_not_taken (h.mem_taken_of_given ha)

theorem held_not_given (h : HandedOver next head put taken given holds) (hk : holds k = some a) :
    a ∉ given.map Prod.fst := by
  intro ha
  obtain ⟨⟨a, l⟩, hmem, rfl⟩ := List.mem_map.mp ha
  have hkl : k = l := h.taker_unique ((h.held a k).mpr (.inr hk)) ((h.held a l).mpr (.inl hmem))
  subst hkl
  exact h.gone a k hmem hk

theorem relink (h : HandedOver next head put taken given holds)
    (hnext : ∀ a ∈ put, next' a = next a) : HandedOver next' head put taken given holds := by
  obtain ⟨l, hl, hperm⟩ := h.shared
  refine ⟨h.once, ⟨l, ?_, hperm⟩, h.held, h.givenOnce, h.gone⟩
  apply hl.congr
  intro a ha
  exact hnext a (hperm.mem_iff.mp (List.mem_append_left _ ha))

theorem push (h : HandedOver next head put taken given holds) (ha : a ∉ put)
    (hnext : next a = head) : HandedOver next (some a) (put ++ [a]) taken given holds := by
  obtain ⟨l, hl, hperm⟩ := h.shared
  refine ⟨?_, ⟨a :: l, ⟨rfl, ?_⟩, ?_⟩, h.held, h.givenOnce, h.gone⟩
  · rw [← List.concat_eq_append]
    exact h.once.concat ha
  · rw [hnext]
    exact hl
  · exact (hperm.cons a).trans (List.perm_append_singleton a put).symm

variable [DecidableEq κ]

theorem take (h : HandedOver next (some a) put taken given holds) (hk : holds k = none) :
    HandedOver next (next a) put (taken ++ [(a, k)]) given (Function.update holds k (some a)) := by
  have hnew := h.head_not_given
  obtain ⟨l, hl, hperm⟩ := h.shared
  refine ⟨h.once, ?_, fun b j => ?_, h.givenOnce, fun b j hb => ?_⟩
  · cases l with
    | nil => cases hl
    | cons b l =>
      obtain ⟨hb, hl⟩ := hl
      obtain rfl : a = b := Option.some.inj hb
      refine ⟨l, hl, List.Perm.trans ?_ hperm⟩
      rw [List.map_append, ← List.append_assoc]
      exact List.perm_append_singleton a _
  · rw [List.mem_append, h.held b j, List.mem_singleton, Prod.mk.injEq]
    by_cases hj : j = k
    · subst hj
      simp [hk, eq_comm]
    · simp [hj]
  · by_cases hj : j = k
    · subst hj
      rw [Function.update_self]
      intro heq
      rw [Option.some.inj heq] at hnew
      exact hnew (List.mem_map_of_mem hb)
    · rw [Function.update_of_ne hj]
      exact h.gone b j hb

theorem give (h : HandedOver next head put taken given holds) (hk : holds k = some a) :
    HandedOver next head put taken (given ++ [(a, k)]) (Function.update holds k none) := by
  have hnew := h.held_not_given hk
  refine ⟨h.once, h.shared, fun b j => ?_, ?_, fun b j hb => ?_⟩
  · rw [List.mem_append, h.held b j, List.mem_singleton, Prod.mk.injEq]
    by_cases hj : j = k
    · subst hj
      simp [hk, eq_comm]
    · simp [hj]
  · rw [← List.concat_eq_append]
    apply h.givenOnce.concat
    exact fun hmem => hnew (List.mem_map_of_mem hmem)
  · by_cases hj : j = k
    · subst hj
      simp
    · rw [Function.update_of_ne hj]
      rcases List.mem_append.mp hb with hb | hb
      · exact h.gone b j hb
      · exact absurd (congrArg Prod.snd (List.mem_singleton.mp hb)) hj

end HandedOver
end CLib.Base
