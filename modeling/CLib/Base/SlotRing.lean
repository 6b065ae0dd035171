import Mathlib.Data.Int.Order.Basic
import Mathlib.Data.List.Infix
import Mathlib.Data.Nat.ModEq
import Mathlib.Logic.Function.Basic
import Mathlib.Tactic.Common

namespace CLib.Base

/-- A circular buffer, with the items that were written to it and those read from it
in order, and the slots that have been written and not been read since. -/
structure SlotRing (α : Type*) where
  slots : ℤ → α
  unread : ℤ → Bool
  produced : List α
  consumed : List α

namespace SlotRing
variable {α : Type*}

def start (x : α) : SlotRing α := ⟨fun _ => x, fun _ => false, [], []⟩

def write (r : SlotRing α) (j : ℤ) (x : α) : SlotRing α where
  slots := Function.update r.slots j x
  unread := Function.update r.unread j true
  produced := r.produced ++ [x]
  consumed := r.consumed

def read (r : SlotRing α) (j : ℤ) : SlotRing α where
  slots := r.slots
  unread := Function.update r.unread j false
  produced := r.produced
  consumed := r.consumed ++ [r.slots j]

def slot (N k : ℕ) : ℤ := (k % N : ℕ)

/-- A bounded queue: the items between the last one read and the last one written are
in their slots, and there are at most `N` of them. -/
structure Fifo (N : ℕ) (r : SlotRing α) : Prop where
  fifo : r.consumed <+: r.produced
  window : r.produced.length ≤ r.consumed.length + N
  contents : ∀ k, r.consumed.length ≤ k → ∀ x, r.produced[k]? = some x → r.slots (slot N k) = x
  unread_iff : ∀ j, r.unread j = true ↔
    ∃ k, r.consumed.length ≤ k ∧ k < r.produced.length ∧ slot N k = j

theorem slot_nonneg (N k : ℕ) : 0 ≤ slot N k := Int.natCast_nonneg _

theorem slot_lt {N : ℕ} (hN : 1 ≤ N) (k : ℕ) : slot N k < N :=
  Int.ofNat_lt.mpr (Nat.mod_lt k hN)

theorem slot_succ (N k : ℕ) : (slot N k + 1).tmod N = slot N (k + 1) := by
  show (((k % N : ℕ) : ℤ) + 1).tmod N = ((k + 1) % N : ℕ)
  rw [Int.tmod_eq_emod_of_nonneg (by omega), ← Int.natCast_add_one, ← Int.natCast_mod, Nat.mod_add_mod]

theorem slot_inj {N k k' : ℕ} (h : slot N k = slot N k') (hk : k ≤ k') (hk' : k' < k + N) :
    k = k' := by
  have hmod : k % N = k' % N := Int.ofNat.inj h
  have hdvd : N ∣ k' - k := (Nat.modEq_iff_dvd' hk).mp hmod
  have hzero : k' - k = 0 := Nat.eq_zero_of_dvd_of_lt hdvd (by omega)
  omega

theorem fifo_start (N : ℕ) (x : α) : Fifo N (start x) :=
  ⟨List.prefix_rfl, Nat.zero_le _, fun k _ y hy => by simp [start] at hy,
    fun j => ⟨fun h => by simp [start] at h, fun ⟨k, _, hk, _⟩ => by simp [start] at hk⟩⟩

section Operations
variable {N : ℕ} {r : SlotRing α}

/-- With space left, the next slot has been read, and the item that is written is queued. -/
theorem Fifo.write (h : Fifo N r) (hspace : r.produced.length < r.consumed.length + N) (x : α) :
    r.unread (slot N r.produced.length) = false ∧
      Fifo N (r.write (slot N r.produced.length) x) := by
  have hle : r.consumed.length ≤ r.produced.length := h.fifo.length_le
  have hslot : ∀ k, r.consumed.length ≤ k → k < r.produced.length →
      slot N k ≠ slot N r.produced.length := by
    intro k hk hkp heq
    have hkeq := slot_inj heq hkp.le (by omega)
    omega
  constructor
  · by_contra hunread
    rw [Bool.not_eq_false, h.unread_iff] at hunread
    obtain ⟨k, hk, hkp, heq⟩ := hunread
    exact hslot k hk hkp heq
  · refine ⟨h.fifo.trans (List.prefix_append _ _), ?_, fun k hk y hy => ?_, fun j => ?_⟩
    · rw [SlotRing.write, List.length_append, List.length_singleton]
      exact hspace
    · have hy : (r.produced ++ [x])[k]? = some y := hy
      show Function.update r.slots _ x (slot N k) = y
      by_cases hkp : k < r.produced.length
      · rw [List.getElem?_append_left hkp] at hy
        rw [Function.update_of_ne (hslot k hk hkp)]
        exact h.contents k hk y hy
      · have hkeq : k = r.produced.length := by
          have hlen := (List.getElem?_eq_some_iff.mp hy).1
          rw [List.length_append, List.length_singleton] at hlen
          omega
        subst hkeq
        rw [Function.update_self]
        simpa using hy
    · show Function.update r.unread _ true j = true ↔
        ∃ k, r.consumed.length ≤ k ∧ k < (r.produced ++ [x]).length ∧ slot N k = j
      rw [List.length_append, List.length_singleton]
      by_cases hj : j = slot N r.produced.length
      · subst hj
        rw [Function.update_self]
        exact ⟨fun _ => ⟨_, hle, by omega, rfl⟩, fun _ => rfl⟩
      · rw [Function.update_of_ne hj, h.unread_iff]
        constructor
        · intro ⟨k, hk, hkp, heq⟩
          exact ⟨k, hk, by omega, heq⟩
        · intro ⟨k, hk, hkp, heq⟩
          have hne : k ≠ r.produced.length := fun hkeq => hj (by rw [← heq, hkeq])
          exact ⟨k, hk, by omega, heq⟩

/-- With an item queued, the next slot is unread, and it holds the item that is next. -/
theorem Fifo.read (h : Fifo N r) (hitem : r.consumed.length < r.produced.length) :
    r.unread (slot N r.consumed.length) = true ∧ Fifo N (r.read (slot N r.consumed.length)) := by
  have hslot : ∀ k, r.consumed.length < k → k < r.produced.length →
      slot N k ≠ slot N r.consumed.length := by
    intro k hk hkp heq
    have hwindow := h.window
    have hkeq := slot_inj heq.symm hk.le (by omega)
    omega
  have hnext : r.produced[r.consumed.length]? = some (r.slots (slot N r.consumed.length)) := by
    have hget : r.produced[r.consumed.length]? = some r.produced[r.consumed.length] :=
      List.getElem?_eq_getElem hitem
    rw [hget, h.contents _ le_rfl _ hget]
  refine ⟨(h.unread_iff _).mpr ⟨_, le_rfl, hitem, rfl⟩, ?_, ?_, fun k hk x hx => ?_, fun j => ?_⟩
  · obtain ⟨rest, hrest⟩ := h.fifo
    show r.consumed ++ [r.slots _] <+: r.produced
    cases rest with
    | nil => rw [← hrest] at hitem; simp at hitem
    | cons y rest =>
      have hy : r.produced[r.consumed.length]? = some y := by simp [← hrest]
      rw [hy] at hnext
      exact ⟨rest, by rw [← hrest, ← Option.some.inj hnext]; simp⟩
  · show r.produced.length ≤ (r.consumed ++ [_]).length + N
    have hwindow := h.window
    rw [List.length_append]
    omega
  · have hk : r.consumed.length + 1 ≤ k := by simpa [SlotRing.read] using hk
    exact h.contents k (by omega) x hx
  · show Function.update r.unread (slot N r.consumed.length) false j = true ↔
      ∃ k, (r.consumed ++ [r.slots (slot N r.consumed.length)]).length ≤ k ∧
        k < r.produced.length ∧ slot N k = j
    rw [List.length_append, List.length_singleton]
    by_cases hj : j = slot N r.consumed.length
    · subst hj
      rw [Function.update_self]
      constructor
      · intro hfalse
        cases hfalse
      · intro ⟨k, hk, hkp, heq⟩
        exact absurd heq (hslot k hk hkp)
    · rw [Function.update_of_ne hj, h.unread_iff]
      constructor
      · intro ⟨k, hk, hkp, heq⟩
        have hne : k ≠ r.consumed.length := fun hkeq => hj (by rw [← heq, hkeq])
        exact ⟨k, by omega, hkp, heq⟩
      · intro ⟨k, hk, hkp, heq⟩
        exact ⟨k, by omega, hkp, heq⟩

end Operations
end SlotRing
end CLib.Base
