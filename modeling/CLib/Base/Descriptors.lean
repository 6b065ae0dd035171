import Mathlib.Data.Finset.Basic
import Mathlib.Data.Finset.Lattice.Lemmas
import Mathlib.Tactic.Common

namespace CLib.Base

/-- A step on a table of open descriptors. -/
inductive FdAction
  | opens (fd : ℕ)
  | closes (fd : ℕ)
  deriving DecidableEq

/-- The open descriptors after the actions; closing one that is not open does nothing. -/
def openAfter : Finset ℕ → List FdAction → Finset ℕ
  | table, [] => table
  | table, .opens fd :: as => openAfter (insert fd table) as
  | table, .closes fd :: as => openAfter (table.erase fd) as

/-- Every descriptor that is opened is free in the table at that time. -/
def Fresh : Finset ℕ → List FdAction → Prop
  | _, [] => True
  | table, .opens fd :: as => fd ∉ table ∧ Fresh (insert fd table) as
  | table, .closes fd :: as => Fresh (table.erase fd) as

/-- Every descriptor that is closed is one of `own`, or was opened by the actions. -/
def ClosesOwn : Finset ℕ → List FdAction → Prop
  | _, [] => True
  | own, .opens fd :: as => ClosesOwn (insert fd own) as
  | own, .closes fd :: as => fd ∈ own ∧ ClosesOwn (own.erase fd) as

/-- Actions that close only their own descriptors leave the others alone. -/
theorem openAfter_union {table own : Finset ℕ} {as : List FdAction} (hdisj : Disjoint table own)
    (hfresh : Fresh (table ∪ own) as) (hown : ClosesOwn own as) :
    openAfter (table ∪ own) as = table ∪ openAfter own as := by
  induction as generalizing own with
  | nil => rfl
  | cons a as ih =>
    cases a with
    | opens fd =>
      obtain ⟨hfd, hfresh⟩ := hfresh
      have hinsert : insert fd (table ∪ own) = table ∪ insert fd own :=
        (Finset.union_insert fd table own).symm
      have hnot : fd ∉ table := fun h => hfd (Finset.mem_union_left own h)
      rw [openAfter, openAfter, hinsert]
      rw [hinsert] at hfresh
      exact ih (Finset.disjoint_insert_right.mpr ⟨hnot, hdisj⟩) hfresh hown
    | closes fd =>
      obtain ⟨hfd, hown⟩ := hown
      have hnot : fd ∉ table := Finset.disjoint_right.mp hdisj hfd
      have herase : (table ∪ own).erase fd = table ∪ own.erase fd := by
        rw [Finset.erase_union_distrib, Finset.erase_eq_of_notMem hnot]
      rw [openAfter, openAfter, herase]
      rw [Fresh, herase] at hfresh
      exact ih (hdisj.mono_right (Finset.erase_subset fd own)) hfresh hown

/-- The frame rule: actions that close only what they opened, and all of it, leave the
table as it was. -/
theorem openAfter_of_closesOwn {table : Finset ℕ} {as : List FdAction} (hfresh : Fresh table as)
    (hown : ClosesOwn ∅ as) (hnone : openAfter ∅ as = ∅) : openAfter table as = table := by
  have h := openAfter_union (Finset.disjoint_empty_right table)
    (by rwa [Finset.union_empty]) hown
  rwa [Finset.union_empty, hnone, Finset.union_empty] at h

end CLib.Base
