import CLib.Base.Mutex
import CLib.Jobs.Threads

namespace CLib.Jobs
open CLib.Base
variable {ι π : Type}

namespace Queue
variable {q q' : Queue ι π} {pc pc' : Pc ι π} {l : List π} {p : π}

/-- The list that the pointers of the queue spell, forwards and backwards. -/
def Spells (q : Queue ι π) (l : List π) : Prop := Doubly q.jNext q.jPrev q.qHead q.qTail l

variable [DecidableEq π]

/-- Left alone, the assignments from `pc` on come to the unlock with this list. -/
inductive Finishes : Queue ι π → Pc ι π → List π → Prop
  | unlock {q : Queue ι π} {l : List π} (h : q.Spells l) : Finishes q .unlock l
  | removeUnlock {q : Queue ι π} {l : List π} {p : π} (h : q.Spells l) : Finishes q (.removeUnlock p) l
  | exec {q q' : Queue ι π} {pc pc' : Pc ι π} {l : List π} (h : q.exec pc = some (q', pc'))
      (hq : Finishes q' pc' l) : Finishes q pc l

theorem Spells.insert (h : q.Spells l) (hp : p ∉ l) : q.Finishes (.insertNext p) (p :: l) := by
  have hcons := h.cons hp
  obtain ⟨head, tail, next, prev, id⟩ := q
  refine .exec rfl (.exec rfl ?_)
  cases head with
  | none => exact .exec rfl (.exec rfl (.unlock hcons))
  | some a => exact .exec rfl (.exec rfl (.unlock hcons))

theorem Spells.append (h : q.Spells l) (hp : p ∉ l) : q.Finishes (.appendNext p) (l ++ [p]) := by
  have hconcat := h.concat hp
  obtain ⟨head, tail, next, prev, id⟩ := q
  refine .exec rfl (.exec rfl ?_)
  cases tail with
  | none => exact .exec rfl (.exec rfl (.unlock hconcat))
  | some a => exact .exec rfl (.exec rfl (.unlock hconcat))

theorem exec_removePrev {n : π} (h : q.jNext p = some n) : q.exec (.removePrev p) =
    some ({ q with jPrev := Function.update q.jPrev n (q.jPrev p) }, .removeUnlock p) := by
  rw [exec, h]
  rfl

/-- The job is the only one, the first, the last, or between two others. -/
theorem Spells.remove (h : q.Spells l) (hp : p ∈ l) : q.Finishes (.removeTest p) (l.erase p) := by
  obtain ⟨xs, ys, rfl⟩ := List.append_of_mem hp
  have hxs : p ∉ xs := fun hmem => (List.nodup_append.mp h.nodup).2.2 p hmem p List.mem_cons_self rfl
  have herase : (xs ++ p :: ys).erase p = xs ++ ys := by
    rw [List.erase_append_right _ hxs, List.erase_cons_head]
  have hremove := Doubly.remove h
  have hnext := Doubly.next_eq h
  have hprev := Doubly.prev_eq h
  rw [herase]
  by_cases hfirst : q.qHead = some p
  · rw [Doubly.head_iff h |>.mp hfirst] at hprev
    refine .exec (if_pos hfirst) (.exec rfl ?_)
    by_cases hlast : q.qTail = some p
    · rw [Doubly.tail_iff h |>.mp hlast] at hnext
      refine .exec (if_pos hlast) (.removeUnlock ?_)
      rw [if_pos hfirst, if_pos hlast, hnext, hprev] at hremove
      rw [Spells]
      dsimp only
      rw [hnext]
      exact hremove
    · cases hn : q.jNext p with
      | none =>
        rw [hn] at hnext
        exact absurd ((Doubly.tail_iff h).mpr (List.head?_eq_none_iff.mp hnext.symm)) hlast
      | some n =>
        refine .exec (by rw [Queue.exec, if_neg hlast, hn]; rfl) (.removeUnlock ?_)
        rw [if_pos hfirst, if_neg hlast, hn, hprev] at hremove
        rw [Spells]
        dsimp only
        rw [hprev]
        exact hremove
  · cases hp : q.jPrev p with
    | none =>
      rw [hp] at hprev
      exact absurd ((Doubly.head_iff h).mpr (List.getLast?_eq_none_iff.mp hprev.symm)) hfirst
    | some a =>
      by_cases hlast : q.qTail = some p
      · rw [Doubly.tail_iff h |>.mp hlast] at hnext
        refine .exec ((if_neg hfirst).trans (if_pos hlast)) (.exec rfl
          (.exec (by rw [Queue.exec, hp]; rfl) (.removeUnlock ?_)))
        rw [if_neg hfirst, if_pos hlast, hnext, hp] at hremove
        rw [Spells]
        dsimp only
        rw [hnext]
        exact hremove
      · cases hn : q.jNext p with
        | none =>
          rw [hn] at hnext
          exact absurd ((Doubly.tail_iff h).mpr (List.head?_eq_none_iff.mp hnext.symm)) hlast
        | some n =>
          have hne : p ≠ a := by
            rintro rfl
            rw [hp] at hprev
            exact hxs (List.mem_of_getLast? hprev.symm)
          have hsame : Function.update q.jNext a (q.jNext p) p = some n := by
            rw [Function.update_of_ne hne, hn]
          refine .exec ((if_neg hfirst).trans (if_neg hlast)) (.exec (by rw [Queue.exec, hp]; rfl)
            (.exec (exec_removePrev hsame) (.removeUnlock ?_)))
          rw [if_neg hfirst, if_neg hlast, hn, hp] at hremove
          rw [Spells]
          dsimp only
          rw [hn, hp]
          exact hremove

end Queue
end CLib.Jobs
