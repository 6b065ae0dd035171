import CLib.Base.Mutex
import CLib.Objects.Threads

namespace CLib.Objects
open CLib.Base

namespace Pc
variable {π : Type}

/-- The thread holds `hashlock`. -/
def holdsHash : Pc π → Bool
  | .allocNext _ | .allocHead _ | .allocFooLock _ | .allocUnlock _ | .findHead _ | .findTest _ _
  | .findUnlock _ | .retryFooLock _ | .retryTest _ | .retryCount _ | .leaveFooUnlock _ | .leaveUnlock
  | .removeHead _ | .removeSearch _ _ | .removeNext _ _ | .freeUnlock _ => true
  | .holdLock finding _ | .holdCount finding _ | .holdUnlock finding _ => finding
  | _ => false

/-- The object whose `f_lock` the thread holds. -/
def locked : Pc π → Option π
  | .allocUnlock fp | .allocFooUnlock fp | .holdCount _ fp | .holdUnlock _ fp | .releTest fp
  | .releCount fp | .releFooUnlock fp | .retryFooUnlock fp | .retryTest fp | .retryCount fp
  | .leaveFooUnlock fp | .removeHead fp | .removeSearch fp _ | .removeNext fp _ | .freeUnlock fp
  | .freeFooUnlock fp => some fp
  | _ => none

/-- The object that a call has a reference to: one that it is going to return, or that it
has not given back yet. -/
def carried : Pc π → Option π
  | .allocLock fp | .allocNext fp | .allocHead fp | .allocFooLock fp | .allocUnlock fp
  | .allocFooUnlock fp | .holdUnlock _ fp | .findUnlock (some fp) | .releLock fp | .releTest fp
  | .releCount fp | .retryFooUnlock fp | .retryLock fp | .retryFooLock fp | .retryTest fp
  | .retryCount fp | .removeHead fp | .removeSearch fp _ | .removeNext fp _ | .freeUnlock fp
  | .freeFooUnlock fp | .free fp => some fp
  | _ => none

/-- The object to which there is no other reference. -/
def sole : Pc π → Option π
  | .allocLock fp | .allocNext fp | .allocHead fp | .removeHead fp | .removeSearch fp _
  | .removeNext fp _ | .freeUnlock fp | .freeFooUnlock fp | .free fp => some fp
  | _ => none

/-- The object that is not in the table, either not yet or not any more. -/
def unlinked : Pc π → Option π
  | .allocLock fp | .allocNext fp | .allocHead fp | .freeUnlock fp | .freeFooUnlock fp
  | .free fp => some fp
  | _ => none

/-- The object whose count has been seen not to be 1. -/
def shared : Pc π → Option π
  | .releCount fp | .retryCount fp => some fp
  | _ => none

/-- The object that `foo_hold` has been called on by a caller with a reference. -/
def given : Pc π → Option π
  | .holdLock false fp | .holdCount false fp => some fp
  | _ => none

variable {pc : Pc π} {p : π}

theorem carried_of_sole (h : pc.sole = some p) : pc.carried = some p := by
  cases pc <;> first | exact h | cases h

theorem sole_of_unlinked (h : pc.unlinked = some p) : pc.sole = some p := by
  cases pc <;> first | exact h | cases h

theorem locked_of_shared (h : pc.shared = some p) : pc.locked = some p := by
  cases pc <;> first | exact h | cases h

theorem carried_of_shared (h : pc.shared = some p) : pc.carried = some p := by
  cases pc <;> first | exact h | cases h

/-- The last reference is given up under `hashlock` until the object is out of the table. -/
theorem holdsHash_or_unlinked_of_sole (h : pc.sole = some p) :
    pc.holdsHash ∨ pc.unlinked = some p := by
  cases pc <;> cases h <;> first | exact .inr rfl | exact .inl rfl

end Pc

variable {ι π : Type} [DecidableEq π]

/-- The references of a thread to an object. -/
def Thread.weight (p : π) (x : Thread π) : ℕ := x.refs p + if x.pc.carried = some p then 1 else 0

theorem Thread.weight_of_carried {p : π} {x : Thread π} (h : x.pc.carried = some p) :
    x.weight p = x.refs p + 1 := by rw [weight, if_pos h]

theorem Thread.weight_of_not_carried {p : π} {x : Thread π} (h : x.pc.carried ≠ some p) :
    x.weight p = x.refs p := by rw [weight, if_neg h, Nat.add_zero]

theorem Thread.weight_of_ne {p q : π} {x : Thread π} (h : x.pc.carried = some p) (hq : q ≠ p) :
    x.weight q = x.refs q := by
  apply weight_of_not_carried
  rw [h]
  exact fun heq => hq (Option.some.inj heq).symm

theorem Thread.weight_pos_of_carried {p : π} {x : Thread π} (h : x.pc.carried = some p) :
    0 < x.weight p := by
  rw [weight_of_carried h]
  exact Nat.succ_pos _

theorem Thread.weight_gain (x : Thread π) (p q : π) :
    (x.gain p).weight q = x.weight q + if q = p then 1 else 0 := by
  rw [weight, weight, pc_gain, refs_gain]
  by_cases hq : q = p
  · rw [hq, Function.update_self, if_pos rfl]
    omega
  · rw [Function.update_of_ne hq, if_neg hq, Nat.add_zero]

theorem Thread.weight_lose {x : Thread π} {p : π} (hp : 0 < x.refs p) (q : π) :
    (x.lose p).weight q + (if q = p then 1 else 0) = x.weight q := by
  rw [weight, weight, pc_lose, refs_lose]
  by_cases hq : q = p
  · rw [hq, Function.update_self, if_pos rfl]
    omega
  · rw [Function.update_of_ne hq, if_neg hq, Nat.add_zero]

namespace State
variable {s t : State ι π} {i j : ι} {p : π} {x : Thread π} {f : Foo ι π}

def owner (s : State ι π) (p : π) : Option ι := (s.foo p).bind Foo.lock

def count (s : State ι π) (p : π) : ℤ := ((s.foo p).map fun f => f.count.toInt).getD 0

omit [DecidableEq π] in
theorem owner_of_foo (hf : s.foo p = some f) : s.owner p = f.lock := by
  rw [owner, hf, Option.bind_some]

omit [DecidableEq π] in
theorem count_of_foo (hf : s.foo p = some f) : s.count p = f.count.toInt := by
  rw [count, hf, Option.map_some, Option.getD_some]

/-- What the place of a thread says about the counts. -/
structure Settled (s : State ι π) (x : Thread π) : Prop where
  sole : ∀ p, x.pc.sole = some p → s.count p = 1
  shared : ∀ p, x.pc.shared = some p → 1 < s.count p
  free : ∀ p, x.pc = .free p → s.owner p = none
  given : ∀ p, x.pc.given = some p → 0 < x.refs p

/-- Each mutex has the owner that its threads know, and each object counts its references. -/
structure Counted [Fintype ι] (s : State ι π) : Prop where
  hash : OwnedBy (fun x : Thread π => x.pc.holdsHash) id s.threads s.hashlock
  lock : ∀ p, OwnedBy (fun x : Thread π => decide (x.pc.locked = some p)) id s.threads (s.owner p)
  count : ∀ p, s.count p = tally (Thread.weight p) s.threads
  alive : ∀ p, s.foo p ≠ none → 0 < s.count p
  settled : ∀ i, s.Settled (s.threads i)

/-- A thread has a right to follow a pointer: it has a reference, or it has come through the
table under `hashlock`. -/
def Handle (s : State ι π) (i : ι) (p : π) : Prop :=
  0 < (s.threads i).weight p ∨
    (s.threads i).pc.holdsHash ∧ s.foo p ≠ none ∧ ∀ j, (s.threads j).pc.unlinked ≠ some p

omit [DecidableEq π] in
theorem foo_ne_none_of_count (h : 0 < s.count p) : s.foo p ≠ none := by
  intro hp
  rw [State.count, hp] at h
  exact lt_irrefl _ h

namespace Counted
variable [Fintype ι]

theorem weight_le (h : Counted s) (i : ι) (p : π) : ((s.threads i).weight p : ℤ) ≤ s.count p := by
  rw [h.count]
  exact_mod_cast le_tally (Thread.weight p) s.threads i

theorem exists_foo_of_weight (h : Counted s) (hi : 0 < (s.threads i).weight p) :
    ∃ f, s.foo p = some f := by
  apply Option.ne_none_iff_exists'.mp
  apply foo_ne_none_of_count
  have hle := h.weight_le i p
  omega

theorem exists_foo_of_handle (h : Counted s) (hi : Handle s i p) : ∃ f, s.foo p = some f := by
  rcases hi with hi | ⟨-, hp, -⟩
  · exact h.exists_foo_of_weight hi
  · exact Option.ne_none_iff_exists'.mp hp

theorem owner_of_locked (h : Counted s) (hi : (s.threads i).pc.locked = some p) :
    s.owner p = some i := (h.lock p i).mp (decide_eq_true hi)

theorem exists_foo_of_locked (h : Counted s) (hi : (s.threads i).pc.locked = some p) :
    ∃ f, s.foo p = some f := by
  apply Option.ne_none_iff_exists'.mp
  intro hp
  have howner := h.owner_of_locked hi
  rw [owner, hp] at howner
  cases howner

theorem eq_of_locked (h : Counted s) (hi : (s.threads i).pc.locked = some p)
    (hj : (s.threads j).pc.locked = some p) : j = i :=
  Option.some.inj ((h.owner_of_locked hj).symm.trans (h.owner_of_locked hi))

theorem eq_of_holdsHash (h : Counted s) (hi : (s.threads i).pc.holdsHash)
    (hj : (s.threads j).pc.holdsHash) : j = i :=
  Option.some.inj (((h.hash j).mp hj).symm.trans ((h.hash i).mp hi))

theorem weight_eq_zero (h : Counted s) (hp : s.foo p = none) (i : ι) :
    (s.threads i).weight p = 0 := by
  have hle := h.weight_le i p
  have hzero : s.count p = 0 := by
    rw [State.count, hp]
    rfl
  omega

variable [DecidableEq ι]

theorem eq_of_sole (h : Counted s) (hj : (s.threads j).pc.sole = some p)
    (hi : 0 < (s.threads i).weight p) : j = i := by
  by_contra hne
  have hcount := h.count p
  rw [(h.settled j).sole p hj] at hcount
  have hwj := Thread.weight_pos_of_carried (Pc.carried_of_sole hj)
  have hupdate := tally_update (Thread.weight p) s.threads j ⟨.idle, fun _ => 0⟩
  have hrest := le_tally (Thread.weight p) (Function.update s.threads j ⟨.idle, fun _ => 0⟩) i
  rw [Function.update_of_ne (Ne.symm hne)] at hrest
  have hzero : Thread.weight p (⟨.idle, fun _ => 0⟩ : Thread π) = 0 := rfl
  omega

theorem eq_of_sole_of_handle (h : Counted s) (hj : (s.threads j).pc.sole = some p)
    (hi : Handle s i p) : j = i := by
  rcases hi with hi | ⟨hi, -, hlinked⟩
  · exact h.eq_of_sole hj hi
  · rcases Pc.holdsHash_or_unlinked_of_sole hj with hhash | hunlinked
    · exact h.eq_of_holdsHash hi hhash
    · exact absurd hunlinked (hlinked j)

theorem goto (h : Counted s) (hthreads : t.threads = Function.update s.threads i x)
    (hhash : OwnedBy (fun x : Thread π => x.pc.holdsHash) id t.threads t.hashlock)
    (howner : t.owner = s.owner) (hcount : t.count = s.count)
    (halive : ∀ p, t.foo p ≠ none → s.foo p ≠ none)
    (hlocked : x.pc.locked = (s.threads i).pc.locked)
    (hweight : ∀ p, x.weight p = (s.threads i).weight p) (hx : s.Settled x) : Counted t := by
  refine ⟨hhash, fun p => ?_, fun p => ?_, fun p hp => ?_, fun j => ?_⟩
  · rw [hthreads, howner]
    exact (h.lock p).keep (by rw [hlocked])
  · have hupdate := tally_update (Thread.weight p) s.threads i x
    rw [hweight] at hupdate
    rw [hcount, h.count, hthreads]
    omega
  · rw [hcount]
    exact h.alive p (halive p hp)
  · have hsettled : s.Settled (t.threads j) := by
      rw [hthreads]
      by_cases hj : j = i
      · rw [hj, Function.update_self]
        exact hx
      · rw [Function.update_of_ne hj]
        exact h.settled j
    obtain ⟨hsole, hshared, hfree, hgiven⟩ := hsettled
    rw [← hcount] at hsole hshared
    rw [← howner] at hfree
    exact ⟨hsole, hshared, hfree, hgiven⟩

end Counted

theorem owner_setFoo (s : State ι π) (p : π) (f : Foo ι π) :
    (s.setFoo p f).owner = Function.update s.owner p f.lock := by
  funext q
  by_cases hq : q = p
  · rw [hq, Function.update_self, owner, foo_setFoo, Function.update_self, Option.bind_some]
  · rw [Function.update_of_ne hq, owner, foo_setFoo, Function.update_of_ne hq, owner]

theorem count_setFoo (s : State ι π) (p : π) (f : Foo ι π) :
    (s.setFoo p f).count = Function.update s.count p f.count.toInt := by
  funext q
  by_cases hq : q = p
  · rw [hq, Function.update_self, State.count, foo_setFoo, Function.update_self, Option.map_some,
      Option.getD_some]
  · rw [Function.update_of_ne hq, State.count, foo_setFoo, Function.update_of_ne hq, State.count]

theorem count_setLock (hf : s.foo p = some f) (m : Option ι) :
    (s.setFoo p { f with lock := m }).count = s.count := by
  have hself : Function.update s.count p f.count.toInt = s.count :=
    Function.update_eq_self_iff.mpr (count_of_foo hf).symm
  exact (count_setFoo s p _).trans hself

theorem owner_setCount (hf : s.foo p = some f) (n : Int32) :
    (s.setFoo p { f with count := n }).owner = s.owner := by
  have hself : Function.update s.owner p f.lock = s.owner :=
    Function.update_eq_self_iff.mpr (owner_of_foo hf).symm
  exact (owner_setFoo s p _).trans hself

theorem foo_setFoo_ne_none {q : π} (hf : s.foo p = some f) (f' : Foo ι π)
    (hq : (s.setFoo p f').foo q ≠ none) : s.foo q ≠ none := by
  by_cases hqp : q = p
  · rw [hqp, hf]
    exact Option.some_ne_none f
  · rwa [foo_setFoo, Function.update_of_ne hqp] at hq

namespace Counted
variable [Fintype ι] [DecidableEq ι]

theorem setLock (h : Counted s) (hf : s.foo p = some f) {m : Option ι}
    (hlock : OwnedBy (fun x : Thread π => decide (x.pc.locked = some p)) id
      (Function.update s.threads i x) m)
    (hlocked : ∀ q, q ≠ p → (x.pc.locked = some q ↔ (s.threads i).pc.locked = some q))
    (hhash : x.pc.holdsHash = (s.threads i).pc.holdsHash)
    (hweight : ∀ q, x.weight q = (s.threads i).weight q)
    (hfree : ∀ j, j ≠ i → (s.threads j).pc = .free p → m = none)
    (hx : ((s.setFoo p { f with lock := m }).setThread i x).Settled x) :
    Counted ((s.setFoo p { f with lock := m }).setThread i x) := by
  have howner : ((s.setFoo p { f with lock := m }).setThread i x).owner =
      Function.update s.owner p m := owner_setFoo s p _
  have hcount : ((s.setFoo p { f with lock := m }).setThread i x).count = s.count :=
    count_setLock hf m
  refine ⟨h.hash.keep hhash, fun q => ?_, fun q => ?_, fun q hq => ?_, fun j => ?_⟩
  · rw [howner]
    by_cases hq : q = p
    · rw [hq, Function.update_self]
      exact hlock
    · rw [Function.update_of_ne hq]
      exact (h.lock q).keep (decide_eq_decide.mpr (hlocked q hq))
  · have hupdate := tally_update (Thread.weight q) s.threads i x
    rw [hweight] at hupdate
    have htally : tally (Thread.weight q) (Function.update s.threads i x) =
        tally (Thread.weight q) s.threads := by omega
    rw [hcount, h.count]
    exact congrArg Nat.cast htally.symm
  · rw [hcount]
    exact h.alive q (foo_setFoo_ne_none hf _ hq)
  · by_cases hj : j = i
    · subst hj
      rw [threads_setThread, Function.update_self]
      exact hx
    · obtain ⟨hsole, hshared, hfree', hgiven⟩ := h.settled j
      rw [threads_setThread, Function.update_of_ne hj, threads_setFoo]
      refine ⟨?_, ?_, fun q hq => ?_, hgiven⟩
      · rw [hcount]
        exact hsole
      · rw [hcount]
        exact hshared
      · rw [howner]
        by_cases hqp : q = p
        · rw [hqp, Function.update_self]
          exact hfree j hj (hqp ▸ hq)
        · rw [Function.update_of_ne hqp]
          exact hfree' q hq

theorem setCount (h : Counted s) (hf : s.foo p = some f) {n : Int32}
    (hi : (s.threads i).pc.locked = some p) (hlocked : x.pc.locked = some p)
    (hhash : x.pc.holdsHash = (s.threads i).pc.holdsHash)
    (hn : (x.weight p : ℤ) = (s.threads i).weight p + n.toInt)
    (hadd : (f.count + n).toInt = f.count.toInt + n.toInt)
    (hweight : ∀ q, q ≠ p → x.weight q = (s.threads i).weight q) (hpos : 0 < f.count.toInt + n.toInt)
    (hsole : ∀ j, (s.threads j).pc.sole = some p → j = i)
    (hx : ((s.setFoo p { f with count := f.count + n }).setThread i x).Settled x) :
    Counted ((s.setFoo p { f with count := f.count + n }).setThread i x) := by
  have hcount : ((s.setFoo p { f with count := f.count + n }).setThread i x).count =
      Function.update s.count p (f.count.toInt + n.toInt) := by
    rw [← hadd]
    exact count_setFoo s p _
  have howner : ((s.setFoo p { f with count := f.count + n }).setThread i x).owner = s.owner :=
    owner_setCount hf _
  refine ⟨h.hash.keep hhash, fun q => ?_, fun q => ?_, fun q hq => ?_, fun j => ?_⟩
  · rw [howner]
    exact (h.lock q).keep (by rw [hlocked, hi])
  · have hupdate := tally_update (Thread.weight q) s.threads i x
    have hcast : (tally (Thread.weight q) (Function.update s.threads i x) : ℤ) +
        (s.threads i).weight q = tally (Thread.weight q) s.threads + x.weight q := by
      exact_mod_cast hupdate
    have hold := h.count q
    show _ = ((tally (Thread.weight q) (Function.update s.threads i x) : ℕ) : ℤ)
    rw [hcount]
    by_cases hq : q = p
    · subst hq
      rw [Function.update_self]
      rw [count_of_foo hf] at hold
      omega
    · rw [Function.update_of_ne hq]
      rw [hweight q hq] at hcast
      omega
  · rw [hcount]
    by_cases hqp : q = p
    · rw [hqp, Function.update_self]
      exact hpos
    · rw [Function.update_of_ne hqp]
      exact h.alive q (foo_setFoo_ne_none hf _ hq)
  · by_cases hj : j = i
    · subst hj
      rw [threads_setThread, Function.update_self]
      exact hx
    · obtain ⟨hsole', hshared, hfree, hgiven⟩ := h.settled j
      rw [threads_setThread, Function.update_of_ne hj, threads_setFoo]
      refine ⟨fun q hq => ?_, fun q hq => ?_, ?_, hgiven⟩
      · rw [hcount, Function.update_of_ne]
        · exact hsole' q hq
        · exact fun hqp => hj (hsole j (hqp ▸ hq))
      · rw [hcount, Function.update_of_ne]
        · exact hshared q hq
        · exact fun hqp => hj (h.eq_of_locked hi (hqp ▸ Pc.locked_of_shared hq))
      · rw [howner]
        exact hfree

/-- A thread gets the only reference to a new object. -/
theorem malloc (h : Counted s) (hp : s.foo p = none) (id : ℤ)
    (hlocked : x.pc.locked = (s.threads i).pc.locked)
    (hhash : x.pc.holdsHash = (s.threads i).pc.holdsHash) (hcarried : x.weight p = 1)
    (hweight : ∀ q, q ≠ p → x.weight q = (s.threads i).weight q)
    (hx : ((s.setFoo p ⟨1, none, id, none⟩).setThread i x).Settled x) :
    Counted ((s.setFoo p ⟨1, none, id, none⟩).setThread i x) := by
  have hcount : ((s.setFoo p ⟨1, none, id, none⟩).setThread i x).count = Function.update s.count p 1 :=
    count_setFoo s p _
  have howner : ((s.setFoo p ⟨1, none, id, none⟩).setThread i x).owner = s.owner := by
    have hset := owner_setFoo s p ⟨1, none, id, none⟩
    have hself : Function.update s.owner p none = s.owner := by
      rw [Function.update_eq_self_iff, owner, hp, Option.bind_none]
    exact hset.trans hself
  have hzero := h.weight_eq_zero hp
  refine ⟨h.hash.keep hhash, fun q => ?_, fun q => ?_, fun q hq => ?_, fun j => ?_⟩
  · rw [howner]
    exact (h.lock q).keep (by rw [hlocked])
  · have hupdate := tally_update (Thread.weight q) s.threads i x
    rw [hcount, threads_setThread, threads_setFoo]
    by_cases hqp : q = p
    · subst hqp
      rw [CLib.Base.tally_eq_zero hzero, hzero, hcarried] at hupdate
      rw [Function.update_self]
      omega
    · rw [hweight q hqp] at hupdate
      rw [Function.update_of_ne hqp, h.count]
      omega
  · rw [hcount]
    by_cases hqp : q = p
    · rw [hqp, Function.update_self]
      exact one_pos
    · rw [Function.update_of_ne hqp]
      have hq' : Function.update s.foo p (some ⟨1, none, id, none⟩) q ≠ none := hq
      rw [Function.update_of_ne hqp] at hq'
      exact h.alive q hq'
  · by_cases hj : j = i
    · subst hj
      rw [threads_setThread, Function.update_self]
      exact hx
    · obtain ⟨hsole, hshared, hfree, hgiven⟩ := h.settled j
      have hne : ∀ q, (s.threads j).pc.carried = some q → q ≠ p := by
        rintro q hq rfl
        have hpos := Thread.weight_pos_of_carried hq
        rw [hzero] at hpos
        exact lt_irrefl _ hpos
      rw [threads_setThread, Function.update_of_ne hj, threads_setFoo]
      refine ⟨fun q hq => ?_, fun q hq => ?_, fun q hq => ?_, hgiven⟩
      · rw [hcount, Function.update_of_ne (hne q (Pc.carried_of_sole hq))]
        exact hsole q hq
      · rw [hcount, Function.update_of_ne (hne q (Pc.carried_of_shared hq))]
        exact hshared q hq
      · rw [howner]
        exact hfree q hq

/-- The thread that has the only reference frees the object, and has none any more. -/
theorem free (h : Counted s) (hi : (s.threads i).pc = .free p)
    (hfoo : t.foo = Function.update s.foo p none) (hhashlock : t.hashlock = s.hashlock)
    (hthreads : t.threads = Function.update s.threads i ⟨.idle, (s.threads i).refs⟩) : Counted t := by
  have hsole : (s.threads i).pc.sole = some p := by rw [hi]; rfl
  have howner : t.owner = s.owner := by
    funext q
    rw [owner, hfoo]
    by_cases hq : q = p
    · rw [hq, (h.settled i).free p hi, Function.update_self, Option.bind_none]
    · rw [Function.update_of_ne hq, owner]
  have hcount : t.count = Function.update s.count p 0 := by
    funext q
    rw [State.count, hfoo]
    by_cases hq : q = p
    · rw [hq, Function.update_self, Function.update_self]
      rfl
    · rw [Function.update_of_ne hq, Function.update_of_ne hq, State.count]
  have hweight : ∀ q, Thread.weight q ⟨.idle, (s.threads i).refs⟩ + (if q = p then 1 else 0) =
      (s.threads i).weight q := by
    intro q
    rw [Thread.weight, Thread.weight, hi]
    simp [Pc.carried, eq_comm]
  refine ⟨?_, fun q => ?_, fun q => ?_, fun q hq => ?_, fun j => ?_⟩
  · rw [hthreads, hhashlock]
    exact h.hash.keep (by rw [hi]; rfl)
  · rw [howner, hthreads]
    exact (h.lock q).keep (by rw [hi]; rfl)
  · have hupdate := tally_update (Thread.weight q) s.threads i ⟨.idle, (s.threads i).refs⟩
    have hq := hweight q
    have hold := h.count q
    rw [hcount, hthreads]
    by_cases hqp : q = p
    · subst hqp
      rw [if_pos rfl] at hq
      rw [(h.settled i).sole q hsole] at hold
      rw [Function.update_self]
      omega
    · rw [if_neg hqp] at hq
      rw [Function.update_of_ne hqp]
      omega
  · rw [hfoo] at hq
    by_cases hqp : q = p
    · rw [hqp, Function.update_self] at hq
      exact absurd rfl hq
    · rw [Function.update_of_ne hqp] at hq
      rw [hcount, Function.update_of_ne hqp]
      exact h.alive q hq
  · rw [hthreads]
    by_cases hj : j = i
    · rw [hj, Function.update_self]
      exact ⟨fun _ hq => (nomatch hq), fun _ hq => (nomatch hq), fun _ hq => (nomatch hq),
        fun _ hq => (nomatch hq)⟩
    · obtain ⟨hsole', hshared, hfree, hgiven⟩ := h.settled j
      have hne : ∀ q, (s.threads j).pc.carried = some q → q ≠ p := by
        rintro q hq rfl
        exact hj (h.eq_of_sole hsole (Thread.weight_pos_of_carried hq)).symm
      rw [Function.update_of_ne hj]
      refine ⟨fun q hq => ?_, fun q hq => ?_, fun q hq => ?_, hgiven⟩
      · rw [hcount, Function.update_of_ne (hne q (Pc.carried_of_sole hq))]
        exact hsole' q hq
      · rw [hcount, Function.update_of_ne (hne q (Pc.carried_of_shared hq))]
        exact hshared q hq
      · rw [howner]
        exact hfree q hq

theorem give (h : Counted s) (ht : s.give i j p = some t) : Counted t := by
  rw [State.give] at ht
  split_ifs at ht with hgive
  obtain ⟨hidle, hpos⟩ := hgive
  let s' := s.setThread i ((s.threads i).lose p)
  obtain rfl : s'.setThread j ((s'.threads j).gain p) = t := Option.some.inj ht
  have hpc' : ∀ k, (s'.threads k).pc = (s.threads k).pc := by
    intro k
    rw [threads_setThread]
    by_cases hk : k = i
    · rw [hk, Function.update_self]
      rfl
    · rw [Function.update_of_ne hk]
  have hpc : ∀ k, ((s'.setThread j ((s'.threads j).gain p)).threads k).pc = (s.threads k).pc := by
    intro k
    rw [threads_setThread]
    by_cases hk : k = j
    · rw [hk, Function.update_self]
      exact hpc' j
    · rw [Function.update_of_ne hk, hpc']
  have hweight : ∀ q, tally (Thread.weight q) (s'.setThread j ((s'.threads j).gain p)).threads =
      tally (Thread.weight q) s.threads := by
    intro q
    have hout := tally_update (Thread.weight q) s.threads i ((s.threads i).lose p)
    have hin := tally_update (Thread.weight q) s'.threads j ((s'.threads j).gain p)
    have hlose := Thread.weight_lose hpos q
    rw [Thread.weight_gain] at hin
    rw [threads_setThread]
    have hs' : s'.threads = Function.update s.threads i ((s.threads i).lose p) := rfl
    rw [hs'] at hin ⊢
    omega
  refine ⟨fun k => ?_, fun q k => ?_, fun q => ?_, h.alive, fun k => ?_⟩
  · dsimp only
    rw [hpc]
    exact h.hash k
  · dsimp only
    rw [hpc]
    exact h.lock q k
  · rw [hweight]
    exact h.count q
  · obtain ⟨hsole, hshared, hfree, hgiven⟩ := h.settled k
    rw [← hpc k] at hsole hshared hfree hgiven
    refine ⟨hsole, hshared, hfree, fun q hq => ?_⟩
    have hk : k ≠ i := by
      rintro rfl
      rw [hpc, hidle] at hq
      cases hq
    have hkk : s'.threads k = s.threads k := Function.update_of_ne hk _ s.threads
    apply (hgiven q hq).trans_le
    rw [threads_setThread]
    by_cases hkj : k = j
    · rw [← hkj, Function.update_self, hkk, Thread.refs_gain]
      by_cases hqp : q = p
      · rw [hqp, Function.update_self]
        exact Nat.le_succ _
      · rw [Function.update_of_ne hqp]
    · rw [Function.update_of_ne hkj, hkk]

end Counted
end State
end CLib.Objects
