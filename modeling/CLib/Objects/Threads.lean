import CLib.Base.Runs
import Mathlib.Algebra.Ring.Int.Defs
import Mathlib.Logic.Function.Basic

namespace CLib.Objects
open CLib.Base

def nhash : ℕ := 29

/-- `HASH`, which converts the `int` to `unsigned long`. -/
def hash (id : ℤ) : ℕ := (id % 2 ^ 64).toNat % nhash

/-- `struct foo`; `lock` is the owner of `f_lock`. -/
structure Foo (ι π : Type) where
  count : Int32
  lock : Option ι
  id : ℤ
  next : Option π

/-- Program points, each named after what is done next. The flag of `foo_hold` says whether
`foo_find` has called it. -/
inductive Pc (π : Type)
  | idle
  | allocLock (fp : π)
  | allocNext (fp : π)
  | allocHead (fp : π)
  | allocFooLock (fp : π)
  | allocUnlock (fp : π)
  | allocFooUnlock (fp : π)
  | holdLock (finding : Bool) (fp : π)
  | holdCount (finding : Bool) (fp : π)
  | holdUnlock (finding : Bool) (fp : π)
  | findLock (id : ℤ)
  | findHead (id : ℤ)
  | findTest (id : ℤ) (fp : Option π)
  | findUnlock (fp : Option π)
  | releLock (fp : π)
  | releTest (fp : π)
  | releCount (fp : π)
  | releFooUnlock (fp : π)
  | retryFooUnlock (fp : π)
  | retryLock (fp : π)
  | retryFooLock (fp : π)
  | retryTest (fp : π)
  | retryCount (fp : π)
  | leaveFooUnlock (fp : π)
  | leaveUnlock
  | removeHead (fp : π)
  | removeSearch (fp : π) (tfp : Option π)
  | removeNext (fp : π) (tfp : Option π)
  | freeUnlock (fp : π)
  | freeFooUnlock (fp : π)
  | free (fp : π)
  deriving DecidableEq

/-- A thread, and how many references to each object its own code has. -/
structure Thread (π : Type) where
  pc : Pc π
  refs : π → ℕ

section References
variable {π : Type} [DecidableEq π]

def Thread.gain (x : Thread π) (fp : π) : Thread π :=
  { x with refs := Function.update x.refs fp (x.refs fp + 1) }

def Thread.lose (x : Thread π) (fp : π) : Thread π :=
  { x with refs := Function.update x.refs fp (x.refs fp - 1) }

@[simp] theorem Thread.pc_gain (x : Thread π) (fp : π) : (x.gain fp).pc = x.pc := rfl

@[simp] theorem Thread.pc_lose (x : Thread π) (fp : π) : (x.lose fp).pc = x.pc := rfl

@[simp] theorem Thread.refs_gain (x : Thread π) (fp : π) :
    (x.gain fp).refs = Function.update x.refs fp (x.refs fp + 1) := rfl

@[simp] theorem Thread.refs_lose (x : Thread π) (fp : π) :
    (x.lose fp).refs = Function.update x.refs fp (x.refs fp - 1) := rfl

end References

/-- A call that a thread makes. `malloc` returns `fp`, which is not allocated. -/
inductive Call (π : Type)
  | alloc (fp : π) (id : ℤ)
  | hold (fp : π)
  | find (id : ℤ)
  | rele (fp : π)

/-- A thread makes a call, or its next step in one, or leaves one of its references to another. -/
inductive Turn (ι π : Type)
  | call (i : ι) (c : Call π)
  | run (i : ι)
  | give (i j : ι) (fp : π)

/-- The hash table, the owner of `hashlock`, the objects and the threads. In a state with
`fault` some thread has followed a pointer that leads to no object. -/
structure State (ι π : Type) where
  fh : ℕ → Option π
  hashlock : Option ι
  foo : π → Option (Foo ι π)
  threads : ι → Thread π
  fault : Bool

namespace State
variable {ι π : Type}

def start : State ι π where
  fh := fun _ => none
  hashlock := none
  foo := fun _ => none
  threads := fun _ => ⟨.idle, fun _ => 0⟩
  fault := false

section Objects
variable [DecidableEq π]

def setFoo (s : State ι π) (fp : π) (f : Foo ι π) : State ι π :=
  { s with foo := Function.update s.foo fp (some f) }

@[simp] theorem foo_setFoo (s : State ι π) (fp : π) (f : Foo ι π) :
    (s.setFoo fp f).foo = Function.update s.foo fp (some f) := rfl

@[simp] theorem threads_setFoo (s : State ι π) (fp : π) (f : Foo ι π) :
    (s.setFoo fp f).threads = s.threads := rfl

end Objects

/-- A step that follows a pointer. -/
def deref (s : State ι π) (fp : Option π) (k : Foo ι π → Option (State ι π)) : Option (State ι π) :=
  match fp.bind s.foo with
  | none => some { s with fault := true }
  | some f => k f

theorem deref_some {s : State ι π} {fp : π} {f : Foo ι π} (hf : s.foo fp = some f)
    (k : Foo ι π → Option (State ι π)) : s.deref (some fp) k = k f := by
  rw [deref, Option.bind_some, hf]

section Threads
variable [DecidableEq ι]

def setThread (s : State ι π) (i : ι) (x : Thread π) : State ι π :=
  { s with threads := Function.update s.threads i x }

@[simp] theorem threads_setThread (s : State ι π) (i : ι) (x : Thread π) :
    (s.setThread i x).threads = Function.update s.threads i x := rfl

def goto (s : State ι π) (i : ι) (pc : Pc π) : State ι π :=
  s.setThread i ⟨pc, (s.threads i).refs⟩

end Threads

variable [DecidableEq ι] [DecidableEq π]

/-- A call returns a pointer: one reference more. -/
def ret (s : State ι π) (i : ι) (fp : π) : State ι π :=
  s.setThread i { (s.threads i).gain fp with pc := .idle }

/-- `pthread_mutex_lock(&hashlock)`; `none` where the thread has to wait. -/
def lockHash (s : State ι π) (i : ι) (pc : Pc π) : Option (State ι π) :=
  if s.hashlock = none then some ({ s with hashlock := some i }.goto i pc) else none

def unlockHash (s : State ι π) : State ι π := { s with hashlock := none }

def lockFoo (s : State ι π) (i : ι) (fp : π) (pc : Pc π) : Option (State ι π) :=
  s.deref fp fun f =>
    if f.lock = none then some ((s.setFoo fp { f with lock := some i }).goto i pc) else none

def unlockFoo (s : State ι π) (fp : π) (k : State ι π → State ι π) : Option (State ι π) :=
  s.deref fp fun f => some (k (s.setFoo fp { f with lock := none }))

def addCount (s : State ι π) (i : ι) (fp : π) (n : Int32) (pc : Pc π) : Option (State ι π) :=
  s.deref fp fun f => some ((s.setFoo fp { f with count := f.count + n }).goto i pc)

/-- The next step of a thread that is in a call. -/
def run (s : State ι π) (i : ι) : Option (State ι π) :=
  match (s.threads i).pc with
  | .idle => none
  -- foo_alloc
  | .allocLock fp => s.lockHash i (.allocNext fp)
  | .allocNext fp => s.deref fp fun f =>
      some ((s.setFoo fp { f with next := s.fh (hash f.id) }).goto i (.allocHead fp))
  | .allocHead fp => s.deref fp fun f =>
      some ({ s with fh := Function.update s.fh (hash f.id) (some fp) }.goto i (.allocFooLock fp))
  | .allocFooLock fp => s.lockFoo i fp (.allocUnlock fp)
  | .allocUnlock fp => some (s.unlockHash.goto i (.allocFooUnlock fp))
  | .allocFooUnlock fp => s.unlockFoo fp fun t => t.ret i fp
  -- foo_hold
  | .holdLock finding fp => s.lockFoo i fp (.holdCount finding fp)
  | .holdCount finding fp => s.addCount i fp 1 (.holdUnlock finding fp)
  | .holdUnlock finding fp =>
      s.unlockFoo fp fun t => if finding then t.goto i (.findUnlock (some fp)) else t.ret i fp
  -- foo_find
  | .findLock id => s.lockHash i (.findHead id)
  | .findHead id => some (s.goto i (.findTest id (s.fh (hash id))))
  | .findTest id fp =>
      match fp with
      | none => some (s.goto i (.findUnlock none))
      | some p => s.deref p fun f =>
          some (s.goto i (if f.id = id then .holdLock true p else .findTest id f.next))
  | .findUnlock fp =>
      match fp with
      | none => some (s.unlockHash.goto i .idle)
      | some p => some (s.unlockHash.ret i p)
  -- foo_rele
  | .releLock fp => s.lockFoo i fp (.releTest fp)
  | .releTest fp => s.deref fp fun f =>
      some (s.goto i (if f.count = 1 then .retryFooUnlock fp else .releCount fp))
  | .releCount fp => s.addCount i fp (-1) (.releFooUnlock fp)
  | .releFooUnlock fp => s.unlockFoo fp fun t => t.goto i .idle
  | .retryFooUnlock fp => s.unlockFoo fp fun t => t.goto i (.retryLock fp)
  | .retryLock fp => s.lockHash i (.retryFooLock fp)
  | .retryFooLock fp => s.lockFoo i fp (.retryTest fp)
  | .retryTest fp => s.deref fp fun f =>
      some (s.goto i (if f.count ≠ 1 then .retryCount fp else .removeHead fp))
  | .retryCount fp => s.addCount i fp (-1) (.leaveFooUnlock fp)
  | .leaveFooUnlock fp => s.unlockFoo fp fun t => t.goto i .leaveUnlock
  | .leaveUnlock => some (s.unlockHash.goto i .idle)
  | .removeHead fp => s.deref fp fun f =>
      if s.fh (hash f.id) = some fp then
        some ({ s with fh := Function.update s.fh (hash f.id) f.next }.goto i (.freeUnlock fp))
      else some (s.goto i (.removeSearch fp (s.fh (hash f.id))))
  | .removeSearch fp tfp => s.deref tfp fun g =>
      some (s.goto i (if g.next = some fp then .removeNext fp tfp else .removeSearch fp g.next))
  | .removeNext fp tfp => s.deref fp fun f => s.deref tfp fun g =>
      match tfp with
      | none => none
      | some t => some ((s.setFoo t { g with next := f.next }).goto i (.freeUnlock fp))
  | .freeUnlock fp => some (s.unlockHash.goto i (.freeFooUnlock fp))
  | .freeFooUnlock fp => s.unlockFoo fp fun t => t.goto i (.free fp)
  | .free fp => s.deref fp fun _ =>
      some ({ s with foo := Function.update s.foo fp none }.goto i .idle)

/-- A thread that is in no call makes one, on an object that it has a reference to. -/
def call (s : State ι π) (i : ι) (c : Call π) : Option (State ι π) :=
  if (s.threads i).pc ≠ .idle then none
  else
    match c with
    | .alloc fp id =>
      if s.foo fp = none then some ((s.setFoo fp ⟨1, none, id, none⟩).goto i (.allocLock fp)) else none
    | .hold fp => if 0 < (s.threads i).refs fp then some (s.goto i (.holdLock false fp)) else none
    | .find id => some (s.goto i (.findLock id))
    | .rele fp =>
      if 0 < (s.threads i).refs fp then
        some (s.setThread i { (s.threads i).lose fp with pc := .releLock fp })
      else none

/-- A thread leaves a reference to another one. -/
def give (s : State ι π) (i j : ι) (fp : π) : Option (State ι π) :=
  if (s.threads i).pc = .idle ∧ 0 < (s.threads i).refs fp then
    let t := s.setThread i ((s.threads i).lose fp)
    some (t.setThread j ((t.threads j).gain fp))
  else none

def step (s : State ι π) : Turn ι π → Option (State ι π)
  | .call i c => s.call i c
  | .run i => s.run i
  | .give i j fp => s.give i j fp

/-- No reference is added to an object that has as many as its `int` can count. -/
def HasRoom (s : State ι π) : Turn ι π → Prop
  | .run i =>
    match (s.threads i).pc with
    | .holdCount _ fp => ∀ f ∈ s.foo fp, f.count ≠ Int32.maxValue
    | _ => True
  | _ => True

instance (s : State ι π) : DecidablePred s.HasRoom := fun turn => by
  unfold HasRoom
  split
  · split <;> infer_instance
  · infer_instance

end State
end CLib.Objects
