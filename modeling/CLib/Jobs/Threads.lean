import CLib.Base.Doubly
import CLib.Base.Runs
import CLib.Base.Tally

namespace CLib.Jobs
open CLib.Base

/-- Program points, each named after what is done next. In `found` a call of `job_find` has
returned. -/
inductive Pc (ι π : Type)
  | idle
  | insertLock (jp : π)
  | insertNext (jp : π)
  | insertPrev (jp : π)
  | insertTest (jp : π)
  | insertHead (jp : π)
  | appendLock (jp : π)
  | appendNext (jp : π)
  | appendPrev (jp : π)
  | appendTest (jp : π)
  | appendTail (jp : π)
  | unlock
  | removeLock (jp : π)
  | removeTest (jp : π)
  | removeHead (jp : π)
  | removeHeadTest (jp : π)
  | removeTail (jp : π)
  | removeTailNext (jp : π)
  | removeNext (jp : π)
  | removePrev (jp : π)
  | removeUnlock (jp : π)
  | findLock (id : ι)
  | findHead (id : ι)
  | findTest (id : ι) (jp : Option π)
  | findUnlock (id : ι) (jp : Option π)
  | found (id : ι) (jp : Option π)
  deriving DecidableEq

/-- A call that a thread makes. -/
inductive Call (ι π : Type)
  | insert (jp : π)
  | append (jp : π)
  | remove (jp : π)
  | find (id : ι)

/-- A thread makes a call, or its next step in one; `pthread_rwlock_rdlock` fails; a thread says
who is to handle a job of its own. -/
inductive Turn (ι π : Type)
  | call (i : ι) (c : Call ι π)
  | run (i : ι)
  | rdlockFails (i : ι)
  | assign (i : ι) (jp : π) (id : ι)

/-- `struct queue`, and the fields of every `struct job`. -/
structure Queue (ι π : Type) where
  qHead : Option π
  qTail : Option π
  jNext : π → Option π
  jPrev : π → Option π
  jId : π → ι

namespace Queue
variable {ι π : Type} [DecidableEq π]

/-- One of the assignments that change the queue, and what comes after it; `none` where it
follows a null pointer. -/
def exec (q : Queue ι π) : Pc ι π → Option (Queue ι π × Pc ι π)
  -- job_insert
  | .insertNext jp =>
      some ({ q with jNext := Function.update q.jNext jp q.qHead }, .insertPrev jp)
  | .insertPrev jp => some ({ q with jPrev := Function.update q.jPrev jp none }, .insertTest jp)
  | .insertTest jp =>
      match q.qHead with
      | some h => some ({ q with jPrev := Function.update q.jPrev h (some jp) }, .insertHead jp)
      | none => some ({ q with qTail := some jp }, .insertHead jp)
  | .insertHead jp => some ({ q with qHead := some jp }, .unlock)
  -- job_append
  | .appendNext jp => some ({ q with jNext := Function.update q.jNext jp none }, .appendPrev jp)
  | .appendPrev jp =>
      some ({ q with jPrev := Function.update q.jPrev jp q.qTail }, .appendTest jp)
  | .appendTest jp =>
      match q.qTail with
      | some t => some ({ q with jNext := Function.update q.jNext t (some jp) }, .appendTail jp)
      | none => some ({ q with qHead := some jp }, .appendTail jp)
  | .appendTail jp => some ({ q with qTail := some jp }, .unlock)
  -- job_remove
  | .removeTest jp =>
      if q.qHead = some jp then some (q, .removeHead jp)
      else if q.qTail = some jp then some (q, .removeTail jp)
      else some (q, .removeNext jp)
  | .removeHead jp => some ({ q with qHead := q.jNext jp }, .removeHeadTest jp)
  | .removeHeadTest jp =>
      if q.qTail = some jp then some ({ q with qTail := none }, .removeUnlock jp)
      else (q.jNext jp).map fun n =>
        ({ q with jPrev := Function.update q.jPrev n (q.jPrev jp) }, .removeUnlock jp)
  | .removeTail jp => some ({ q with qTail := q.jPrev jp }, .removeTailNext jp)
  | .removeTailNext jp =>
      (q.jPrev jp).map fun p =>
        ({ q with jNext := Function.update q.jNext p (q.jNext jp) }, .removeUnlock jp)
  | .removeNext jp =>
      (q.jPrev jp).map fun p =>
        ({ q with jNext := Function.update q.jNext p (q.jNext jp) }, .removePrev jp)
  | .removePrev jp =>
      (q.jNext jp).map fun n =>
        ({ q with jPrev := Function.update q.jPrev n (q.jPrev jp) }, .removeUnlock jp)
  | _ => none

end Queue

/-- The program points of `job_insert`, `job_append` and `job_remove` between lock and unlock. -/
def Pc.writes {ι π : Type} : Pc ι π → Bool
  | .insertNext _ | .insertPrev _ | .insertTest _ | .insertHead _ | .appendNext _ | .appendPrev _
  | .appendTest _ | .appendTail _ | .removeTest _ | .removeHead _ | .removeHeadTest _ | .removeTail _
  | .removeTailNext _ | .removeNext _ | .removePrev _ => true
  | _ => false

/-- Between two calls. -/
def Pc.rests {ι π : Type} : Pc ι π → Bool
  | .idle | .found _ _ => true
  | _ => false

/-- The queue with its lock, the threads, and the jobs that the threads have for themselves. The
history variable `jobs` is the queue as the calls that have got the lock leave it. -/
structure State (ι π : Type) where
  queue : Queue ι π
  writer : Option ι
  reading : ι → Bool
  pc : ι → Pc ι π
  owner : π → Option ι
  fault : Bool
  jobs : List π

namespace State
variable {ι π : Type}

/-- `queue_init`; each job belongs to a thread. -/
def start (jNext jPrev : π → Option π) (jId owner : π → ι) : State ι π where
  queue := ⟨none, none, jNext, jPrev, jId⟩
  writer := none
  reading := fun _ => false
  pc := fun _ => .idle
  owner := fun p => some (owner p)
  fault := false
  jobs := []

variable [DecidableEq ι]

def goto (s : State ι π) (i : ι) (pc : Pc ι π) : State ι π :=
  { s with pc := Function.update s.pc i pc }

/-- `pthread_rwlock_wrlock`; `none` where the thread has to wait. -/
def wrlock [Fintype ι] (s : State ι π) (i : ι) (pc : Pc ι π) (jobs : List π) : Option (State ι π) :=
  if s.writer = none ∧ ∀ j, s.reading j = false then
    some ({ s with writer := some i, jobs := jobs }.goto i pc)
  else none

variable [Fintype ι] [DecidableEq π]

/-- The next step of a thread that is in a call. -/
def run (s : State ι π) (i : ι) : Option (State ι π) :=
  match s.pc i with
  | .idle => none
  | .found _ _ => none
  | .insertLock jp => s.wrlock i (.insertNext jp) (jp :: s.jobs)
  | .appendLock jp => s.wrlock i (.appendNext jp) (s.jobs ++ [jp])
  | .removeLock jp => s.wrlock i (.removeTest jp) (s.jobs.erase jp)
  | .unlock => some ({ s with writer := none }.goto i .idle)
  | .removeUnlock jp =>
      some ({ s with writer := none, owner := Function.update s.owner jp (some i) }.goto i .idle)
  -- job_find
  | .findLock id =>
      if s.writer = none then
        some ({ s with reading := Function.update s.reading i true }.goto i (.findHead id))
      else none
  | .findHead id => some (s.goto i (.findTest id s.queue.qHead))
  | .findTest id none => some (s.goto i (.findUnlock id none))
  | .findTest id (some jp) =>
      if s.queue.jId jp = id then some (s.goto i (.findUnlock id (some jp)))
      else some (s.goto i (.findTest id (s.queue.jNext jp)))
  | .findUnlock id jp =>
      some ({ s with reading := Function.update s.reading i false }.goto i (.found id jp))
  | pc =>
      match s.queue.exec pc with
      | some (q, pc') => some ({ s with queue := q }.goto i pc')
      | none => some { s with fault := true }

/-- A thread inserts or appends a job of its own, and removes the job that it has found for
itself. -/
def call (s : State ι π) (i : ι) (c : Call ι π) : Option (State ι π) :=
  if (s.pc i).rests then
    match c with
    | .insert jp =>
      if s.owner jp = some i then
        some ({ s with owner := Function.update s.owner jp none }.goto i (.insertLock jp))
      else none
    | .append jp =>
      if s.owner jp = some i then
        some ({ s with owner := Function.update s.owner jp none }.goto i (.appendLock jp))
      else none
    | .remove jp => if s.pc i = .found i (some jp) then some (s.goto i (.removeLock jp)) else none
    | .find id => some (s.goto i (.findLock id))
  else none

def step (s : State ι π) : Turn ι π → Option (State ι π)
  | .call i c => s.call i c
  | .run i => s.run i
  | .rdlockFails i =>
    match s.pc i with
    | .findLock id => some (s.goto i (.found id none))
    | _ => none
  | .assign i jp id =>
    if (s.pc i).rests ∧ s.owner jp = some i then
      some { s with queue := { s.queue with jId := Function.update s.queue.jId jp id } }
    else none

end State
end CLib.Jobs
