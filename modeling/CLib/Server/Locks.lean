import CLib.Base.Runs
import CLib.Server.Config
import CLib.Server.Pipeline
import CLib.Server.Reader

namespace CLib.Server
open CLib.Base

/-- Whether a thread that holds `s_queue_mutex` or not holds it after the operations; `none`
if it would take it twice or release what it does not hold. -/
def heldAfter : Bool → List LockOp → Option Bool
  | held, [] => some held
  | false, .lock :: ops => heldAfter true ops
  | true, .unlock :: ops => heldAfter false ops
  | _, _ => none

/-- Every acquisition is followed by one release, before the next acquisition. -/
def Balanced (ops : List LockOp) : Prop := heldAfter false ops = some false

instance (ops : List LockOp) : Decidable (Balanced ops) := inferInstanceAs (Decidable (_ = _))

theorem heldAfter_append (held : Bool) (ops ops' : List LockOp) :
    heldAfter held (ops ++ ops') = (heldAfter held ops).bind fun h => heldAfter h ops' := by
  induction ops generalizing held with
  | nil => cases held <;> rfl
  | cons op ops ih =>
    cases held <;> cases op
    · exact ih true
    · rfl
    · rfl
    · exact ih false

theorem balanced_nil : Balanced [] := rfl

theorem balanced_section : Balanced [.lock, .unlock] := rfl

theorem Balanced.append {ops ops' : List LockOp} (h : Balanced ops) (h' : Balanced ops') :
    Balanced (ops ++ ops') := by
  rw [Balanced, heldAfter_append, h]
  exact h'

namespace Reader
variable {r : Reader} {e : Attempt}

/-- `errno` 9 after `fgets`, and the wait limit, `fopen` or `fseek` then ends the loop. -/
def LeavesLocked (r : Reader) (e : Attempt) : Prop :=
  e.fgetsErrno = ebadf ∧ (maxWaitingCount ≤ r.nsl ∨ e.opens = false ∨ e.seeks = false)

theorem reopen_locks (r : Reader) (e : Attempt) : (r.reopen e).locks = r.locks := by
  unfold reopen
  dsimp only
  split_ifs <;> rfl

theorem accept_locks (r : Reader) (e : Attempt) (buf : Text) :
    ∃ ops, (r.accept e buf).locks = r.locks ++ ops ∧ Balanced ops := by
  unfold accept
  dsimp only
  split_ifs
  · exact ⟨[], by rw [reopen_locks, List.append_nil], balanced_nil⟩
  · exact ⟨[], (List.append_nil _).symm, balanced_nil⟩
  · exact ⟨[.lock, .unlock], by simp [lock, unlock], balanced_section⟩
  · exact ⟨[], (List.append_nil _).symm, balanced_nil⟩

theorem fgetsFailed_locks (h : ¬ r.LeavesLocked e) :
    (r.fgetsFailed e).locks = r.locks ++ [.unlock] := by
  unfold fgetsFailed
  dsimp only
  split_ifs with herr hwait hopens hseeks
  · exact absurd ⟨herr, .inl (Nat.lt_succ_iff.mp hwait)⟩ h
  · exact absurd ⟨herr, .inr (.inl hopens)⟩ h
  · exact absurd ⟨herr, .inr (.inr hseeks)⟩ h
  · rfl
  · rfl

theorem attempt_locks (hr : r.exit = none) (h : ¬ r.LeavesLocked e) :
    ∃ ops, (r.attempt e).locks = r.locks ++ ops ∧ Balanced ops := by
  unfold attempt
  dsimp only
  rw [if_neg (by simp [hr])]
  split_ifs with herr heof hzero hrotated
  · refine ⟨[.lock, .unlock], ?_, balanced_section⟩
    rw [fgetsFailed_locks (r := r.lock) h]
    simp [lock]
  · exact ⟨[.lock, .unlock], by simp [lock, unlock, leave], balanced_section⟩
  · exact ⟨[.lock, .unlock, .lock, .unlock], by simp [lock, unlock, leave],
      balanced_section.append balanced_section⟩
  · obtain ⟨ops, hops, hbalanced⟩ := accept_locks
      ({ r.lock with
          pos := r.lock.pos + (fgets (e.file.drop r.pos) bufferSizeBig).1.length
          lineCount := r.lock.lineCount + 1 }.unlock.lock.unlock) e []
    refine ⟨[.lock, .unlock, .lock, .unlock] ++ ops, ?_,
      (balanced_section.append balanced_section).append hbalanced⟩
    rw [hops]
    simp [lock, unlock]
  · obtain ⟨ops, hops, hbalanced⟩ := accept_locks
      ({ r.lock with
          pos := r.lock.pos + (fgets (e.file.drop r.pos) bufferSizeBig).1.length
          lineCount := r.lock.lineCount + 1 }.unlock) e (cstr (fgets (e.file.drop r.pos) bufferSizeBig).1)
    refine ⟨[.lock, .unlock] ++ ops, ?_, balanced_section.append hbalanced⟩
    rw [hops]
    simp [lock, unlock]

end Reader

/-- What `enqueue_func` meets: `g_is_running` is 0, or `fopen` and the first `fseek` return,
or a round of the inner loop. -/
inductive EnqueueAnswer
  | stop
  | fopen (opens seeks : Bool)
  | attempt (e : Attempt)

/-- A thread of `enqueue_func`; `inner` says that it is in the inner loop. -/
structure EnqueueThread where
  reader : Reader
  inner : Bool
  ended : Bool

namespace EnqueueThread

/-- After the first section, in which `file_name` is made. -/
def start : EnqueueThread := ⟨Reader.opened.lock.unlock, false, false⟩

def step (s : EnqueueThread) : EnqueueAnswer → Option EnqueueThread
  | .stop => if s.ended ∨ s.inner then none else some { s with ended := true }
  | .fopen opens seeks =>
    if s.ended ∨ s.inner then none
    else if opens = false then some { s with reader := s.reader.lock.unlock }
    else if seeks = false then some { s with ended := true }
    else some { s with inner := true }
  | .attempt e =>
    if s.ended ∨ s.inner = false then none
    else some { s with reader := s.reader.attempt e, ended := (s.reader.attempt e).exit.isSome }

/-- No round leaves the loop with the lock held. -/
def Releases (s : EnqueueThread) : EnqueueAnswer → Prop
  | .attempt e => ¬ s.reader.LeavesLocked e
  | _ => True

end EnqueueThread

/-- The values of `errno` after which `talk_to_client` goes on: `EAGAIN` and `ECONNRESET`. -/
def recvErrnos : List ℕ := [11, 104]

/-- What `talk_to_client` meets: its index and the result of `fopen`, or that of `recv`, with
`errno` and whether the day has ended if nothing has come, or how many bytes `fwrite` writes. -/
inductive TalkAnswer
  | fopen (index : ℕ) (opens : Bool)
  | recvFailed (errno : ℕ) (dayEnded : Bool)
  | recv (length : ℕ) (written : ℕ)

inductive TalkPhase
  | opening | receiving | ended
  deriving DecidableEq

structure TalkThread where
  phase : TalkPhase
  locks : List LockOp

namespace TalkThread

def start : TalkThread := ⟨.opening, []⟩

def lock (s : TalkThread) : TalkThread := { s with locks := s.locks ++ [.lock] }

def unlock (s : TalkThread) : TalkThread := { s with locks := s.locks ++ [.unlock] }

/-- What follows the loop: the section in which the agents are counted. -/
def finish (s : TalkThread) : TalkThread := { s.lock.unlock with phase := .ended }

def step (s : TalkThread) : TalkAnswer → Option TalkThread
  | .fopen index opens =>
    if s.phase ≠ .opening then none
    -- the console's thread handles its commands, and `exit(1)` ends the process
    else if index = consoleSlot ∨ opens = false then some { s with phase := .ended }
    else some { s with phase := .receiving }
  | .recvFailed errno dayEnded =>
    if s.phase ≠ .receiving then none
    else if errno ∈ recvErrnos then
      if dayEnded then some s.lock.unlock.finish else some s.lock.unlock
    else some s.finish
  | .recv length written =>
    if s.phase ≠ .receiving ∨ length = 0 then none
    else if written < length then some s.lock.unlock.finish
    else some s.lock.unlock

end TalkThread

/-- What `dispatch_func` meets: `g_is_running` is 0, or the section in which it looks at the
queue, which may be empty or give a null pointer or a record. -/
inductive DispatchAnswer
  | stop
  | pop (sqlPtr : Option (Option Text))

structure DispatchThread where
  locks : List LockOp
  ended : Bool

/-- How each way through the handling of a record releases the mutex: the first two before a
`continue`, the others at the end of the section. -/
def DispatchBranch.locks : DispatchBranch → List LockOp
  | .noSql => [.unlock]
  | .noHeader => [.unlock]
  | .skipped | .checked => [.unlock]

/-- The section of `dispatch_func`. -/
def dispatchLocks : Option (Option Text) → List LockOp
  | none => [.lock, .unlock]
  | some none => [.lock, .unlock]
  | some (some record) => .lock :: (dispatchBranch record).locks

namespace DispatchThread

def start : DispatchThread := ⟨[], false⟩

def step (s : DispatchThread) : DispatchAnswer → Option DispatchThread
  | .stop => if s.ended then none else some { s with ended := true }
  | .pop sqlPtr => if s.ended then none else some { s with locks := s.locks ++ dispatchLocks sqlPtr }

end DispatchThread

section Balance

/-- While the loop of the reader goes on, it has not been left. -/
structure EnqueueThread.Inv (s : EnqueueThread) : Prop where
  balanced : Balanced s.reader.locks
  running : s.ended = false → s.reader.exit = none

theorem EnqueueThread.inv_start : Inv start := ⟨rfl, fun _ => rfl⟩

theorem EnqueueThread.Inv.step {s t : EnqueueThread} {a : EnqueueAnswer} (h : s.Inv)
    (hG : s.Releases a) (ht : s.step a = some t) : t.Inv := by
  unfold EnqueueThread.step at ht
  cases a with
  | stop =>
    obtain ⟨-, ht⟩ := Option.ite_none_left_eq_some.mp ht
    obtain rfl := Option.some.inj ht
    exact ⟨h.balanced, fun hended => by cases hended⟩
  | fopen opens seeks =>
    obtain ⟨hguard, ht⟩ := Option.ite_none_left_eq_some.mp ht
    have hended : s.ended = false := by simpa using (not_or.mp hguard).1
    split_ifs at ht
    · obtain rfl := Option.some.inj ht
      refine ⟨?_, fun _ => h.running hended⟩
      have happend := h.balanced.append balanced_section
      simpa [Reader.lock, Reader.unlock] using happend
    · obtain rfl := Option.some.inj ht
      exact ⟨h.balanced, fun hended => by cases hended⟩
    · obtain rfl := Option.some.inj ht
      exact ⟨h.balanced, fun _ => h.running hended⟩
  | attempt e =>
    obtain ⟨hguard, ht⟩ := Option.ite_none_left_eq_some.mp ht
    have hended : s.ended = false := by simpa using (not_or.mp hguard).1
    obtain rfl := Option.some.inj ht
    obtain ⟨ops, hops, hbalanced⟩ := Reader.attempt_locks (h.running hended) hG
    refine ⟨?_, fun hexit => by simpa using hexit⟩
    show Balanced (s.reader.attempt e).locks
    rw [hops]
    exact h.balanced.append hbalanced

end Balance
end CLib.Server
