import CLib.Server.Assembly

namespace CLib.Server
open CLib.Base

/-- `MAX_WAITING_COUNT`: how often the reader waits for more bytes. -/
def maxWaitingCount : ℕ := 86400

/-- `EBADF`, the one `errno` of `fgets` that is not final. -/
def ebadf : ℕ := 9

/-- The ways out of the inner loop of `enqueue_func`. -/
inductive ReadExit
  | offsetZero | rotation | waitLimit | readError | closeError | openError | seekError
  deriving DecidableEq

/-- Operations on `s_queue_mutex`. -/
inductive LockOp
  | lock | unlock
  deriving DecidableEq

/-- What the operating system answers in one round of the inner loop. -/
structure Attempt where
  /-- The bytes that are in the file when `fgets` is called. -/
  file : Text
  fgetsErrno : ℕ
  closeErrno : ℕ
  opens : Bool
  seeks : Bool
  /-- `file_name` is no longer the name made from `g_file_name`. -/
  rotated : Bool

/-- A round without an error and without a rotation. -/
def Attempt.quiet (file : Text) : Attempt := ⟨file, 0, 0, true, true, false⟩

/-- The local state of `enqueue_func`; `pos` is the position of the open handle. -/
structure Reader where
  offset : ℕ
  pos : ℕ
  lineCount : ℕ
  nsl : ℕ
  assembly : Assembly
  locks : List LockOp
  exit : Option ReadExit

namespace Reader

/-- The file has just been opened for the first time. -/
def opened : Reader := ⟨0, 0, 0, 0, .empty, [], none⟩

def leave (r : Reader) (e : ReadExit) : Reader := { r with exit := some e }

def lock (r : Reader) : Reader := { r with locks := r.locks ++ [.lock] }

def unlock (r : Reader) : Reader := { r with locks := r.locks ++ [.unlock] }

/-- `errno != 0` after `fgets`. The mutex is held here, and only the way back
into the loop and the way out on another `errno` release it. -/
def fgetsFailed (r : Reader) (e : Attempt) : Reader :=
  if e.fgetsErrno = ebadf then
    let r := { r with nsl := r.nsl + 1 }
    if maxWaitingCount < r.nsl then r.leave .waitLimit
    else if e.opens = false then r.leave .openError
    else if e.seeks = false then r.leave .seekError
    else { r with pos := r.offset }.unlock
  else r.unlock.leave .readError

/-- `bytes_read == 0`: wait, then reopen the file and seek to `offset`. -/
def reopen (r : Reader) (e : Attempt) : Reader :=
  let r := { r with nsl := r.nsl + 1 }
  if maxWaitingCount < r.nsl then r.leave .waitLimit
  else if e.closeErrno ≠ 0 then r.leave .closeError
  else if e.opens = false then r.leave .openError
  else if e.seeks = false then r.leave .seekError
  else { r with pos := r.offset }

/-- From `offset += bytes_read` to the end of the round, `buf` being what counts as read. -/
def accept (r : Reader) (e : Attempt) (buf : Text) : Reader :=
  let r := { r with offset := r.offset + buf.length }
  if buf.length = 0 then r.reopen e
  else if r.lineCount ≤ 3 then r
  else
    let r' := { r with assembly := r.assembly.feed buf }
    if r.assembly.completes buf then r'.lock.unlock else r'

/-- One round of the inner loop. -/
def attempt (r : Reader) (e : Attempt) : Reader :=
  if r.exit.isSome then r
  else
    let got := fgets (e.file.drop r.pos) bufferSizeBig
    let r := r.lock
    if e.fgetsErrno ≠ 0 then r.fgetsFailed e
    else
      -- `line_count` counts every call of `fgets`, end of file or not.
      let r := { r with pos := r.pos + got.1.length, lineCount := r.lineCount + 1 }.unlock
      if got.2 then
        if r.offset = 0 then r.leave .offsetZero
        else if e.rotated then r.lock.unlock.leave .rotation
        else r.lock.unlock.accept e []
      else r.accept e (cstr got.1)

def attempts (r : Reader) (es : List Attempt) : Reader := es.foldl attempt r

@[simp] theorem attempts_nil (r : Reader) : r.attempts [] = r := rfl

theorem attempts_concat (r : Reader) (es : List Attempt) (e : Attempt) :
    r.attempts (es ++ [e]) = (r.attempts es).attempt e := by
  simp [attempts]

theorem attempt_of_exit {r : Reader} (h : r.exit.isSome) (e : Attempt) : r.attempt e = r := by
  rw [attempt, if_pos h]

theorem reopen_quiet {r : Reader} (h : r.nsl < maxWaitingCount) (file : Text) :
    r.reopen (.quiet file) = { r with nsl := r.nsl + 1, pos := r.offset } := by
  unfold reopen
  rw [if_neg (show ¬ maxWaitingCount < r.nsl + 1 by omega)]
  rfl

end Reader
end CLib.Server
