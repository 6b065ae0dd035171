import CLib.Base.CString
import CLib.Base.Runs
import Mathlib.Logic.Function.Basic

namespace CLib.PingPong
open CLib.Base

/-- `ping.txt` and `pong.txt`. -/
inductive File
  | ping | pong
  deriving DecidableEq

def File.other : File → File
  | .ping => .pong
  | .pong => .ping

@[simp] theorem File.other_other (f : File) : f.other.other = f := by cases f <;> rfl

@[simp] theorem File.other_ne (f : File) : f.other ≠ f := by cases f <;> decide

@[simp] theorem File.ne_other (f : File) : f ≠ f.other := f.other_ne.symm

theorem File.eq_other_of_ne {f g : File} (h : f ≠ g) : f = g.other := by
  cases f <;> cases g <;> first | rfl | exact absurd rfl h

def bufferSize : ℕ := 16384

def pingPongLineCount : ℕ := 100000

/-- Program points of `talk_to_client`: before its file is open, in the loop around
`recv` or before it, and past the last section under the mutex. -/
inductive Writer
  | absent
  | connected
  | writing (fp : File) (receiving : Bool)
  | exiting (fp : File)
  deriving DecidableEq

def Writer.fp : Writer → Option File
  | .writing f _ | .exiting f => some f
  | _ => none

/-- Program points of `enqueue_func`, the last one between `fclose` and the
section that sets a flag. -/
inductive Reader
  | polling
  | reading (fp : File) (offset : ℕ)
  | closed (fp : File)
  deriving DecidableEq

def Reader.fp : Reader → Option File
  | .reading f _ => some f
  | _ => none

/-- The file that the thread has taken and not yet reported. -/
def Reader.taken : Reader → Option File
  | .reading f _ | .closed f => some f
  | .polling => none

/-- The flags, the two threads and the files. `flagPing` is the file that
`g_flag_ping` stands for, `buffer` what `fwrite` has not yet written to the
disk. The last two fields are history: how much of each file has been read since it
was truncated, and which `g_enqueue_done` flags were already set when a
connection opened the file at its start. -/
structure State where
  flagPing : File
  enqueueDone : File → Bool
  writingDone : File → Bool
  writingCount : ℕ
  socketIsActive : Bool
  writer : Writer
  reader : Reader
  disk : File → Text
  buffer : Text
  sqlQueue : List Text
  seen : File → ℕ
  leftOver : File → Bool

/-- The initial flags, with two files that are already there. -/
def initial (files : File → Text) : State where
  flagPing := .ping
  enqueueDone f := f = .ping
  writingDone f := f = .pong
  writingCount := 0
  socketIsActive := false
  writer := .absent
  reader := .polling
  disk := files
  buffer := []
  sqlQueue := []
  seen f := (files f).length
  leftOver _ := false

namespace State
variable (s : State)

def fopenW (f : File) : State :=
  { s with disk := Function.update s.disk f [], buffer := [], seen := Function.update s.seen f 0 }

/-- The first `n` bytes of the buffer reach the file. -/
def flush (f : File) (n : ℕ) : State :=
  { s with
    disk := Function.update s.disk f (s.disk f ++ s.buffer.take n)
    buffer := s.buffer.drop n }

def fclose (f : File) : State := s.flush f s.buffer.length

/-- The section at the label `retry`. -/
def retry : State :=
  if s.enqueueDone s.flagPing.other then
    -- Neither `g_writing_done` nor `g_enqueue_done` of the file itself is looked at or cleared.
    { s.fopenW s.flagPing with
      writer := .writing s.flagPing false
      leftOver := Function.update s.leftOver s.flagPing (s.enqueueDone s.flagPing) }
  else s

/-- The section for a large `g_writing_count`. -/
def switch (fp : File) : State :=
  if s.enqueueDone s.flagPing.other then
    { (s.fclose fp).fopenW s.flagPing.other with
      flagPing := s.flagPing.other
      writingDone := Function.update s.writingDone s.flagPing true
      enqueueDone := Function.update s.enqueueDone s.flagPing.other false
      leftOver := Function.update s.leftOver s.flagPing.other false
      writer := .writing s.flagPing.other true
      writingCount := 0 }
  else { s with writer := .writing fp true, writingCount := 0 }

/-- The section at the label `Exit`. -/
def exit (fp : File) : State :=
  -- `fclose` comes after the mutex has been released, as a step of its own.
  { s with
    writingCount := 0
    socketIsActive := false
    writingDone := Function.update s.writingDone s.flagPing true
    writer := .exiting fp }

/-- The first section of `enqueue_func`. -/
def poll : State :=
  if s.writingDone s.flagPing.other then
    { s with
      writingDone := Function.update s.writingDone s.flagPing.other false
      reader := .reading s.flagPing.other 0 }
  else if !s.socketIsActive && s.writingDone s.flagPing then
    -- The current file, left by a connection that has ended.
    { s with
      flagPing := s.flagPing.other
      writingDone := Function.update s.writingDone s.flagPing false
      reader := .reading s.flagPing 0 }
  else s

def firstLine (t : Text) : Text := t.take ((t.takeWhile (· != '\n')).length + 1)

/-- A call of `getline` and the enqueueing of the line, or `fclose` at end of file. -/
def getline (fp : File) (offset : ℕ) : State :=
  let rest := (s.disk fp).drop offset
  if rest = [] then { s with reader := .closed fp }
  else
    let line := firstLine rest
    { s with
      reader := .reading fp (offset + line.length)
      sqlQueue := s.sqlQueue ++ [cstr (line.take (bufferSize - 1))]
      seen := Function.update s.seen fp
        (if offset ≤ s.seen fp then max (s.seen fp) (offset + line.length) else s.seen fp) }

/-- The last section of `enqueue_func`, which tells the file from `g_flag_ping`. -/
def finish : State :=
  { s with
    enqueueDone := Function.update s.enqueueDone s.flagPing.other true
    leftOver := Function.update s.leftOver s.flagPing.other false
    reader := .polling }

/-- The writer is before a call of `recv`. -/
def BeforeRecv (receiving : Bool) : Prop := receiving ∨ s.writingCount ≤ pingPongLineCount

instance (receiving : Bool) : Decidable (s.BeforeRecv receiving) :=
  inferInstanceAs (Decidable (_ ∨ _))

end State

/-- The steps of the two threads; `exit` is a `recv` that returns 0 or fails,
with the section at `Exit`. -/
inductive Label
  | connect | retry | switch
  | recv (bytes : Text) | recvAgain | exit
  | flush (n : ℕ) | fclose
  | poll | getline | finish

/-- One step of `talk_to_client` or of `enqueue_func`, for one connection at a time. -/
def step (s : State) : Label → Option State
  | .connect =>
    if s.writer = .absent then some { s with writer := .connected, socketIsActive := true } else none
  | .retry => if s.writer = .connected then some s.retry else none
  | .switch =>
    match s.writer with
    | .writing fp false => if pingPongLineCount < s.writingCount then some (s.switch fp) else none
    | _ => none
  | .recv bytes =>
    match s.writer with
    | .writing fp receiving =>
      if s.BeforeRecv receiving ∧ 0 < bytes.length ∧ bytes.length ≤ bufferSize then
        some { s with
          writingCount := s.writingCount + 1
          buffer := s.buffer ++ bytes
          -- Only a full buffer keeps the thread in the loop around `recv`.
          writer := .writing fp (bytes.length = bufferSize) }
      else none
    | _ => none
  | .recvAgain =>
    match s.writer with
    | .writing fp receiving =>
      if s.BeforeRecv receiving then
        some { s with writingCount := s.writingCount + 1, writer := .writing fp false }
      else none
    | _ => none
  | .exit =>
    match s.writer with
    | .writing fp receiving => if s.BeforeRecv receiving then some (s.exit fp) else none
    | _ => none
  | .flush n => s.writer.fp.map fun fp => s.flush fp n
  | .fclose =>
    match s.writer with
    | .exiting fp => some { s.fclose fp with writer := .absent }
    | _ => none
  | .poll => if s.reader = .polling then some s.poll else none
  | .getline =>
    match s.reader with
    | .reading fp offset => some (s.getline fp offset)
    | _ => none
  | .finish =>
    match s.reader with
    | .closed _ => some s.finish
    | _ => none

/-- What the steps require and what they lead to. -/
inductive Steps (s : State) : Label → State → Prop
  | connect (hw : s.writer = .absent) :
    Steps s .connect { s with writer := .connected, socketIsActive := true }
  | retry (hw : s.writer = .connected) : Steps s .retry s.retry
  | switch {fp : File} (hw : s.writer = .writing fp false)
    (hcount : pingPongLineCount < s.writingCount) : Steps s .switch (s.switch fp)
  | recv {fp : File} {r : Bool} {bytes : Text} (hw : s.writer = .writing fp r)
    (hrecv : s.BeforeRecv r ∧ 0 < bytes.length ∧ bytes.length ≤ bufferSize) :
    Steps s (.recv bytes) { s with
      writingCount := s.writingCount + 1
      buffer := s.buffer ++ bytes
      writer := .writing fp (bytes.length = bufferSize) }
  | recvAgain {fp : File} {r : Bool} (hw : s.writer = .writing fp r) (hrecv : s.BeforeRecv r) :
    Steps s .recvAgain { s with writingCount := s.writingCount + 1, writer := .writing fp false }
  | exit {fp : File} {r : Bool} (hw : s.writer = .writing fp r) (hrecv : s.BeforeRecv r) :
    Steps s .exit (s.exit fp)
  | flush {fp : File} {n : ℕ} (hw : s.writer.fp = some fp) : Steps s (.flush n) (s.flush fp n)
  | fclose {fp : File} (hw : s.writer = .exiting fp) :
    Steps s .fclose { s.fclose fp with writer := .absent }
  | poll (hr : s.reader = .polling) : Steps s .poll s.poll
  | getline {fp : File} {n : ℕ} (hr : s.reader = .reading fp n) : Steps s .getline (s.getline fp n)
  | finish {fp : File} (hr : s.reader = .closed fp) : Steps s .finish s.finish

theorem steps_of_step {s t : State} {l : Label} (h : step s l = some t) : Steps s l t := by
  unfold step at h
  split at h
  case h_1 =>
    obtain ⟨hw, ⟨⟩⟩ := Option.ite_none_right_eq_some.mp h
    exact .connect hw
  case h_2 =>
    obtain ⟨hw, ⟨⟩⟩ := Option.ite_none_right_eq_some.mp h
    exact .retry hw
  case h_3 =>
    split at h
    case h_2 => cases h
    case h_1 hw =>
      obtain ⟨hcount, ⟨⟩⟩ := Option.ite_none_right_eq_some.mp h
      exact .switch hw hcount
  case h_4 =>
    split at h
    case h_2 => cases h
    case h_1 hw =>
      obtain ⟨hrecv, ⟨⟩⟩ := Option.ite_none_right_eq_some.mp h
      exact .recv hw hrecv
  case h_5 =>
    split at h
    case h_2 => cases h
    case h_1 hw =>
      obtain ⟨hrecv, ⟨⟩⟩ := Option.ite_none_right_eq_some.mp h
      exact .recvAgain hw hrecv
  case h_6 =>
    split at h
    case h_2 => cases h
    case h_1 hw =>
      obtain ⟨hrecv, ⟨⟩⟩ := Option.ite_none_right_eq_some.mp h
      exact .exit hw hrecv
  case h_7 =>
    obtain ⟨fp, hw, rfl⟩ := Option.map_eq_some_iff.mp h
    exact .flush hw
  case h_8 =>
    split at h
    case h_2 => cases h
    case h_1 hw =>
      cases h
      exact .fclose hw
  case h_9 =>
    obtain ⟨hr, ⟨⟩⟩ := Option.ite_none_right_eq_some.mp h
    exact .poll hr
  case h_10 =>
    split at h
    case h_2 => cases h
    case h_1 hr =>
      cases h
      exact .getline hr
  case h_11 =>
    split at h
    case h_2 => cases h
    case h_1 hr =>
      cases h
      exact .finish hr

/-- The file that a step opens with mode `w`. -/
def opens (s : State) : Label → Option File
  | .retry => if s.enqueueDone s.flagPing.other then some s.flagPing else none
  | .switch => if s.enqueueDone s.flagPing.other then some s.flagPing.other else none
  | _ => none

/-- What the writer has put into a file since it was truncated, on the disk or still
in the buffer. -/
def State.content (s : State) (f : File) : Text :=
  s.disk f ++ if s.writer.fp = some f then s.buffer else []

/-- The part of it that has not been read. -/
def State.unread (s : State) (f : File) : Text := (s.content f).drop (s.seen f)

end CLib.PingPong
