import CLib.Base.Runs
import CLib.MyShell.Pipes

namespace CLib.MyShell
open CLib.Base

/-- A stage of a pipeline: its words, the answers of the system to it, the bytes that its
command writes on `stdout`, and the bytes that the process of the stage prints about the
exit code of the command, none if that is zero. -/
structure Command where
  command : Text
  words : List Text
  answers : PipeAnswers
  output : ℕ
  message : ℕ

namespace Command
variable (c : Command)

/-- What `callCommandWithRedi` makes of the stage. -/
def called : Called := callCommandWithRedi c.command (c.command :: c.words) c.answers.stage

/-- A stage with another one behind it gets its pipe and its process, and its command is executed. -/
def started : Bool := c.answers.pipes && c.answers.forks && !c.called.executed.isEmpty

/-- The bytes that the command writes on the pipe: its `stdout` may be reopened on a file, or
closed. -/
def onPipe : ℕ := if c.called.executed.any fun e => e.stdout ≠ .inherited then 0 else c.output

end Command

/-- Where the shell is: about to handle the next stage, or in the `waitpid` for the process
of a stage, which waits for its command or prints its message. The bytes are the ones that
the command and the message have still to put on the pipe. -/
inductive Phase
  | call
  | command (left message : ℕ)
  | message (left : ℕ)
  | finished
  deriving DecidableEq

/-- The bytes that whoever writes has still to put on the pipe. -/
def Phase.left : Phase → ℕ
  | .command left _ => left
  | .message left => left
  | _ => 0

/-- The stages from the current one on, the bytes in its pipe, and the ones in the pipe that
is its `stdin`. -/
structure Shell where
  commands : List Command
  phase : Phase
  pipe : ℕ
  input : ℕ

/-- The steps: the shell handles a stage, the stage puts `n` bytes on its pipe, the command
takes `n` bytes from its `stdin`, the command ends, the process of the stage ends. -/
inductive Action
  | call
  | write (n : ℕ)
  | read (n : ℕ)
  | commandExits
  | stageExits

namespace Shell

def start (cs : List Command) : Shell := ⟨cs, .call, 0, 0⟩

/-- `callCommandWithPipe` up to its `waitpid`. The last stage has no pipe, and what it writes
is accepted; a stage that is refused writes nothing, and is the last one. -/
def handle : List Command → Phase
  | [] => .finished
  | [c] => if c.called.executed.isEmpty then .finished else .command 0 0
  | c :: _ :: _ => if c.started then .command c.onPipe c.message else .finished

/-- What the process of the stage leaves behind when it ends: the shell goes on with the
stages behind it, whose `stdin` is the pipe. -/
def after (s : Shell) : Shell :=
  match s.commands with
  | _ :: c :: cs => ⟨c :: cs, .call, 0, s.pipe⟩
  | cs => ⟨cs, .finished, s.pipe, s.input⟩

/-- A writer puts bytes on the pipe as long as they fit. Nobody takes bytes from it before
the stage has ended: its only reader is the next stage. -/
def step (capacity : ℕ) (s : Shell) (a : Action) : Option Shell :=
  match a, s.phase with
  | .call, .call => some ⟨s.commands, handle s.commands, 0, s.input⟩
  | .write n, .command left message =>
    if n ≤ left ∧ s.pipe + n ≤ capacity then
      some ⟨s.commands, .command (left - n) message, s.pipe + n, s.input⟩
    else none
  | .write n, .message left =>
    if n ≤ left ∧ s.pipe + n ≤ capacity then
      some ⟨s.commands, .message (left - n), s.pipe + n, s.input⟩
    else none
  | .read n, .command left message =>
    if n ≤ s.input then some ⟨s.commands, .command left message, s.pipe, s.input - n⟩ else none
  | .commandExits, .command 0 message => some ⟨s.commands, .message message, s.pipe, s.input⟩
  | .stageExits, .message 0 => some s.after
  | _, _ => none

/-- The shell waits for a stage that has bytes left to write on a full pipe. -/
def Blocked (capacity : ℕ) (s : Shell) : Prop := 0 < s.phase.left ∧ s.pipe = capacity

/-- It does so in every state from now on. -/
def Stuck (capacity : ℕ) (s : Shell) : Prop := ∀ t, Reachable (step capacity) s t → Blocked capacity t

end Shell

/-- Each stage that is started, and has another one behind it, writes no more than fits in
its pipe. -/
def FitsPipes (capacity : ℕ) : List Command → Prop
  | c :: d :: cs =>
    c.started → c.onPipe + c.message ≤ capacity ∧ FitsPipes capacity (d :: cs)
  | _ => True

namespace Shell

/-- What a step can be. -/
inductive Moves (capacity : ℕ) : Shell → Action → Shell → Prop
  | call (cs pipe input) : Moves capacity ⟨cs, .call, pipe, input⟩ .call ⟨cs, handle cs, 0, input⟩
  | writeCommand (cs message input) {n left pipe} (hleft : n ≤ left) (hfits : pipe + n ≤ capacity) :
      Moves capacity ⟨cs, .command left message, pipe, input⟩ (.write n)
        ⟨cs, .command (left - n) message, pipe + n, input⟩
  | writeMessage (cs input) {n left pipe} (hleft : n ≤ left) (hfits : pipe + n ≤ capacity) :
      Moves capacity ⟨cs, .message left, pipe, input⟩ (.write n)
        ⟨cs, .message (left - n), pipe + n, input⟩
  | read (cs left message pipe) {n input} (hinput : n ≤ input) :
      Moves capacity ⟨cs, .command left message, pipe, input⟩ (.read n)
        ⟨cs, .command left message, pipe, input - n⟩
  | commandExits (cs message pipe input) :
      Moves capacity ⟨cs, .command 0 message, pipe, input⟩ .commandExits
        ⟨cs, .message message, pipe, input⟩
  | stageExits (s) (hphase : s.phase = .message 0) : Moves capacity s .stageExits s.after

variable {capacity : ℕ} {s t : Shell} {a : Action}

theorem step_eq_some_iff : step capacity s a = some t ↔ Moves capacity s a t := by
  constructor
  · intro h
    obtain ⟨cs, phase, pipe, input⟩ := s
    unfold step at h
    split at h
    · next hphase =>
      cases hphase
      cases h
      exact .call _ _ _
    · next hphase =>
      cases hphase
      split_ifs at h with hn
      cases h
      exact .writeCommand _ _ _ hn.1 hn.2
    · next hphase =>
      cases hphase
      split_ifs at h with hn
      cases h
      exact .writeMessage _ _ hn.1 hn.2
    · next hphase =>
      cases hphase
      split_ifs at h with hn
      cases h
      exact .read _ _ _ _ hn
    · next hphase =>
      cases hphase
      cases h
      exact .commandExits _ _ _ _
    · next hphase =>
      cases h
      exact .stageExits _ hphase
    · cases h
  · intro h
    cases h with
    | call => rfl
    | writeCommand _ _ _ hleft hfits => exact if_pos ⟨hleft, hfits⟩
    | writeMessage _ _ hleft hfits => exact if_pos ⟨hleft, hfits⟩
    | read _ _ _ _ hinput => exact if_pos hinput
    | commandExits => rfl
    | stageExits _ hphase =>
      unfold step
      rw [hphase]
      rfl

theorem Blocked.step (h : Blocked capacity s) (hm : Moves capacity s a t) : Blocked capacity t := by
  obtain ⟨hleft, hfull⟩ := h
  cases hm with
  | call => exact absurd hleft (Nat.lt_irrefl 0)
  | writeCommand _ _ _ hle hfits =>
    exact ⟨by simp only [Phase.left] at *; omega, by simp only at *; omega⟩
  | writeMessage _ _ hle hfits =>
    exact ⟨by simp only [Phase.left] at *; omega, by simp only at *; omega⟩
  | read => exact ⟨hleft, hfull⟩
  | commandExits => exact absurd hleft (Nat.lt_irrefl 0)
  | stageExits _ hphase =>
    rw [hphase] at hleft
    exact absurd hleft (Nat.lt_irrefl 0)

/-- Nobody reads the pipe while the shell waits, so a stage that is blocked stays blocked. -/
theorem stuck_iff_blocked : Stuck capacity s ↔ Blocked capacity s :=
  ⟨fun h => h s (Reachable.refl s), fun h _ ht =>
    ht.invariant h fun _ _ _ hb hl => hb.step (step_eq_some_iff.mp hl)⟩

/-- The invariant: what the stage has still to write fits in its pipe, and so it is for the
stages behind it. -/
def Fits (capacity : ℕ) (s : Shell) : Prop :=
  match s.phase with
  | .call => FitsPipes capacity s.commands
  | .command left message =>
    left + message + s.pipe ≤ capacity ∧ FitsPipes capacity s.commands.tail
  | .message left => left + s.pipe ≤ capacity ∧ FitsPipes capacity s.commands.tail
  | .finished => True

theorem Fits.not_blocked (h : Fits capacity s) : ¬ Blocked capacity s := by
  obtain ⟨cs, phase, pipe, input⟩ := s
  rintro ⟨hleft, hfull⟩
  cases phase with
  | call => exact Nat.lt_irrefl 0 hleft
  | command left message =>
    obtain ⟨hle, -⟩ : left + message + pipe ≤ capacity ∧ _ := h
    simp only [Phase.left] at *
    omega
  | message left =>
    obtain ⟨hle, -⟩ : left + pipe ≤ capacity ∧ _ := h
    simp only [Phase.left] at *
    omega
  | finished => exact Nat.lt_irrefl 0 hleft

theorem fits_handle {cs : List Command} (h : FitsPipes capacity cs) (input : ℕ) :
    Fits capacity ⟨cs, handle cs, 0, input⟩ := by
  match cs with
  | [] => exact trivial
  | [c] =>
    rw [Shell.handle]
    split_ifs
    · exact trivial
    · exact ⟨Nat.zero_le _, trivial⟩
  | c :: d :: cs =>
    rw [Shell.handle]
    split_ifs with hstarted
    · exact h hstarted
    · exact trivial

theorem Fits.step (h : Fits capacity s) (hm : Moves capacity s a t) : Fits capacity t := by
  cases hm with
  | call => exact fits_handle h _
  | writeCommand _ _ _ hle hfits =>
    obtain ⟨hfit, hrest⟩ := h
    exact ⟨by simp only at *; omega, hrest⟩
  | writeMessage _ _ hle hfits =>
    obtain ⟨hfit, hrest⟩ := h
    exact ⟨by simp only at *; omega, hrest⟩
  | read => exact h
  | commandExits =>
    obtain ⟨hfit, hrest⟩ := h
    exact ⟨by simp only at *; omega, hrest⟩
  | stageExits _ hphase =>
    obtain ⟨cs, phase, pipe, input⟩ := s
    cases hphase
    match cs with
    | [] => exact trivial
    | [_] => exact trivial
    | _ :: d :: cs => exact h.2

section Reaches
variable {cs : List Command} {n left message pipe : ℕ} (input : ℕ)

/-- A command whose output fits ends, and the process of the stage goes on to its message. -/
theorem reaches_message (hfits : pipe + n ≤ capacity) :
    Reachable (step capacity) ⟨cs, .command n message, pipe, input⟩
      ⟨cs, .message message, pipe + n, input⟩ := by
  have hwrite := Moves.writeCommand cs message input (Nat.le_refl n) hfits
  rw [Nat.sub_self] at hwrite
  exact .cons (step_eq_some_iff.mpr hwrite)
    (.cons (step_eq_some_iff.mpr (.commandExits cs message (pipe + n) input)) (.refl _))

theorem reaches_end (hfits : pipe + n ≤ capacity) :
    Reachable (step capacity) ⟨cs, .message n, pipe, input⟩ ⟨cs, .message 0, pipe + n, input⟩ := by
  have hwrite := Moves.writeMessage cs input (Nat.le_refl n) hfits
  rw [Nat.sub_self] at hwrite
  exact .cons (step_eq_some_iff.mpr hwrite) (.refl _)

theorem command_blocks (hfits : capacity < n) :
    ∃ t, Reachable (step capacity) ⟨cs, .command n message, 0, input⟩ t ∧ Blocked capacity t := by
  have hwrite := Moves.writeCommand cs message input (Nat.le_of_lt hfits)
    (Nat.le_of_eq (Nat.zero_add capacity))
  exact ⟨_, .cons (step_eq_some_iff.mpr hwrite) (.refl _), Nat.sub_pos_of_lt hfits, Nat.zero_add _⟩

theorem message_blocks (hpipe : pipe ≤ capacity) (hfits : capacity < pipe + n) :
    ∃ t, Reachable (step capacity) ⟨cs, .message n, pipe, input⟩ t ∧ Blocked capacity t := by
  have hwrite : Moves capacity ⟨cs, .message n, pipe, input⟩ (.write (capacity - pipe))
      ⟨cs, .message (n - (capacity - pipe)), pipe + (capacity - pipe), input⟩ :=
    .writeMessage cs input (by omega) (by omega)
  refine ⟨_, .cons (step_eq_some_iff.mpr hwrite) (.refl _), ?_, Nat.add_sub_cancel' hpipe⟩
  simp only [Phase.left]
  omega

end Reaches

/-- The first stage that writes too much blocks, since the ones in front of it end. -/
theorem exists_blocked {cs : List Command} (h : ¬ FitsPipes capacity cs) (pipe input : ℕ) :
    ∃ t, Reachable (step capacity) ⟨cs, .call, pipe, input⟩ t ∧ Blocked capacity t := by
  induction cs generalizing pipe input with
  | nil => exact absurd trivial h
  | cons c cs ih =>
    cases cs with
    | nil => exact absurd trivial h
    | cons d cs =>
      obtain ⟨hstarted, hnot⟩ := Classical.not_imp.mp h
      have hcall : Moves capacity _ _ _ := .call (c :: d :: cs) pipe input
      rw [handle, if_pos hstarted] at hcall
      have hreach {t} : Reachable (step capacity) _ t → Reachable (step capacity) _ t :=
        Reachable.cons (step_eq_some_iff.mpr hcall)
      -- Either the command blocks, or the message does, or some stage behind this one.
      by_cases hout : capacity < c.onPipe
      · obtain ⟨t, ht, hblocked⟩ := command_blocks input hout
        exact ⟨t, hreach ht, hblocked⟩
      have hmessage : Reachable (step capacity)
          ⟨c :: d :: cs, .command c.onPipe c.message, 0, input⟩
          ⟨c :: d :: cs, .message c.message, 0 + c.onPipe, input⟩ := reaches_message input (by omega)
      rw [Nat.zero_add] at hmessage
      by_cases hmsg : capacity < c.onPipe + c.message
      · obtain ⟨t, ht, hblocked⟩ := message_blocks input (by omega) hmsg
        exact ⟨t, hreach (hmessage.trans ht), hblocked⟩
      · have hend : Reachable (step capacity) ⟨c :: d :: cs, .message c.message, c.onPipe, input⟩
            ⟨c :: d :: cs, .message 0, c.onPipe + c.message, input⟩ := reaches_end input (by omega)
        have hexit : Moves capacity ⟨c :: d :: cs, .message 0, c.onPipe + c.message, input⟩
            .stageExits ⟨d :: cs, .call, 0, c.onPipe + c.message⟩ := .stageExits _ rfl
        have hrest : ¬ FitsPipes capacity (d :: cs) := fun hfits => hnot ⟨by omega, hfits⟩
        obtain ⟨t, ht, hblocked⟩ := ih hrest 0 (c.onPipe + c.message)
        have hbehind := Reachable.cons (step_eq_some_iff.mpr hexit) ht
        exact ⟨t, hreach (hmessage.trans (hend.trans hbehind)), hblocked⟩

/-- A pipeline never gets stuck if and only if each stage that is started, and has another
one behind it, writes no more than fits in its pipe: nobody reads the pipe before the stage
has ended. -/
theorem never_stuck_iff (capacity : ℕ) (cs : List Command) :
    (∀ s, Reachable (step capacity) (start cs) s → ¬ Stuck capacity s) ↔ FitsPipes capacity cs := by
  constructor
  · intro h
    by_contra hnot
    obtain ⟨t, ht, hblocked⟩ := exists_blocked hnot 0 0
    exact h t ht (stuck_iff_blocked.mpr hblocked)
  · intro h s hs hstuck
    have hfits : Fits capacity s :=
      hs.invariant h fun _ _ _ hfits hl => hfits.step (step_eq_some_iff.mp hl)
    exact hfits.not_blocked (stuck_iff_blocked.mp hstuck)

end Shell

def seqPipeline : List Command :=
  [⟨"seq".toList, ["20000".toList], ⟨true, true, ⟨true, true, true, true, true⟩⟩, 108894, 0⟩,
    ⟨"wc".toList, [], ⟨true, true, ⟨true, true, true, true, true⟩⟩, 0, 0⟩]

/-- With a pipe of 65536 bytes `seq` is stuck with the rest of its numbers. -/
theorem not_never_stuck :
    ¬ ∀ (capacity : ℕ) (cs : List Command) (s : Shell),
      Reachable (Shell.step capacity) (Shell.start cs) s → ¬ Shell.Stuck capacity s := by
  intro h
  refine h 65536 seqPipeline ⟨seqPipeline, .command 43358 0, 65536, 0⟩ ⟨[.call, .write 65536], ?_⟩ ?_
  · rfl
  · exact Shell.stuck_iff_blocked.mpr ⟨by decide, rfl⟩

end CLib.MyShell
