import CLib.Base.Runs
import CLib.Server.Config
import Mathlib.Logic.Function.Basic

namespace CLib.Server
open CLib.Base

/-- A date as `strftime` prints it with `%Y%m%d`. -/
@[ext]
structure Day where
  text : Text
  length_eq : text.length = 8
  deriving DecidableEq

def logName : Text := "davinci_srv.log.".toList

/-- The value that `g_file_name` has on a day. -/
def serverFileName (d : Day) : Text := logName ++ d.text

/-- `"%s.%d"` of `g_file_name` and an index. -/
def agentFileName (d : Day) (index : ℕ) : Text := serverFileName d ++ '.' :: percentU index

/-- `strncmp(a, b, strlen(a)) != 0`. -/
def differs (a b : Text) : Bool := !strncmpZero a b a.length

theorem differs_iff (a b : Text) : differs a b ↔ ¬ a <+: b := by
  rw [differs, Bool.not_eq_true', ← strncmpZero_length_left, Bool.not_eq_true]

theorem differs_append (d d' : Day) (front back : Text) :
    differs (front ++ d.text ++ back) (front ++ d'.text ++ back) = decide (d ≠ d') := by
  rw [Bool.eq_iff_iff, differs_iff, decide_eq_true_iff, not_iff_not]
  constructor
  · intro h
    have heq := h.eq_of_length (by simp [d.length_eq, d'.length_eq])
    rw [List.append_cancel_right_eq, List.append_cancel_left_eq] at heq
    exact Day.ext heq
  · rintro rfl
    exact List.prefix_rfl

theorem differs_serverFileName (d d' : Day) :
    differs (serverFileName d) (serverFileName d') = decide (d ≠ d') := by
  have h := differs_append d d' logName []
  rwa [List.append_nil, List.append_nil] at h

theorem differs_agentFileName (d d' : Day) (index : ℕ) :
    differs (agentFileName d index) (agentFileName d' index) = decide (d ≠ d') :=
  differs_append d d' logName ('.' :: percentU index)

/-- An accepted connection. `getpeername` fails where the peer has already reset it; `stale`
is what `client_addr` holds then. -/
structure Conn where
  socket : ℕ
  peer : Ip
  stale : Option Ip
  deriving DecidableEq

/-- The address that `main` goes by, which does not look at the result of `getpeername`. -/
def Conn.clientAddr (c : Conn) : Ip := c.stale.getD c.peer

/-- `Work_Area`; `new_socket` is 0 before the first connection. -/
structure WorkArea where
  newSocket : Option Conn
  workerId : ℕ
  deriving DecidableEq

/-- Program points of `talk_to_client`, with the day in its `file_name`. -/
inductive TalkPc
  | created
  | indexed
  | loaded
  | marked
  | inConsole
  | named (d : Day)
  | receiving (d : Day)
  | leaving
  | closed
  | released
  deriving DecidableEq

/-- The thread has set the active flag of its slot and not yet cleared it. -/
def TalkPc.working : TalkPc → Bool
  | .created | .indexed | .loaded | .released => false
  | _ => true

/-- The day of the file that the thread has named. -/
def TalkPc.day : TalkPc → Option Day
  | .named d | .receiving d => some d
  | _ => none

/-- A `talk_to_client` thread: the slot whose address it was given, the
connection that it was started for, and its locals. -/
structure Talk where
  slot : ℕ
  accepted : Conn
  index : ℕ
  newServerSocket : Option Conn
  pc : TalkPc
  deriving DecidableEq

/-- Program points of `enqueue_func`, with the day in its `file_name` and the
number of lines that it has read. -/
inductive EnqueuePc
  | created
  | named (d : Day)
  | opened (d : Day) (lines : ℕ)
  | atEof (d : Day) (lines : ℕ)
  deriving DecidableEq

/-- The day of the file that the thread has named. -/
def EnqueuePc.day : EnqueuePc → Option Day
  | .created => none
  | .named d | .opened d _ | .atEof d _ => some d

/-- An `enqueue_func` thread. -/
structure Enqueue where
  index : ℕ
  pc : EnqueuePc
  deriving DecidableEq

/-- Program points of the accept loop of `main`. -/
inductive MainPc
  | waiting
  | accepted (slot : ℕ) (agent : Bool) (c : Conn)
  | counted (slot : ℕ) (agent : Bool) (c : Conn)
  | stored (slot : ℕ) (agent : Bool) (c : Conn)
  | talking (slot : ℕ)
  deriving DecidableEq

/-- The session that `main` has accepted and not yet handed to a thread. -/
def MainPc.session : MainPc → Option (ℕ × Bool × Conn)
  | .accepted slot agent c | .counted slot agent c | .stored slot agent c => some (slot, agent, c)
  | _ => none

/-- The state of the server. Threads are numbered as they are created; a thread
that has ended is `none`. -/
structure State where
  today : Day
  fileName : Day
  socketActive : ℕ → Bool
  workAreas : ℕ → WorkArea
  openSockets : List ℕ
  connectedAgents : ℕ
  /-- `client_addr` of `main`, which is not initialized. -/
  clientAddr : Option Ip
  main : MainPc
  talks : ℕ → Option Talk
  enqueues : ℕ → Option Enqueue
  /-- The log files that are in the directory, by day and index. -/
  files : Day → ℕ → Bool

inductive TalkEvent
  | next | receive | timeout | fail

inductive EnqueueEvent
  | next | missing | line | eof | stop

inductive Label
  | newDay (d : Day)
  | accept (c : Conn)
  | main
  | spawnTalk (t : ℕ)
  | spawnEnqueue (r : ℕ)
  | spawnTalkFails
  | spawnEnqueueFails
  | talk (t : ℕ) (e : TalkEvent)
  | enqueue (r : ℕ) (e : EnqueueEvent)

namespace State

def initial (d : Day) : State where
  today := d
  fileName := d
  socketActive _ := false
  workAreas _ := ⟨none, 0⟩
  openSockets := []
  connectedAgents := 0
  clientAddr := none
  main := .waiting
  talks _ := none
  enqueues _ := none
  files _ _ := false

/-- The slot that `main` gives to a new connection, if it does not refuse it. -/
def admits (servers : List Text) (s : State) (c : Conn) : Option (ℕ × Bool) :=
  (slotFor servers c.clientAddr).filter fun i => !s.socketActive i.1

/-- `accept` and the tests after it; `main` does not close a socket that it refuses. -/
def accept (servers : List Text) (s : State) (c : Conn) : State :=
  { s with
    openSockets := c.socket :: s.openSockets
    clientAddr := some c.clientAddr
    main := match s.admits servers c with
      | some (slot, agent) => .accepted slot agent c
      | none => .waiting }

def setTalk (s : State) (t : ℕ) (x : Option Talk) : State :=
  { s with talks := Function.update s.talks t x }

def setEnqueue (s : State) (r : ℕ) (x : Option Enqueue) : State :=
  { s with enqueues := Function.update s.enqueues r x }

def setActive (s : State) (i : ℕ) (b : Bool) : State :=
  { s with socketActive := Function.update s.socketActive i b }

/-- The section of `talk_to_client` after a timeout on the file of day `d`. -/
def rotate (s : State) (t : ℕ) (x : Talk) (d : Day) : State :=
  if differs (agentFileName d x.index) (agentFileName s.today x.index) then
    -- `g_file_name` is shared: the readers of all agents see the new day.
    { s.setTalk t (some { x with pc := .leaving }) with
      fileName := if differs (serverFileName s.fileName) (serverFileName s.today) then s.today
        else s.fileName }
  else s

/-- The steps of `talk_to_client`, one for each access to shared state. -/
def stepTalk (s : State) (t : ℕ) (x : Talk) : TalkEvent → Option State
  | .next =>
    match x.pc with
    | .created =>
      some (s.setTalk t (some { x with index := (s.workAreas x.slot).workerId, pc := .indexed }))
    | .indexed =>
      some (s.setTalk t
        (some { x with newServerSocket := (s.workAreas x.slot).newSocket, pc := .loaded }))
    -- The thread sets the flag of its slot, not `main` before it creates the thread.
    | .loaded => some ((s.setActive x.index true).setTalk t (some { x with pc := .marked }))
    -- The slot alone decides on `process_cmd`.
    | .marked =>
      if x.index = consoleSlot then some (s.setTalk t (some { x with pc := .inConsole }))
      else some (s.setTalk t (some { x with pc := .named s.fileName }))
    -- After `process_cmd` the socket is left open.
    | .inConsole => some ((s.setActive x.index false).setTalk t none)
    | .named d =>
      some { s.setTalk t (some { x with pc := .receiving d }) with
        files := Function.update s.files d (Function.update (s.files d) x.index true) }
    | .receiving _ => none
    | .leaving =>
      some { s.setTalk t (some { x with pc := .closed }) with
        openSockets := s.openSockets.filter fun k => x.newServerSocket.all fun c => c.socket ≠ k }
    | .closed => some ((s.setActive x.index false).setTalk t (some { x with pc := .released }))
    | .released => some { s.setTalk t none with connectedAgents := s.connectedAgents - 1 }
  | .receive => match x.pc with | .receiving _ => some s | _ => none
  | .timeout => match x.pc with | .receiving d => some (s.rotate t x d) | _ => none
  | .fail =>
    match x.pc with
    | .receiving _ => some (s.setTalk t (some { x with pc := .leaving }))
    | _ => none

/-- The steps of `enqueue_func`, one for each section. Whether a line is there or
the read meets end of file, and whether the thread gives up, is left open. -/
def stepEnqueue (s : State) (r : ℕ) (x : Enqueue) : EnqueueEvent → Option State
  | .next =>
    match x.pc with
    | .created => some (s.setEnqueue r (some { x with pc := .named s.fileName }))
    | .named d =>
      if s.files d x.index then some (s.setEnqueue r (some { x with pc := .opened d 0 })) else none
    | .opened _ _ => none
    | .atEof d n =>
      if differs (agentFileName d x.index) (agentFileName s.fileName x.index) then
        -- The end of the day: `remove(file_name)`, and the thread exits.
        some { s.setEnqueue r none with
          files := Function.update s.files d (Function.update (s.files d) x.index false) }
      else some (s.setEnqueue r (some { x with pc := .opened d n }))
  | .missing =>
    match x.pc with
    | .named _ => some (s.setEnqueue r (some { x with pc := .named s.fileName }))
    | _ => none
  | .line =>
    match x.pc with
    | .opened d n => some (s.setEnqueue r (some { x with pc := .opened d (n + 1) }))
    | _ => none
  | .eof =>
    match x.pc with
    | .opened d n =>
      if n = 0 then some (s.setEnqueue r none)
      else some (s.setEnqueue r (some { x with pc := .atEof d n }))
    | _ => none
  | .stop => match x.pc with | .opened _ _ => some (s.setEnqueue r none) | _ => none

/-- `main` between `accept` and the creation of the session's thread. -/
def stepMain (s : State) : Option State :=
  match s.main with
  | .accepted slot agent c =>
    some { s with
      main := .counted slot agent c
      connectedAgents := if agent then s.connectedAgents + 1 else s.connectedAgents }
  | .counted slot agent c =>
    some { s with
      main := .stored slot agent c
      workAreas := Function.update s.workAreas slot ⟨some c, slot⟩ }
  | _ => none

def spawnTalk (s : State) (t : ℕ) : Option State :=
  match s.main with
  | .stored slot agent c =>
    if s.talks t = none then
      some { s.setTalk t (some ⟨slot, c, 0, none, .created⟩) with
        main := if agent then .talking slot else .waiting }
    else none
  | _ => none

def spawnEnqueue (s : State) (r : ℕ) : Option State :=
  match s.main with
  | .talking slot =>
    if s.enqueues r = none then
      some { s.setEnqueue r (some ⟨slot, .created⟩) with main := .waiting }
    else none
  | _ => none

/-- `pthread_create` fails with a positive number, and `main`, which tests for a negative one,
goes on as if there were a thread. -/
def spawnTalkFails (s : State) : Option State :=
  match s.main with
  | .stored slot agent _ => some { s with main := if agent then .talking slot else .waiting }
  | _ => none

def spawnEnqueueFails (s : State) : Option State :=
  match s.main with
  | .talking _ => some { s with main := .waiting }
  | _ => none

/-- One step of one of the threads, or of the clock. -/
def step (servers : List Text) (s : State) : Label → Option State
  | .newDay d => some { s with today := d }
  | .accept c =>
    if s.main = .waiting ∧ c.socket ∉ s.openSockets ∧
        c.stale.all fun a => s.clientAddr.all fun b => a = b then some (s.accept servers c)
    else none
  | .main => s.stepMain
  | .spawnTalk t => s.spawnTalk t
  | .spawnEnqueue r => s.spawnEnqueue r
  | .spawnTalkFails => s.spawnTalkFails
  | .spawnEnqueueFails => s.spawnEnqueueFails
  | .talk t e => (s.talks t).bind fun x => s.stepTalk t x e
  | .enqueue r e => (s.enqueues r).bind fun x => s.stepEnqueue r x e

section Cases
variable {s u : State} {t : ℕ} {x : Talk}

theorem stepTalk_frame {e : TalkEvent} (h : s.stepTalk t x e = some u) :
    u.main = s.main ∧ u.workAreas = s.workAreas ∧ u.enqueues = s.enqueues ∧ u.today = s.today := by
  unfold stepTalk rotate at h
  split at h <;> split at h <;> (try split_ifs at h) <;> cases h <;> exact ⟨rfl, rfl, rfl, rfl⟩

/-- What a step of `talk_to_client` does to the threads, the active flags and `g_file_name`. -/
inductive TalkEffect (s : State) (t : ℕ) (x : Talk) (e : TalkEvent) (u : State) : Prop
  | idle (talks : u.talks = s.talks) (active : u.socketActive = s.socketActive)
      (name : u.fileName = s.fileName)
  | index (pc : x.pc = .created)
      (talks : u.talks = Function.update s.talks t
        (some { x with index := (s.workAreas x.slot).workerId, pc := .indexed }))
      (active : u.socketActive = s.socketActive) (name : u.fileName = s.fileName)
  | load (pc : x.pc = .indexed)
      (talks : u.talks = Function.update s.talks t
        (some { x with newServerSocket := (s.workAreas x.slot).newSocket, pc := .loaded }))
      (active : u.socketActive = s.socketActive) (name : u.fileName = s.fileName)
  | mark (pc : x.pc = .loaded)
      (talks : u.talks = Function.update s.talks t (some { x with pc := .marked }))
      (active : u.socketActive = Function.update s.socketActive x.index true)
      (name : u.fileName = s.fileName)
  | move (pc : TalkPc) (before : x.pc.working) (after : pc.working)
      (console : pc = .inConsole → x.index = consoleSlot)
      (day : ∀ d, pc.day = some d → x.pc.day = some d ∨ d = s.fileName)
      (talks : u.talks = Function.update s.talks t (some { x with pc := pc }))
      (active : u.socketActive = s.socketActive) (name : u.fileName = s.fileName)
  | rotate (d : Day) (event : e = .timeout) (pc : x.pc = .receiving d) (old : d ≠ s.today)
      (talks : u.talks = Function.update s.talks t (some { x with pc := .leaving }))
      (active : u.socketActive = s.socketActive) (name : u.fileName = s.today)
  | release (pc : x.pc = .closed)
      (talks : u.talks = Function.update s.talks t (some { x with pc := .released }))
      (active : u.socketActive = Function.update s.socketActive x.index false)
      (name : u.fileName = s.fileName)
  | consoleEnd (pc : x.pc = .inConsole) (talks : u.talks = Function.update s.talks t none)
      (active : u.socketActive = Function.update s.socketActive x.index false)
      (name : u.fileName = s.fileName)
  | exit (pc : x.pc = .released) (talks : u.talks = Function.update s.talks t none)
      (active : u.socketActive = s.socketActive) (name : u.fileName = s.fileName)

theorem rotate_effect {d : Day} (hpc : x.pc = .receiving d) :
    TalkEffect s t x .timeout (s.rotate t x d) := by
  unfold rotate
  split_ifs with hold hname
  · rw [differs_agentFileName, decide_eq_true_iff] at hold
    exact .rotate d rfl hpc hold rfl rfl rfl
  · rw [differs_agentFileName, decide_eq_true_iff] at hold
    refine .rotate d rfl hpc hold rfl rfl ?_
    rw [differs_serverFileName, decide_eq_true_iff, not_not] at hname
    exact hname
  · exact .idle rfl rfl rfl

theorem stepTalk_effect {e : TalkEvent} (h : s.stepTalk t x e = some u) :
    TalkEffect s t x e u := by
  unfold stepTalk at h
  cases e with
  | next =>
    cases hpc : x.pc with
    | created =>
      rw [hpc] at h
      obtain rfl := Option.some.inj h
      exact .index hpc rfl rfl rfl
    | indexed =>
      rw [hpc] at h
      obtain rfl := Option.some.inj h
      exact .load hpc rfl rfl rfl
    | loaded =>
      rw [hpc] at h
      obtain rfl := Option.some.inj h
      exact .mark hpc rfl rfl rfl
    | marked =>
      simp only [hpc] at h
      split_ifs at h with hindex
      · obtain rfl := Option.some.inj h
        exact .move .inConsole (by rw [hpc]; rfl) rfl (fun _ => hindex) nofun rfl rfl rfl
      · obtain rfl := Option.some.inj h
        exact .move (.named s.fileName) (by rw [hpc]; rfl) rfl nofun
          (fun d hd => .inr (Option.some.inj hd).symm) rfl rfl rfl
    | inConsole =>
      rw [hpc] at h
      obtain rfl := Option.some.inj h
      exact .consoleEnd hpc rfl rfl rfl
    | named d =>
      rw [hpc] at h
      obtain rfl := Option.some.inj h
      exact .move (.receiving d) (by rw [hpc]; rfl) rfl nofun (fun _ hd => .inl (by rw [hpc]; exact hd))
        rfl rfl rfl
    | receiving d =>
      rw [hpc] at h
      cases h
    | leaving =>
      rw [hpc] at h
      obtain rfl := Option.some.inj h
      exact .move .closed (by rw [hpc]; rfl) rfl nofun nofun rfl rfl rfl
    | closed =>
      rw [hpc] at h
      obtain rfl := Option.some.inj h
      exact .release hpc rfl rfl rfl
    | released =>
      rw [hpc] at h
      obtain rfl := Option.some.inj h
      exact .exit hpc rfl rfl rfl
  | receive =>
    dsimp only at h
    split at h <;> cases h
    exact .idle rfl rfl rfl
  | timeout =>
    dsimp only at h
    split at h <;> cases h
    exact rotate_effect ‹_›
  | fail =>
    dsimp only at h
    split at h <;> cases h
    case h_1 hpc => exact .move .leaving (by rw [hpc]; rfl) rfl nofun nofun rfl rfl rfl

theorem stepEnqueue_frame {r : ℕ} {y : Enqueue} {e : EnqueueEvent}
    (h : s.stepEnqueue r y e = some u) :
    u.main = s.main ∧ u.workAreas = s.workAreas ∧ u.talks = s.talks ∧
      u.socketActive = s.socketActive ∧ u.fileName = s.fileName := by
  unfold stepEnqueue at h
  split at h <;> split at h <;> (try split_ifs at h) <;> cases h <;>
  exact ⟨rfl, rfl, rfl, rfl, rfl⟩

/-- A step of `enqueue_func` keeps the thread's index or ends the thread, and takes
a new file name from `g_file_name` only. -/
theorem stepEnqueue_enqueues {r : ℕ} {y : Enqueue} {e : EnqueueEvent}
    (h : s.stepEnqueue r y e = some u) :
    ∃ y' : Option Enqueue, u.enqueues = Function.update s.enqueues r y' ∧
      ∀ z, y' = some z → z.index = y.index ∧
        ∀ d, z.pc.day = some d → y.pc.day = some d ∨ d = s.fileName := by
  unfold stepEnqueue at h
  split at h <;> split at h <;> (try split_ifs at h) <;> cases h <;>
  refine ⟨_, rfl, ?_⟩ <;> rintro z ⟨⟩ <;>
  first
  | exact ⟨rfl, fun d hd => .inr (Option.some.inj hd).symm⟩
  | exact ⟨rfl, fun d hd => .inl (by rw [‹y.pc = _›]; exact hd)⟩

/-- What each kind of step requires and what it leads to. -/
inductive Steps (servers : List Text) (s : State) : Label → State → Prop
  | newDay (d : Day) : Steps servers s (.newDay d) { s with today := d }
  | accept (c : Conn) : Steps servers s (.accept c) (s.accept servers c)
  | count {slot : ℕ} {agent : Bool} {c : Conn} (hm : s.main = .accepted slot agent c) :
    Steps servers s .main { s with
      main := .counted slot agent c
      connectedAgents := if agent then s.connectedAgents + 1 else s.connectedAgents }
  | store {slot : ℕ} {agent : Bool} {c : Conn} (hm : s.main = .counted slot agent c) :
    Steps servers s .main { s with
      main := .stored slot agent c
      workAreas := Function.update s.workAreas slot ⟨some c, slot⟩ }
  | spawnTalk {t slot : ℕ} {agent : Bool} {c : Conn} (hm : s.main = .stored slot agent c)
    (hfree : s.talks t = none) :
    Steps servers s (.spawnTalk t) { s.setTalk t (some ⟨slot, c, 0, none, .created⟩) with
      main := if agent then .talking slot else .waiting }
  | spawnEnqueue {r slot : ℕ} (hm : s.main = .talking slot) (hfree : s.enqueues r = none) :
    Steps servers s (.spawnEnqueue r)
      { s.setEnqueue r (some ⟨slot, .created⟩) with main := .waiting }
  | spawnTalkFails {slot : ℕ} {agent : Bool} {c : Conn} (hm : s.main = .stored slot agent c) :
    Steps servers s .spawnTalkFails { s with main := if agent then .talking slot else .waiting }
  | spawnEnqueueFails {slot : ℕ} (hm : s.main = .talking slot) :
    Steps servers s .spawnEnqueueFails { s with main := .waiting }
  | talk {t : ℕ} {x : Talk} {e : TalkEvent} {u : State} (hx : s.talks t = some x)
    (hu : s.stepTalk t x e = some u) : Steps servers s (.talk t e) u
  | enqueue {r : ℕ} {y : Enqueue} {e : EnqueueEvent} {u : State} (hy : s.enqueues r = some y)
    (hu : s.stepEnqueue r y e = some u) : Steps servers s (.enqueue r e) u

theorem steps_of_step {servers : List Text} {l : Label} (h : s.step servers l = some u) :
    Steps servers s l u := by
  cases l with
  | newDay d =>
    cases h
    exact .newDay d
  | accept c =>
    obtain ⟨-, ⟨⟩⟩ := Option.ite_none_right_eq_some.mp h
    exact .accept c
  | main =>
    change s.stepMain = some u at h
    unfold stepMain at h
    split at h <;> cases h
    case h_1 hm => exact .count hm
    case h_2 hm => exact .store hm
  | spawnTalk t =>
    change s.spawnTalk t = some u at h
    unfold State.spawnTalk at h
    split at h
    case h_2 => cases h
    case h_1 hm =>
      obtain ⟨hfree, ⟨⟩⟩ := Option.ite_none_right_eq_some.mp h
      exact .spawnTalk hm hfree
  | spawnEnqueue r =>
    change s.spawnEnqueue r = some u at h
    unfold State.spawnEnqueue at h
    split at h
    case h_2 => cases h
    case h_1 hm =>
      obtain ⟨hfree, ⟨⟩⟩ := Option.ite_none_right_eq_some.mp h
      exact .spawnEnqueue hm hfree
  | spawnTalkFails =>
    change s.spawnTalkFails = some u at h
    unfold State.spawnTalkFails at h
    split at h <;> cases h
    case h_1 hm => exact .spawnTalkFails hm
  | spawnEnqueueFails =>
    change s.spawnEnqueueFails = some u at h
    unfold State.spawnEnqueueFails at h
    split at h <;> cases h
    case h_1 hm => exact .spawnEnqueueFails hm
  | talk t e =>
    obtain ⟨x, hx, hu⟩ := Option.bind_eq_some_iff.mp h
    exact .talk hx hu
  | enqueue r e =>
    obtain ⟨y, hy, hu⟩ := Option.bind_eq_some_iff.mp h
    exact .enqueue hy hu

end Cases

theorem update_eq_some {α : Type} {f : ℕ → Option α} {t t' : ℕ} {y : Option α} {z : α}
    (h : Function.update f t y t' = some z) : (t' = t ∧ y = some z) ∨ (t' ≠ t ∧ f t' = some z) := by
  by_cases ht : t' = t
  · rw [ht, Function.update_self] at h
    exact .inl ⟨ht, h⟩
  · rw [Function.update_of_ne ht] at h
    exact .inr ⟨ht, h⟩

theorem forall_update {α : Type} {P : α → Prop} {f : ℕ → Option α} (h : ∀ t z, f t = some z → P z)
    {t : ℕ} {y : Option α} (hy : ∀ z, y = some z → P z) :
    ∀ t' z, Function.update f t y t' = some z → P z := by
  intro t' z hz
  rcases update_eq_some hz with ⟨-, hz⟩ | ⟨-, hz⟩
  · exact hy z hz
  · exact h t' z hz

end State
end CLib.Server
