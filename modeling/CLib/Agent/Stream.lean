import CLib.Base.Runs
import Mathlib.Data.List.Range

namespace CLib.Agent
open CLib.Base

/-- `BUFFER_SIZE` of the agent. -/
def bufferSize : ℕ := 1024

/-- `BUFFER_SIZE` of the server. -/
def serverBufferSize : ℕ := 16384

def maxWaitingCount : ℕ := 86400

/-- Program points of the send loop of the agent. A byte of the log is given by its offset. -/
inductive AgentPc
  | reading
  | offering (buf : List ℕ)
  | waiting
  | left
  deriving DecidableEq

/-- One connection: the log, the agent's loop, the socket, and `talk_to_client` behind it. -/
structure Stream where
  size : ℕ
  /-- The position of the descriptor `a`. -/
  offset : ℕ
  t : ℕ
  nsl : ℕ
  agent : AgentPc
  reconnectFlag : Bool
  /-- The bytes that `send` has accepted, in order. -/
  handed : List ℕ
  receiving : Bool
  /-- The bytes in the file that the server opened for the connection. -/
  stored : List ℕ

/-- What the steps of one connection are answered. `send k` accepts `k` bytes, and of the
`n` bytes that `recv` returns `fwrite` takes `written`. -/
inductive Label
  | append (n : ℕ)
  | sigpipe
  | read (c : ℕ)
  | readFail
  | dayOver
  | reopen (opens seeks : Bool)
  | send (k : ℕ)
  | sendFail
  | receive (n written : ℕ)

namespace Stream

/-- The connection is new, and the server has truncated its file. -/
def start (size : ℕ) (reconnectFlag : Bool) : Stream where
  size := size
  offset := 0
  t := 0
  nsl := 0
  agent := .reading
  reconnectFlag := reconnectFlag
  handed := []
  receiving := true
  stored := []

/-- `break` on `g_reconnect_flag`. -/
def reconnect (s : Stream) : Stream := { s with reconnectFlag := false, agent := .left }

/-- `read(a, buf, BUFFER_SIZE)` has returned `c`: nothing only at the end of the file. -/
def stepRead (s : Stream) (c : ℕ) : Option Stream :=
  if s.reconnectFlag then some s.reconnect
  else if c ≤ bufferSize ∧ s.offset + c ≤ s.size ∧ (c = 0 → s.size ≤ s.offset) then
    if c = 0 then
      some { s with
        nsl := s.nsl + 1
        agent := if maxWaitingCount < s.nsl + 1 then .left else .waiting }
    else
      some { s with
        offset := s.offset + c
        t := s.t + c
        agent := .offering (List.range' s.offset c) }
  else none

/-- The rest of the wait at the end of the file: `open` and `lseek` to `t`. -/
def stepReopen (s : Stream) (opens seeks : Bool) : Stream :=
  if s.reconnectFlag then s.reconnect
  else if !opens then { s with agent := .left }
  else if !seeks then { s with offset := 0, agent := .left }
  else { s with offset := s.t, agent := .reading }

/-- `send` has accepted `k` bytes of the buffer. The loop goes on with the next read. -/
def stepSend (s : Stream) (buf : List ℕ) (k : ℕ) : Option Stream :=
  if s.reconnectFlag then some s.reconnect
  else if 0 < k ∧ k ≤ buf.length then
    some { s with handed := s.handed ++ buf.take k, agent := .reading }
  else none

/-- `recv` of the server, and `fwrite` of what it has returned. -/
def stepReceive (s : Stream) (n written : ℕ) : Option Stream :=
  if s.receiving ∧ 0 < n ∧ n ≤ serverBufferSize ∧ s.stored.length + n ≤ s.handed.length ∧
      written ≤ n then
    some { s with
      stored := s.stored ++ ((s.handed.drop s.stored.length).take n).take written
      receiving := written = n }
  else none

def step (s : Stream) : Label → Option Stream
  | .append n => some { s with size := s.size + n }
  | .sigpipe => some { s with reconnectFlag := true }
  | .read c => if s.agent = .reading then s.stepRead c else none
  | .readFail => if s.agent = .reading then some s.reconnect else none
  | .dayOver => if s.agent = .waiting ∧ s.nsl % 6 = 0 then some { s with agent := .left } else none
  | .reopen opens seeks => if s.agent = .waiting then some (s.stepReopen opens seeks) else none
  | .send k =>
    match s.agent with
    | .offering buf => s.stepSend buf k
    | _ => none
  | .sendFail =>
    match s.agent with
    | .offering _ => some s.reconnect
    | _ => none
  | .receive n written => s.stepReceive n written

/-- The log file so far, when its bytes are those of `log`. -/
def logFile (s : Stream) (log : ℕ → Char) : List Char := (List.range s.size).map log

/-- What was handed to the socket, and what the server has stored, is the log up to some byte. -/
structure Faithful (log : ℕ → Char) (s : Stream) : Prop where
  handed : s.handed.map log <+: s.logFile log
  stored : s.stored.map log <+: s.logFile log

/-- All that was read before the buffer on offer has been handed to the socket: no earlier
`send` took less than it was offered. -/
def NoneLost (s : Stream) : Label → Prop
  | .send _ => ∀ buf, s.agent = .offering buf → ¬ s.reconnectFlag →
    s.handed.length + buf.length = s.t
  | _ => True

/-- The counter, the descriptor and the socket are in step. -/
structure InStep (s : Stream) : Prop where
  offset : s.agent = .left ∨ s.offset = s.t
  size : s.t ≤ s.size
  handed : s.handed = List.range s.handed.length
  behind : s.handed.length ≤ s.t
  buffer : ∀ buf, s.agent = .offering buf → s.handed.length + buf.length ≤ s.t ∧
    buf = List.range' (s.t - buf.length) buf.length
  stored : s.stored <+: s.handed

theorem inStep_start (size : ℕ) (reconnectFlag : Bool) : (start size reconnectFlag).InStep where
  offset := .inr rfl
  size := Nat.zero_le size
  handed := rfl
  behind := le_rfl
  buffer := nofun
  stored := List.prefix_rfl

theorem range_append_take_range' {m n k : ℕ} (hk : k ≤ n) :
    List.range m ++ (List.range' m n).take k = List.range (m + k) := by
  rw [List.take_range'_of_length_ge hk, List.range_eq_range', List.range_eq_range']
  simpa only [Nat.zero_add] using List.range'_append_1 (s := 0) (m := m) (n := k)

theorem range_prefix_range {m n : ℕ} (h : m ≤ n) : List.range m <+: List.range n := by
  obtain ⟨k, rfl⟩ := Nat.exists_eq_add_of_le h
  rw [List.range_add]
  exact List.prefix_append _ _

section
variable {s u : Stream}

theorem InStep.left (h : s.InStep) (offset : ℕ) (flag : Bool) :
    InStep { s with offset := offset, reconnectFlag := flag, agent := .left } :=
  { h with offset := .inl rfl, buffer := nofun }

theorem InStep.stepRead {c : ℕ} (h : s.InStep) (hreading : s.agent = .reading)
    (hu : s.stepRead c = some u) : u.InStep := by
  have hoffset : s.offset = s.t := h.offset.resolve_left (by rw [hreading]; nofun)
  have hsize := h.size
  have hbehind := h.behind
  unfold Stream.stepRead at hu
  split_ifs at hu with hflag hc hzero
  · rw [← Option.some.inj hu]
    exact h.left s.offset false
  · rw [← Option.some.inj hu]
    exact { h with offset := .inr hoffset, buffer := nofun }
  · rw [← Option.some.inj hu]
    exact { h with offset := .inr hoffset, buffer := nofun }
  · rw [← Option.some.inj hu]
    refine { h with offset := ?_, size := ?_, behind := ?_, buffer := ?_ }
    · exact .inr (by rw [hoffset])
    · show s.t + c ≤ s.size
      omega
    · show s.handed.length ≤ s.t + c
      omega
    · intro buf hbuf
      obtain rfl : List.range' s.offset c = buf := AgentPc.offering.inj hbuf
      rw [List.length_range']
      refine ⟨Nat.add_le_add_right hbehind c, ?_⟩
      rw [hoffset, Nat.add_sub_cancel]

theorem InStep.stepReopen (h : s.InStep) (opens seeks : Bool) :
    (s.stepReopen opens seeks).InStep := by
  unfold Stream.stepReopen
  split_ifs
  · exact h.left s.offset false
  · exact h.left s.offset s.reconnectFlag
  · exact h.left 0 s.reconnectFlag
  · exact { h with offset := .inr rfl, buffer := nofun }

/-- What `send` takes from a buffer that continues the socket's bytes continues them. -/
theorem InStep.stepSend {buf : List ℕ} {k : ℕ} (h : s.InStep) (hbuf : s.agent = .offering buf)
    (hlost : ¬ s.reconnectFlag → s.handed.length + buf.length = s.t)
    (hu : s.stepSend buf k = some u) : u.InStep := by
  have hoffset : s.offset = s.t := h.offset.resolve_left (by rw [hbuf]; nofun)
  unfold Stream.stepSend at hu
  split_ifs at hu with hflag hk
  · rw [← Option.some.inj hu]
    exact h.left s.offset false
  · rw [← Option.some.inj hu]
    have hlen := hlost hflag
    have hfrom : s.t - buf.length = s.handed.length := by omega
    have hrange : s.handed ++ buf.take k = List.range (s.handed.length + k) := by
      conv_lhs => rw [h.handed, (h.buffer buf hbuf).2, hfrom]
      exact range_append_take_range' hk.2
    refine { h with
      offset := .inr hoffset
      handed := ?_
      behind := ?_
      buffer := nofun
      stored := ?_ }
    · show s.handed ++ buf.take k = List.range (s.handed ++ buf.take k).length
      rw [hrange, List.length_range]
    · show (s.handed ++ buf.take k).length ≤ s.t
      rw [hrange, List.length_range]
      omega
    · exact h.stored.trans (List.prefix_append _ _)

theorem InStep.stepReceive {n written : ℕ} (h : s.InStep)
    (hu : s.stepReceive n written = some u) : u.InStep := by
  unfold Stream.stepReceive at hu
  split_ifs at hu with hc
  rw [← Option.some.inj hu]
  refine { h with stored := ?_ }
  obtain ⟨rest, hrest⟩ := h.stored
  show s.stored ++ ((s.handed.drop s.stored.length).take n).take written <+: s.handed
  rw [List.take_take, ← hrest, List.drop_left]
  exact (List.prefix_append_right_inj s.stored).mpr (List.take_prefix _ _)

theorem InStep.step {l : Label} (h : s.InStep) (hlost : s.NoneLost l) (hu : s.step l = some u) :
    u.InStep := by
  cases l with
  | append n =>
    rw [← Option.some.inj hu]
    exact { h with size := h.size.trans (Nat.le_add_right s.size n) }
  | sigpipe =>
    rw [← Option.some.inj hu]
    exact { h with }
  | read c =>
    simp only [Stream.step] at hu
    split_ifs at hu with hpc
    exact h.stepRead hpc hu
  | readFail =>
    simp only [Stream.step] at hu
    split_ifs at hu with hpc
    rw [← Option.some.inj hu]
    exact h.left s.offset false
  | dayOver =>
    simp only [Stream.step] at hu
    split_ifs at hu with hpc
    rw [← Option.some.inj hu]
    exact h.left s.offset s.reconnectFlag
  | reopen opens seeks =>
    simp only [Stream.step] at hu
    split_ifs at hu with hpc
    rw [← Option.some.inj hu]
    exact h.stepReopen opens seeks
  | send k =>
    simp only [Stream.step] at hu
    split at hu
    · rename_i buf hbuf
      exact h.stepSend hbuf (hlost buf hbuf) hu
    · cases hu
  | sendFail =>
    simp only [Stream.step] at hu
    split at hu
    · rw [← Option.some.inj hu]
      exact h.left s.offset false
    · cases hu
  | receive n written => exact h.stepReceive hu

/-- The log only grows. -/
theorem size_le_of_step {l : Label} (hu : s.step l = some u) : s.size ≤ u.size := by
  cases l with
  | append n =>
    rw [← Option.some.inj hu]
    exact Nat.le_add_right s.size n
  | sigpipe =>
    rw [← Option.some.inj hu]
  | read c =>
    simp only [Stream.step, Stream.stepRead, reconnect] at hu
    split_ifs at hu <;> rw [← Option.some.inj hu]
  | readFail | dayOver =>
    simp only [Stream.step, reconnect] at hu
    split_ifs at hu
    rw [← Option.some.inj hu]
  | reopen opens seeks =>
    simp only [Stream.step, Stream.stepReopen, reconnect] at hu
    split_ifs at hu <;> rw [← Option.some.inj hu]
  | send k =>
    simp only [Stream.step] at hu
    split at hu
    · unfold Stream.stepSend reconnect at hu
      split_ifs at hu <;> rw [← Option.some.inj hu]
    · cases hu
  | sendFail =>
    simp only [Stream.step, reconnect] at hu
    split at hu
    · rw [← Option.some.inj hu]
    · cases hu
  | receive n written =>
    simp only [Stream.step, Stream.stepReceive] at hu
    split_ifs at hu
    rw [← Option.some.inj hu]

theorem logFile_prefix_of_step {l : Label} (hu : s.step l = some u) (log : ℕ → Char) :
    s.logFile log <+: u.logFile log :=
  (range_prefix_range (size_le_of_step hu)).map log

theorem InStep.faithful (h : s.InStep) (log : ℕ → Char) : s.Faithful log := by
  have hhanded : s.handed <+: List.range s.size := by
    rw [h.handed]
    exact range_prefix_range (h.behind.trans h.size)
  exact ⟨hhanded.map log, (h.stored.trans hhanded).map log⟩

end

theorem prefix_range_of_forall_map {xs : List ℕ} {n : ℕ}
    (h : ∀ log : ℕ → Char, xs.map log <+: (List.range n).map log) : xs <+: List.range n := by
  rw [List.prefix_iff_getElem?]
  intro i hi
  have hmap := h fun j => if j = i then 'a' else 'b'
  have hat := List.prefix_iff_getElem?.mp hmap i (by simpa using hi)
  have hn : i < n := by
    by_contra hge
    rw [List.getElem?_eq_none (by simpa using hge)] at hat
    cases hat
  rw [List.getElem?_range hn]
  rw [List.getElem?_map, List.getElem?_range hn, Option.map_some, if_pos rfl, List.getElem_map] at hat
  by_cases hxi : xs[i] = i
  · rw [hxi]
  · rw [if_neg hxi] at hat
    cases hat

theorem noneLost_of_faithful {s u : Stream} {l : Label} (h : s.InStep) (hu : s.step l = some u)
    (hfaithful : ∀ log, u.Faithful log) : s.NoneLost l := by
  cases l with
  | send k =>
    intro buf hbuf hflag
    simp only [Stream.step, hbuf, stepSend, if_neg hflag] at hu
    split_ifs at hu with hk
    have hprefix := prefix_range_of_forall_map fun log => (hfaithful log).handed
    rw [← Option.some.inj hu] at hprefix
    obtain ⟨hbehind, hrange⟩ := h.buffer buf hbuf
    have hfirst : buf[0]? = some (s.t - buf.length) := by
      conv_lhs => rw [hrange]
      rw [List.getElem?_range' (hk.1.trans_le hk.2), Nat.mul_zero, Nat.add_zero]
    have hhead : (s.handed ++ buf.take k)[s.handed.length]? = some (s.t - buf.length) := by
      rw [List.getElem?_append_right le_rfl, Nat.sub_self, List.getElem?_take_of_lt hk.1, hfirst]
    have hplace : s.t - buf.length = s.handed.length := by
      obtain ⟨hlt, hget⟩ := List.getElem?_eq_some_iff.mp hhead
      rw [← hget, hprefix.getElem hlt, List.getElem_range]
    omega
  | _ => trivial

/-- The socket and the stored file carry the log, whatever its bytes are, exactly in the runs
where no byte is offered after a `send` that took less than it was offered. -/
theorem faithful_iff (size : ℕ) (reconnectFlag : Bool) (ls : List Label) :
    (∀ log s, Visits step (start size reconnectFlag) ls s → s.Faithful log) ↔
      Along step NoneLost (start size reconnectFlag) ls := by
  have hrun : (∀ s, Visits step (start size reconnectFlag) ls s → ∀ log, s.Faithful log) ↔
      Along step NoneLost (start size reconnectFlag) ls :=
    along_iff_forall_visits_of_invariant (fun _ h => h.faithful) (inStep_start size reconnectFlag)
      (fun _ _ _ h => h.step) fun _ _ _ => noneLost_of_faithful
  rw [← hrun]
  exact ⟨fun h s hs log => h log s hs, fun h log s hs => h s hs log⟩

/-- `send` takes one byte of two. The agent reads on behind the second one. -/
def shortSend : List Label := [.read 2, .send 1, .append 1, .read 1, .send 1, .receive 2 2]

theorem not_faithful_shortSend :
    ¬ ∀ s, Visits step (start 2 false) shortSend s →
      s.Faithful fun i => if i = 1 then 'b' else 'a' := by
  intro h
  have hlast := h _ ⟨shortSend, List.prefix_rfl, rfl⟩
  exact absurd hlast.stored (by decide)

end Stream
end CLib.Agent
