import CLib.Agent.Stream
import CLib.Server.DayEnd
import CLib.Server.Grouping
import CLib.Server.QueueLimit

namespace CLib.Server
open CLib.Base CLib.Queue

/-- One agent: its connection, and the thread that reads what the server stores of its log. -/
structure Channel where
  stream : Agent.Stream
  reader : Reader
  /-- How many of the assembled strings have got a buffer of their own. -/
  built : ℕ

/-- What the thread has assembled and not yet copied for the queue. -/
def Channel.pending (c : Channel) : List Text := c.reader.assembly.enqueued.drop c.built

/-- The file that the server keeps for the agent. -/
def Channel.stored (c : Channel) (log : ℕ → Char) : Text := c.stream.stored.map log

/-- The agents, each with its two threads of the server, and the queue behind them.
`origins` names the agent of every string pushed. -/
structure System (ι : Type) where
  channels : ι → Channel
  pipeline : Pipeline ι
  origins : List ι

inductive SystemEvent (ι : Type)
  | stream (i : ι) (l : Agent.Label)
  | read (i : ι) (e : Attempt)
  | enqueuer (i : ι) (e : EnqueuerEvent)
  | dispatcher (stores : Bool)

namespace System

/-- `talk_to_client` stores what it has received under `s_queue_mutex`. -/
def takesMutex : Agent.Label → Bool
  | .receive _ _ => true
  | _ => false

/-- How the section that reads the file ends: a round that gives up on a bad descriptor leaves
the loop with the mutex held. -/
def endOfRead (r : Reader) (e : Attempt) : EnqueuerEvent :=
  if e.fgetsErrno = ebadf ∧ (r.attempt e).exit.isSome then .leave else .unlockFile

/-- Which operations on the queue the thread has come to. The end of the section that reads
the file is a step of its own, `SystemEvent.read`. -/
def Allows (c : Channel) : EnqueuerEvent → Prop
  | .lockFile => c.reader.exit = none ∧ c.pending = []
  | .unlockFile => False
  | .leave => c.reader.exit ≠ none
  | .keep => c.pending = []
  | .build _ record => c.pending.head? = some record
  | _ => True

instance (c : Channel) : DecidablePred (Allows c) := fun e => by
  cases e <;> unfold Allows <;> infer_instance

variable {ι : Type} [DecidableEq ι]

/-- All agents have just connected, and every reader has opened its file. -/
def initial (size : ι → ℕ) (node : Ptr) : System ι where
  channels i := ⟨.start (size i) false, .opened, 0⟩
  pipeline := .initial node
  origins := []

def setChannel (s : System ι) (i : ι) (c : Channel) : System ι :=
  { s with channels := Function.update s.channels i c }

def stepStream (s : System ι) (i : ι) (l : Agent.Label) : Option (System ι) :=
  if takesMutex l ∧ s.pipeline.owner ≠ none then none
  else ((s.channels i).stream.step l).map fun u => s.setChannel i { s.channels i with stream := u }

/-- One round of the reader, on the bytes that are stored at that moment. -/
def stepRead (log : ι → ℕ → Char) (s : System ι) (i : ι) (e : Attempt) : Option (System ι) :=
  let c := s.channels i
  if s.pipeline.enqueuers i = .reading ∧ c.reader.exit = none ∧ e.file = c.stored (log i) then
    (s.pipeline.stepEnqueuer i (endOfRead c.reader e)).map fun p =>
      { s.setChannel i { c with reader := c.reader.attempt e } with pipeline := p }
  else none

def stepEnqueuer (s : System ι) (i : ι) (e : EnqueuerEvent) : Option (System ι) :=
  let c := s.channels i
  if Allows c e then
    (s.pipeline.stepEnqueuer i e).map fun p =>
      match e with
      | .build _ _ => { s.setChannel i { c with built := c.built + 1 } with pipeline := p }
      | .enqueue _ => { s with pipeline := p, origins := s.origins ++ [i] }
      | _ => { s with pipeline := p }
  else none

def step (log : ι → ℕ → Char) (s : System ι) : SystemEvent ι → Option (System ι)
  | .stream i l => s.stepStream i l
  | .read i e => s.stepRead log i e
  | .enqueuer i e => s.stepEnqueuer i e
  | .dispatcher stores => (s.pipeline.stepDispatcher stores).map fun p => { s with pipeline := p }

/-- No agent goes on after a `send` that took less than it was offered. -/
def NoneLost (s : System ι) : SystemEvent ι → Prop
  | .stream i l => (s.channels i).stream.NoneLost l
  | _ => True

/-- The strings of agent `i` among the entries `es`, which are the first ones pushed. -/
def ofAgent (origins : List ι) (i : ι) (es : List Entry) : List Text :=
  ((origins.zip es).filter fun x => x.1 = i).filterMap fun x => x.2.2

/-- The strings of agent `i` that the dispatcher has taken from the queue. -/
def taken (s : System ι) (i : ι) : List Text := ofAgent s.origins i s.pipeline.popped

/-- The strings of agent `i` that are still in the queue. -/
def waiting (s : System ι) (i : ι) : List Text :=
  ofAgent (s.origins.drop s.pipeline.popped.length) i
    (s.pipeline.pushed.drop s.pipeline.popped.length)

end System

/-- The string that a thread has copied for the queue and not yet enqueued. -/
def Pipeline.heldText {ι : Type} (s : Pipeline ι) (i : ι) : List Text :=
  ((s.enqueuers i).held.bind s.buffers).toList

/-! What the steps of the queue do to the strings pushed and held. -/

namespace Pipeline
variable {ι : Type} {s t : Pipeline ι} {c : List Entry} {i j : ι}

/-- The dispatcher frees only what it has taken from the queue. -/
theorem Inv.dispatcher_heldText {stores : Bool} (h : Inv s c)
    (ht : s.stepDispatcher stores = some t) (i : ι) :
    t.heldText i = s.heldText i := by
  cases dispatches_of_step ht with
  | free p b record hd =>
    have hout := (h.inHand p (by rw [hd]; rfl)).2.2 i
    unfold heldText
    dsimp only
    cases hheld : (s.enqueuers i).held with
    | none => rfl
    | some r =>
      have hne : r ≠ p := fun hrp => hout (by rw [hheld, hrp])
      simp [hne]
  | testing | wanting | locked | pop | popFault | countDown | countDownNull | settle | settleSmash
  | settleFault | checkSmash | freeFault | finished => rfl

variable [DecidableEq ι]

/-- A new buffer is nobody else's. -/
theorem Inv.enqueuer_heldText (h : Inv s c) {e : EnqueuerEvent} (ht : s.stepEnqueuer i e = some t)
    (hj : j ≠ i) : t.heldText j = s.heldText j := by
  unfold heldText
  cases enqueues_of_step ht with
  | build p record hi hp =>
    dsimp only
    rw [Function.update_of_ne hj]
    cases hheld : (s.enqueuers j).held with
    | none => rfl
    | some r =>
      have hne : r ≠ p := fun hrp => (h.held j r hheld).1 (hrp ▸ hp)
      simp [hne]
  | lockFile | unlockFile | leave | leaveLocked | enter | keep | lock | unlock =>
    dsimp only [Pipeline.moveTo]
    rw [Function.update_of_ne hj]
  | enqueue | count =>
    dsimp only
    rw [Function.update_of_ne hj]
  | enqueueFault => rfl

theorem build_moves {p : Ptr} {record : Text} (ht : s.stepEnqueuer i (.build p record) = some t) :
    s.heldText i = [] ∧ t.heldText i = [record] ∧ t.pushed = s.pushed := by
  cases enqueues_of_step ht with
  | build _ _ hi hp => exact ⟨by simp [heldText, hi, EnqueuerPc.held], by simp [heldText, EnqueuerPc.held], rfl⟩

theorem Inv.enqueue_moves (h : Inv s c) {node : Ptr} (ht : s.stepEnqueuer i (.enqueue node) = some t) :
    ∃ e : Entry, t.pushed = s.pushed ++ [e] ∧ s.heldText i = e.2.toList ∧ t.heldText i = [] := by
  cases enqueues_of_step ht with
  | enqueue p _ q hi hnode hq =>
    refine ⟨s.entry p, rfl, ?_, ?_⟩
    · simp [heldText, hi, EnqueuerPc.held, entry]
    · simp [heldText, EnqueuerPc.held]
  | enqueueFault p _ hi hnode hq =>
    obtain ⟨q', hq', -⟩ := h.enqueue hi hnode
    rw [hq] at hq'
    cases hq'

theorem enqueuer_keeps {e : EnqueuerEvent} (hbuild : ∀ p record, e ≠ .build p record)
    (henqueue : ∀ node, e ≠ .enqueue node) (ht : s.stepEnqueuer i e = some t) :
    t.heldText i = s.heldText i ∧ t.pushed = s.pushed := by
  unfold heldText
  cases enqueues_of_step ht with
  | build => exact absurd rfl (hbuild _ _)
  | enqueue | enqueueFault => exact absurd rfl (henqueue _)
  | lockFile hi | unlockFile hi | leave hi | leaveLocked hi | enter hi | keep hi | lock p hi
  | count hi | unlock hi =>
    simp [moveTo, hi, EnqueuerPc.held]

end Pipeline

namespace System

section Origins
variable {ι : Type} [DecidableEq ι]

theorem ofAgent_concat {origins : List ι} {es : List Entry} (hlen : origins.length = es.length)
    (i j : ι) (e : Entry) :
    ofAgent (origins ++ [i]) j (es ++ [e]) =
      ofAgent origins j es ++ if i = j then e.2.toList else [] := by
  unfold ofAgent
  rw [List.zip_append hlen, List.filter_append, List.filterMap_append]
  by_cases hij : i = j
  · cases he : e.2 <;> simp [hij, he]
  · simp [hij]

theorem ofAgent_append_drop (origins : List ι) (i : ι) {xs ys zs : List Entry} (h : xs ++ ys = zs) :
    ofAgent origins i xs ++ ofAgent (origins.drop xs.length) i (zs.drop xs.length) =
      ofAgent origins i zs := by
  subst h
  rw [List.drop_left]
  unfold ofAgent
  rw [← List.filterMap_append, ← List.filter_append]
  congr 2
  induction xs generalizing origins with
  | nil => cases origins <;> simp
  | cons x xs ih =>
    cases origins with
    | nil => simp
    | cons o os => simpa using ih os

end Origins

end System

theorem Assembly.enqueued_prefix_feedAll (a : Assembly) (ls : List Text) :
    a.enqueued <+: (a.feedAll ls).enqueued := by
  induction ls generalizing a with
  | nil => exact List.prefix_rfl
  | cons l ls ih =>
    apply List.IsPrefix.trans ?_ (ih (a.feed l))
    unfold feed
    split_ifs
    · exact List.prefix_rfl
    · exact List.prefix_rfl
    · exact List.prefix_rfl
    · exact List.prefix_rfl
    · exact List.prefix_append _ _

/-- The invariant of one agent: its stream is in step, every round has read a prefix of its
log, and no more strings have been built than were assembled. -/
structure Channel.Sound (c : Channel) (log : ℕ → Char) : Prop where
  inStep : c.stream.InStep
  rounds : ∃ es, c.reader = Reader.opened.attempts es ∧ ∀ e ∈ es, e.file <+: c.stream.logFile log
  built : c.built ≤ c.reader.assembly.enqueued.length

section Channel
variable {c : Channel} {log : ℕ → Char}

theorem Channel.Sound.stream (h : c.Sound log) {l : Agent.Label} {u : Agent.Stream}
    (hlost : c.stream.NoneLost l) (hu : c.stream.step l = some u) :
    Channel.Sound { c with stream := u } log where
  inStep := h.inStep.step hlost hu
  rounds := by
    obtain ⟨es, hes, hfile⟩ := h.rounds
    exact ⟨es, hes, fun e he => (hfile e he).trans (Agent.Stream.logFile_prefix_of_step hu log)⟩
  built := h.built

theorem enqueued_prefix_attempt (r : Reader) (e : Attempt) :
    r.assembly.enqueued <+: (r.attempt e).assembly.enqueued := by
  rw [Reader.attempt_assembly]
  exact Assembly.enqueued_prefix_feedAll _ _

theorem Channel.Sound.read (h : c.Sound log) {e : Attempt} (he : e.file = c.stored log) :
    Channel.Sound { c with reader := c.reader.attempt e } log where
  inStep := h.inStep
  rounds := by
    obtain ⟨es, hes, hfile⟩ := h.rounds
    refine ⟨es ++ [e], ?_, fun a ha => ?_⟩
    · rw [Reader.attempts_concat, ← hes]
    · rcases List.mem_append.mp ha with ha | ha
      · exact hfile a ha
      · rw [List.mem_singleton.mp ha, he]
        exact (h.inStep.faithful log).stored
  built := h.built.trans (enqueued_prefix_attempt c.reader e).length_le

theorem Channel.take_succ_built {record : Text} (h : c.pending.head? = some record) :
    c.built < c.reader.assembly.enqueued.length ∧
      c.reader.assembly.enqueued.take (c.built + 1) =
        c.reader.assembly.enqueued.take c.built ++ [record] := by
  rw [pending, List.head?_drop] at h
  obtain ⟨hlt, hget⟩ := List.getElem?_eq_some_iff.mp h
  exact ⟨hlt, by rw [List.take_succ_eq_append_getElem hlt, hget]⟩

end Channel

namespace System
variable {ι : Type} [DecidableEq ι] {log : ι → ℕ → Char} {s t : System ι} {i : ι}

/-- The invariant of the system: the strings of an agent that were pushed, and then the one its
thread holds, are the ones built from what it has assembled. -/
structure Sound (log : ι → ℕ → Char) (s : System ι) : Prop where
  inv : ∃ c, s.pipeline.Inv c
  origins : s.origins.length = s.pipeline.pushed.length
  channel : ∀ i, (s.channels i).Sound (log i)
  passed : ∀ i, ofAgent s.origins i s.pipeline.pushed ++ s.pipeline.heldText i =
    (s.channels i).reader.assembly.enqueued.take (s.channels i).built

theorem sound_initial (log : ι → ℕ → Char) (size : ι → ℕ) (node : Ptr) :
    (initial size node).Sound log where
  inv := ⟨[], Pipeline.inv_initial node⟩
  origins := rfl
  channel i := ⟨Agent.Stream.inStep_start (size i) false, ⟨[], rfl, by simp⟩, Nat.zero_le _⟩
  passed _ := rfl

theorem Sound.stream (h : s.Sound log) {l : Agent.Label} (hlost : (s.channels i).stream.NoneLost l)
    (ht : s.stepStream i l = some t) : t.Sound log := by
  unfold stepStream at ht
  split_ifs at ht with hmutex
  obtain ⟨u, hu, rfl⟩ := Option.map_eq_some_iff.mp ht
  refine { h with channel := fun j => ?_, passed := fun j => ?_ }
  · by_cases hj : j = i
    · subst hj
      simpa [setChannel] using (h.channel j).stream hlost hu
    · simpa [setChannel, hj] using h.channel j
  · by_cases hj : j = i
    · subst hj
      simpa [setChannel] using h.passed j
    · simpa [setChannel, hj] using h.passed j

theorem Sound.read (h : s.Sound log) {e : Attempt} (ht : s.stepRead log i e = some t) :
    t.Sound log := by
  unfold stepRead at ht
  obtain ⟨hc, ht⟩ := Option.ite_none_right_eq_some.mp ht
  obtain ⟨p, hp, rfl⟩ := Option.map_eq_some_iff.mp ht
  obtain ⟨c, hinv⟩ := h.inv
  have hheld : p.heldText i = s.pipeline.heldText i ∧ p.pushed = s.pipeline.pushed := by
    apply Pipeline.enqueuer_keeps ?_ ?_ hp <;>
    · intros
      unfold endOfRead
      split_ifs <;> simp
  refine ⟨hinv.stepEnqueuer hp, ?_, fun j => ?_, fun j => ?_⟩
  · show s.origins.length = p.pushed.length
    rw [hheld.2]
    exact h.origins
  · by_cases hj : j = i
    · subst hj
      simpa [setChannel] using (h.channel j).read hc.2.2
    · simpa [setChannel, hj] using h.channel j
  · show ofAgent s.origins j p.pushed ++ p.heldText j = _
    rw [hheld.2]
    by_cases hj : j = i
    · subst hj
      rw [hheld.1, h.passed j]
      obtain ⟨rest, hrest⟩ := enqueued_prefix_attempt (s.channels j).reader e
      simp only [setChannel, Function.update_self]
      rw [← hrest, List.take_append_of_le_length (h.channel j).built]
    · rw [hinv.enqueuer_heldText hp hj, h.passed j]
      simp [setChannel, hj]

theorem Sound.build (h : s.Sound log) {p : Ptr} {record : Text} {q : Pipeline ι}
    (hpending : (s.channels i).pending.head? = some record)
    (hq : s.pipeline.stepEnqueuer i (.build p record) = some q) :
    Sound log { s.setChannel i { s.channels i with built := (s.channels i).built + 1 } with
      pipeline := q } := by
  obtain ⟨c, hinv⟩ := h.inv
  obtain ⟨hlt, htake⟩ := Channel.take_succ_built hpending
  obtain ⟨hbefore, hafter, hpushed⟩ := Pipeline.build_moves hq
  refine ⟨hinv.stepEnqueuer hq, ?_, fun j => ?_, fun j => ?_⟩
  · show s.origins.length = q.pushed.length
    rw [hpushed]
    exact h.origins
  · by_cases hj : j = i
    · subst hj
      simpa [setChannel] using { h.channel j with built := hlt }
    · simpa [setChannel, hj] using h.channel j
  · show ofAgent s.origins j q.pushed ++ q.heldText j = _
    have hpassed := h.passed j
    rw [hpushed]
    by_cases hj : j = i
    · subst hj
      rw [hbefore, List.append_nil] at hpassed
      simp only [setChannel, Function.update_self]
      rw [hafter, hpassed, htake]
    · rw [hinv.enqueuer_heldText hq hj, hpassed]
      simp [setChannel, hj]

theorem Sound.enqueue (h : s.Sound log) {node : Ptr} {q : Pipeline ι}
    (hq : s.pipeline.stepEnqueuer i (.enqueue node) = some q) :
    Sound log { s with pipeline := q, origins := s.origins ++ [i] } := by
  obtain ⟨c, hinv⟩ := h.inv
  obtain ⟨e, hpushed, hbefore, hafter⟩ := hinv.enqueue_moves hq
  refine ⟨hinv.stepEnqueuer hq, ?_, h.channel, fun j => ?_⟩
  · show (s.origins ++ [i]).length = q.pushed.length
    rw [hpushed, List.length_append, List.length_append, h.origins]
    rfl
  · show ofAgent (s.origins ++ [i]) j q.pushed ++ q.heldText j = _
    rw [hpushed, ofAgent_concat h.origins, ← h.passed j]
    by_cases hj : i = j
    · subst hj
      rw [if_pos rfl, hafter, hbefore, List.append_nil]
    · rw [if_neg hj, List.append_nil, hinv.enqueuer_heldText hq (Ne.symm hj)]

theorem Sound.keep (h : s.Sound log) {e : EnqueuerEvent} {q : Pipeline ι}
    (hbuild : ∀ p record, e ≠ .build p record) (henqueue : ∀ node, e ≠ .enqueue node)
    (hq : s.pipeline.stepEnqueuer i e = some q) : Sound log { s with pipeline := q } := by
  obtain ⟨c, hinv⟩ := h.inv
  obtain ⟨hheld, hpushed⟩ := Pipeline.enqueuer_keeps hbuild henqueue hq
  refine ⟨hinv.stepEnqueuer hq, ?_, h.channel, fun j => ?_⟩
  · show s.origins.length = q.pushed.length
    rw [hpushed]
    exact h.origins
  · show ofAgent s.origins j q.pushed ++ q.heldText j = _
    rw [hpushed, ← h.passed j]
    by_cases hj : j = i
    · rw [hj, hheld]
    · rw [hinv.enqueuer_heldText hq hj]

theorem Sound.enqueuer (h : s.Sound log) {e : EnqueuerEvent} (ht : s.stepEnqueuer i e = some t) :
    t.Sound log := by
  unfold stepEnqueuer at ht
  obtain ⟨hallows, ht⟩ := Option.ite_none_right_eq_some.mp ht
  obtain ⟨q, hq, rfl⟩ := Option.map_eq_some_iff.mp ht
  cases e with
  | build p record => exact h.build hallows hq
  | enqueue node => exact h.enqueue hq
  | lockFile | unlockFile | leave | enter | keep | lock | count | unlock =>
    exact h.keep (by simp) (by simp) hq

theorem Sound.dispatcher {stores : Bool} (h : s.Sound log) {q : Pipeline ι}
    (hq : s.pipeline.stepDispatcher stores = some q) : Sound log { s with pipeline := q } := by
  obtain ⟨c, hinv⟩ := h.inv
  have hpushed : q.pushed = s.pipeline.pushed := (Pipeline.dispatcher_effect hq).pushed
  refine ⟨hinv.stepDispatcher hq, ?_, h.channel, fun j => ?_⟩
  · show s.origins.length = q.pushed.length
    rw [hpushed]
    exact h.origins
  · show ofAgent s.origins j q.pushed ++ q.heldText j = _
    rw [hpushed, hinv.dispatcher_heldText hq, h.passed j]

theorem Sound.step (h : s.Sound log) {e : SystemEvent ι} (hlost : s.NoneLost e)
    (ht : step log s e = some t) : t.Sound log := by
  cases e with
  | stream i l => exact h.stream hlost ht
  | read i e => exact h.read ht
  | enqueuer i e => exact h.enqueuer ht
  | dispatcher =>
    obtain ⟨q, hq, rfl⟩ := Option.map_eq_some_iff.mp ht
    exact h.dispatcher hq

/-- What the dispatcher has taken, what is in the queue, what the thread holds and what it has
still to copy are, one after the other, the strings it has assembled. -/
theorem Sound.accounted (h : s.Sound log) (i : ι) :
    s.taken i ++ s.waiting i ++ s.pipeline.heldText i ++ (s.channels i).pending =
      (s.channels i).reader.assembly.enqueued := by
  obtain ⟨c, hinv⟩ := h.inv
  rw [taken, waiting, ofAgent_append_drop _ _ hinv.order, h.passed, Channel.pending,
    List.take_append_drop]

end System

theorem Assembly.feedAll_append_enqueued (cl : Text) (xs ys : List Text) (ls : List Text) :
    (Assembly.feedAll ⟨cl, xs ++ ys⟩ ls).enqueued = xs ++ (Assembly.feedAll ⟨cl, ys⟩ ls).enqueued := by
  induction ls generalizing cl ys with
  | nil => rfl
  | cons l ls ih =>
    rw [feedAll_cons, feedAll_cons]
    unfold feed
    dsimp only
    split_ifs
    · exact ih _ ys
    · exact ih _ ys
    · exact ih _ ys
    · exact ih _ ys
    · rw [List.append_assoc]
      exact ih _ _

namespace DayLog
variable (d : DayLog)

theorem groups_records (rs : List Record) : groups (rs.flatMap Record.lines) = rs.map Record.lines := by
  apply (sections_eq_iff ?_).mpr
  · refine ⟨by rw [List.flatMap_def], fun g hg => ?_⟩
    obtain ⟨r, -, rfl⟩ := List.mem_map.mp hg
    exact ⟨r.head, r.tail, rfl, r.head_mark, r.tail_mark⟩
  · cases rs with
    | nil => simp
    | cons r rs => simp [Record.lines, r.head_mark]

/-- The strings made of the first lines of some records are the bodies of the first ones. -/
theorem enqueued_of_prefix {rs : List Record} {pre : List Text}
    (hpre : pre <+: rs.flatMap Record.lines) :
    ∃ m, (Assembly.empty.feedAll pre).enqueued = (rs.take m).map Record.body := by
  have hhead : ∀ l ∈ (rs.flatMap Record.lines).head?, hasMark l = true := by
    cases rs with
    | nil => simp
    | cons r rs => simp [Record.lines, r.head_mark]
  have hsize : ∀ g ∈ groups (rs.flatMap Record.lines), g.flatten.length < bufferSizeBig := by
    rw [groups_records]
    intro g hg
    obtain ⟨r, -, rfl⟩ := List.mem_map.mp hg
    exact r.length_lt
  have hcompleted := completed_of_isPrefix hpre hhead
  rw [groups_records] at hcompleted
  have hgroups : (groups pre).dropLast = (rs.take (groups pre).dropLast.length).map Record.lines := by
    conv_lhs => rw [List.prefix_iff_eq_take.mp hcompleted, ← List.map_take]
  refine ⟨(groups pre).dropLast.length, ?_⟩
  rw [Assembly.feedAll_groups hpre hhead hsize]
  dsimp only
  conv_lhs => rw [hgroups, List.map_map]
  rfl

theorem plain_of_header {p : Text} {ps : List Text} (hps : ∀ l ∈ p :: ps, l ∈ d.header) :
    (Assembly.empty.feedAll (p :: ps)).Plain := by
  obtain ⟨hp, hps⟩ := List.forall_mem_cons.mp hps
  obtain ⟨w, -, hw⟩ := d.header_line p hp
  have hfirst : (Assembly.empty.feed p).Plain := by
    rw [Assembly.feed_first rfl (d.header_short p hp)]
    exact ⟨rfl, w, hw, hasMark_left_eq_false (hw ▸ d.header_plain p hp)⟩
  exact hfirst.feedAll fun l hl => ⟨d.header_line l (hps l hl), d.header_plain l (hps l hl)⟩

theorem enqueued_of_plain {a : Assembly} (ha : a.Plain) {pre : List Text}
    (hpre : pre <+: d.records.flatMap Record.lines) :
    ∃ junk : List Text, junk.length ≤ 1 ∧ (∀ s ∈ junk, hasMark s = false) ∧
      (a.feedAll pre).enqueued = junk ++ (Assembly.empty.feedAll pre).enqueued := by
  cases pre with
  | nil => exact ⟨[], by simp, by simp, ha.enqueued⟩
  | cons l ls =>
    obtain ⟨w, hw, hmark⟩ := ha.currentLine
    have hl : hasMark l = true ∧ l.length < bufferSizeBig := by
      cases hr : d.records with
      | nil => simp [hr] at hpre
      | cons r rs =>
        rw [hr, List.flatMap_cons, Record.lines, List.cons_append, List.cons_prefix_cons] at hpre
        rw [hpre.1]
        exact ⟨r.head_mark, r.lines_length_lt r.head (by simp [Record.lines])⟩
    have hfirst : Assembly.empty.feed l = ⟨l, []⟩ := Assembly.feed_first rfl hl.2
    refine ⟨[w], by simp, by simpa using hmark, ?_⟩
    rw [Assembly.feedAll_cons, Assembly.feedAll_cons, hfirst,
      Assembly.feed_marked (by simp [hw]) hl.1 hl.2, ha.enqueued, hw, List.dropLast_concat]
    exact Assembly.feedAll_append_enqueued l [w] [] ls

/-- What has been enqueued of a day: its first records in order, behind at most one string,
which has no record mark and is made of header lines. -/
theorem enqueued_of_tailing {k j : ℕ} {r : Reader} (h : Tailing d.chunked k j r) :
    ∃ (junk : List Text) (m : ℕ), junk.length ≤ 1 ∧ (∀ s ∈ junk, hasMark s = false) ∧
      r.assembly.enqueued = junk ++ (d.records.take m).map Record.body := by
  have hlength : (d.header.take k).length = min k 3 := by rw [List.length_take, d.header_length]
  have hsplit : (d.chunked.chunks.take k).drop j = (d.header.take k).drop j ++
      (d.records.flatMap Record.lines).take (k - d.header.length) := by
    have hle := h.skipped_le
    have hle3 := h.skipped_le_three
    show ((d.header ++ d.records.flatMap Record.lines).take k).drop j = _
    rw [List.take_append, List.drop_append_of_le_length (by omega)]
  have hpre : (d.records.flatMap Record.lines).take (k - d.header.length) <+:
      d.records.flatMap Record.lines := List.take_prefix _ _
  obtain ⟨m, hm⟩ := enqueued_of_prefix hpre
  rw [h.assembly, hsplit, Assembly.feedAll_append]
  cases hheader : (d.header.take k).drop j with
  | nil => exact ⟨[], m, by simp, by simp, hm⟩
  | cons p ps =>
    have hmem : ∀ l ∈ p :: ps, l ∈ d.header := fun l hl =>
      List.mem_of_mem_take (List.mem_of_mem_drop (hheader ▸ hl))
    obtain ⟨junk, hlen, hmark, henqueued⟩ := d.enqueued_of_plain (d.plain_of_header hmem) hpre
    exact ⟨junk, m, hlen, hmark, by rw [henqueued, hm]⟩

end DayLog

namespace System
variable {ι : Type} [DecidableEq ι] {log : ι → ℕ → Char}

/-- From the log of an agent to the rule engine: in every run in which no byte is sent behind
one that was lost, what the dispatcher has taken of the agent's strings, what is in the queue,
what its thread holds and what it has still to copy are the first records of its day in order,
each as it is in the log, behind at most one string without a record mark. -/
theorem records_in_order (size : ι → ℕ) (node : Ptr) {es : List (SystemEvent ι)}
    (hlost : Along (step log) NoneLost (initial size node) es) {s : System ι}
    (hs : Visits (step log) (initial size node) es s) (i : ι) (d : DayLog)
    (hday : (s.channels i).stream.logFile (log i) <+: d.content) :
    ∃ (junk : List Text) (m : ℕ), junk.length ≤ 1 ∧ (∀ x ∈ junk, hasMark x = false) ∧
      s.taken i ++ s.waiting i ++ s.pipeline.heldText i ++ (s.channels i).pending =
        junk ++ (d.records.take m).map Record.body := by
  have hsound : s.Sound log :=
    hlost.invariant (sound_initial log size node) (fun _ _ _ h hG hu => h.step hG hu) s hs
  obtain ⟨rounds, hreader, hfile⟩ := (hsound.channel i).rounds
  have hprefix : ∀ e ∈ rounds, e.file <+: d.chunked.text := fun e he => by
    rw [d.chunked_text]
    exact (hfile e he).trans hday
  obtain ⟨k, j, htailing⟩ := exists_tailing d.chunked (d.chunked_text ▸ d.no_nul) rounds hprefix
  rw [hsound.accounted i, hreader]
  exact d.enqueued_of_tailing htailing

/-- A day with two records. -/
def twoRecordDay : DayLog :=
  { emptyDay with records := [shortRecord, shortRecord], no_nul := by decide }

def twoRecordLog (_ : Unit) (n : ℕ) : Char := twoRecordDay.content.getD n nul

/-- One agent sends the log at once. The first record is enqueued when the second one has been
read, and the dispatcher takes it. -/
def twoRecordRun : List (SystemEvent Unit) :=
  [.stream () (.read 18), .stream () (.send 18), .stream () (.receive 18 18)] ++
    (List.replicate 5 [.enqueuer () .lockFile, .read () (.quiet twoRecordDay.content)]).flatten ++
    [.enter, .build 0 shortRecord.body, .lock, .enqueue 1, .count, .unlock].map (.enqueuer ()) ++
    List.replicate 4 (.dispatcher false)

instance (s : Agent.Stream) : DecidablePred s.NoneLost
  | .send _ =>
    match h : s.agent with
    | .offering buf => decidable_of_iff (¬ s.reconnectFlag → s.handed.length + buf.length = s.t)
        (by simp [Agent.Stream.NoneLost, h])
    | .reading | .waiting | .left => isTrue (by simp [Agent.Stream.NoneLost, h])
  | .append _ | .sigpipe | .read _ | .readFail | .dayOver | .reopen _ _ | .sendFail
  | .receive _ _ => isTrue trivial

instance (s : System ι) : DecidablePred s.NoneLost
  | .stream i l => inferInstanceAs (Decidable ((s.channels i).stream.NoneLost l))
  | .read _ _ | .enqueuer _ _ | .dispatcher _ => isTrue trivial

def twoRecordEnd : System Unit :=
  (runFrom (step twoRecordLog) (initial (fun _ => 18) 0) twoRecordRun).get (by decide +kernel)

theorem records_in_order_twoRecords : twoRecordEnd.taken () = [shortRecord.body] ∧
    ∃ (junk : List Text) (m : ℕ), junk.length ≤ 1 ∧ (∀ x ∈ junk, hasMark x = false) ∧
      twoRecordEnd.taken () ++ twoRecordEnd.waiting () ++ twoRecordEnd.pipeline.heldText () ++
          (twoRecordEnd.channels ()).pending =
        junk ++ (twoRecordDay.records.take m).map Record.body := by
  have hlost : Along (step twoRecordLog) NoneLost (initial (fun _ => 18) 0) twoRecordRun := by
    decide +kernel
  exact ⟨by decide +kernel, records_in_order (fun _ => 18) 0 hlost
    ⟨twoRecordRun, List.prefix_rfl, (Option.some_get _).symm⟩ () twoRecordDay (by decide +kernel)⟩

end System
end CLib.Server
