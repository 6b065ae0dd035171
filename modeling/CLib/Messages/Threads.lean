import CLib.Base.Mutex
import CLib.Base.Runs

namespace CLib.Messages
open CLib.Base

/-- `Msg`. Pointers are the numbers of the calls of `malloc`, so that a message that has been
freed is not mistaken for one that lies at the same address later. -/
structure Msg where
  next : Option ℕ
  num : ℤ

/-- Program points of `produce`, each named after what has been done last. -/
inductive ProducerPc
  | start
  | allocated (msg : ℕ)
  | numbered (msg : ℕ)
  | locked (msg : ℕ)
  | linked (msg : ℕ)
  | pushed (msg : ℕ)
  | unlocked (msg : ℕ)
  | printed
  deriving DecidableEq

/-- Program points of `custome`. In `testing` the thread is about to look at `head`, and
from there it goes on to `pthread_cond_wait` or to `msg = head`. -/
inductive ConsumerPc
  | start
  | testing
  | waiting
  | asleep
  | waking
  | found
  | took (msg : ℕ)
  | removed (msg : ℕ)
  | unlocked (msg : ℕ)
  | printed (msg : ℕ)
  deriving DecidableEq

/-- `pthread_cond_broadcast` wakes whoever sleeps. -/
def ConsumerPc.woken : ConsumerPc → ConsumerPc
  | .asleep => .waking
  | pc => pc

theorem ConsumerPc.woken_ne_asleep (pc : ConsumerPc) : pc.woken ≠ .asleep := by
  cases pc <;> simp [ConsumerPc.woken]

/-- The thread that makes the next step. A producer draws the number `num` if it is there;
`wake` is a spurious wakeup. -/
inductive Turn (ι κ : Type)
  | producer (i : ι) (num : ℤ)
  | consumer (k : κ)
  | wake (k : κ)

variable {ι κ : Type}

/-- The global variables and the messages, where each thread stands, and which messages have
been pushed, and taken and freed by whom. -/
structure State (ι κ : Type) where
  born : ℕ
  msgs : ℕ → Msg
  head : Option ℕ
  lock : Option (ι ⊕ κ)
  producer : ι → ProducerPc
  consumer : κ → ConsumerPc
  pushed : List ℕ
  taken : List (ℕ × κ)
  freed : List (ℕ × κ)

namespace State

def start : State ι κ where
  born := 0
  msgs := fun _ => ⟨none, 0⟩
  head := none
  lock := none
  producer := fun _ => .start
  consumer := fun _ => .start
  pushed := []
  taken := []
  freed := []

def setMsg (s : State ι κ) (m : ℕ) (msg : Msg) : State ι κ :=
  { s with msgs := Function.update s.msgs m msg }

/-- Only the number of the message changes. -/
theorem setMsg_next (s : State ι κ) (m : ℕ) (num : ℤ) (m' : ℕ) :
    ((s.setMsg m ⟨(s.msgs m).next, num⟩).msgs m').next = (s.msgs m').next := by
  by_cases hm : m' = m
  · simp [setMsg, hm]
  · simp [setMsg, hm]

section Producer
variable [DecidableEq ι]

def goProducer (s : State ι κ) (i : ι) (pc : ProducerPc) : State ι κ :=
  { s with producer := Function.update s.producer i pc }

@[simp] theorem goProducer_lock (s : State ι κ) (i : ι) (pc : ProducerPc) :
    (s.goProducer i pc).lock = s.lock := rfl

/-- One step of `produce`; `none` where it has to wait. -/
def stepProducer (s : State ι κ) (i : ι) (num : ℤ) : Option (State ι κ) :=
  match s.producer i with
  | .start => some ({ s with born := s.born + 1 }.goProducer i (.allocated s.born))
  | .allocated m => some ((s.setMsg m ⟨(s.msgs m).next, num⟩).goProducer i (.numbered m))
  | .numbered m =>
    if s.lock = none then some ({ s with lock := some (.inl i) }.goProducer i (.locked m)) else none
  | .locked m => some ((s.setMsg m ⟨s.head, (s.msgs m).num⟩).goProducer i (.linked m))
  | .linked m => some ({ s with head := some m, pushed := s.pushed ++ [m] }.goProducer i (.pushed m))
  | .pushed m => some ({ s with lock := none }.goProducer i (.unlocked m))
  | .unlocked _ => some (s.goProducer i .printed)
  | .printed => some ({ s with consumer := fun k => (s.consumer k).woken }.goProducer i .start)

end Producer

section Consumer
variable [DecidableEq κ]

def goConsumer (s : State ι κ) (k : κ) (pc : ConsumerPc) : State ι κ :=
  { s with consumer := Function.update s.consumer k pc }

@[simp] theorem goConsumer_lock (s : State ι κ) (k : κ) (pc : ConsumerPc) :
    (s.goConsumer k pc).lock = s.lock := rfl

/-- One step of `custome`. With `msg = head` on an empty list the next line would fault, so
there is no such step. -/
def stepConsumer (s : State ι κ) (k : κ) : Option (State ι κ) :=
  match s.consumer k with
  | .start | .waking =>
    if s.lock = none then some ({ s with lock := some (.inr k) }.goConsumer k .testing) else none
  | .testing => some (s.goConsumer k (if s.head = none then .waiting else .found))
  | .waiting => some ({ s with lock := none }.goConsumer k .asleep)
  | .asleep => none
  | .found => s.head.map fun m => s.goConsumer k (.took m)
  | .took m =>
    some ({ s with head := (s.msgs m).next, taken := s.taken ++ [(m, k)] }.goConsumer k (.removed m))
  | .removed m => some ({ s with lock := none }.goConsumer k (.unlocked m))
  | .unlocked m => some (s.goConsumer k (.printed m))
  | .printed m => some ({ s with freed := s.freed ++ [(m, k)] }.goConsumer k .start)

/-- A sleeper may wake up without a broadcast. -/
def stepWake (s : State ι κ) (k : κ) : Option (State ι κ) :=
  if s.consumer k = .asleep then some (s.goConsumer k .waking) else none

end Consumer

def step [DecidableEq ι] [DecidableEq κ] (s : State ι κ) : Turn ι κ → Option (State ι κ)
  | .producer i num => s.stepProducer i num
  | .consumer k => s.stepConsumer k
  | .wake k => s.stepWake k

end State

/-- The thread holds `lock`. -/
def ProducerPc.inSection : ProducerPc → Bool
  | .locked _ | .linked _ | .pushed _ => true
  | .start | .allocated _ | .numbered _ | .unlocked _ | .printed => false

def ConsumerPc.inSection : ConsumerPc → Bool
  | .testing | .waiting | .found | .took _ | .removed _ => true
  | .start | .asleep | .waking | .unlocked _ | .printed _ => false

@[simp] theorem ConsumerPc.inSection_woken (pc : ConsumerPc) : pc.woken.inSection = pc.inSection := by
  cases pc <;> rfl

/-- What a producer that holds `lock` knows of `head` from its own writes. -/
def ProducerPc.Knows (msgs : ℕ → Msg) (head : Option ℕ) : ProducerPc → Prop
  | .linked m => (msgs m).next = head
  | .pushed m => head = some m
  | _ => True

theorem ProducerPc.knows_of_outside {pc : ProducerPc} (h : pc.inSection = false) (msgs : ℕ → Msg)
    (head : Option ℕ) : pc.Knows msgs head := by
  cases pc <;> trivial

theorem ProducerPc.Knows.congr {msgs msgs' : ℕ → Msg} {head : Option ℕ} {pc : ProducerPc}
    (h : pc.Knows msgs head) (hnext : ∀ m, (msgs' m).next = (msgs m).next) : pc.Knows msgs' head := by
  cases pc with
  | linked m => exact (hnext m).trans h
  | _ => exact h

/-- What a consumer that holds `lock` knows of `head` since it has tested it. -/
def ConsumerPc.Knows (head : Option ℕ) : ConsumerPc → Prop
  | .waiting => head = none
  | .found => head ≠ none
  | .took m => head = some m
  | _ => True

theorem ConsumerPc.knows_of_outside {pc : ConsumerPc} (h : pc.inSection = false) (head : Option ℕ) :
    pc.Knows head := by
  cases pc <;> trivial

theorem ConsumerPc.Knows.woken {pc : ConsumerPc} {head : Option ℕ} (h : pc.Knows head) :
    pc.woken.Knows head := by
  cases pc <;> exact h

namespace State
variable {s t : State ι κ} {i j : ι} {k l : κ}

/-- What a step of `produce` can be. -/
inductive Produces [DecidableEq ι] (s : State ι κ) (i : ι) (num : ℤ) : State ι κ → Prop
  | start (hpc : s.producer i = .start) :
      s.Produces i num ({ s with born := s.born + 1 }.goProducer i (.allocated s.born))
  | allocated (m) (hpc : s.producer i = .allocated m) :
      s.Produces i num ((s.setMsg m ⟨(s.msgs m).next, num⟩).goProducer i (.numbered m))
  | numbered (m) (hpc : s.producer i = .numbered m) (hfree : s.lock = none) :
      s.Produces i num ({ s with lock := some (.inl i) }.goProducer i (.locked m))
  | locked (m) (hpc : s.producer i = .locked m) :
      s.Produces i num ((s.setMsg m ⟨s.head, (s.msgs m).num⟩).goProducer i (.linked m))
  | linked (m) (hpc : s.producer i = .linked m) :
      s.Produces i num ({ s with head := some m, pushed := s.pushed ++ [m] }.goProducer i (.pushed m))
  | pushed (m) (hpc : s.producer i = .pushed m) :
      s.Produces i num ({ s with lock := none }.goProducer i (.unlocked m))
  | unlocked (m) (hpc : s.producer i = .unlocked m) : s.Produces i num (s.goProducer i .printed)
  | printed (hpc : s.producer i = .printed) :
      s.Produces i num ({ s with consumer := fun k => (s.consumer k).woken }.goProducer i .start)

theorem produces_of_step [DecidableEq ι] {num : ℤ} (ht : s.stepProducer i num = some t) :
    s.Produces i num t := by
  unfold State.stepProducer at ht
  cases hpc : s.producer i with
  | numbered m =>
    rw [hpc] at ht
    obtain ⟨hfree, ht⟩ := Option.ite_none_right_eq_some.mp ht
    obtain rfl := Option.some.inj ht
    exact .numbered m hpc hfree
  | start | printed =>
    rw [hpc] at ht
    obtain rfl := Option.some.inj ht
    constructor
    exact hpc
  | allocated m | locked m | linked m | pushed m | unlocked m =>
    rw [hpc] at ht
    obtain rfl := Option.some.inj ht
    constructor
    exact hpc

/-- What a step of `custome` can be. -/
inductive Consumes [DecidableEq κ] (s : State ι κ) (k : κ) : State ι κ → Prop
  | lock (hpc : s.consumer k = .start ∨ s.consumer k = .waking) (hfree : s.lock = none) :
      s.Consumes k ({ s with lock := some (.inr k) }.goConsumer k .testing)
  | testing (hpc : s.consumer k = .testing) :
      s.Consumes k (s.goConsumer k (if s.head = none then .waiting else .found))
  | waiting (hpc : s.consumer k = .waiting) :
      s.Consumes k ({ s with lock := none }.goConsumer k .asleep)
  | found (m) (hpc : s.consumer k = .found) (hhead : s.head = some m) :
      s.Consumes k (s.goConsumer k (.took m))
  | took (m) (hpc : s.consumer k = .took m) :
      s.Consumes k
        ({ s with head := (s.msgs m).next, taken := s.taken ++ [(m, k)] }.goConsumer k (.removed m))
  | removed (m) (hpc : s.consumer k = .removed m) :
      s.Consumes k ({ s with lock := none }.goConsumer k (.unlocked m))
  | unlocked (m) (hpc : s.consumer k = .unlocked m) : s.Consumes k (s.goConsumer k (.printed m))
  | printed (m) (hpc : s.consumer k = .printed m) :
      s.Consumes k ({ s with freed := s.freed ++ [(m, k)] }.goConsumer k .start)

theorem consumes_of_step [DecidableEq κ] (ht : s.stepConsumer k = some t) : s.Consumes k t := by
  unfold State.stepConsumer at ht
  cases hpc : s.consumer k with
  | start | waking =>
    rw [hpc] at ht
    obtain ⟨hfree, ht⟩ := Option.ite_none_right_eq_some.mp ht
    obtain rfl := Option.some.inj ht
    exact .lock (by simp [hpc]) hfree
  | asleep =>
    rw [hpc] at ht
    cases ht
  | found =>
    rw [hpc] at ht
    obtain ⟨m, hm, rfl⟩ := Option.map_eq_some_iff.mp ht
    exact .found m hpc hm
  | testing | waiting =>
    rw [hpc] at ht
    obtain rfl := Option.some.inj ht
    constructor
    exact hpc
  | took m | removed m | unlocked m | printed m =>
    rw [hpc] at ht
    obtain rfl := Option.some.inj ht
    constructor
    exact hpc

/-- Exactly the owner of `lock` is in the critical section. -/
structure Exclusive (s : State ι κ) : Prop where
  producers : OwnedBy ProducerPc.inSection Sum.inl s.producer s.lock
  consumers : OwnedBy ConsumerPc.inSection Sum.inr s.consumer s.lock

theorem exclusive_start : Exclusive (start : State ι κ) := by
  constructor
  · intro i
    simp [start, ProducerPc.inSection]
  · intro k
    simp [start, ConsumerPc.inSection]

namespace Exclusive

theorem producer_eq (h : s.Exclusive) (hi : (s.producer i).inSection) (hj : (s.producer j).inSection) :
    i = j := by
  have hlock := (h.producers i).mp hi
  rw [(h.producers j).mp hj] at hlock
  exact (Sum.inl_injective (Option.some.inj hlock)).symm

theorem consumer_eq (h : s.Exclusive) (hk : (s.consumer k).inSection) (hl : (s.consumer l).inSection) :
    k = l := by
  have hlock := (h.consumers k).mp hk
  rw [(h.consumers l).mp hl] at hlock
  exact (Sum.inr_injective (Option.some.inj hlock)).symm

theorem producer_outside (h : s.Exclusive) (hk : (s.consumer k).inSection) :
    (s.producer i).inSection = false := by
  apply h.producers.outside_of_ne
  rw [(h.consumers k).mp hk]
  exact fun heq => Sum.inl_ne_inr (Option.some.inj heq).symm

theorem consumer_outside (h : s.Exclusive) (hi : (s.producer i).inSection) :
    (s.consumer k).inSection = false := by
  apply h.consumers.outside_of_ne
  rw [(h.producers i).mp hi]
  exact fun heq => Sum.inl_ne_inr (Option.some.inj heq)

theorem stepProducer [DecidableEq ι] (h : s.Exclusive) {num : ℤ} (ht : s.stepProducer i num = some t) :
    t.Exclusive := by
  cases produces_of_step ht with
  | numbered m hpc hfree =>
    obtain ⟨hproducers, hconsumers⟩ := h
    rw [hfree] at hproducers hconsumers
    exact ⟨hproducers.lock Sum.inl_injective rfl, hconsumers.of_not_owner (by simp) (by simp)⟩
  | pushed m hpc =>
    have hlock := (h.producers i).mp (by rw [hpc]; rfl)
    obtain ⟨hproducers, hconsumers⟩ := h
    rw [hlock] at hproducers hconsumers
    exact ⟨hproducers.unlock Sum.inl_injective rfl, hconsumers.of_not_owner (by simp) (by simp)⟩
  | printed hpc =>
    refine ⟨h.producers.keep (by rw [hpc]; rfl), fun k => ?_⟩
    show (s.consumer k).woken.inSection = true ↔ s.lock = some (.inr k)
    rw [ConsumerPc.inSection_woken, h.consumers k]
  | start hpc | allocated m hpc | locked m hpc | linked m hpc | unlocked m hpc =>
    exact ⟨h.producers.keep (by rw [hpc]; rfl), h.consumers⟩

theorem lockConsumer [DecidableEq κ] (h : s.Exclusive) (hfree : s.lock = none) {pc : ConsumerPc}
    (hpc : pc.inSection) : ({ s with lock := some (.inr k) }.goConsumer k pc).Exclusive := by
  obtain ⟨hproducers, hconsumers⟩ := h
  rw [hfree] at hproducers hconsumers
  exact ⟨hproducers.of_not_owner (by simp) (by simp), hconsumers.lock Sum.inr_injective hpc⟩

theorem unlockConsumer [DecidableEq κ] (h : s.Exclusive) (hk : (s.consumer k).inSection)
    {pc : ConsumerPc} (hpc : pc.inSection = false) :
    ({ s with lock := none }.goConsumer k pc).Exclusive := by
  have hlock := (h.consumers k).mp hk
  obtain ⟨hproducers, hconsumers⟩ := h
  rw [hlock] at hproducers hconsumers
  exact ⟨hproducers.of_not_owner (by simp) (by simp), hconsumers.unlock Sum.inr_injective hpc⟩

theorem stepConsumer [DecidableEq κ] (h : s.Exclusive) (ht : s.stepConsumer k = some t) :
    t.Exclusive := by
  cases consumes_of_step ht with
  | lock hpc hfree => exact h.lockConsumer hfree rfl
  | waiting hpc | removed m hpc => exact h.unlockConsumer (by rw [hpc]; rfl) rfl
  | testing hpc =>
    refine ⟨h.producers, h.consumers.keep ?_⟩
    rw [hpc]
    split_ifs <;> rfl
  | found m hpc | took m hpc | unlocked m hpc | printed m hpc =>
    exact ⟨h.producers, h.consumers.keep (by rw [hpc]; rfl)⟩

theorem stepWake [DecidableEq κ] (h : s.Exclusive) (ht : s.stepWake k = some t) : t.Exclusive := by
  unfold State.stepWake at ht
  split_ifs at ht with hpc
  obtain rfl := Option.some.inj ht
  exact ⟨h.producers, h.consumers.keep (by rw [hpc]; rfl)⟩

theorem step [DecidableEq ι] [DecidableEq κ] (h : s.Exclusive) {turn : Turn ι κ}
    (ht : s.step turn = some t) : t.Exclusive := by
  cases turn with
  | producer i num => exact h.stepProducer ht
  | consumer k => exact h.stepConsumer ht
  | wake k => exact h.stepWake ht

end Exclusive

/-- What the threads know because nobody else changes `head` while they hold `lock`. -/
structure Protected (s : State ι κ) : Prop where
  exclusive : s.Exclusive
  producers : ∀ i, (s.producer i).Knows s.msgs s.head
  consumers : ∀ k, (s.consumer k).Knows s.head

theorem protected_start : Protected (start : State ι κ) :=
  ⟨exclusive_start, fun _ => trivial, fun _ => trivial⟩

namespace Protected

section Producer
variable [DecidableEq ι] {num : ℤ} {pc : ProducerPc}

theorem moveProducer (h : s.Protected) {u : State ι κ} (hpc : pc.Knows u.msgs u.head)
    (hhead : u.head = s.head) (hnext : ∀ m, (u.msgs m).next = (s.msgs m).next)
    (hproducer : u.producer = s.producer) (hconsumer : u.consumer = s.consumer)
    (hu : (u.goProducer i pc).Exclusive) : (u.goProducer i pc).Protected := by
  refine ⟨hu, fun j => ?_, fun k => ?_⟩
  · show (Function.update u.producer i pc j).Knows u.msgs u.head
    by_cases hji : j = i
    · rw [hji, Function.update_self]
      exact hpc
    · rw [Function.update_of_ne hji, hproducer, hhead]
      exact (h.producers j).congr hnext
  · show (u.consumer k).Knows u.head
    rw [hconsumer, hhead]
    exact h.consumers k

/-- A producer moves that holds `lock`, so that it may change what `lock` protects. -/
theorem moveOwner (h : s.Protected) (hi : (s.producer i).inSection) {u : State ι κ}
    (hpc : pc.Knows u.msgs u.head) (hproducer : u.producer = s.producer)
    (hconsumer : u.consumer = s.consumer) (hu : (u.goProducer i pc).Exclusive) :
    (u.goProducer i pc).Protected := by
  refine ⟨hu, fun j => ?_, fun k => ?_⟩
  · show (Function.update u.producer i pc j).Knows u.msgs u.head
    by_cases hji : j = i
    · rw [hji, Function.update_self]
      exact hpc
    · rw [Function.update_of_ne hji, hproducer]
      apply ProducerPc.knows_of_outside
      rw [Bool.eq_false_iff]
      exact fun hj => hji (h.exclusive.producer_eq hj hi)
  · show (u.consumer k).Knows u.head
    rw [hconsumer]
    exact ConsumerPc.knows_of_outside (h.exclusive.consumer_outside hi) _

theorem stepProducer (h : s.Protected) (ht : s.stepProducer i num = some t) : t.Protected := by
  have hexclusive := h.exclusive.stepProducer ht
  cases produces_of_step ht with
  | start | numbered | pushed | unlocked =>
    exact h.moveProducer trivial rfl (fun _ => rfl) rfl rfl hexclusive
  | allocated m =>
    exact h.moveProducer (u := s.setMsg m _) trivial rfl (s.setMsg_next m num) rfl rfl hexclusive
  | locked m hpc =>
    apply h.moveOwner (u := s.setMsg m _) (by rw [hpc]; rfl) _ rfl rfl hexclusive
    show (Function.update s.msgs m _ m).next = s.head
    rw [Function.update_self]
  | linked m hpc => exact h.moveOwner (by rw [hpc]; rfl) rfl rfl rfl hexclusive
  | printed =>
    refine ⟨hexclusive, fun j => ?_, fun k => (h.consumers k).woken⟩
    show (Function.update s.producer i .start j).Knows s.msgs s.head
    by_cases hji : j = i
    · rw [hji, Function.update_self]
      trivial
    · rw [Function.update_of_ne hji]
      exact h.producers j

end Producer

section Consumer
variable [DecidableEq κ]

theorem moveConsumer (h : s.Protected) {u : State ι κ} {pc : ConsumerPc} (hpc : pc.Knows s.head)
    (hhead : u.head = s.head) (hmsgs : u.msgs = s.msgs) (hproducer : u.producer = s.producer)
    (hconsumer : u.consumer = s.consumer) (hu : (u.goConsumer k pc).Exclusive) :
    (u.goConsumer k pc).Protected := by
  refine ⟨hu, fun j => ?_, fun l => ?_⟩
  · show (u.producer j).Knows u.msgs u.head
    rw [hproducer, hmsgs, hhead]
    exact h.producers j
  · show (Function.update u.consumer k pc l).Knows u.head
    rw [hconsumer, hhead]
    by_cases hlk : l = k
    · rw [hlk, Function.update_self]
      exact hpc
    · rw [Function.update_of_ne hlk]
      exact h.consumers l

theorem stepConsumer (h : s.Protected) (ht : s.stepConsumer k = some t) : t.Protected := by
  have hexclusive := h.exclusive.stepConsumer ht
  cases consumes_of_step ht with
  | testing =>
    apply h.moveConsumer _ rfl rfl rfl rfl hexclusive
    split_ifs with hhead
    · exact hhead
    · exact hhead
  | found m hpc hm => exact h.moveConsumer hm rfl rfl rfl rfl hexclusive
  | took m hpc =>
    have hin : (s.consumer k).inSection := by rw [hpc]; rfl
    refine ⟨hexclusive, fun j => ?_, fun l => ?_⟩
    · apply ProducerPc.knows_of_outside
      exact h.exclusive.producer_outside hin
    · show (Function.update s.consumer k (.removed m) l).Knows _
      by_cases hlk : l = k
      · rw [hlk, Function.update_self]
        trivial
      · rw [Function.update_of_ne hlk]
        apply ConsumerPc.knows_of_outside
        rw [Bool.eq_false_iff]
        exact fun hl => hlk (h.exclusive.consumer_eq hl hin)
  | lock | waiting | removed | unlocked | printed =>
    exact h.moveConsumer trivial rfl rfl rfl rfl hexclusive

theorem stepWake (h : s.Protected) (ht : s.stepWake k = some t) : t.Protected := by
  have hexclusive := h.exclusive.stepWake ht
  unfold State.stepWake at ht
  split_ifs at ht with hpc
  obtain rfl := Option.some.inj ht
  exact h.moveConsumer trivial rfl rfl rfl rfl hexclusive

end Consumer

theorem step [DecidableEq ι] [DecidableEq κ] (h : s.Protected) {turn : Turn ι κ}
    (ht : s.step turn = some t) : t.Protected := by
  cases turn with
  | producer i num => exact h.stepProducer ht
  | consumer k => exact h.stepConsumer ht
  | wake k => exact h.stepWake ht

end Protected
end State
end CLib.Messages
