import CLib.Base.Mutex
import CLib.Base.Runs
import CLib.Base.SlotRing

namespace CLib.Sync
open CLib.Base

/-- Program points of `producer`, each named after what has been done last. -/
inductive ProducerPc (α : Type)
  | idle
  | made (item : α)
  | entered (item : α)
  | locked (item : α)
  | stored
  | advanced
  | counted
  | unlocked

inductive ConsumerPc
  | idle
  | entered
  | locked
  | taken
  | advanced
  | counted
  | unlocked

variable {ι κ α : Type}

/-- The global variables, and where each thread stands. -/
structure BufferState (ι κ α : Type) where
  empty : ℕ
  full : ℕ
  mutex : Option (ι ⊕ κ)
  inPos : ℤ
  outPos : ℤ
  count : ℤ
  buffer : SlotRing α
  producer : ι → ProducerPc α
  consumer : κ → ConsumerPc

/-- The thread that makes the next step, and the item that a producer makes if it is at
the start of its loop. -/
inductive Turn (ι κ α : Type)
  | producer (i : ι) (item : α)
  | consumer (k : κ)

namespace BufferState

/-- After the initialization in `main`; all slots hold `x`. -/
def start (N : ℕ) (x : α) : BufferState ι κ α where
  empty := N
  full := 0
  mutex := none
  inPos := 0
  outPos := 0
  count := 0
  buffer := .start x
  producer := fun _ => .idle
  consumer := fun _ => .idle

section Producer
variable [DecidableEq ι]

def goProducer (s : BufferState ι κ α) (i : ι) (pc : ProducerPc α) : BufferState ι κ α :=
  { s with producer := Function.update s.producer i pc }

/-- One step of `producer`; `none` where it has to wait. -/
def stepProducer (N : ℕ) (s : BufferState ι κ α) (i : ι) (item : α) : Option (BufferState ι κ α) :=
  match s.producer i with
  | .idle => some (s.goProducer i (.made item))
  | .made x =>
    if 0 < s.empty then some ({ s with empty := s.empty - 1 }.goProducer i (.entered x)) else none
  | .entered x =>
    if s.mutex = none then some ({ s with mutex := some (.inl i) }.goProducer i (.locked x)) else none
  | .locked x => some ({ s with buffer := s.buffer.write s.inPos x }.goProducer i .stored)
  | .stored => some ({ s with inPos := (s.inPos + 1).tmod N }.goProducer i .advanced)
  | .advanced => some ({ s with count := s.count + 1 }.goProducer i .counted)
  | .counted => some ({ s with mutex := none }.goProducer i .unlocked)
  | .unlocked => some ({ s with full := s.full + 1 }.goProducer i .idle)

end Producer

section Consumer
variable [DecidableEq κ]

def goConsumer (s : BufferState ι κ α) (k : κ) (pc : ConsumerPc) : BufferState ι κ α :=
  { s with consumer := Function.update s.consumer k pc }

def stepConsumer (N : ℕ) (s : BufferState ι κ α) (k : κ) : Option (BufferState ι κ α) :=
  match s.consumer k with
  | .idle =>
    if 0 < s.full then some ({ s with full := s.full - 1 }.goConsumer k .entered) else none
  | .entered =>
    if s.mutex = none then some ({ s with mutex := some (.inr k) }.goConsumer k .locked) else none
  | .locked => some ({ s with buffer := s.buffer.read s.outPos }.goConsumer k .taken)
  | .taken => some ({ s with outPos := (s.outPos + 1).tmod N }.goConsumer k .advanced)
  | .advanced => some ({ s with count := s.count - 1 }.goConsumer k .counted)
  | .counted => some ({ s with mutex := none }.goConsumer k .unlocked)
  | .unlocked => some ({ s with empty := s.empty + 1 }.goConsumer k .idle)

end Consumer

def step [DecidableEq ι] [DecidableEq κ] (N : ℕ) (s : BufferState ι κ α) :
    Turn ι κ α → Option (BufferState ι κ α)
  | .producer i item => s.stepProducer N i item
  | .consumer k => s.stepConsumer N k

/-- A producer that is about to write finds a slot that has been read, and a consumer that
is about to read finds one that has been filled. -/
def SlotSafe (N : ℕ) (s : BufferState ι κ α) : Turn ι κ α → Prop
  | .producer i _ => ∀ x, s.producer i = .locked x →
    0 ≤ s.inPos ∧ s.inPos < N ∧ s.buffer.unread s.inPos = false
  | .consumer k => s.consumer k = .locked →
    0 ≤ s.outPos ∧ s.outPos < N ∧ s.buffer.unread s.outPos = true

end BufferState

/-- The thread is between `pthread_mutex_lock` and `pthread_mutex_unlock`. -/
def ProducerPc.inSection : ProducerPc α → Bool
  | .locked _ | .stored | .advanced | .counted => true
  | .idle | .made _ | .entered _ | .unlocked => false

/-- Permits of `empty` that the producer has taken and not used. -/
def ProducerPc.permit : ProducerPc α → ℕ
  | .entered _ | .locked _ => 1
  | _ => 0

/-- Items that the producer has stored without a `sem_post`. -/
def ProducerPc.owed : ProducerPc α → ℕ
  | .stored | .advanced | .counted | .unlocked => 1
  | _ => 0

/-- How far `in` is behind the items stored. -/
def ProducerPc.behind : ProducerPc α → ℕ
  | .stored => 1
  | _ => 0

/-- How far `count` is behind the items stored. -/
def ProducerPc.uncounted : ProducerPc α → ℕ
  | .stored | .advanced => 1
  | _ => 0

def ConsumerPc.inSection : ConsumerPc → Bool
  | .locked | .taken | .advanced | .counted => true
  | .idle | .entered | .unlocked => false

def ConsumerPc.permit : ConsumerPc → ℕ
  | .entered | .locked => 1
  | _ => 0

def ConsumerPc.owed : ConsumerPc → ℕ
  | .taken | .advanced | .counted | .unlocked => 1
  | _ => 0

def ConsumerPc.behind : ConsumerPc → ℕ
  | .taken => 1
  | _ => 0

def ConsumerPc.uncounted : ConsumerPc → ℕ
  | .taken | .advanced => 1
  | _ => 0

namespace BufferState
variable [Fintype ι] [Fintype κ]

/-- The mutex has one owner, every permit is with a semaphore, a thread or a slot, and
the indices and the counter lag behind the slots by the threads that have still to
update them. -/
structure Inv (N : ℕ) (s : BufferState ι κ α) : Prop where
  fifo : s.buffer.Fifo N
  producers : OwnedBy ProducerPc.inSection Sum.inl s.producer s.mutex
  consumers : OwnedBy ConsumerPc.inSection Sum.inr s.consumer s.mutex
  empty : s.empty + tally ProducerPc.permit s.producer + s.buffer.produced.length +
    tally ConsumerPc.owed s.consumer = N + s.buffer.consumed.length
  full : s.full + tally ConsumerPc.permit s.consumer + s.buffer.consumed.length +
    tally ProducerPc.owed s.producer = s.buffer.produced.length
  taken : tally ConsumerPc.owed s.consumer ≤ s.buffer.consumed.length
  inPos : s.inPos = SlotRing.slot N (s.buffer.produced.length - tally ProducerPc.behind s.producer)
  outPos : s.outPos = SlotRing.slot N (s.buffer.consumed.length - tally ConsumerPc.behind s.consumer)
  count : s.count + tally ProducerPc.uncounted s.producer + s.buffer.consumed.length =
    s.buffer.produced.length + tally ConsumerPc.uncounted s.consumer

theorem inv_start (N : ℕ) (x : α) : Inv N (start N x : BufferState ι κ α) := by
  have hproducer : ∀ w : ProducerPc α → ℕ, w .idle = 0 →
      tally w (start N x : BufferState ι κ α).producer = 0 := fun w hw => tally_eq_zero fun _ => hw
  have hconsumer : ∀ w : ConsumerPc → ℕ, w .idle = 0 →
      tally w (start N x : BufferState ι κ α).consumer = 0 := fun w hw => tally_eq_zero fun _ => hw
  refine ⟨SlotRing.fifo_start N x, fun i => ?_, fun k => ?_, ?_, ?_, ?_, ?_, ?_, ?_⟩
  · simp [start, ProducerPc.inSection]
  · simp [start, ConsumerPc.inSection]
  · rw [hproducer _ rfl, hconsumer _ rfl]
    simp [start, SlotRing.start]
  · rw [hproducer _ rfl, hconsumer _ rfl]
    simp [start, SlotRing.start]
  · rw [hconsumer _ rfl]
    exact Nat.zero_le _
  · simp [start, SlotRing.start, SlotRing.slot]
  · simp [start, SlotRing.start, SlotRing.slot]
  · rw [hproducer _ rfl, hconsumer _ rfl]
    simp [start, SlotRing.start]

section Moves
variable {N : ℕ} {s t : BufferState ι κ α} {i : ι} {k : κ}

/-- What the move of one producer does to the totals. -/
structure ProducerMoved (f f' : ι → ProducerPc α) (pc pc' : ProducerPc α) : Prop where
  permit : tally ProducerPc.permit f' + pc.permit = tally ProducerPc.permit f + pc'.permit
  owed : tally ProducerPc.owed f' + pc.owed = tally ProducerPc.owed f + pc'.owed
  behind : tally ProducerPc.behind f' + pc.behind = tally ProducerPc.behind f + pc'.behind
  uncounted : tally ProducerPc.uncounted f' + pc.uncounted = tally ProducerPc.uncounted f + pc'.uncounted

theorem producerMoved [DecidableEq ι] {f : ι → ProducerPc α} {pc : ProducerPc α} (hpc : f i = pc)
    (pc' : ProducerPc α) : ProducerMoved f (Function.update f i pc') pc pc' := by
  subst hpc
  exact ⟨tally_update _ f i pc', tally_update _ f i pc', tally_update _ f i pc', tally_update _ f i pc'⟩

structure ConsumerMoved (f f' : κ → ConsumerPc) (pc pc' : ConsumerPc) : Prop where
  permit : tally ConsumerPc.permit f' + pc.permit = tally ConsumerPc.permit f + pc'.permit
  owed : tally ConsumerPc.owed f' + pc.owed = tally ConsumerPc.owed f + pc'.owed
  behind : tally ConsumerPc.behind f' + pc.behind = tally ConsumerPc.behind f + pc'.behind
  uncounted : tally ConsumerPc.uncounted f' + pc.uncounted = tally ConsumerPc.uncounted f + pc'.uncounted

theorem consumerMoved [DecidableEq κ] {f : κ → ConsumerPc} {pc : ConsumerPc} (hpc : f k = pc)
    (pc' : ConsumerPc) : ConsumerMoved f (Function.update f k pc') pc pc' := by
  subst hpc
  exact ⟨tally_update _ f k pc', tally_update _ f k pc', tally_update _ f k pc', tally_update _ f k pc'⟩

/-- Only a thread in the section has an index to update. -/
theorem ProducerPc.behind_of_outside (pc : ProducerPc α) (h : pc.inSection = false) :
    pc.behind = 0 := by
  cases pc <;> simp_all [ProducerPc.inSection, ProducerPc.behind]

theorem ConsumerPc.behind_of_outside (pc : ConsumerPc) (h : pc.inSection = false) :
    pc.behind = 0 := by
  cases pc <;> simp_all [ConsumerPc.inSection, ConsumerPc.behind]

theorem ProducerPc.uncounted_of_outside (pc : ProducerPc α) (h : pc.inSection = false) :
    pc.uncounted = 0 := by
  cases pc <;> simp_all [ProducerPc.inSection, ProducerPc.uncounted]

theorem ConsumerPc.uncounted_of_outside (pc : ConsumerPc) (h : pc.inSection = false) :
    pc.uncounted = 0 := by
  cases pc <;> simp_all [ConsumerPc.inSection, ConsumerPc.uncounted]

theorem Inv.inPos_of_locked (h : Inv N s) {x : α} (hpc : s.producer i = .locked x) :
    s.inPos = SlotRing.slot N s.buffer.produced.length ∧
      s.buffer.produced.length < s.buffer.consumed.length + N := by
  have hmutex : s.mutex = some (.inl i) := (h.producers i).mp (by rw [hpc]; rfl)
  have hbehind := h.producers.tally_eq Sum.inl_injective ProducerPc.behind_of_outside hmutex
  have hpermit := le_tally ProducerPc.permit s.producer i
  rw [hpc] at hbehind hpermit
  have hin := h.inPos
  rw [hbehind] at hin
  have hempty := h.empty
  dsimp only [ProducerPc.permit] at hpermit
  exact ⟨hin, by omega⟩

theorem Inv.outPos_of_locked (h : Inv N s) (hpc : s.consumer k = .locked) :
    s.outPos = SlotRing.slot N s.buffer.consumed.length ∧
      s.buffer.consumed.length < s.buffer.produced.length := by
  have hmutex : s.mutex = some (.inr k) := (h.consumers k).mp (by rw [hpc]; rfl)
  have hbehind := h.consumers.tally_eq Sum.inr_injective ConsumerPc.behind_of_outside hmutex
  have hpermit := le_tally ConsumerPc.permit s.consumer k
  rw [hpc] at hbehind hpermit
  have hout := h.outPos
  rw [hbehind] at hout
  have hfull := h.full
  dsimp only [ConsumerPc.permit] at hpermit
  exact ⟨hout, by omega⟩

section ProducerSteps
variable [DecidableEq ι]

/-- `in` stands where it has to if the producer owes it no more and no less than before. -/
theorem Inv.inPos_keep (h : Inv N s) {pc pc' : ProducerPc α} (hpc : s.producer i = pc)
    (hbehind : pc'.behind = pc.behind) :
    s.inPos = SlotRing.slot N (s.buffer.produced.length -
      tally ProducerPc.behind (Function.update s.producer i pc')) := by
  have hmoved := (producerMoved hpc pc').behind
  rw [h.inPos]
  congr 2
  omega

theorem Inv.moveProducer (h : Inv N s) {pc pc' : ProducerPc α} (hpc : s.producer i = pc)
    {empty full : ℕ} {mutex : Option (ι ⊕ κ)} {inPos count : ℤ}
    (hinPos : inPos = SlotRing.slot N (s.buffer.produced.length -
      tally ProducerPc.behind (Function.update s.producer i pc')))
    (hcount : count + pc'.uncounted = s.count + pc.uncounted)
    (hproducers : OwnedBy ProducerPc.inSection Sum.inl (Function.update s.producer i pc') mutex)
    (hconsumers : OwnedBy ConsumerPc.inSection Sum.inr s.consumer mutex)
    (hempty : empty + pc'.permit = s.empty + pc.permit) (hfull : full + pc'.owed = s.full + pc.owed) :
    Inv N ({ s with
      empty := empty, full := full, mutex := mutex, inPos := inPos, count := count }.goProducer i pc') := by
  have hmoved := producerMoved hpc pc'
  have hpermit' := hmoved.permit
  have howed' := hmoved.owed
  have huncounted' := hmoved.uncounted
  refine ⟨h.fifo, hproducers, hconsumers, ?_, ?_, h.taken, hinPos, h.outPos, ?_⟩
  all_goals dsimp only [goProducer]
  · have := h.empty
    omega
  · have := h.full
    omega
  · have := h.count
    omega

theorem Inv.stepProducer (h : Inv N s) {item : α} (ht : s.stepProducer N i item = some t) :
    Inv N t := by
  unfold BufferState.stepProducer at ht
  cases hpc : s.producer i with
  | idle =>
    rw [hpc] at ht
    obtain rfl := Option.some.inj ht
    exact h.moveProducer hpc (h.inPos_keep hpc rfl) rfl (h.producers.keep (by rw [hpc]; rfl))
      h.consumers rfl rfl
  | made x =>
    rw [hpc] at ht
    dsimp only at ht
    split_ifs at ht with hpos
    obtain rfl := Option.some.inj ht
    exact h.moveProducer hpc (h.inPos_keep hpc rfl) rfl (h.producers.keep (by rw [hpc]; rfl)) h.consumers
      (Nat.sub_add_cancel hpos) rfl
  | entered x =>
    rw [hpc] at ht
    dsimp only at ht
    split_ifs at ht with hfree
    obtain rfl := Option.some.inj ht
    have hproducers := h.producers
    rw [hfree] at hproducers
    exact h.moveProducer hpc (h.inPos_keep hpc rfl) rfl (hproducers.lock Sum.inl_injective rfl)
      (h.consumers.of_not_owner (by simp [hfree]) (by simp)) rfl rfl
  | locked x =>
    rw [hpc] at ht
    obtain rfl := Option.some.inj ht
    obtain ⟨hin, hspace⟩ := h.inPos_of_locked hpc
    obtain ⟨hpermit, howed, hbehind, huncounted⟩ := producerMoved hpc .stored
    dsimp only [ProducerPc.permit, ProducerPc.owed, ProducerPc.behind, ProducerPc.uncounted]
      at hpermit howed hbehind huncounted
    have hlen : (s.buffer.write s.inPos x).produced.length = s.buffer.produced.length + 1 :=
      List.length_append
    have hconsumed : (s.buffer.write s.inPos x).consumed = s.buffer.consumed := rfl
    refine ⟨?_, h.producers.keep (by rw [hpc]; rfl), h.consumers, ?_, ?_, h.taken, ?_, h.outPos, ?_⟩
    all_goals dsimp only [goProducer]
    · rw [hin]
      exact (h.fifo.write hspace x).2
    · have := h.empty
      rw [hlen, hconsumed]
      omega
    · have := h.full
      rw [hlen, hconsumed]
      omega
    · rw [hlen, h.inPos]
      congr 1
      omega
    · have := h.count
      rw [hlen, hconsumed]
      omega
  | stored =>
    rw [hpc] at ht
    obtain rfl := Option.some.inj ht
    have hmutex : s.mutex = some (.inl i) := (h.producers i).mp (by rw [hpc]; rfl)
    have hlast := h.producers.tally_eq Sum.inl_injective ProducerPc.behind_of_outside hmutex
    have howed := le_tally ProducerPc.owed s.producer i
    have hmoved := (producerMoved hpc .advanced).behind
    rw [hpc] at hlast howed
    dsimp only [ProducerPc.owed, ProducerPc.behind] at hmoved hlast howed
    have hfull := h.full
    -- Its own item is the only one that `in` has not moved past.
    have hin : (s.inPos + 1).tmod N = SlotRing.slot N (s.buffer.produced.length -
        tally ProducerPc.behind (Function.update s.producer i .advanced)) := by
      rw [h.inPos, SlotRing.slot_succ]
      congr 1
      omega
    exact h.moveProducer hpc hin rfl (h.producers.keep (by rw [hpc]; rfl)) h.consumers rfl rfl
  | advanced =>
    rw [hpc] at ht
    obtain rfl := Option.some.inj ht
    exact h.moveProducer hpc (h.inPos_keep hpc rfl) (by simp [ProducerPc.uncounted])
      (h.producers.keep (by rw [hpc]; rfl)) h.consumers rfl rfl
  | counted =>
    rw [hpc] at ht
    obtain rfl := Option.some.inj ht
    have hmutex : s.mutex = some (.inl i) := (h.producers i).mp (by rw [hpc]; rfl)
    have hproducers := h.producers
    rw [hmutex] at hproducers
    exact h.moveProducer hpc (h.inPos_keep hpc rfl) rfl (hproducers.unlock Sum.inl_injective rfl)
      (h.consumers.of_not_owner (by simp [hmutex]) (by simp)) rfl rfl
  | unlocked =>
    rw [hpc] at ht
    obtain rfl := Option.some.inj ht
    exact h.moveProducer hpc (h.inPos_keep hpc rfl) rfl (h.producers.keep (by rw [hpc]; rfl))
      h.consumers rfl rfl

end ProducerSteps

section ConsumerSteps
variable [DecidableEq κ]

theorem Inv.outPos_keep (h : Inv N s) {pc pc' : ConsumerPc} (hpc : s.consumer k = pc)
    (hbehind : pc'.behind = pc.behind) :
    s.outPos = SlotRing.slot N (s.buffer.consumed.length -
      tally ConsumerPc.behind (Function.update s.consumer k pc')) := by
  have hmoved := (consumerMoved hpc pc').behind
  rw [h.outPos]
  congr 2
  omega

theorem Inv.moveConsumer (h : Inv N s) {pc pc' : ConsumerPc} (hpc : s.consumer k = pc)
    {empty full : ℕ} {mutex : Option (ι ⊕ κ)} {outPos count : ℤ}
    (houtPos : outPos = SlotRing.slot N (s.buffer.consumed.length -
      tally ConsumerPc.behind (Function.update s.consumer k pc')))
    (hcount : s.count + pc'.uncounted = count + pc.uncounted) (howed : pc'.owed ≤ pc.owed)
    (hproducers : OwnedBy ProducerPc.inSection Sum.inl s.producer mutex)
    (hconsumers : OwnedBy ConsumerPc.inSection Sum.inr (Function.update s.consumer k pc') mutex)
    (hempty : empty + pc'.owed = s.empty + pc.owed) (hfull : full + pc'.permit = s.full + pc.permit) :
    Inv N ({ s with
      empty := empty, full := full, mutex := mutex, outPos := outPos, count := count }.goConsumer k pc') := by
  have hmoved := consumerMoved hpc pc'
  have hpermit' := hmoved.permit
  have howed' := hmoved.owed
  have huncounted' := hmoved.uncounted
  refine ⟨h.fifo, hproducers, hconsumers, ?_, ?_, ?_, h.inPos, houtPos, ?_⟩
  all_goals dsimp only [goConsumer]
  · have := h.empty
    omega
  · have := h.full
    omega
  · have := h.taken
    omega
  · have := h.count
    omega

theorem Inv.stepConsumer (h : Inv N s) (ht : s.stepConsumer N k = some t) : Inv N t := by
  unfold BufferState.stepConsumer at ht
  cases hpc : s.consumer k with
  | idle =>
    rw [hpc] at ht
    dsimp only at ht
    split_ifs at ht with hpos
    obtain rfl := Option.some.inj ht
    exact h.moveConsumer hpc (h.outPos_keep hpc rfl) rfl (by decide) h.producers
      (h.consumers.keep (by rw [hpc]; rfl)) rfl
      (Nat.sub_add_cancel hpos)
  | entered =>
    rw [hpc] at ht
    dsimp only at ht
    split_ifs at ht with hfree
    obtain rfl := Option.some.inj ht
    have hconsumers := h.consumers
    rw [hfree] at hconsumers
    exact h.moveConsumer hpc (h.outPos_keep hpc rfl) rfl (by decide)
      (h.producers.of_not_owner (by simp [hfree]) (by simp))
      (hconsumers.lock Sum.inr_injective rfl) rfl rfl
  | locked =>
    rw [hpc] at ht
    obtain rfl := Option.some.inj ht
    obtain ⟨hout, hitem⟩ := h.outPos_of_locked hpc
    obtain ⟨hpermit, howed, hbehind, huncounted⟩ := consumerMoved hpc .taken
    dsimp only [ConsumerPc.permit, ConsumerPc.owed, ConsumerPc.behind, ConsumerPc.uncounted]
      at hpermit howed hbehind huncounted
    have hlen : (s.buffer.read s.outPos).consumed.length = s.buffer.consumed.length + 1 :=
      List.length_append
    have hproduced : (s.buffer.read s.outPos).produced = s.buffer.produced := rfl
    refine ⟨?_, h.producers, h.consumers.keep (by rw [hpc]; rfl), ?_, ?_, ?_, h.inPos, ?_, ?_⟩
    all_goals dsimp only [goConsumer]
    · rw [hout]
      exact (h.fifo.read hitem).2
    · have := h.empty
      rw [hlen, hproduced]
      omega
    · have := h.full
      rw [hlen, hproduced]
      omega
    · have := h.taken
      rw [hlen]
      omega
    · rw [hlen, h.outPos]
      congr 1
      omega
    · have := h.count
      rw [hlen, hproduced]
      omega
  | taken =>
    rw [hpc] at ht
    obtain rfl := Option.some.inj ht
    have hmutex : s.mutex = some (.inr k) := (h.consumers k).mp (by rw [hpc]; rfl)
    have hlast := h.consumers.tally_eq Sum.inr_injective ConsumerPc.behind_of_outside hmutex
    have howed := le_tally ConsumerPc.owed s.consumer k
    have hmoved := (consumerMoved hpc .advanced).behind
    rw [hpc] at hlast howed
    dsimp only [ConsumerPc.owed, ConsumerPc.behind] at hmoved hlast howed
    have htaken := h.taken
    have hout : (s.outPos + 1).tmod N = SlotRing.slot N (s.buffer.consumed.length -
        tally ConsumerPc.behind (Function.update s.consumer k .advanced)) := by
      rw [h.outPos, SlotRing.slot_succ]
      congr 1
      omega
    exact h.moveConsumer hpc hout rfl le_rfl h.producers (h.consumers.keep (by rw [hpc]; rfl)) rfl rfl
  | advanced =>
    rw [hpc] at ht
    obtain rfl := Option.some.inj ht
    exact h.moveConsumer hpc (h.outPos_keep hpc rfl) (by simp [ConsumerPc.uncounted]) le_rfl
      h.producers (h.consumers.keep (by rw [hpc]; rfl)) rfl rfl
  | counted =>
    rw [hpc] at ht
    obtain rfl := Option.some.inj ht
    have hmutex : s.mutex = some (.inr k) := (h.consumers k).mp (by rw [hpc]; rfl)
    have hconsumers := h.consumers
    rw [hmutex] at hconsumers
    exact h.moveConsumer hpc (h.outPos_keep hpc rfl) rfl (by decide)
      (h.producers.of_not_owner (by simp [hmutex]) (by simp))
      (hconsumers.unlock Sum.inr_injective rfl) rfl rfl
  | unlocked =>
    rw [hpc] at ht
    obtain rfl := Option.some.inj ht
    exact h.moveConsumer hpc (h.outPos_keep hpc rfl) rfl (by decide) h.producers
      (h.consumers.keep (by rw [hpc]; rfl)) rfl rfl

end ConsumerSteps

theorem Inv.step [DecidableEq ι] [DecidableEq κ] (h : Inv N s) {turn : Turn ι κ α}
    (ht : s.step N turn = some t) : Inv N t := by
  cases turn with
  | producer i item => exact h.stepProducer ht
  | consumer k => exact h.stepConsumer ht

theorem Inv.slotSafe (h : Inv N s) (hN : 1 ≤ N) (turn : Turn ι κ α) : s.SlotSafe N turn := by
  cases turn with
  | producer i item =>
    intro x hpc
    obtain ⟨hin, hspace⟩ := h.inPos_of_locked hpc
    rw [hin]
    exact ⟨SlotRing.slot_nonneg N _, SlotRing.slot_lt hN _, (h.fifo.write hspace x).1⟩
  | consumer k =>
    intro hpc
    obtain ⟨hout, hitem⟩ := h.outPos_of_locked hpc
    rw [hout]
    exact ⟨SlotRing.slot_nonneg N _, SlotRing.slot_lt hN _, (h.fifo.read hitem).1⟩

theorem Inv.count_of_free (h : Inv N s) (hfree : s.mutex = none) :
    0 ≤ s.count ∧ s.count ≤ N ∧ s.inPos = (s.outPos + s.count).tmod N := by
  have hproducers := h.producers
  have hconsumers := h.consumers
  rw [hfree] at hproducers hconsumers
  have hin := h.inPos
  have hout := h.outPos
  have hcount := h.count
  rw [hproducers.tally_eq_zero ProducerPc.behind_of_outside (by simp)] at hin
  rw [hconsumers.tally_eq_zero ConsumerPc.behind_of_outside (by simp)] at hout
  rw [hproducers.tally_eq_zero ProducerPc.uncounted_of_outside (by simp),
    hconsumers.tally_eq_zero ConsumerPc.uncounted_of_outside (by simp)] at hcount
  have hle := h.fifo.fifo.length_le
  have hwindow := h.fifo.window
  have hdiff : s.count = (s.buffer.produced.length - s.buffer.consumed.length : ℕ) := by omega
  refine ⟨by omega, by omega, ?_⟩
  rw [hin, hout, hdiff]
  show ((s.buffer.produced.length % N : ℕ) : ℤ) = (((s.buffer.consumed.length % N : ℕ) : ℤ) +
    ((s.buffer.produced.length - s.buffer.consumed.length : ℕ) : ℤ)).tmod N
  rw [Int.tmod_eq_emod_of_nonneg (by omega), ← Int.natCast_add, ← Int.natCast_mod, Nat.mod_add_mod,
    Nat.add_sub_cancel' hle]

end Moves

/-- In every run of any number of producers and consumers the counter and the indices agree
whenever the mutex is free, the items are consumed in the order in which they were produced,
and no slot is written before it has been read or read before it has been filled. -/
theorem boundedBuffer_safe [DecidableEq ι] [DecidableEq κ] (N : ℕ) (hN : 1 ≤ N) (x : α)
    (turns : List (Turn ι κ α)) :
    (∀ s : BufferState ι κ α, Visits (step N) (start N x) turns s →
      (s.mutex = none → 0 ≤ s.count ∧ s.count ≤ N ∧ s.inPos = (s.outPos + s.count).tmod N) ∧
        s.buffer.consumed <+: s.buffer.produced) ∧
      Along (step N) (SlotSafe N) (start N x) turns := by
  have hinv : ∀ s : BufferState ι κ α, Reachable (step N) (start N x) s → Inv N s := fun s hs =>
    hs.invariant (inv_start N x) fun _ _ _ h ht => h.step ht
  constructor
  · intro s hs
    exact ⟨(hinv s hs.reachable).count_of_free, (hinv s hs.reachable).fifo.fifo⟩
  · intro s turn hturn
    exact (hinv s hturn.visits.reachable).slotSafe hN turn

/-- Two producers and a consumer on a buffer of one slot: each of them goes round once. -/
def oneSlotRun : List (Turn Bool Unit ℕ) :=
  List.replicate 8 (.producer true 7) ++ .producer false 5 :: List.replicate 7 (.consumer ()) ++
    List.replicate 7 (.producer false 5)

theorem boundedBuffer_safe_oneSlot :
    (runFrom (step 1) (start 1 0) oneSlotRun).map (fun s => (s.buffer.produced, s.buffer.consumed)) =
        some ([7, 5], [7]) ∧
    (∀ s, Visits (step 1) (start 1 0) oneSlotRun s →
      (s.mutex = none → 0 ≤ s.count ∧ s.count ≤ (1 : ℕ) ∧
        s.inPos = (s.outPos + s.count).tmod (1 : ℕ)) ∧ s.buffer.consumed <+: s.buffer.produced) ∧
      Along (step 1) (SlotSafe 1) (start 1 0) oneSlotRun :=
  ⟨by decide, boundedBuffer_safe 1 le_rfl 0 oneSlotRun⟩

end BufferState
end CLib.Sync
