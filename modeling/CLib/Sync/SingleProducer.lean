import CLib.Base.Runs
import CLib.Base.SlotRing

namespace CLib.Sync
open CLib.Base

/-- How the index goes round: `in = (in + 1) % N` (semaphone_test.c), `atomic_fetch_add`
and a separate modulo (semaphone_mac.c, test.c), or `atomic_fetch_add(..) % N`
(semaphone_test2_atomic.c). -/
inductive Variant
  | modular | twoStep | fetchMod
  deriving DecidableEq

/-- The single accesses of a loop body to the index, the buffer and the semaphores, and to
the counter of the loop. -/
inductive Instr
  | make | wait | loadIndex | fetchIndex | access | load | storeNext | fetchAdd | storeMod | post
  | countUp
  deriving DecidableEq

def producerBody : Variant → List Instr
  | .modular => [.make, .wait, .loadIndex, .access, .load, .storeNext, .post, .countUp]
  | .twoStep => [.make, .wait, .loadIndex, .access, .fetchAdd, .load, .storeMod, .post, .countUp]
  | .fetchMod => [.make, .wait, .fetchIndex, .access, .post, .countUp]

def consumerBody : Variant → List Instr
  | .modular => [.wait, .loadIndex, .access, .load, .storeNext, .countUp, .post]
  | .twoStep => [.wait, .loadIndex, .access, .fetchAdd, .load, .storeMod, .post, .countUp]
  | .fetchMod => [.wait, .fetchIndex, .access, .countUp, .post]

/-- The value of an `int` after an addition. -/
def wrap (v : ℤ) : ℤ := v.bmod (2 ^ 32)

/-- The shared index of a thread (`in` or `out`, which the other thread never touches), its
local `index`, and the value it has loaded last. -/
structure Cursor where
  shared : ℤ
  index : ℤ
  loaded : ℤ
  deriving DecidableEq

/-- What an access to the index does. -/
def Cursor.exec (N : ℕ) (c : Cursor) : Instr → Cursor
  | .loadIndex => { c with index := c.shared }
  | .fetchIndex => { c with index := c.shared.tmod N, shared := wrap (c.shared + 1) }
  | .load => { c with loaded := c.shared }
  | .storeNext => { c with shared := (wrap (c.loaded + 1)).tmod N }
  | .fetchAdd => { c with shared := wrap (c.shared + 1) }
  | .storeMod => { c with shared := c.loaded.tmod N }
  | _ => c

/-- A thread: `i` or `consumed`, the number of accesses done in this round, and the rounds
completed before (a history variable). -/
structure Worker where
  counter : ℕ
  pc : ℕ
  laps : ℕ
  cursor : Cursor
  deriving DecidableEq

namespace Worker

def start : Worker := ⟨0, 0, 0, ⟨0, 0, 0⟩⟩

/-- The next access, if the loop does not end here. -/
def next (body : List Instr) (M : ℕ) (w : Worker) : Option Instr :=
  if w.pc = 0 ∧ M ≤ w.counter then none else body[w.pc]?

/-- The thread after the access `instr`. -/
def advance (body : List Instr) (N : ℕ) (w : Worker) (instr : Instr) : Worker where
  counter := if instr = .countUp then w.counter + 1 else w.counter
  pc := if w.pc + 1 = body.length then 0 else w.pc + 1
  laps := if w.pc + 1 = body.length then w.laps + 1 else w.laps
  cursor := w.cursor.exec N instr

/-- How often the thread has made the access `instr`. -/
def passed (body : List Instr) (instr : Instr) (w : Worker) : ℕ :=
  w.laps + (body.take w.pc).count instr

end Worker

/-- The semaphores, the buffer, and the two threads. -/
structure DuoState (α : Type) where
  empty : ℕ
  full : ℕ
  buffer : SlotRing α
  item : α
  producer : Worker
  consumer : Worker

/-- The thread that makes the next step, and what `rand` gives if it makes an item. -/
inductive DuoTurn (α : Type)
  | producer (item : α)
  | consumer

variable {α : Type}

namespace DuoState

def start (N : ℕ) (x : α) : DuoState α := ⟨N, 0, .start x, x, .start, .start⟩

section
variable (v : Variant) (N M : ℕ)

/-- One access of `producer`, which makes `M` items. -/
def stepProducer (s : DuoState α) (item : α) : Option (DuoState α) :=
  (s.producer.next (producerBody v) M).bind fun instr =>
    let s' := { s with producer := s.producer.advance (producerBody v) N instr }
    match instr with
    | .make => some { s' with item := item }
    | .wait => if 0 < s.empty then some { s' with empty := s.empty - 1 } else none
    | .access => some { s' with buffer := s.buffer.write s.producer.cursor.index s.item }
    | .post => some { s' with full := s.full + 1 }
    | _ => some s'

def stepConsumer (s : DuoState α) : Option (DuoState α) :=
  (s.consumer.next (consumerBody v) M).bind fun instr =>
    let s' := { s with consumer := s.consumer.advance (consumerBody v) N instr }
    match instr with
    | .wait => if 0 < s.full then some { s' with full := s.full - 1 } else none
    | .access => some { s' with buffer := s.buffer.read s.consumer.cursor.index }
    | .post => some { s' with empty := s.empty + 1 }
    | _ => some s'

def step (s : DuoState α) : DuoTurn α → Option (DuoState α)
  | .producer item => s.stepProducer v N M item
  | .consumer => s.stepConsumer v N M

/-- The slot that a thread is about to access lies in the buffer; the producer finds it read
and the consumer finds it filled. -/
def SlotSafe (s : DuoState α) : DuoTurn α → Prop
  | .producer _ => s.producer.next (producerBody v) M = some .access →
    0 ≤ s.producer.cursor.index ∧ s.producer.cursor.index < N ∧
      s.buffer.unread s.producer.cursor.index = false
  | .consumer => s.consumer.next (consumerBody v) M = some .access →
    0 ≤ s.consumer.cursor.index ∧ s.consumer.cursor.index < N ∧
      s.buffer.unread s.consumer.cursor.index = true

end

end DuoState

/-- In a loop body each access that matters comes once, and a slot is accessed after the
`sem_wait` and before the `sem_post`. -/
structure IsBody (body : List Instr) : Prop where
  once : ∀ instr ∈ [Instr.wait, .access, .post, .countUp], body.count instr = 1
  order : ∀ pc ≤ body.length, (body.take pc).count .access ≤ (body.take pc).count .wait ∧
    (body.take pc).count .post ≤ (body.take pc).count .access
  permit : ∀ pc < body.length, body[pc]? = some .access →
    (body.take pc).count .wait = 1 ∧ (body.take pc).count .access = 0

theorem isBody_producerBody (v : Variant) : IsBody (producerBody v) := by
  cases v <;> exact ⟨by decide, by decide, by decide⟩

theorem isBody_consumerBody (v : Variant) : IsBody (consumerBody v) := by
  cases v <;> exact ⟨by decide, by decide, by decide⟩

/-- The shared index after `n` rounds. -/
def home (v : Variant) (N n : ℕ) : ℤ :=
  match v with
  | .fetchMod => n
  | _ => SlotRing.slot N n

/-- The loop body moves the index from one item to the next, and accesses the slot of the item. -/
structure Steers (v : Variant) (N : ℕ) (body : List Instr) : Prop where
  index : ∀ n c pc, c.shared = home v N n → n + 1 < 2 ^ 31 → body[pc]? = some .access →
    ((body.take pc).foldl (Cursor.exec N) c).index = SlotRing.slot N n
  lap : ∀ n c, c.shared = home v N n → n + 1 < 2 ^ 31 →
    (body.foldl (Cursor.exec N) c).shared = home v N (n + 1)

theorem wrap_of_lt {v : ℤ} (hnonneg : 0 ≤ v) (hlt : v < 2 ^ 31) : wrap v = v := by
  apply Int.bmod_eq_of_le <;> omega

theorem home_nonneg (v : Variant) (N n : ℕ) : 0 ≤ home v N n := by
  cases v
  · exact SlotRing.slot_nonneg N n
  · exact SlotRing.slot_nonneg N n
  · exact Int.natCast_nonneg n

theorem home_le (v : Variant) (N n : ℕ) : home v N n ≤ n := by
  cases v
  · exact Int.ofNat_le.mpr (Nat.mod_le n N)
  · exact Int.ofNat_le.mpr (Nat.mod_le n N)
  · exact le_rfl

theorem wrap_home_add_one {v : Variant} {N n : ℕ} (hn : n + 1 < 2 ^ 31) :
    wrap (home v N n + 1) = home v N n + 1 := by
  have hnonneg := home_nonneg v N n
  have hle := home_le v N n
  apply wrap_of_lt <;> omega

theorem natCast_tmod (N n : ℕ) : (n : ℤ).tmod N = SlotRing.slot N n := by
  rw [Int.tmod_eq_emod_of_nonneg (Int.natCast_nonneg n), ← Int.natCast_mod]
  rfl

theorem steers_producerBody (v : Variant) (N : ℕ) : Steers v N (producerBody v) := by
  have haccess : ∀ pc < (producerBody v).length, (producerBody v)[pc]? = some .access → pc = 3 := by
    cases v <;> decide
  refine ⟨fun n c pc hc hn hpc => ?_, fun n c hc hn => ?_⟩
  · obtain rfl := haccess pc (List.getElem?_eq_some_iff.mp hpc).1 hpc
    cases v
    · simp [producerBody, Cursor.exec, hc, home]
    · simp [producerBody, Cursor.exec, hc, home]
    · simp [producerBody, Cursor.exec, hc, home, natCast_tmod]
  · have hwrap := wrap_home_add_one (v := v) (N := N) hn
    cases v
    · simp [producerBody, Cursor.exec, hc, hwrap]
      exact SlotRing.slot_succ N n
    · simp [producerBody, Cursor.exec, hc, hwrap]
      exact SlotRing.slot_succ N n
    · simp [producerBody, Cursor.exec, hc, hwrap]
      rfl

theorem steers_consumerBody (v : Variant) (N : ℕ) : Steers v N (consumerBody v) := by
  have haccess : ∀ pc < (consumerBody v).length, (consumerBody v)[pc]? = some .access → pc = 2 := by
    cases v <;> decide
  refine ⟨fun n c pc hc hn hpc => ?_, fun n c hc hn => ?_⟩
  · obtain rfl := haccess pc (List.getElem?_eq_some_iff.mp hpc).1 hpc
    cases v
    · simp [consumerBody, Cursor.exec, hc, home]
    · simp [consumerBody, Cursor.exec, hc, home]
    · simp [consumerBody, Cursor.exec, hc, home, natCast_tmod]
  · have hwrap := wrap_home_add_one (v := v) (N := N) hn
    cases v
    · simp [consumerBody, Cursor.exec, hc, hwrap]
      exact SlotRing.slot_succ N n
    · simp [consumerBody, Cursor.exec, hc, hwrap]
      exact SlotRing.slot_succ N n
    · simp [consumerBody, Cursor.exec, hc, hwrap]
      rfl

namespace Worker
variable {v : Variant} {N M : ℕ} {body : List Instr} {w : Worker} {instr : Instr}

/-- The thread is within its `M` rounds, and its index is what the accesses of this round
have made of the one that the round began with. -/
structure Inv (v : Variant) (N M : ℕ) (body : List Instr) (w : Worker) : Prop where
  pc_lt : w.pc < body.length
  counter : w.counter = w.passed body .countUp
  laps : w.laps + (if w.pc = 0 then 0 else 1) ≤ M
  cursor : ∃ c, c.shared = home v N w.laps ∧ w.cursor = (body.take w.pc).foldl (Cursor.exec N) c

theorem inv_start (hbody : 0 < body.length) : Inv v N M body start := by
  refine ⟨hbody, rfl, Nat.zero_le M, ⟨0, 0, 0⟩, ?_, rfl⟩
  cases v
  · exact (congrArg Nat.cast (Nat.zero_mod N)).symm
  · exact (congrArg Nat.cast (Nat.zero_mod N)).symm
  · rfl

theorem getElem?_of_next (hnext : w.next body M = some instr) : body[w.pc]? = some instr := by
  rw [next] at hnext
  split_ifs at hnext
  exact hnext

theorem Inv.laps_lt (h : Inv v N M body w) (hnext : w.next body M = some instr) : w.laps < M := by
  have hlaps := h.laps
  rw [next] at hnext
  split_ifs at hnext with hend
  have hcounter := h.counter
  by_cases hpc : w.pc = 0
  · rw [passed, hpc, List.take_zero, List.count_nil] at hcounter
    rw [not_and] at hend
    have := hend hpc
    omega
  · rw [if_neg hpc] at hlaps
    omega

theorem take_succ (hnext : w.next body M = some instr) :
    body.take (w.pc + 1) = body.take w.pc ++ [instr] := by
  rw [List.take_add_one, getElem?_of_next hnext]
  rfl

theorem passed_advance (hbody : IsBody body) (hnext : w.next body M = some instr) {instr' : Instr}
    (hinstr : instr' ∈ [Instr.wait, .access, .post, .countUp]) :
    (w.advance body N instr).passed body instr' =
      w.passed body instr' + if instr = instr' then 1 else 0 := by
  have hcount : (body.take (w.pc + 1)).count instr' =
      (body.take w.pc).count instr' + if instr = instr' then 1 else 0 := by
    rw [take_succ hnext, List.count_append, List.count_singleton]
    simp
  rw [passed, advance, passed]
  by_cases hlast : w.pc + 1 = body.length
  · rw [hlast, List.take_length, hbody.once instr' hinstr] at hcount
    simp only [if_pos hlast, List.take_zero, List.count_nil]
    omega
  · simp only [if_neg hlast, hcount]
    omega

theorem Inv.advance (h : Inv v N M body w) (hbody : IsBody body) (hsteers : Steers v N body)
    (hM : M < 2 ^ 31) (hnext : w.next body M = some instr) :
    Inv v N M body (w.advance body N instr) := by
  have hlaps := h.laps_lt hnext
  have hmem : Instr.countUp ∈ [Instr.wait, .access, .post, .countUp] := by decide
  have hpassed := passed_advance (N := N) hbody hnext hmem
  obtain ⟨c, hc, hcursor⟩ := h.cursor
  have hexec : w.cursor.exec N instr = (body.take (w.pc + 1)).foldl (Cursor.exec N) c := by
    rw [take_succ hnext, List.foldl_append, ← hcursor]
    rfl
  have hlt := h.pc_lt
  refine ⟨?_, ?_, ?_, ?_⟩
  · rw [Worker.advance]
    dsimp only
    split_ifs <;> omega
  · rw [hpassed, ← h.counter, Worker.advance]
    dsimp only
    split_ifs <;> rfl
  · rw [Worker.advance]
    dsimp only
    split_ifs <;> omega
  · rw [Worker.advance]
    dsimp only
    split_ifs with hlast
    · rw [hlast, List.take_length] at hexec
      refine ⟨w.cursor.exec N instr, ?_, rfl⟩
      rw [hexec]
      exact hsteers.lap w.laps c hc (by omega)
    · exact ⟨c, hc, hexec⟩

theorem Inv.index_of_access (h : Inv v N M body w) (hbody : IsBody body) (hsteers : Steers v N body)
    (hM : M < 2 ^ 31) (hnext : w.next body M = some .access) :
    w.cursor.index = SlotRing.slot N (w.passed body .access) ∧
      w.passed body .wait = w.passed body .access + 1 := by
  have hlaps := h.laps_lt hnext
  obtain ⟨c, hc, hcursor⟩ := h.cursor
  obtain ⟨hwait, haccess⟩ := hbody.permit w.pc h.pc_lt (getElem?_of_next hnext)
  rw [passed, passed, hwait, haccess, hcursor]
  exact ⟨hsteers.index w.laps c w.pc hc (by omega) (getElem?_of_next hnext), rfl⟩

theorem Inv.passed_le (h : Inv v N M body w) (hbody : IsBody body) :
    w.passed body .access ≤ w.passed body .wait ∧ w.passed body .post ≤ w.passed body .access := by
  obtain ⟨haccess, hpost⟩ := hbody.order w.pc h.pc_lt.le
  rw [passed, passed, passed]
  omega

theorem Inv.finished (h : Inv v N M body w) (hnext : w.next body M = none) :
    w.laps = M ∧ ∀ instr, w.passed body instr = M := by
  have hlaps := h.laps
  have hcounter := h.counter
  rw [next] at hnext
  split_ifs at hnext with hend
  · rw [passed, hend.1, List.take_zero, List.count_nil] at hcounter
    rw [if_pos hend.1] at hlaps
    have hM : w.laps = M := by omega
    refine ⟨hM, fun instr => ?_⟩
    rw [passed, hend.1, List.take_zero, List.count_nil, hM, Nat.add_zero]
  · exact absurd h.pc_lt (by simpa using hnext)

/-- Before an access that comes once in the body the thread has made it once a round. -/
theorem passed_of_next (hbody : IsBody body) (hnext : w.next body M = some instr)
    (hinstr : instr ∈ [Instr.wait, .access, .post, .countUp]) : w.passed body instr = w.laps := by
  have hle : (body.take (w.pc + 1)).count instr ≤ body.count instr :=
    (List.take_sublist (w.pc + 1) body).count_le instr
  rw [take_succ hnext, List.count_append, List.count_singleton_self, hbody.once instr hinstr] at hle
  rw [passed]
  omega

/-- How many accesses the thread has made. -/
def progress (body : List Instr) (w : Worker) : ℕ := w.laps * body.length + w.pc

theorem progress_advance : (w.advance body N instr).progress body = w.progress body + 1 := by
  rw [progress, progress, advance]
  dsimp only
  split_ifs with hlast
  · rw [Nat.add_mul]
    omega
  · omega

theorem Inv.progress_le (h : Inv v N M body w) : w.progress body ≤ M * body.length := by
  have hlaps := h.laps
  have hlt := h.pc_lt
  rw [progress]
  split_ifs at hlaps with hpc
  · rw [hpc]
    exact Nat.mul_le_mul_right body.length hlaps
  · calc
      w.laps * body.length + w.pc ≤ (w.laps + 1) * body.length := by rw [Nat.add_mul]; omega
      _ ≤ M * body.length := Nat.mul_le_mul_right body.length hlaps

end Worker

namespace DuoState
variable {v : Variant} {N M : ℕ} {s t : DuoState α}

/-- Both threads keep to their bodies, each item that is queued is accounted for by the
accesses made, and every permit is with a semaphore or has been taken by a thread. -/
structure Inv (v : Variant) (N M : ℕ) (s : DuoState α) : Prop where
  producer : s.producer.Inv v N M (producerBody v)
  consumer : s.consumer.Inv v N M (consumerBody v)
  fifo : s.buffer.Fifo N
  produced : s.buffer.produced.length = s.producer.passed (producerBody v) .access
  consumed : s.buffer.consumed.length = s.consumer.passed (consumerBody v) .access
  empty : s.empty + s.producer.passed (producerBody v) .wait =
    N + s.consumer.passed (consumerBody v) .post
  full : s.full + s.consumer.passed (consumerBody v) .wait =
    s.producer.passed (producerBody v) .post

theorem inv_start (v : Variant) (N M : ℕ) (x : α) : Inv v N M (start N x) := by
  refine ⟨Worker.inv_start (by cases v <;> decide), Worker.inv_start (by cases v <;> decide),
    SlotRing.fifo_start N x, rfl, rfl, rfl, rfl⟩

/-- The producer that is to store an item is at its slot, and there is space for it. -/
theorem Inv.producer_access (h : Inv v N M s) (hM : M < 2 ^ 31)
    (hnext : s.producer.next (producerBody v) M = some .access) :
    s.producer.cursor.index = SlotRing.slot N s.buffer.produced.length ∧
      s.buffer.produced.length < s.buffer.consumed.length + N := by
  obtain ⟨hindex, hwait⟩ := h.producer.index_of_access (isBody_producerBody v)
    (steers_producerBody v N) hM hnext
  have hpost := (h.consumer.passed_le (isBody_consumerBody v)).2
  have hempty := h.empty
  have hproduced := h.produced
  have hconsumed := h.consumed
  rw [hproduced]
  exact ⟨hindex, by omega⟩

theorem Inv.consumer_access (h : Inv v N M s) (hM : M < 2 ^ 31)
    (hnext : s.consumer.next (consumerBody v) M = some .access) :
    s.consumer.cursor.index = SlotRing.slot N s.buffer.consumed.length ∧
      s.buffer.consumed.length < s.buffer.produced.length := by
  obtain ⟨hindex, hwait⟩ := h.consumer.index_of_access (isBody_consumerBody v)
    (steers_consumerBody v N) hM hnext
  have hpost := (h.producer.passed_le (isBody_producerBody v)).2
  have hfull := h.full
  have hproduced := h.produced
  have hconsumed := h.consumed
  rw [hconsumed]
  exact ⟨hindex, by omega⟩

theorem Inv.stepProducer (h : Inv v N M s) (hM : M < 2 ^ 31) {item : α}
    (ht : s.stepProducer v N M item = some t) : Inv v N M t := by
  rw [DuoState.stepProducer, Option.bind_eq_some_iff] at ht
  obtain ⟨instr, hnext, ht⟩ := ht
  have hbody := isBody_producerBody v
  have hproducer := h.producer.advance hbody (steers_producerBody v N) hM hnext
  have hpassed : ∀ instr' ∈ [Instr.wait, .access, .post, .countUp],
      (s.producer.advance (producerBody v) N instr).passed (producerBody v) instr' =
        s.producer.passed (producerBody v) instr' + if instr = instr' then 1 else 0 :=
    fun instr' hinstr => Worker.passed_advance hbody hnext hinstr
  have hwait := hpassed .wait (by decide)
  have haccess := hpassed .access (by decide)
  have hpost := hpassed .post (by decide)
  have hproduced := h.produced
  have hempty := h.empty
  have hfull := h.full
  cases instr with
  | wait =>
    dsimp only at ht
    split_ifs at ht with hpos
    obtain rfl := Option.some.inj ht
    simp only [reduceCtorEq, if_true, if_false] at hwait haccess hpost
    exact ⟨hproducer, h.consumer, h.fifo, by dsimp only; omega, h.consumed, by dsimp only; omega,
      by dsimp only; omega⟩
  | access =>
    obtain rfl := Option.some.inj ht
    simp only [reduceCtorEq, if_true, if_false] at hwait haccess hpost
    obtain ⟨hindex, hspace⟩ := h.producer_access hM hnext
    have hlen : (s.buffer.write s.producer.cursor.index s.item).produced.length =
        s.buffer.produced.length + 1 := List.length_append
    refine ⟨hproducer, h.consumer, ?_, by dsimp only; omega, h.consumed, by dsimp only; omega,
      by dsimp only; omega⟩
    dsimp only
    rw [hindex]
    exact (h.fifo.write hspace s.item).2
  | post =>
    obtain rfl := Option.some.inj ht
    simp only [reduceCtorEq, if_true, if_false] at hwait haccess hpost
    exact ⟨hproducer, h.consumer, h.fifo, by dsimp only; omega, h.consumed, by dsimp only; omega,
      by dsimp only; omega⟩
  | _ =>
    -- The other accesses change neither a semaphore nor the buffer.
    obtain rfl := Option.some.inj ht
    simp only [reduceCtorEq, if_false] at hwait haccess hpost
    exact ⟨hproducer, h.consumer, h.fifo, by dsimp only; omega, h.consumed, by dsimp only; omega,
      by dsimp only; omega⟩

theorem Inv.stepConsumer (h : Inv v N M s) (hM : M < 2 ^ 31)
    (ht : s.stepConsumer v N M = some t) : Inv v N M t := by
  rw [DuoState.stepConsumer, Option.bind_eq_some_iff] at ht
  obtain ⟨instr, hnext, ht⟩ := ht
  have hbody := isBody_consumerBody v
  have hconsumer := h.consumer.advance hbody (steers_consumerBody v N) hM hnext
  have hpassed : ∀ instr' ∈ [Instr.wait, .access, .post, .countUp],
      (s.consumer.advance (consumerBody v) N instr).passed (consumerBody v) instr' =
        s.consumer.passed (consumerBody v) instr' + if instr = instr' then 1 else 0 :=
    fun instr' hinstr => Worker.passed_advance hbody hnext hinstr
  have hwait := hpassed .wait (by decide)
  have haccess := hpassed .access (by decide)
  have hpost := hpassed .post (by decide)
  have hconsumed := h.consumed
  have hempty := h.empty
  have hfull := h.full
  cases instr with
  | wait =>
    dsimp only at ht
    split_ifs at ht with hpos
    obtain rfl := Option.some.inj ht
    simp only [reduceCtorEq, if_true, if_false] at hwait haccess hpost
    exact ⟨h.producer, hconsumer, h.fifo, h.produced, by dsimp only; omega, by dsimp only; omega,
      by dsimp only; omega⟩
  | access =>
    obtain rfl := Option.some.inj ht
    simp only [reduceCtorEq, if_true, if_false] at hwait haccess hpost
    obtain ⟨hindex, hitem⟩ := h.consumer_access hM hnext
    have hlen : (s.buffer.read s.consumer.cursor.index).consumed.length =
        s.buffer.consumed.length + 1 := List.length_append
    refine ⟨h.producer, hconsumer, ?_, h.produced, by dsimp only; omega, by dsimp only; omega,
      by dsimp only; omega⟩
    dsimp only
    rw [hindex]
    exact (h.fifo.read hitem).2
  | post =>
    obtain rfl := Option.some.inj ht
    simp only [reduceCtorEq, if_true, if_false] at hwait haccess hpost
    exact ⟨h.producer, hconsumer, h.fifo, h.produced, by dsimp only; omega, by dsimp only; omega,
      by dsimp only; omega⟩
  | _ =>
    obtain rfl := Option.some.inj ht
    simp only [reduceCtorEq, if_false] at hwait haccess hpost
    exact ⟨h.producer, hconsumer, h.fifo, h.produced, by dsimp only; omega, by dsimp only; omega,
      by dsimp only; omega⟩

theorem Inv.step (h : Inv v N M s) (hM : M < 2 ^ 31) {turn : DuoTurn α}
    (ht : s.step v N M turn = some t) : Inv v N M t := by
  cases turn with
  | producer item => exact h.stepProducer hM ht
  | consumer => exact h.stepConsumer hM ht

theorem producer_blocked (h : s.stepProducer v N M s.item = none) :
    s.producer.next (producerBody v) M = none ∨
      s.producer.next (producerBody v) M = some .wait ∧ s.empty = 0 := by
  rw [DuoState.stepProducer] at h
  cases hnext : s.producer.next (producerBody v) M with
  | none => exact .inl rfl
  | some instr =>
    rw [hnext, Option.bind_some] at h
    cases instr with
    | wait =>
      refine .inr ⟨rfl, ?_⟩
      by_contra hpos
      dsimp only at h
      rw [if_pos (Nat.pos_of_ne_zero hpos)] at h
      cases h
    | _ => cases h

theorem consumer_blocked (h : s.stepConsumer v N M = none) :
    s.consumer.next (consumerBody v) M = none ∨
      s.consumer.next (consumerBody v) M = some .wait ∧ s.full = 0 := by
  rw [DuoState.stepConsumer] at h
  cases hnext : s.consumer.next (consumerBody v) M with
  | none => exact .inl rfl
  | some instr =>
    rw [hnext, Option.bind_some] at h
    cases instr with
    | wait =>
      refine .inr ⟨rfl, ?_⟩
      by_contra hpos
      dsimp only at h
      rw [if_pos (Nat.pos_of_ne_zero hpos)] at h
      cases h
    | _ => cases h

/-- The threads never wait for each other, so if neither can go on all items are delivered. -/
theorem Inv.delivered (h : Inv v N M s) (hN : 1 ≤ N) (hproducer : s.stepProducer v N M s.item = none)
    (hconsumer : s.stepConsumer v N M = none) :
    s.buffer.consumed = s.buffer.produced ∧ s.buffer.produced.length = M := by
  have hempty := h.empty
  have hfull := h.full
  have hproduced := h.produced
  have hconsumed := h.consumed
  have hpostP : s.producer.laps ≤ s.producer.passed (producerBody v) .post := Nat.le_add_right _ _
  have hpostC : s.consumer.laps ≤ s.consumer.passed (consumerBody v) .post := Nat.le_add_right _ _
  rcases producer_blocked hproducer with hend | ⟨hwait, hzero⟩
  · obtain ⟨-, hP⟩ := h.producer.finished hend
    rw [hP] at hproduced hfull
    rcases consumer_blocked hconsumer with hend' | ⟨hwait', hzero'⟩
    · obtain ⟨-, hC⟩ := h.consumer.finished hend'
      rw [hC] at hconsumed
      exact ⟨h.fifo.fifo.eq_of_length (by omega), hproduced⟩
    · have hlaps := h.consumer.laps_lt hwait'
      rw [Worker.passed_of_next (isBody_consumerBody v) hwait' (by decide)] at hfull
      omega
  · have hlaps := h.producer.laps_lt hwait
    rw [Worker.passed_of_next (isBody_producerBody v) hwait (by decide)] at hempty
    rcases consumer_blocked hconsumer with hend' | ⟨hwait', hzero'⟩
    · obtain ⟨-, hC⟩ := h.consumer.finished hend'
      rw [hC] at hempty
      omega
    · rw [Worker.passed_of_next (isBody_consumerBody v) hwait' (by decide)] at hfull
      omega

/-- How many accesses both threads have made. -/
def progress (v : Variant) (s : DuoState α) : ℕ :=
  s.producer.progress (producerBody v) + s.consumer.progress (consumerBody v)

theorem progress_step {turn : DuoTurn α} (ht : s.step v N M turn = some t) :
    t.progress v = s.progress v + 1 := by
  cases turn with
  | producer item =>
    rw [DuoState.step, DuoState.stepProducer, Option.bind_eq_some_iff] at ht
    obtain ⟨instr, -, ht⟩ := ht
    have hprogress := @Worker.progress_advance N (producerBody v) s.producer instr
    have hproducer : t.producer = s.producer.advance (producerBody v) N instr ∧
        t.consumer = s.consumer := by
      cases instr with
      | wait =>
        dsimp only at ht
        split_ifs at ht
        obtain rfl := Option.some.inj ht
        exact ⟨rfl, rfl⟩
      | _ =>
        obtain rfl := Option.some.inj ht
        exact ⟨rfl, rfl⟩
    rw [progress, progress, hproducer.1, hproducer.2, hprogress]
    omega
  | consumer =>
    rw [DuoState.step, DuoState.stepConsumer, Option.bind_eq_some_iff] at ht
    obtain ⟨instr, -, ht⟩ := ht
    have hprogress := @Worker.progress_advance N (consumerBody v) s.consumer instr
    have hconsumer : t.consumer = s.consumer.advance (consumerBody v) N instr ∧
        t.producer = s.producer := by
      cases instr with
      | wait =>
        dsimp only at ht
        split_ifs at ht
        obtain rfl := Option.some.inj ht
        exact ⟨rfl, rfl⟩
      | _ =>
        obtain rfl := Option.some.inj ht
        exact ⟨rfl, rfl⟩
    rw [progress, progress, hconsumer.1, hconsumer.2, hprogress]
    omega

theorem progress_run {turns : List (DuoTurn α)} (h : runFrom (step v N M) s turns = some t) :
    t.progress v = s.progress v + turns.length := by
  induction turns generalizing s with
  | nil =>
    obtain rfl : s = t := Option.some.inj h
    rfl
  | cons turn turns ih =>
    rw [runFrom_cons, Option.bind_eq_some_iff] at h
    obtain ⟨u, hu, h⟩ := h
    rw [ih h, progress_step hu, List.length_cons]
    omega

theorem Inv.slotSafe (h : Inv v N M s) (hN : 1 ≤ N) (hM : M < 2 ^ 31) (turn : DuoTurn α) :
    s.SlotSafe v N M turn := by
  cases turn with
  | producer item =>
    intro hnext
    obtain ⟨hindex, hspace⟩ := h.producer_access hM hnext
    rw [hindex]
    exact ⟨SlotRing.slot_nonneg N _, SlotRing.slot_lt hN _, (h.fifo.write hspace s.item).1⟩
  | consumer =>
    intro hnext
    obtain ⟨hindex, hitem⟩ := h.consumer_access hM hnext
    rw [hindex]
    exact ⟨SlotRing.slot_nonneg N _, SlotRing.slot_lt hN _, (h.fifo.read hitem).1⟩

/-- In every run of each of the variants the items are consumed in the order in which they
were produced, all slots that are used lie in the buffer, and none is written before it has been
read or read before it has been written. No run goes on for ever, and one that cannot go
on has delivered all the items. -/
theorem singleProducer_fifo (v : Variant) (N M : ℕ) (hN : 1 ≤ N) (hM : M < 2 ^ 31) (x : α)
    (turns : List (DuoTurn α)) :
    (∀ s, Visits (step v N M) (start N x) turns s → s.buffer.consumed <+: s.buffer.produced) ∧
      Along (step v N M) (SlotSafe v N M) (start N x) turns ∧
      ∀ s, runFrom (step v N M) (start N x) turns = some s →
        turns.length ≤ M * ((producerBody v).length + (consumerBody v).length) ∧
        ((∀ turn, s.step v N M turn = none) →
          s.buffer.consumed = s.buffer.produced ∧ s.buffer.produced.length = M) := by
  have hinv : ∀ s : DuoState α, Reachable (step v N M) (start N x) s → Inv v N M s := fun s hs =>
    hs.invariant (inv_start v N M x) fun _ _ _ h ht => h.step hM ht
  refine ⟨fun s hs => (hinv s hs.reachable).fifo.fifo, fun s turn hturn => ?_, fun s hs => ?_⟩
  · exact (hinv s hturn.visits.reachable).slotSafe hN hM turn
  · have h := hinv s ⟨turns, hs⟩
    have hprogress := progress_run hs
    have hproducer := h.producer.progress_le
    have hconsumer := h.consumer.progress_le
    constructor
    · have hstart : (start N x).progress v = 0 := by
        simp [progress, Worker.progress, start, Worker.start]
      rw [hstart, progress] at hprogress
      rw [Nat.mul_add]
      omega
    · intro hblocked
      exact h.delivered hN (hblocked (.producer s.item)) (hblocked .consumer)

/-- Two items through a buffer of one slot. -/
def twoItems : List (DuoTurn ℕ) :=
  List.replicate 9 (.producer 7) ++ .producer 9 :: List.replicate 8 .consumer ++
    List.replicate 8 (.producer 0) ++ List.replicate 8 .consumer

theorem singleProducer_fifo_twoItems :
    (runFrom (step .twoStep 1 2) (start 1 0) twoItems).map
        (fun s => (s.buffer.produced, s.buffer.consumed)) = some ([7, 9], [7, 9]) ∧
    (∀ s, Visits (step .twoStep 1 2) (start 1 0) twoItems s →
      s.buffer.consumed <+: s.buffer.produced) ∧
      Along (step .twoStep 1 2) (SlotSafe .twoStep 1 2) (start 1 0) twoItems ∧
      ∀ s, runFrom (step .twoStep 1 2) (start 1 0) twoItems = some s →
        twoItems.length ≤ 2 * ((producerBody .twoStep).length + (consumerBody .twoStep).length) ∧
        ((∀ turn, s.step .twoStep 1 2 turn = none) →
          s.buffer.consumed = s.buffer.produced ∧ s.buffer.produced.length = 2) :=
  ⟨by decide, singleProducer_fifo .twoStep 1 2 le_rfl (by decide) 0 twoItems⟩

end DuoState

end CLib.Sync
