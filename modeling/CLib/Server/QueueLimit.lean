import CLib.Server.Conservation
import Mathlib.Data.Fintype.EquivFin

namespace CLib.Server
open CLib.Base CLib.Queue

namespace Pipeline

/-- Neither the counter nor the list is over the limit. -/
def WithinLimit {ι : Type} (s : Pipeline ι) : Prop :=
  s.count ≤ maxQueueSize ∧ ∀ ps, Holds s.queue ps → ps.length ≤ maxQueueSize

/-- A record is inserted only where the test against the limit would still be passed. -/
def InsertsBelowLimit {ι : Type} (s : Pipeline ι) : Event ι → Prop
  | .enqueuer _ (.enqueue _) => s.count < maxQueueSize
  | _ => True

section Limit
variable {ι : Type} {s t : Pipeline ι} {c : List Entry}

theorem Inv.length_add (h : Inv s c) : s.popped.length + c.length = s.pushed.length := by
  rw [← h.order, List.length_append]

/-- A step that makes the list no longer and the counter no larger. -/
structure Shrinks (s t : Pipeline ι) : Prop where
  pushed : t.pushed = s.pushed
  popped : s.popped.length ≤ t.popped.length
  count : t.count ≤ s.count

theorem shrinks_of_eq (hpushed : t.pushed = s.pushed) (hpopped : t.popped = s.popped)
    (hcount : t.count = s.count) : Shrinks s t :=
  ⟨hpushed, by rw [hpopped], Int.le_of_eq hcount⟩

/-- The dispatcher only takes away. -/
theorem dispatcher_effect {stores : Bool} (ht : s.stepDispatcher stores = some t) : Shrinks s t := by
  cases dispatches_of_step ht with
  | pop => exact ⟨rfl, by simp, Int.le_refl _⟩
  | countDown | countDownNull =>
    refine ⟨rfl, le_rfl, ?_⟩
    show s.count - 1 ≤ s.count
    omega
  | testing | wanting | locked | popFault | settle | settleSmash | settleFault | free | checkSmash
  | freeFault | finished =>
    exact shrinks_of_eq rfl rfl rfl

theorem dispatcher_enqueuers {stores : Bool} (ht : s.stepDispatcher stores = some t) :
    t.enqueuers = s.enqueuers := by
  cases dispatches_of_step ht <;> rfl

/-- The invariant of the runs that insert below the limit. -/
structure Limited (s : Pipeline ι) : Prop where
  inv : ∃ c, Inv s c
  stored : s.pushed.length ≤ s.popped.length + maxQueueSize
  count : s.count ≤ maxQueueSize

theorem limited_initial (p : Ptr) : Limited (initial p : Pipeline ι) :=
  ⟨⟨[], inv_initial p⟩, Nat.zero_le _, Int.natCast_nonneg maxQueueSize⟩

theorem Limited.withinLimit (h : Limited s) : WithinLimit s := by
  refine ⟨h.count, fun ps hps => ?_⟩
  obtain ⟨c, hc⟩ := h.inv
  have hlen := hc.length_add
  have hstored := h.stored
  rw [hps.unique hc.holds, List.length_map]
  omega

theorem Limited.shrink (h : Limited s) (hinv : ∃ c, Inv t c) (hs : Shrinks s t) : Limited t where
  inv := hinv
  stored := by
    have hstored := h.stored
    have hpopped := hs.popped
    rw [hs.pushed]
    omega
  count := Int.le_trans hs.count h.count

end Limit

section Effects
variable {ι : Type} [DecidableEq ι] {s t : Pipeline ι} {c : List Entry} {i : ι}

theorem enqueue_locked {node : Ptr} (ht : s.stepEnqueuer i (.enqueue node) = some t) :
    ∃ p, s.enqueuers i = .locked p := by
  cases enqueues_of_step ht with
  | enqueue p _ _ hi | enqueueFault p _ hi => exact ⟨p, hi⟩

theorem Inv.enqueue_effect (h : Inv s c) {node : Ptr}
    (ht : s.stepEnqueuer i (.enqueue node) = some t) :
    s.count = c.length ∧ t.count = s.count ∧ t.popped = s.popped ∧
      t.pushed.length = s.pushed.length + 1 := by
  cases enqueues_of_step ht with
  | enqueue p _ q hi hnode hq =>
    have ho : s.owner = some (.enqueuer i) := (h.enqueuer_section i).mp (by rw [hi]; rfl)
    have hcount := h.count
    rw [ahead_of_enqueuer ho, hi] at hcount
    exact ⟨hcount.trans (Int.add_zero _), rfl, rfl, by simp⟩
  | enqueueFault p _ hi hnode hq =>
    -- There is no fault in the states of the invariant.
    obtain ⟨q, hq', -⟩ := h.enqueue hi hnode
    rw [hq] at hq'
    cases hq'

/-- A step of an enqueuer that is not the insertion: the counter catches up with the
list, or nothing grows. -/
theorem Inv.enqueuer_effect (h : Inv s c) {e : EnqueuerEvent} (he : ∀ node, e ≠ .enqueue node)
    (ht : s.stepEnqueuer i e = some t) :
    Shrinks s t ∨ (t.pushed = s.pushed ∧ t.popped = s.popped ∧ t.count = c.length) := by
  cases enqueues_of_step ht with
  | enqueue | enqueueFault => exact absurd rfl (he _)
  | count hi =>
    have ho : s.owner = some (.enqueuer i) := (h.enqueuer_section i).mp (by rw [hi]; rfl)
    have hcount := h.count
    rw [ahead_of_enqueuer ho, hi] at hcount
    refine .inr ⟨rfl, rfl, ?_⟩
    simp only [EnqueuerPc.ahead] at hcount ⊢
    omega
  | lockFile | unlockFile | leave | leaveLocked | enter | keep | build | lock | unlock =>
    exact .inl (shrinks_of_eq rfl rfl rfl)

/-- The step lemma: the limit is kept if an insertion happens below it only. -/
theorem Limited.step {e : Event ι} (h : Limited s) (hG : InsertsBelowLimit s e)
    (ht : s.step e = some t) : Limited t := by
  obtain ⟨c, hc⟩ := h.inv
  have hinv : ∃ c', Inv t c' := hc.step ht
  have hlen := hc.length_add
  have hstored := h.stored
  cases e with
  | dispatcher => exact h.shrink hinv (dispatcher_effect ht)
  | otherLock | otherUnlock =>
    obtain ⟨-, ht⟩ := Option.ite_none_right_eq_some.mp ht
    obtain rfl := Option.some.inj ht
    exact h.shrink hinv (shrinks_of_eq rfl rfl rfl)
  | enqueuer i e =>
    by_cases he : ∃ node, e = .enqueue node
    · -- Under the mutex the counter is the length of the list, which grows by one.
      obtain ⟨node, rfl⟩ := he
      have hbelow : s.count < maxQueueSize := hG
      obtain ⟨hcount, hkeep, hpopped, hpushed⟩ := hc.enqueue_effect ht
      refine ⟨hinv, ?_, by rw [hkeep]; exact h.count⟩
      rw [hpopped, hpushed]
      omega
    · rcases hc.enqueuer_effect (fun node heq => he ⟨node, heq⟩) ht with hs | ⟨hpu, hpo, hcount⟩
      · exact h.shrink hinv hs
      · refine ⟨hinv, by rw [hpu, hpo]; exact hstored, ?_⟩
        rw [hcount]
        omega

theorem Limited.insertsBelowLimit {e : Event ι} (h : Limited s) (ht : s.step e = some t)
    (hwithin : WithinLimit t) : InsertsBelowLimit s e := by
  obtain ⟨c, hc⟩ := h.inv
  cases e with
  | dispatcher | otherLock | otherUnlock => trivial
  | enqueuer i e =>
    cases e with
    | enqueue node =>
      -- The list after the insertion is within the limit, so it was below it before.
      obtain ⟨c', hc'⟩ := hc.step ht
      obtain ⟨hcount, -, hpopped, hpushed⟩ := hc.enqueue_effect ht
      have hlen := hc.length_add
      have hlen' := hc'.length_add
      have hlimit := hwithin.2 _ hc'.holds
      rw [List.length_map] at hlimit
      rw [hpopped, hpushed] at hlen'
      show s.count < maxQueueSize
      omega
    | lockFile | unlockFile | leave | enter | keep | build | lock | count | unlock => trivial

/-- The queue limit holds in every state of a run if and only if every insertion of the
run happens where the test against the limit would still be passed. -/
theorem queue_limit_iff (p : Ptr) (es : List (Event ι)) :
    (∀ s, Visits Pipeline.step (initial p) es s → WithinLimit s) ↔
      Along Pipeline.step InsertsBelowLimit (initial p) es :=
  along_iff_forall_visits_of_invariant (fun _ h => h.withinLimit) (limited_initial p)
    (fun _ _ _ h hG ht => h.step hG ht) (fun _ _ _ h ht hw => h.insertsBelowLimit ht hw)

end Effects

section SingleEnqueuer
variable {ι : Type} [DecidableEq ι] [Subsingleton ι] {s t : Pipeline ι}

/-- Between the test against the limit and the insertion. -/
def tested : EnqueuerPc → Bool
  | .entered | .ready _ | .locked _ => true
  | _ => false

/-- A thread that has passed the test would pass it still. -/
def TestHolds (s : Pipeline ι) : Prop := ∀ i, tested (s.enqueuers i) = true → s.count < maxQueueSize

omit [DecidableEq ι] [Subsingleton ι] in
theorem TestHolds.of_le (h : TestHolds s) (hpc : t.enqueuers = s.enqueuers)
    (hcount : t.count ≤ s.count) : TestHolds t := by
  intro i hi
  rw [hpc] at hi
  have hbelow := h i hi
  omega

/-- The only enqueuer has passed the test just now, or not since its last record. -/
theorem TestHolds.enqueuer {e : EnqueuerEvent} {i : ι} (h : TestHolds s)
    (ht : s.stepEnqueuer i e = some t) : TestHolds t := by
  intro j hj
  obtain rfl : i = j := Subsingleton.elim i j
  cases enqueues_of_step ht with
  | enter hi hbelow => exact hbelow
  | build p record hi | lock p hi => exact h i (by rw [hi]; rfl)
  | enqueueFault => exact h i hj
  | lockFile | unlockFile | leave | leaveLocked | keep | unlock => simp [moveTo, tested] at hj
  | enqueue | count => simp [tested] at hj

/-- Nobody else inserts between the test and the insertion of the only enqueuer. -/
theorem TestHolds.step {e : Event ι} (h : TestHolds s) (ht : s.step e = some t) : TestHolds t := by
  cases e with
  | enqueuer i e => exact h.enqueuer ht
  | dispatcher => exact h.of_le (dispatcher_enqueuers ht) (dispatcher_effect ht).count
  | otherLock | otherUnlock =>
    obtain ⟨-, ht⟩ := Option.ite_none_right_eq_some.mp ht
    obtain rfl := Option.some.inj ht
    exact h

/-- With one connected agent every insertion is below the limit, so the limit holds. -/
theorem withinLimit_of_subsingleton {p : Ptr} (h : Reachable Pipeline.step (initial p) s) :
    WithinLimit s := by
  have hboth : Limited s ∧ TestHolds s := by
    apply h.invariant (I := fun s => Limited s ∧ TestHolds s)
    · exact ⟨limited_initial p, fun i hi => by cases hi⟩
    · rintro t e u ⟨hlimited, htest⟩ hu
      refine ⟨hlimited.step ?_ hu, htest.step hu⟩
      cases e with
      | dispatcher | otherLock | otherUnlock => trivial
      | enqueuer i e =>
        cases e with
        | enqueue node =>
          obtain ⟨q, hq⟩ := enqueue_locked hu
          exact htest i (by rw [hq]; rfl)
        | lockFile | unlockFile | leave | enter | keep | build | lock | count | unlock => trivial
  exact hboth.1.withinLimit

end SingleEnqueuer

section Overtaking

/-- Both threads are between two records, the mutex is free, `n` records are in the queue,
and the buffers from `n` on are not in use. -/
structure Resting (s : Pipeline Bool) (n : ℕ) : Prop where
  reachable : Reachable Pipeline.step (initial 0) s
  owner : s.owner = none
  idle : ∀ i, s.enqueuers i = .idle
  count : s.count = n
  buffers : ∀ p, n ≤ p → s.buffers p = none

theorem resting_initial : Resting (initial 0) 0 :=
  ⟨.refl _, rfl, fun _ => rfl, rfl, fun _ _ => rfl⟩

theorem exists_fresh_node {s : Pipeline Bool} (h : Reachable Pipeline.step (initial 0) s) :
    ∃ node, s.queue.cells node = none := by
  obtain ⟨c, hc⟩ := exists_inv h
  obtain ⟨f, cs, hrep, -⟩ := hc.holds
  obtain ⟨node, hnode⟩ := Infinite.exists_notMem_finset (f :: cs.map Prod.fst).toFinset
  refine ⟨node, ?_⟩
  by_contra hne
  exact hnode (List.mem_toFinset.mpr (hrep.allocated node hne))

theorem exists_enqueue {s : Pipeline Bool} {i : Bool} {p : Ptr}
    (h : Reachable Pipeline.step (initial 0) s) (hi : s.enqueuers i = .locked p) :
    ∃ t, Reachable Pipeline.step (initial 0) t ∧
      t.enqueuers = Function.update s.enqueuers i .queued ∧ t.count = s.count ∧
        t.buffers = s.buffers := by
  obtain ⟨node, hnode⟩ := exists_fresh_node h
  obtain ⟨c, hc⟩ := exists_inv h
  obtain ⟨q, hq, -⟩ := hc.enqueue hi hnode
  have hstep : s.step (.enqueuer i (.enqueue node)) = some { s with
      enqueuers := Function.update s.enqueuers i .queued
      queue := q
      pushed := s.pushed ++ [s.entry p] } := by
    simp [Pipeline.step, stepEnqueuer, hi, hnode, hq]
  exact ⟨_, h.concat hstep, rfl, rfl, rfl⟩

theorem exists_insertion {s : Pipeline Bool} {i : Bool} {p : Ptr}
    (h : Reachable Pipeline.step (initial 0) s) (ho : s.owner = none)
    (hi : s.enqueuers i = .ready p) :
    ∃ t, Reachable Pipeline.step (initial 0) t ∧
      t.enqueuers = Function.update s.enqueuers i .counted ∧ t.count = s.count + 1 ∧
        t.buffers = s.buffers := by
  have hlock : s.step (.enqueuer i .lock) = some (s.moveTo i (.locked p) (some (.enqueuer i))) := by
    simp [Pipeline.step, stepEnqueuer, hi, ho]
  obtain ⟨t, ht, hpc, hcount, hbuffers⟩ := exists_enqueue (i := i) (p := p) (h.concat hlock)
    (Function.update_self i _ _)
  have hpc' : t.enqueuers = Function.update s.enqueuers i .queued := by
    rw [hpc]
    exact Function.update_idem _ _ _
  have hqueued : t.enqueuers i = .queued := by rw [hpc', Function.update_self]
  have hup : t.step (.enqueuer i .count) = some { t with
      enqueuers := Function.update t.enqueuers i .counted, count := t.count + 1 } := by
    simp [Pipeline.step, stepEnqueuer, hqueued]
  refine ⟨_, ht.concat hup, ?_, ?_, hbuffers⟩
  · show Function.update t.enqueuers i .counted = _
    rw [hpc', Function.update_idem]
  · show t.count + 1 = s.count + 1
    rw [hcount]
    rfl

theorem exists_record {s : Pipeline Bool} {i : Bool} {p : Ptr}
    (h : Reachable Pipeline.step (initial 0) s) (ho : s.owner = none)
    (hi : s.enqueuers i = .ready p) :
    ∃ t, Reachable Pipeline.step (initial 0) t ∧ t.owner = none ∧
      t.enqueuers = Function.update s.enqueuers i .idle ∧ t.count = s.count + 1 ∧
        t.buffers = s.buffers := by
  obtain ⟨t, ht, hpc, hcount, hbuffers⟩ := exists_insertion h ho hi
  have hcounted : t.enqueuers i = .counted := by rw [hpc, Function.update_self]
  have hunlock : t.step (.enqueuer i .unlock) = some (t.moveTo i .idle none) := by
    simp [Pipeline.step, stepEnqueuer, hcounted]
  refine ⟨_, ht.concat hunlock, rfl, ?_, hcount, hbuffers⟩
  show Function.update t.enqueuers i .idle = _
  rw [hpc, Function.update_idem]

theorem exists_ready {s : Pipeline Bool} {i : Bool} {p : Ptr}
    (h : Reachable Pipeline.step (initial 0) s) (hi : s.enqueuers i = .idle)
    (hbelow : s.count < maxQueueSize) (hp : s.buffers p = none) :
    ∃ t, Reachable Pipeline.step (initial 0) t ∧ t.owner = s.owner ∧
      t.enqueuers = Function.update s.enqueuers i (.ready p) ∧ t.count = s.count ∧
        t.buffers = Function.update s.buffers p (some []) := by
  have henter : s.step (.enqueuer i .enter) = some (s.moveTo i .entered s.owner) := by
    simp [Pipeline.step, stepEnqueuer, hi, hbelow]
  have hbuild : (s.moveTo i .entered s.owner).step (.enqueuer i (.build p [])) =
      some { s.moveTo i .entered s.owner with
        enqueuers := Function.update (s.moveTo i .entered s.owner).enqueuers i (.ready p)
        buffers := Function.update s.buffers p (some []) } := by
    simp [Pipeline.step, stepEnqueuer, moveTo, hp]
  refine ⟨_, (h.concat henter).concat hbuild, rfl, ?_, rfl, rfl⟩
  exact Function.update_idem _ _ _

theorem Resting.next {s : Pipeline Bool} {n : ℕ} (h : Resting s n) (hn : n < maxQueueSize) :
    ∃ t, Resting t (n + 1) := by
  have hbelow : s.count < maxQueueSize := by
    rw [h.count]
    omega
  obtain ⟨t, ht, ho, hpc, hcount, hbuffers⟩ :=
    exists_ready h.reachable (h.idle false) hbelow (h.buffers n le_rfl)
  obtain ⟨u, hu, ho', hpc', hcount', hbuffers'⟩ :=
    exists_record ht (ho.trans h.owner) (i := false) (p := n) (by rw [hpc, Function.update_self])
  refine ⟨u, hu, ho', fun i => ?_, ?_, fun p hp => ?_⟩
  · cases i with
    | false => rw [hpc', Function.update_self]
    | true => rw [hpc', Function.update_of_ne (by decide), hpc, Function.update_of_ne (by decide), h.idle]
  · rw [hcount', hcount, h.count]
    rfl
  · have hne : p ≠ n := by omega
    rw [hbuffers', hbuffers, Function.update_of_ne hne]
    exact h.buffers p (by omega)

theorem exists_resting {n : ℕ} (hn : n ≤ maxQueueSize) : ∃ s, Resting s n := by
  induction n with
  | zero => exact ⟨_, resting_initial⟩
  | succ n ih =>
    obtain ⟨s, hs⟩ := ih (by omega)
    exact hs.next hn

theorem exists_over_limit :
    ∃ s, Reachable (Pipeline.step (ι := Bool)) (initial 0) s ∧ s.count = maxQueueSize + 1 := by
  obtain ⟨s, h⟩ := exists_resting (n := 999999) (by decide)
  have hbelow : s.count < maxQueueSize := by
    rw [h.count]
    decide
  obtain ⟨t, ht, ho, hpc, hcount, hbuffers⟩ :=
    exists_ready h.reachable (h.idle false) hbelow (h.buffers 999999 le_rfl)
  have hfresh : t.buffers 1000000 = none := by
    rw [hbuffers, Function.update_of_ne (by decide)]
    exact h.buffers _ (by decide)
  -- The second thread makes its test before the first has inserted.
  obtain ⟨u, hu, ho', hpc', hcount', -⟩ := exists_ready (i := true) ht
    (by rw [hpc, Function.update_of_ne (by decide), h.idle]) (by rwa [hcount]) hfresh
  have hfirst : u.enqueuers false = .ready 999999 := by
    rw [hpc', Function.update_of_ne (by decide), hpc, Function.update_self]
  obtain ⟨v, hv, hov, hpcv, hcountv, -⟩ := exists_record hu (ho'.trans (ho.trans h.owner)) hfirst
  have hsecond : v.enqueuers true = .ready 1000000 := by
    rw [hpcv, Function.update_of_ne (by decide), hpc', Function.update_self]
  obtain ⟨w, hw, -, hcountw, -⟩ := exists_insertion hv hov hsecond
  refine ⟨w, hw, ?_⟩
  rw [hcountw, hcountv, hcount', hcount, h.count]
  decide

/-- Two threads overtake the limit by one record. -/
theorem not_queue_limit :
    ¬ ∀ (p : Ptr) (es : List (Event Bool)) (s : Pipeline Bool),
      Visits Pipeline.step (initial p) es s → WithinLimit s := by
  intro h
  obtain ⟨s, ⟨es, hrun⟩, hcount⟩ := exists_over_limit
  have hwithin := (h 0 es s ⟨es, List.prefix_rfl, hrun⟩).1
  rw [hcount] at hwithin
  revert hwithin
  decide

end Overtaking
end Pipeline
end CLib.Server
