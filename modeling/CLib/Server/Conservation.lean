import CLib.Base.Words
import CLib.Server.Pipeline

namespace CLib.Server
open CLib.Base CLib.Mysql CLib.Queue

namespace Pipeline

section Invariant
variable {ι : Type}

/-- The records in the queue are the ones pushed and not yet popped, each still
in its buffer, and the counter counts them but for the section that is open. -/
structure Inv (s : Pipeline ι) (contents : List Entry) : Prop where
  holds : Holds s.queue (contents.map Prod.fst)
  order : s.popped ++ contents = s.pushed
  nodup : (contents.map Prod.fst).Nodup
  live : ∀ r ∈ contents, r = s.entry r.1 ∧ s.buffers r.1 ≠ none
  count : s.count = contents.length + s.ahead
  freed : s.popped = s.freed ++ s.inHand
  inHand : ∀ p, s.dispatcher.held = some p → s.buffers p ≠ none ∧ p ∉ contents.map Prod.fst ∧
    ∀ i, (s.enqueuers i).held ≠ some p
  held : ∀ i p, (s.enqueuers i).held = some p → s.buffers p ≠ none ∧ p ∉ contents.map Prod.fst
  held_inj : ∀ i j p, (s.enqueuers i).held = some p → (s.enqueuers j).held = some p → i = j
  enqueuer_section : ∀ i, (s.enqueuers i).inSection ↔ s.owner = some (.enqueuer i)
  dispatcher_section : s.dispatcher.inSection ↔ s.owner = some .dispatcher
  nonEmpty : s.dispatcher = .nonEmpty → contents ≠ []
  not_null : s.dispatcher ≠ .popped none
  no_fault : s.fault = false

theorem inv_initial (p : Ptr) : Inv (initial p : Pipeline ι) [] where
  holds := holds_createQueue p
  order := rfl
  nodup := List.nodup_nil
  live := by simp
  count := rfl
  freed := rfl
  inHand := by simp [initial, DispatcherPc.held]
  held := by simp [initial, EnqueuerPc.held]
  held_inj := by simp [initial, EnqueuerPc.held]
  enqueuer_section := by simp [initial, EnqueuerPc.inSection]
  dispatcher_section := by simp [initial, DispatcherPc.inSection]
  nonEmpty := by simp [initial]
  not_null := by simp [initial]
  no_fault := rfl

theorem ahead_of_enqueuer {s : Pipeline ι} {i : ι} (ho : s.owner = some (.enqueuer i)) :
    s.ahead = (s.enqueuers i).ahead := by
  rw [ahead, ho]

theorem ahead_of_dispatcher {s : Pipeline ι} (ho : s.owner = some .dispatcher) :
    s.ahead = s.dispatcher.ahead := by
  rw [ahead, ho]

theorem ahead_of_free {s : Pipeline ι} (ho : s.owner = none) : s.ahead = 0 := by
  rw [ahead, ho]

end Invariant

section Enqueuer
variable {ι : Type} [DecidableEq ι] {s : Pipeline ι} {c : List Entry} {i : ι} {pc : EnqueuerPc}
  {o : Option (Thread ι)}

/-- A step that moves one enqueuer, with the mutex or without, and touches neither
the queue nor a buffer. -/
theorem Inv.moveTo (h : Inv s c) (hheld : pc.held = (s.enqueuers i).held)
    (hsection : ∀ j, (Function.update s.enqueuers i pc j).inSection ↔ o = some (.enqueuer j))
    (hdispatcher : s.dispatcher.inSection ↔ o = some .dispatcher)
    (hahead : (s.moveTo i pc o).ahead = s.ahead) : Inv (s.moveTo i pc o) c := by
  have hsame : ∀ j, (Function.update s.enqueuers i pc j).held = (s.enqueuers j).held := fun j => by
    by_cases hj : j = i
    · rw [hj, Function.update_self, hheld]
    · rw [Function.update_of_ne hj]
  exact { h with
    count := h.count.trans (by rw [hahead])
    inHand := fun p hp => ⟨(h.inHand p hp).1, (h.inHand p hp).2.1, fun j => by
      change (Function.update s.enqueuers i pc j).held ≠ some p
      rw [hsame]
      exact (h.inHand p hp).2.2 j⟩
    held := fun j p hj => h.held j p (by rwa [← hsame])
    held_inj := fun j k p hj hk => h.held_inj j k p (by rwa [← hsame]) (by rwa [← hsame])
    enqueuer_section := hsection
    dispatcher_section := hdispatcher }

theorem Inv.lock (h : Inv s c) (ho : s.owner = none) (hheld : pc.held = (s.enqueuers i).held)
    (hin : pc.inSection) (hpc : pc.ahead = 0) : Inv (s.moveTo i pc (some (.enqueuer i))) c := by
  refine h.moveTo hheld (fun j => ?_) ?_ ?_
  · by_cases hj : j = i
    · simp [hj, hin]
    · rw [Function.update_of_ne hj, h.enqueuer_section, ho]
      simpa using Ne.symm hj
  · rw [h.dispatcher_section, ho]
    simp
  · rw [ahead_of_free ho, ahead_of_enqueuer (s := s.moveTo i pc _) rfl]
    simp [Pipeline.moveTo, hpc]

theorem Inv.unlock (h : Inv s c) (hi : (s.enqueuers i).inSection)
    (hheld : pc.held = (s.enqueuers i).held) (hout : pc.inSection = false)
    (hq : (s.enqueuers i).ahead = 0) : Inv (s.moveTo i pc none) c := by
  have ho : s.owner = some (.enqueuer i) := (h.enqueuer_section i).mp hi
  refine h.moveTo hheld (fun j => ?_) ?_ ?_
  · by_cases hj : j = i
    · simp [hj, hout]
    · rw [Function.update_of_ne hj, h.enqueuer_section, ho]
      simpa using Ne.symm hj
  · rw [h.dispatcher_section, ho]
    simp
  · rw [ahead_of_enqueuer ho, hq, ahead_of_free (s := s.moveTo i pc none) rfl]

theorem ahead_moveTo (hpc : pc.ahead = (s.enqueuers i).ahead) :
    (s.moveTo i pc s.owner).ahead = s.ahead := by
  unfold ahead Pipeline.moveTo
  dsimp only
  cases s.owner with
  | none => rfl
  | some t =>
    cases t with
    | enqueuer j =>
      by_cases hj : j = i
      · simp [hj, hpc]
      · simp [hj]
    | dispatcher => rfl
    | other => rfl

theorem section_update (h : Inv s c) (hin : pc.inSection = (s.enqueuers i).inSection) (j : ι) :
    (Function.update s.enqueuers i pc j).inSection ↔ s.owner = some (.enqueuer j) := by
  rw [← h.enqueuer_section]
  by_cases hj : j = i
  · rw [hj, Function.update_self, hin]
  · rw [Function.update_of_ne hj]

theorem Inv.stay (h : Inv s c) (hheld : pc.held = (s.enqueuers i).held)
    (hin : pc.inSection = (s.enqueuers i).inSection) (hpc : pc.ahead = (s.enqueuers i).ahead) :
    Inv (s.moveTo i pc s.owner) c :=
  h.moveTo hheld (section_update h hin) h.dispatcher_section (ahead_moveTo hpc)

/-- A new record is in a buffer that nobody else has. -/
theorem Inv.build (h : Inv s c) {p : Ptr} {record : Text} (hi : s.enqueuers i = .entered)
    (hp : s.buffers p = none) :
    Inv { s with
      enqueuers := Function.update s.enqueuers i (.ready p)
      buffers := Function.update s.buffers p (some record) } c := by
  have hnew : ∀ r, s.buffers r ≠ none → r ≠ p := fun r hr hrp => hr (hrp ▸ hp)
  have hc : p ∉ c.map Prod.fst := fun hmem => by
    obtain ⟨r, hr, rfl⟩ := List.mem_map.mp hmem
    exact (h.live r hr).2 hp
  have hheld : ∀ j r, (Function.update s.enqueuers i (.ready p) j).held = some r →
      (j = i ∧ r = p) ∨ (j ≠ i ∧ (s.enqueuers j).held = some r) := fun j r hj => by
    by_cases hji : j = i
    · refine .inl ⟨hji, ?_⟩
      rw [hji, Function.update_self] at hj
      exact (Option.some.inj hj).symm
    · rw [Function.update_of_ne hji] at hj
      exact .inr ⟨hji, hj⟩
  exact
  { h with
    live := fun r hr => by
      have hrp := hnew r.1 (h.live r hr).2
      simpa [entry, hrp] using h.live r hr
    count := by
      have hpc : (EnqueuerPc.ready p).ahead = (s.enqueuers i).ahead := by rw [hi]; rfl
      exact h.count.trans (by rw [← ahead_moveTo hpc]; rfl)
    freed := by
      have hfreed := h.freed
      unfold Pipeline.inHand at hfreed ⊢
      cases hd : s.dispatcher.held with
      | none => simpa [hd] using hfreed
      | some r => simpa [hd, entry, hnew r (h.inHand r hd).1] using hfreed
    inHand := fun r hr => by
      obtain ⟨hlive, hrc, hrh⟩ := h.inHand r hr
      refine ⟨by simp [hnew r hlive, hlive], hrc, fun j hj => ?_⟩
      rcases hheld j r hj with ⟨-, hrp⟩ | ⟨-, hj⟩
      · exact hlive (hrp ▸ hp)
      · exact hrh j hj
    held := fun j r hj => by
      rcases hheld j r hj with ⟨-, hrp⟩ | ⟨-, hj⟩
      · exact ⟨by simp [hrp], hrp ▸ hc⟩
      · obtain ⟨hlive, hrc⟩ := h.held j r hj
        exact ⟨by simp [hnew r hlive, hlive], hrc⟩
    held_inj := fun j k r hj hk => by
      rcases hheld j r hj with ⟨hji, hrp⟩ | ⟨-, hj⟩ <;> rcases hheld k r hk with ⟨hki, hrp'⟩ | ⟨-, hk⟩
      · rw [hji, hki]
      · exact absurd (hrp ▸ hp) (h.held k r hk).1
      · exact absurd (hrp' ▸ hp) (h.held j r hj).1
      · exact h.held_inj j k r hj hk
    enqueuer_section := section_update h (by simp [hi, EnqueuerPc.inSection]) }

theorem Inv.enqueue (h : Inv s c) {p node : Ptr} (hi : s.enqueuers i = .locked p)
    (hnode : s.queue.cells node = none) :
    ∃ q, s.queue.enqueue node p = some q ∧
      Inv { s with
        enqueuers := Function.update s.enqueuers i .queued
        queue := q
        pushed := s.pushed ++ [s.entry p] } (c ++ [s.entry p]) := by
  have hp : (s.enqueuers i).held = some p := by rw [hi]; rfl
  obtain ⟨hlive, hpc⟩ := h.held i p hp
  have ho : s.owner = some (.enqueuer i) := (h.enqueuer_section i).mp (by rw [hi]; rfl)
  obtain ⟨q, hq, hholds⟩ := h.holds.enqueue hnode p
  have hmap : (c ++ [s.entry p]).map Prod.fst = c.map Prod.fst ++ [p] := by simp [entry]
  have hheld : ∀ j r, (Function.update s.enqueuers i .queued j).held = some r →
      j ≠ i ∧ (s.enqueuers j).held = some r ∧ r ≠ p := fun j r hj => by
    have hji : j ≠ i := fun hji => by rw [hji, Function.update_self] at hj; cases hj
    rw [Function.update_of_ne hji] at hj
    exact ⟨hji, hj, fun hrp => hji (h.held_inj j i p (hrp ▸ hj) hp)⟩
  refine ⟨q, hq, { h with
    holds := hmap ▸ hholds
    order := by rw [← List.append_assoc, h.order]
    nodup := ?_
    live := ?_
    count := ?_
    inHand := fun r hr => ?_
    held := fun j r hj => ?_
    held_inj := fun j k r hj hk => h.held_inj j k r (hheld j r hj).2.1 (hheld k r hk).2.1
    enqueuer_section := section_update h (by simp [hi, EnqueuerPc.inSection])
    nonEmpty := fun _ => by simp }⟩
  · rw [hmap]
    exact h.nodup.append (List.nodup_singleton p) (by simpa [eq_comm] using hpc)
  · intro r hr
    rcases List.mem_append.mp hr with hr | hr
    · exact h.live r hr
    · rw [List.mem_singleton.mp hr]
      exact ⟨rfl, hlive⟩
  · have hcount := h.count
    rw [ahead_of_enqueuer ho, hi] at hcount
    rw [ahead_of_enqueuer (i := i) (by exact ho), List.length_append, List.length_singleton]
    simp only [Function.update_self, EnqueuerPc.ahead] at hcount ⊢
    omega
  · obtain ⟨hlive', hrc, hrh⟩ := h.inHand r hr
    refine ⟨hlive', ?_, fun j hj => hrh j (hheld j r hj).2.1⟩
    rw [hmap, List.mem_append, not_or]
    exact ⟨hrc, fun hrp => hrh i (by rw [hp, List.mem_singleton.mp hrp])⟩
  · obtain ⟨-, hj, hrp⟩ := hheld j r hj
    obtain ⟨hlive', hrc⟩ := h.held j r hj
    refine ⟨hlive', ?_⟩
    rw [hmap, List.mem_append, not_or]
    exact ⟨hrc, by simpa using hrp⟩

theorem Inv.countUp (h : Inv s c) (hi : s.enqueuers i = .queued) :
    Inv { s with
      enqueuers := Function.update s.enqueuers i .counted
      count := s.count + 1 } c := by
  have ho : s.owner = some (.enqueuer i) := (h.enqueuer_section i).mp (by rw [hi]; rfl)
  have hcount := h.count
  rw [ahead_of_enqueuer ho, hi] at hcount
  have hheld : ∀ j, (Function.update s.enqueuers i .counted j).held = (s.enqueuers j).held := fun j => by
    by_cases hj : j = i
    · rw [hj, Function.update_self, hi]
      rfl
    · rw [Function.update_of_ne hj]
  refine { h with
    count := ?_
    inHand := fun p hp => ⟨(h.inHand p hp).1, (h.inHand p hp).2.1, fun j => ?_⟩
    held := fun j p hj => h.held j p (by rwa [← hheld])
    held_inj := fun j k p hj hk => h.held_inj j k p (by rwa [← hheld]) (by rwa [← hheld])
    enqueuer_section := section_update h (by simp [hi, EnqueuerPc.inSection]) }
  · rw [ahead_of_enqueuer (i := i) (by exact ho)]
    simp only [Function.update_self, EnqueuerPc.ahead] at hcount ⊢
    omega
  · rw [hheld]
    exact (h.inHand p hp).2.2 j

theorem Inv.stepEnqueuer {t : Pipeline ι} {e : EnqueuerEvent} (h : Inv s c)
    (ht : s.stepEnqueuer i e = some t) : ∃ c', Inv t c' := by
  cases enqueues_of_step ht with
  | lockFile hi ho | lock p hi ho => exact ⟨c, h.lock ho (by rw [hi]; rfl) rfl rfl⟩
  | unlockFile hi | unlock hi =>
    exact ⟨c, h.unlock (by rw [hi]; rfl) (by rw [hi]; rfl) rfl (by rw [hi]; rfl)⟩
  | leave hi | leaveLocked hi | enter hi | keep hi =>
    exact ⟨c, h.stay (by rw [hi]; rfl) (by rw [hi]; rfl) (by rw [hi]; rfl)⟩
  | build p record hi hp => exact ⟨c, h.build hi hp⟩
  | enqueue p node q hi hnode hq =>
    obtain ⟨q', hq', hinv⟩ := h.enqueue hi hnode
    obtain rfl : q' = q := Option.some.inj (hq'.symm.trans hq)
    exact ⟨_, hinv⟩
  | enqueueFault p node hi hnode hq =>
    obtain ⟨q', hq', -⟩ := h.enqueue hi hnode
    rw [hq] at hq'
    cases hq'
  | count hi => exact ⟨c, h.countUp hi⟩

end Enqueuer

section Dispatcher
variable {ι : Type} {s : Pipeline ι} {c : List Entry} {pc : DispatcherPc} {o : Option (Thread ι)}

theorem Inv.dispatcherMove (h : Inv s c) (hheld : pc.held = s.dispatcher.held)
    (hsection : ∀ i, (s.enqueuers i).inSection ↔ o = some (.enqueuer i))
    (hdispatcher : pc.inSection ↔ o = some .dispatcher) (hnull : pc ≠ .popped none)
    (hempty : pc = .nonEmpty → c ≠ [])
    (hahead : { s with dispatcher := pc, owner := o : Pipeline ι }.ahead = s.ahead) :
    Inv { s with dispatcher := pc, owner := o } c :=
  { h with
    count := h.count.trans (by rw [hahead])
    freed := h.freed.trans (by unfold Pipeline.inHand entry; rw [hheld])
    inHand := fun p hp => h.inHand p (hheld ▸ hp)
    enqueuer_section := hsection
    dispatcher_section := hdispatcher
    nonEmpty := hempty
    not_null := hnull }

theorem ahead_dispatcher (hpc : pc.ahead = s.dispatcher.ahead) :
    { s with dispatcher := pc : Pipeline ι }.ahead = s.ahead := by
  unfold ahead
  dsimp only
  cases s.owner with
  | none => rfl
  | some t => cases t <;> simp [hpc]

theorem Inv.dispatcherStay (h : Inv s c) (hheld : pc.held = s.dispatcher.held)
    (hin : pc.inSection = s.dispatcher.inSection) (hnull : pc ≠ .popped none)
    (hempty : pc = .nonEmpty → c ≠ []) (hpc : pc.ahead = s.dispatcher.ahead) :
    Inv { s with dispatcher := pc } c :=
  h.dispatcherMove hheld h.enqueuer_section (hin ▸ h.dispatcher_section) hnull hempty
    (ahead_dispatcher hpc)

theorem Inv.pop (h : Inv s c) (hd : s.dispatcher = .nonEmpty) :
    ∃ p q c', s.queue.frontAndDequeue = some (some p, q) ∧
      Inv { s with
        queue := q
        dispatcher := .popped (some p)
        popped := s.popped ++ [s.entry p] } c' := by
  obtain ⟨r, c, rfl⟩ := List.exists_cons_of_ne_nil (h.nonEmpty hd)
  obtain ⟨q, hq, hholds⟩ := Holds.frontAndDequeue (by simpa using h.holds)
  obtain ⟨⟨hr, hlive⟩, hlives⟩ := List.forall_mem_cons.mp h.live
  have hnodup := List.nodup_cons.mp (List.map_cons ▸ h.nodup)
  have ho : s.owner = some .dispatcher := h.dispatcher_section.mp (by rw [hd]; rfl)
  have hcount := h.count
  rw [ahead_of_dispatcher ho, hd] at hcount
  have hfreed := h.freed
  rw [Pipeline.inHand, hd] at hfreed
  refine ⟨r.1, q, c, hq, { h with
    holds := hholds
    order := ?_
    nodup := hnodup.2
    live := hlives
    count := ?_
    freed := ?_
    inHand := fun p hp => ?_
    held := fun i p hp => ?_
    dispatcher_section := by simp [ho, DispatcherPc.inSection]
    nonEmpty := by simp
    not_null := by simp }⟩
  · rw [← h.order, List.append_assoc, List.singleton_append, ← hr]
  · rw [ahead_of_dispatcher (by exact ho)]
    simp only [List.length_cons, DispatcherPc.ahead] at hcount ⊢
    omega
  · rw [Pipeline.inHand]
    simpa [DispatcherPc.held, entry] using hfreed
  · obtain rfl : r.1 = p := Option.some.inj hp
    exact ⟨hlive, hnodup.1, fun i hi => (h.held i r.1 hi).2 List.mem_cons_self⟩
  · obtain ⟨hplive, hpc⟩ := h.held i p hp
    exact ⟨hplive, fun hmem => hpc (List.mem_cons_of_mem r.1 hmem)⟩

theorem Inv.countDown (h : Inv s c) {p : Ptr} (hd : s.dispatcher = .popped (some p)) :
    Inv { s with count := s.count - 1, dispatcher := .counted p } c := by
  have ho : s.owner = some .dispatcher := h.dispatcher_section.mp (by rw [hd]; rfl)
  have hcount := h.count
  rw [ahead_of_dispatcher ho, hd] at hcount
  have hfreed := h.freed
  rw [Pipeline.inHand, hd] at hfreed
  refine { h with
    count := ?_
    freed := hfreed
    inHand := fun r hr => h.inHand r (by rw [hd]; exact hr)
    dispatcher_section := by simp [ho, DispatcherPc.inSection]
    nonEmpty := by simp
    not_null := by simp }
  rw [ahead_of_dispatcher (by exact ho)]
  simp only [DispatcherPc.ahead] at hcount ⊢
  omega

theorem Inv.free (h : Inv s c) {p : Ptr} {b : DispatchBranch} (hd : s.dispatcher = .settled p b) :
    Inv { s with
      buffers := Function.update s.buffers p none
      dispatcher := .finished
      freed := s.freed ++ [s.entry p] } c := by
  have ho : s.owner = some .dispatcher := h.dispatcher_section.mp (by rw [hd]; rfl)
  obtain ⟨-, hpc, hph⟩ := h.inHand p (by rw [hd]; rfl)
  have hcount := h.count
  rw [ahead_of_dispatcher ho, hd] at hcount
  have hfreed := h.freed
  rw [Pipeline.inHand, hd] at hfreed
  refine { h with
    live := fun r hr => ?_
    count := ?_
    freed := by simpa [Pipeline.inHand, DispatcherPc.held] using hfreed
    inHand := by simp [DispatcherPc.held]
    held := fun i r hr => ?_
    dispatcher_section := by simp [ho, DispatcherPc.inSection]
    nonEmpty := by simp
    not_null := by simp }
  · have hrp : r.1 ≠ p := fun hrp => hpc (hrp ▸ List.mem_map_of_mem hr)
    simpa [entry, hrp] using h.live r hr
  · rw [ahead_of_dispatcher (by exact ho)]
    exact hcount
  · have hrp : r ≠ p := fun hrp => hph i (hrp ▸ hr)
    obtain ⟨hlive, hrc⟩ := h.held i r hr
    exact ⟨by simpa [hrp] using hlive, hrc⟩

theorem Inv.stepDispatcher {t : Pipeline ι} {stores : Bool} (h : Inv s c)
    (ht : s.stepDispatcher stores = some t) : ∃ c', Inv t c' := by
  cases dispatches_of_step ht with
  | testing hd =>
    refine ⟨c, h.dispatcherStay ?_ ?_ ?_ ?_ ?_⟩ <;> split_ifs <;> simp [hd] <;> rfl
  | wanting hd ho =>
    refine ⟨c, h.dispatcherMove (by rw [hd]; rfl) (fun i => ?_) (by simp [DispatcherPc.inSection])
      (by simp) (by simp) ?_⟩
    · rw [h.enqueuer_section, ho]
      simp
    · rw [ahead_of_free ho]
      rfl
  | locked hd =>
    -- The test under the mutex is what makes the pop that follows safe.
    have hempty : s.queue.isEmpty ↔ c = [] := by rw [h.holds.isEmpty_iff, List.map_eq_nil_iff]
    refine ⟨c, h.dispatcherStay ?_ ?_ ?_ (fun hpc hc => ?_) ?_⟩
    · split_ifs <;> simp [hd] <;> rfl
    · split_ifs <;> simp [hd] <;> rfl
    · split_ifs <;> simp
    · rw [if_pos (hempty.mpr hc)] at hpc
      cases hpc
    · split_ifs <;> simp [hd] <;> rfl
  | pop p q hd hq =>
    obtain ⟨p', q', c', hq', hinv⟩ := h.pop hd
    obtain ⟨rfl, rfl⟩ := Prod.mk.inj (Option.some.inj (hq'.symm.trans hq))
    exact ⟨c', hinv⟩
  | popFault hd hq =>
    obtain ⟨p', q', c', hq', -⟩ := h.pop hd
    rw [hq] at hq'
    cases hq'
  | countDown p hd => exact ⟨c, h.countDown hd⟩
  | countDownNull hd => exact absurd hd h.not_null
  | settle p record hd | settleSmash p record hd | checkSmash p record hd =>
    exact ⟨c, h.dispatcherStay (by rw [hd]; rfl) (by rw [hd]; rfl) (by simp) (by simp)
      (by rw [hd]; rfl)⟩
  | settleFault p hd hp | freeFault p b hd hp =>
    exact absurd hp (h.inHand p (by rw [hd]; rfl)).1
  | free p b record hd => exact ⟨c, h.free hd⟩
  | finished hd =>
    have ho : s.owner = some .dispatcher := h.dispatcher_section.mp (by rw [hd]; rfl)
    refine ⟨c, h.dispatcherMove (by rw [hd]; rfl) (fun i => ?_) (by simp [DispatcherPc.inSection])
      (by simp) (by simp) ?_⟩
    · rw [h.enqueuer_section, ho]
      simp
    · rw [ahead_of_dispatcher ho, hd]
      rfl

theorem Inv.otherSection (h : Inv s c) {o : Option (Thread ι)}
    (hs : s.owner = none ∨ s.owner = some .other) (ho : o = none ∨ o = some .other) :
    Inv { s with owner := o } c := by
  refine h.dispatcherMove rfl (fun i => ?_) ?_ h.not_null h.nonEmpty ?_
  · rw [h.enqueuer_section]
    rcases hs with hs | hs <;> rcases ho with rfl | rfl <;> simp [hs]
  · rw [h.dispatcher_section]
    rcases hs with hs | hs <;> rcases ho with rfl | rfl <;> simp [hs]
  · rcases hs with hs | hs <;> rcases ho with rfl | rfl <;> simp [ahead, hs]

end Dispatcher

section Conserved
variable {ι : Type} {s : Pipeline ι}

/-- The records in the list are the ones pushed and not yet popped, the counter
counts them, and every popped record has been freed. -/
structure Conserved (s : Pipeline ι) (contents : List Entry) : Prop where
  holds : Holds s.queue (contents.map Prod.fst)
  live : ∀ r ∈ contents, r = s.entry r.1 ∧ s.buffers r.1 ≠ none
  count : s.count = contents.length
  order : s.popped ++ contents = s.pushed
  freed : s.freed = s.popped

theorem Inv.conserved {c : List Entry} (h : Inv s c) (ho : s.owner = none) : Conserved s c where
  holds := h.holds
  live := h.live
  count := by rw [h.count, ahead_of_free ho, Int.add_zero]
  order := h.order
  freed := by
    have hout : s.dispatcher.inSection = false := by
      rw [← Bool.not_eq_true, h.dispatcher_section, ho]
      simp
    have hfreed := h.freed
    rw [Pipeline.inHand] at hfreed
    cases hd : s.dispatcher <;> simp_all [DispatcherPc.inSection, DispatcherPc.held]

end Conserved

section Runs
variable {ι : Type} [DecidableEq ι] {s t : Pipeline ι}

theorem Inv.step {c : List Entry} {e : Event ι} (h : Inv s c) (ht : s.step e = some t) :
    ∃ c', Inv t c' := by
  cases e with
  | enqueuer i e => exact h.stepEnqueuer ht
  | dispatcher stores => exact h.stepDispatcher ht
  | otherLock =>
    obtain ⟨ho, ht⟩ := Option.ite_none_right_eq_some.mp ht
    obtain rfl := Option.some.inj ht
    exact ⟨c, h.otherSection (.inl ho) (.inr rfl)⟩
  | otherUnlock =>
    obtain ⟨ho, ht⟩ := Option.ite_none_right_eq_some.mp ht
    obtain rfl := Option.some.inj ht
    exact ⟨c, h.otherSection (.inr ho) (.inl rfl)⟩

theorem exists_inv {p : Ptr} (h : Reachable Pipeline.step (initial p) s) : ∃ c, Inv s c :=
  Reachable.invariant (I := fun s => ∃ c, Inv s c) h ⟨[], inv_initial p⟩
    fun _ _ _ ⟨_, hinv⟩ hstep => hinv.step hstep

/-- While the mutex is free, queue, counter and history agree and every popped record has
been freed once; nothing that is not allocated is ever read or freed; `front_and_dequeue` is
called on a non-empty queue only; and the dispatcher is on its way to a `free`. -/
structure Conserving (s : Pipeline ι) : Prop where
  conserved : s.owner = none → ∃ contents, Conserved s contents
  no_fault : s.fault = false
  nonEmpty : s.dispatcher = .nonEmpty → s.queue.isEmpty = false
  not_smashed : ∀ p, s.dispatcher ≠ .smashed p

/-- Where the dispatcher parses the header of a record, and where `sql_check_sql` does so
again, the words stay inside `log_rec_head`. -/
def HeadersFit (s : Pipeline ι) : Event ι → Prop
  | .dispatcher stores => ∀ p record, s.buffers p = some record →
      (s.dispatcher = .counted p → ¬ HeaderOverruns record) ∧
      (s.dispatcher = .settled p .checked → stores → ¬ LogRecOverruns record)
  | _ => True

omit [DecidableEq ι] in
theorem Inv.conserving {c : List Entry} (h : Inv s c) (hs : ∀ p, s.dispatcher ≠ .smashed p) :
    Conserving s where
  conserved ho := ⟨c, h.conserved ho⟩
  no_fault := h.no_fault
  nonEmpty hd := by
    rw [← Bool.not_eq_true, h.holds.isEmpty_iff, List.map_eq_nil_iff]
    exact h.nonEmpty hd
  not_smashed := hs

theorem stepEnqueuer_dispatcher {i : ι} {e : EnqueuerEvent} (ht : s.stepEnqueuer i e = some t) :
    t.dispatcher = s.dispatcher := by
  cases enqueues_of_step ht <;> rfl

/-- A parse that stays inside the structure lets the dispatcher go on. -/
theorem not_smashed_of_headersFit {e : Event ι} (hs : ∀ p, s.dispatcher ≠ .smashed p)
    (hG : HeadersFit s e) (ht : s.step e = some t) : ∀ p, t.dispatcher ≠ .smashed p := by
  cases e with
  | enqueuer i e =>
    rw [stepEnqueuer_dispatcher ht]
    exact hs
  | dispatcher stores =>
    cases dispatches_of_step ht with
    | settleSmash p record hd hrecord hover =>
      exact absurd hover ((hG p record hrecord).1 hd)
    | checkSmash p record hd hrecord hstores hover =>
      exact absurd hover ((hG p record hrecord).2 hd hstores)
    | testing | locked =>
      intro p
      dsimp only
      split_ifs <;> simp
    | popFault | settleFault | freeFault => exact hs
    | wanting | pop | countDown | countDownNull | settle | free | finished => simp
  | otherLock | otherUnlock =>
    obtain ⟨-, ht⟩ := Option.ite_none_right_eq_some.mp ht
    exact Option.some.inj ht ▸ hs

theorem headersFit_of_not_smashed {e : Event ι} (ht : s.step e = some t)
    (hs : ∀ p, t.dispatcher ≠ .smashed p) : HeadersFit s e := by
  cases e with
  | dispatcher stores =>
    intro p record hrecord
    have hstep : s.stepDispatcher stores = some t := ht
    refine ⟨fun hd hover => hs p ?_, fun hd hstores hover => hs p ?_⟩
    · rw [stepDispatcher, hd] at hstep
      dsimp only at hstep
      rw [hrecord] at hstep
      dsimp only at hstep
      rw [if_pos hover] at hstep
      exact (Option.some.inj hstep) ▸ rfl
    · rw [stepDispatcher, hd] at hstep
      dsimp only at hstep
      rw [hrecord] at hstep
      dsimp only at hstep
      rw [if_pos ⟨rfl, hstores, hover⟩] at hstep
      exact (Option.some.inj hstep) ▸ rfl
  | enqueuer | otherLock | otherUnlock => trivial

/-- In every interleaving, everything is conserved just as long as the words of the headers
stay inside `log_rec_head`. -/
theorem conserving_iff_headersFit (p : Ptr) (es : List (Event ι)) :
    (∀ s, Visits Pipeline.step (initial p) es s → Conserving s) ↔
      Along Pipeline.step HeadersFit (initial p) es :=
  along_iff_forall_visits (I := fun s => (∃ c, Inv s c) ∧ ∀ p, s.dispatcher ≠ .smashed p)
    (fun _ ⟨⟨_, hinv⟩, hs⟩ => hinv.conserving hs) ⟨⟨[], inv_initial p⟩, by simp [initial]⟩
    (fun _ _ _ ⟨⟨_, hinv⟩, hs⟩ hG hstep => ⟨hinv.step hstep, not_smashed_of_headersFit hs hG hstep⟩)
    fun _ _ _ hstep hP => headersFit_of_not_smashed hstep hP.not_smashed

/-- One thread makes a record and enqueues it, and the dispatcher takes it. -/
def oneRecordRun (record : Text) : List (Event Unit) :=
  [.lockFile, .unlockFile, .enter, .build 0 record, .lock, .enqueue 1, .count, .unlock].map
      (.enqueuer ()) ++
    List.replicate 5 (.dispatcher false)

def recordWithReserved (w : Word) : Text := "d t q/*##".toList ++ ' ' :: (w.text ++ " h ##*/s".toList)

theorem headerWords_recordWithReserved (w : Word) :
    headerWords (recordWithReserved w) = [['d'], ['t'], ['q'], w.text, ['h']] := by
  have hstart : headerWords (recordWithReserved w) = ['d'] :: ['t'] :: ['q'] ::
      sscanf [.blank, .string, .blank, .string] (' ' :: (w.text ++ ' ' :: "h ##*/s".toList)) := rfl
  rw [hstart, w.sscanf_blank, w.sscanf_string _ (startsBlank_cons _)]
  rfl

theorem headerOverruns_of_strLen_le {w : Word} (h : strLen ≤ w.text.length) :
    HeaderOverruns (recordWithReserved w) := by
  have hlast : sizeofLogRec = LogRecMember.reserved.offset + strLen := rfl
  have hend : "##*/".toList <:+: recordWithReserved w :=
    ⟨"d t q/*## ".toList ++ (w.text ++ " h ".toList), ['s'], by
      unfold recordWithReserved
      rw [List.append_assoc, List.append_assoc, List.append_assoc]
      rfl⟩
  have hmark : recordMark <:+: recordWithReserved w :=
    ⟨"d t q".toList, ' ' :: (w.text ++ " h ##*/s".toList), rfl⟩
  refine ⟨hend, hmark, fun hfit => ?_⟩
  · rw [headerWords_recordWithReserved] at hfit
    have hreserved := hfit (.reserved, w.text) (by simp [scannedMembers])
    rw [hlast] at hreserved
    dsimp only at hreserved
    omega

theorem oneRecordRun_counted (record : Text) :
    ∃ s, runFrom Pipeline.step (initial 0) (oneRecordRun record) = some s ∧
      s.dispatcher = .counted 0 ∧ s.buffers 0 = some record :=
  by refine ⟨_, rfl, ?_, ?_⟩ <;> rfl

/-- A field of 4000 bytes. -/
def longWord : Word where
  text := List.replicate 4000 'r'
  ne_nil h := by rw [List.replicate_eq_nil_iff] at h; cases h
  not_space c hc := by rw [List.eq_of_mem_replicate hc]; rfl

theorem not_conserving_longWord :
    ¬ ∀ (es : List (Event Unit)) (s : Pipeline Unit), Visits Pipeline.step (initial 0) es s →
      Conserving s := by
  intro h
  obtain ⟨s, hrun, hd, hrecord⟩ := oneRecordRun_counted (recordWithReserved longWord)
  have hover : HeaderOverruns (recordWithReserved longWord) :=
    headerOverruns_of_strLen_le (by rw [longWord, List.length_replicate]; decide)
  have hstep : s.step (.dispatcher false) = some { s with dispatcher := .smashed 0 } := by
    change s.stepDispatcher false = _
    rw [stepDispatcher, hd]
    dsimp only
    rw [hrecord]
    exact if_pos hover
  have hvisits : Visits Pipeline.step (initial 0) (oneRecordRun (recordWithReserved longWord) ++ [.dispatcher false])
      { s with dispatcher := .smashed 0 } := by
    refine ⟨_, List.prefix_rfl, ?_⟩
    rw [runFrom_append, hrun, Option.bind_some, runFrom_cons_of_step hstep]
    rfl
  exact (h _ _ hvisits).not_smashed 0 rfl

end Runs
end Pipeline
end CLib.Server
