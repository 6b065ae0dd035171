import CLib.Jobs.Orderly

namespace CLib.Jobs
open CLib.Base
variable {ι π : Type} [DecidableEq ι] [DecidableEq π] [Fintype ι]

namespace State
variable {s t : State ι π} {i j : ι} {p : π} {pc pc' : Pc ι π}

namespace Inv

omit [DecidableEq ι] in
theorem start [DecidableEq ι] (jNext jPrev : π → Option π) (jId owner : π → ι) :
    Inv (start jNext jPrev jId owner) := by
  refine ⟨rfl, fun i => iff_of_false nofun nofun, fun _ => rfl, fun h => absurd rfl h, nofun,
    fun _ => Doubly.nil, fun p => ?_, fun i => .of_ne nofun nofun rfl⟩
  have hzero : tally (Pc.carries p) (State.start jNext jPrev jId owner).pc = 0 :=
    CLib.Base.tally_eq_zero fun _ => rfl
  rw [places, hzero]
  rfl

theorem insertLock (h : Inv s) (hpc : s.pc i = .insertLock p)
    (ht : s.wrlock i (.insertNext p) (p :: s.jobs) = some t) : Inv t := by
  have hp : p ∉ s.jobs := notMem_of_carried (i := i) (h.placed p) (by rw [hpc]; rfl)
  refine h.wrlock hpc rfl rfl (fun hl => hl.insert hp) (fun _ q => ?_)
    (fun _ _ q hq => List.mem_cons_of_mem p hq.1) nofun nofun ht
  by_cases hq : q = p
  · simp [hq, hp, Pc.carries, Pc.carried]
  · simp [hq, Ne.symm hq, Pc.carries, Pc.carried]

theorem appendLock (h : Inv s) (hpc : s.pc i = .appendLock p)
    (ht : s.wrlock i (.appendNext p) (s.jobs ++ [p]) = some t) : Inv t := by
  have hp : p ∉ s.jobs := notMem_of_carried (i := i) (h.placed p) (by rw [hpc]; rfl)
  refine h.wrlock hpc rfl rfl (fun hl => hl.append hp) (fun _ q => ?_)
    (fun _ _ q hq => List.mem_append_left [p] hq.1) nofun nofun ht
  by_cases hq : q = p
  · simp [hq, hp, Pc.carries, Pc.carried]
  · simp [hq, Ne.symm hq, Pc.carries, Pc.carried]

theorem removeLock (h : Inv s) (hpc : s.pc i = .removeLock p)
    (ht : s.wrlock i (.removeTest p) (s.jobs.erase p) = some t) : Inv t := by
  obtain ⟨hp, hid⟩ := (h.knows i).removing p hpc
  refine h.wrlock hpc rfl rfl (fun hl => hl.remove hp) (fun hl q => ?_) (fun j hj q hq => ?_) nofun
    nofun ht
  · by_cases hq : q = p
    · have hmem : p ∉ s.jobs.erase p := hl.nodup.not_mem_erase
      simp [hq, hp, hmem, Pc.carries, Pc.carried]
    · have hmem : q ∈ s.jobs.erase p ↔ q ∈ s.jobs := List.mem_erase_of_ne hq
      simp [hmem, Ne.symm hq, Pc.carries, Pc.carried]
  · obtain ⟨hmem, hqj⟩ := hq
    rw [List.mem_erase_of_ne]
    · exact hmem
    · rintro rfl
      exact hj (hqj.symm.trans hid)

theorem writer_of_reads (h : Inv s) (hpc : s.pc i = pc) (hi : pc.reads) : s.writer = none := by
  subst hpc
  by_contra hne
  rw [h.apart hne i] at hi
  cases hi

theorem reading_of_reads (h : Inv s) (hpc : s.pc i = pc) (hsame : pc'.reads = pc.reads) :
    s.reading = Function.update s.reading i pc'.reads := by
  subst hpc
  rw [hsame, ← h.reading, Function.update_eq_self]

theorem findHead (h : Inv s) {id : ι} (hpc : s.pc i = .findHead id) :
    Inv (s.goto i (.findTest id s.queue.qHead)) := by
  have hwriter := h.writer_of_reads hpc rfl
  refine h.goto hpc rfl rfl rfl rfl rfl rfl rfl rfl (h.reading_of_reads hpc rfl) rfl
    (fun hne => absurd hwriter hne) ⟨nofun, nofun, ?_, nofun⟩
  rintro id' jp ⟨⟩
  exact ⟨[], s.jobs, rfl, (h.resting hwriter).head, nofun⟩

theorem findEnd (h : Inv s) {id : ι} (hpc : s.pc i = .findTest id none) :
    Inv (s.goto i (.findUnlock id none)) := by
  obtain ⟨xs, ys, hl, hjp, hxs⟩ := (h.knows i).passed id none hpc
  have hwriter := h.writer_of_reads hpc rfl
  refine h.goto hpc rfl rfl rfl rfl rfl rfl rfl rfl (h.reading_of_reads hpc rfl) rfl
    (fun hne => absurd hwriter hne) ⟨nofun, nofun, nofun, ?_⟩
  rintro id' jp ⟨⟩
  rw [List.head?_eq_none_iff.mp hjp.symm, List.append_nil] at hl
  rw [hl]
  apply (List.find?_eq_none.mpr _).symm
  intro q hq
  rw [decide_eq_true_iff]
  exact hxs q hq

theorem findTest (h : Inv s) {id : ι} (hpc : s.pc i = .findTest id (some p))
    (ht : (if s.queue.jId p = id then some (s.goto i (.findUnlock id (some p)))
      else some (s.goto i (.findTest id (s.queue.jNext p)))) = some t) : Inv t := by
  obtain ⟨xs, ys, hl, hjp, hxs⟩ := (h.knows i).passed id _ hpc
  obtain ⟨ys, rfl⟩ := List.head?_eq_some_iff.mp hjp.symm
  have hwriter := h.writer_of_reads hpc rfl
  have hspells := h.resting hwriter
  split_ifs at ht with hid
  · obtain rfl := Option.some.inj ht
    refine h.goto hpc rfl rfl rfl rfl rfl rfl rfl rfl (h.reading_of_reads hpc rfl) rfl
      (fun hne => absurd hwriter hne) ⟨nofun, nofun, nofun, ?_⟩
    rintro id' jp ⟨⟩
    rw [hl]
    symm
    rw [List.find?_eq_some_iff_append]
    refine ⟨decide_eq_true hid, xs, ys, rfl, fun q hq => ?_⟩
    rw [decide_eq_false (hxs q hq)]
    rfl
  · obtain rfl := Option.some.inj ht
    refine h.goto hpc rfl rfl rfl rfl rfl rfl rfl rfl (h.reading_of_reads hpc rfl) rfl
      (fun hne => absurd hwriter hne) ⟨nofun, nofun, ?_, nofun⟩
    rintro id' jp ⟨⟩
    rw [hl] at hspells
    refine ⟨xs ++ [p], ys, by rw [hl, List.append_assoc]; rfl, Doubly.next_eq hspells, fun q hq => ?_⟩
    rcases List.mem_append.mp hq with hq | hq
    · exact hxs q hq
    · rw [List.mem_singleton.mp hq]
      exact hid

theorem findUnlock (h : Inv s) {id : ι} {jp : Option π} (hpc : s.pc i = .findUnlock id jp) :
    Inv ({ s with reading := Function.update s.reading i false }.goto i (.found id jp)) := by
  have hwriter := h.writer_of_reads hpc rfl
  refine h.goto hpc rfl rfl rfl rfl rfl rfl rfl rfl rfl rfl (fun hne => absurd hwriter hne)
    ⟨?_, nofun, nofun, nofun⟩
  rintro p ⟨⟩
  have hfind := ((h.knows i).result i _ hpc).symm
  have hid := List.find?_some hfind
  rw [decide_eq_true_iff] at hid
  exact ⟨List.mem_of_find?_eq_some hfind, hid⟩

theorem findLock (h : Inv s) {id : ι} (hpc : s.pc i = .findLock id)
    (ht : (if s.writer = none then
        some ({ s with reading := Function.update s.reading i true }.goto i (.findHead id))
      else none) = some t) : Inv t := by
  split_ifs at ht with hwriter
  obtain rfl := Option.some.inj ht
  exact h.goto hpc rfl rfl rfl rfl rfl rfl rfl rfl rfl rfl (fun hne => absurd hwriter hne)
    ⟨nofun, nofun, nofun, nofun⟩

theorem run (h : Inv s) (ht : s.run i = some t) : Inv t := by
  rw [State.run] at ht
  cases hpc : s.pc i with
  | idle | found id jp =>
    rw [hpc] at ht
    cases ht
  | insertLock p =>
    rw [hpc] at ht
    exact h.insertLock hpc ht
  | appendLock p =>
    rw [hpc] at ht
    exact h.appendLock hpc ht
  | removeLock p =>
    rw [hpc] at ht
    exact h.removeLock hpc ht
  | unlock =>
    rw [hpc] at ht
    obtain rfl := Option.some.inj ht
    exact h.unlock hpc rfl rfl (fun _ => rfl) rfl
  | removeUnlock p =>
    rw [hpc] at ht
    obtain rfl := Option.some.inj ht
    refine h.unlock hpc rfl rfl (fun q => ?_) rfl
    have hp : s.owner p = none := owner_of_carried (i := i) (h.placed p) (by rw [hpc]; rfl)
    dsimp only [State.goto]
    by_cases hq : q = p
    · simp [hq, hp, Pc.carries, Pc.carried]
    · simp [hq, Ne.symm hq, Pc.carries, Pc.carried]
  | findLock id =>
    rw [hpc] at ht
    exact h.findLock hpc ht
  | findHead id =>
    rw [hpc] at ht
    obtain rfl := Option.some.inj ht
    exact h.findHead hpc
  | findTest id jp =>
    rw [hpc] at ht
    cases jp with
    | none =>
      obtain rfl := Option.some.inj ht
      exact h.findEnd hpc
    | some p => exact h.findTest hpc ht
  | findUnlock id jp =>
    rw [hpc] at ht
    obtain rfl := Option.some.inj ht
    exact h.findUnlock hpc
  | insertNext p | insertPrev p | insertTest p | insertHead p | appendNext p | appendPrev p
  | appendTest p | appendTail p | removeTest p | removeHead p | removeHeadTest p | removeTail p
  | removeTailNext p | removeNext p | removePrev p =>
    rw [hpc] at ht
    exact h.exec hpc rfl ht

theorem callOwner (h : Inv s) (hrests : (s.pc i).rests) (hp : s.owner p = some i)
    (hcarried : pc.carried = some p) (hsection : pc.inSection = false) (hreads : pc.reads = false)
    (hfound : ∀ p, pc ≠ .found i (some p)) (hremove : ∀ p, pc ≠ .removeLock p) :
    Inv ({ s with owner := Function.update s.owner p none }.goto i pc) := by
  have hrest : (s.pc i).inSection = false ∧ (s.pc i).reads = false ∧ (s.pc i).carried = none := by
    cases hpc : s.pc i <;> rw [hpc] at hrests <;> first | exact ⟨rfl, rfl, rfl⟩ | cases hrests
  obtain ⟨hsection', hreads', hcarried'⟩ := hrest
  have hupdate : ∀ j, j ≠ i → Function.update s.pc i pc j = s.pc j := fun j hj =>
    Function.update_of_ne hj ..
  refine ⟨h.fault, h.lock.keep (hsection.trans hsection'.symm), fun j => ?_, fun hw j => ?_,
    fun j hj => ?_, h.resting, fun q => ?_, fun j => ?_⟩
  all_goals dsimp only [State.goto] at *
  · by_cases hj : j = i
    · rw [hj, Function.update_self, h.reading, hreads, hreads']
    · rw [hupdate j hj, h.reading]
  · by_cases hj : j = i
    · rw [hj, Function.update_self, hreads]
    · rw [hupdate j hj, h.apart hw]
  · by_cases hji : j = i
    · rw [hji, Function.update_self, hsection] at hj
      cases hj
    · rw [hupdate j hji] at hj ⊢
      exact h.writing j hj
  · have htally := tally_update (Pc.carries q) s.pc i pc
    have hold := h.placed q
    have hnew : ({ s with owner := Function.update s.owner p none }.goto i pc).places q =
        (if q ∈ s.jobs then 1 else 0) + (if Function.update s.owner p none q = none then 0 else 1) +
          tally (Pc.carries q) (Function.update s.pc i pc) := rfl
    have hzero : Pc.carries q (s.pc i) = 0 := by rw [Pc.carries, hcarried', if_neg (Option.some_ne_none q).symm]
    rw [places] at hold
    refine hnew.trans ?_
    by_cases hq : q = p
    · subst hq
      rw [hp, if_neg (Option.some_ne_none i)] at hold
      have hone : Pc.carries q pc = 1 := by rw [Pc.carries, if_pos hcarried]
      rw [Function.update_self, if_pos rfl]
      omega
    · have hnone : Pc.carries q pc = 0 := by
        rw [Pc.carries, hcarried, if_neg fun heq => hq (Option.some.inj heq).symm]
      rw [Function.update_of_ne hq]
      omega
  · by_cases hj : j = i
    · rw [hj, Function.update_self]
      exact .of_ne hfound hremove hreads
    · rw [hupdate j hj]
      exact (h.knows j).of_jId rfl fun _ _ => rfl

theorem gotoRest (h : Inv s) (hrests : (s.pc i).rests) (hsection : pc.inSection = false)
    (hreads : pc.reads = false) (hcarried : pc.carried = none) (hknows : s.Knows i pc) :
    Inv (s.goto i pc) := by
  have hrest : (s.pc i).inSection = false ∧ (s.pc i).reads = false ∧ (s.pc i).carried = none := by
    cases hpc : s.pc i <;> rw [hpc] at hrests <;> first | exact ⟨rfl, rfl, rfl⟩ | cases hrests
  obtain ⟨hsection', hreads', hcarried'⟩ := hrest
  exact h.goto rfl hsection' hsection rfl rfl rfl rfl rfl rfl
    (h.reading_of_reads rfl (hreads.trans hreads'.symm)) (hcarried.trans hcarried'.symm)
    (fun _ => hreads) hknows

theorem call (h : Inv s) {c : Call ι π} (ht : s.call i c = some t) : Inv t := by
  unfold State.call at ht
  split_ifs at ht with hrests
  cases c with
  | insert p | append p =>
    dsimp only at ht
    split_ifs at ht with hp
    obtain rfl := Option.some.inj ht
    exact h.callOwner hrests hp rfl rfl rfl nofun nofun
  | remove p =>
    dsimp only at ht
    split_ifs at ht with hpc
    obtain rfl := Option.some.inj ht
    refine h.gotoRest hrests rfl rfl rfl ⟨nofun, ?_, nofun, nofun⟩
    rintro q ⟨⟩
    exact (h.knows i).found p hpc
  | find id =>
    obtain rfl := Option.some.inj ht
    exact h.gotoRest hrests rfl rfl rfl ⟨nofun, nofun, nofun, nofun⟩

theorem assign (h : Inv s) {id : ι} (hp : s.owner p ≠ none) :
    Inv { s with queue := { s.queue with jId := Function.update s.queue.jId p id } } := by
  have hmem := notMem_of_owner (h.placed p) hp
  refine ⟨h.fault, h.lock, h.reading, h.apart, fun j hj => (h.writing j hj).assign _, h.resting,
    h.placed, fun j => (h.knows j).of_jId rfl fun q hq => ?_⟩
  apply Function.update_of_ne
  rintro rfl
  exact hmem hq

theorem step (h : Inv s) {turn : Turn ι π} (ht : s.step turn = some t) : Inv t := by
  cases turn with
  | call i c => exact h.call ht
  | run i => exact h.run ht
  | rdlockFails i =>
    rw [State.step] at ht
    cases hpc : s.pc i with
    | findLock id =>
      rw [hpc] at ht
      obtain rfl := Option.some.inj ht
      exact h.goto hpc rfl rfl rfl rfl rfl rfl rfl rfl (h.reading_of_reads hpc rfl) rfl (fun _ => rfl)
        ⟨nofun, nofun, nofun, nofun⟩
    | _ =>
      rw [hpc] at ht
      cases ht
  | assign i p id =>
    rw [State.step] at ht
    split_ifs at ht with hp
    obtain rfl := Option.some.inj ht
    exact h.assign (by rw [hp.2]; exact Option.some_ne_none i)

end Inv

theorem inv_of_reachable {jNext jPrev : π → Option π} {jId owner : π → ι}
    (h : Reachable step (start jNext jPrev jId owner) s) : Inv s :=
  h.invariant (.start jNext jPrev jId owner) fun _ _ _ hinv => hinv.step

/-- No call follows a null pointer. When no call writes, the queue can be walked from either end
and spells the jobs that the calls have left in it, in their order. Each job is in the queue, a
thread's own, or in a call, and in one of these only. A search comes to the first job with its
id, and what a thread has found for itself stays until it removes it. -/
structure Orderly (s : State ι π) : Prop where
  fault : s.fault = false
  spells : s.writer = none → s.queue.Spells s.jobs
  placed : ∀ p, s.places p = 1
  finds : ∀ i id jp, s.pc i = .findUnlock id jp → jp = s.jobs.find? fun q => s.queue.jId q = id
  keeps : ∀ i p, s.pc i = .found i (some p) → p ∈ s.jobs ∧ s.queue.jId p = i

/-- So it is in every interleaving of any number of threads. -/
theorem jobs_orderly {jNext jPrev : π → Option π} {jId owner : π → ι}
    (h : Reachable step (start jNext jPrev jId owner) s) : Orderly s := by
  obtain hinv := inv_of_reachable h
  exact ⟨hinv.fault, hinv.resting, hinv.placed, fun i => (hinv.knows i).result,
    fun i => (hinv.knows i).found⟩

/-- One thread appends a job for another one, which finds and removes it. -/
def handOver : List (Turn Bool ℕ) :=
  [.assign false 1 true, .call false (.append 1)] ++ List.replicate 6 (.run false) ++
    [.call true (.find true)] ++ List.replicate 4 (.run true) ++ [.call true (.remove 1)] ++
    List.replicate 5 (.run true)

theorem jobs_orderly_handOver : ∃ s, runFrom step (start (fun _ => none) (fun _ => none)
    (fun _ => false) (fun _ => false)) handOver = some s ∧ s.owner 1 = some true ∧ Orderly s := by
  obtain ⟨s, hs⟩ := Option.isSome_iff_exists.mp (show (runFrom step (start (fun _ => none)
    (fun _ => none) (fun _ => false) (fun _ => false)) handOver).isSome by decide)
  have howner : (runFrom step (start (fun _ => none) (fun _ => none) (fun _ => false)
    (fun _ => false)) handOver).map (fun s => s.owner 1) = some (some true) := by decide
  rw [hs, Option.map_some, Option.some.injEq] at howner
  exact ⟨s, hs, howner, jobs_orderly ⟨_, hs⟩⟩

end State
end CLib.Jobs
