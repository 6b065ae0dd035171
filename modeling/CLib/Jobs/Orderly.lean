import CLib.Jobs.Queue
import Mathlib.Data.List.Find

namespace CLib.Jobs
open CLib.Base

namespace Pc
variable {ι π : Type}

/-- The thread has the write lock. -/
def inSection : Pc ι π → Bool
  | .unlock | .removeUnlock _ => true
  | pc => pc.writes

/-- The thread has a read lock. -/
def reads : Pc ι π → Bool
  | .findHead _ | .findTest _ _ | .findUnlock _ _ => true
  | _ => false

/-- The job that a call has taken from its caller and not yet put into the queue, or out of the
queue and not yet given to its caller. -/
def carried : Pc ι π → Option π
  | .insertLock jp | .appendLock jp | .removeTest jp | .removeHead jp | .removeHeadTest jp
  | .removeTail jp | .removeTailNext jp | .removeNext jp | .removePrev jp | .removeUnlock jp => some jp
  | _ => none

variable [DecidableEq π]

def carries (p : π) (pc : Pc ι π) : ℕ := if pc.carried = some p then 1 else 0

end Pc

variable {ι π : Type} [DecidableEq π]

namespace Queue
variable {q q' : Queue ι π} {pc pc' : Pc ι π} {l : List π}

theorem exec_cases (h : q.exec pc = some (q', pc')) :
    pc.writes ∧ pc'.inSection ∧ pc'.carried = pc.carried ∧ q'.jId = q.jId := by
  cases pc with
  | insertTest p | appendTest p =>
    rw [exec] at h
    split at h <;> cases h <;> exact ⟨rfl, rfl, rfl, rfl⟩
  | removeTest p =>
    rw [exec] at h
    split_ifs at h <;> cases h <;> exact ⟨rfl, rfl, rfl, rfl⟩
  | removeHeadTest p =>
    rw [exec] at h
    split_ifs at h
    · cases h
      exact ⟨rfl, rfl, rfl, rfl⟩
    · obtain ⟨n, -, hn⟩ := Option.map_eq_some_iff.mp h
      cases hn
      exact ⟨rfl, rfl, rfl, rfl⟩
  | removeTailNext p | removeNext p | removePrev p =>
    obtain ⟨n, -, hn⟩ := Option.map_eq_some_iff.mp h
    cases hn
    exact ⟨rfl, rfl, rfl, rfl⟩
  | insertNext p | insertPrev p | insertHead p | appendNext p | appendPrev p | appendTail p
  | removeHead p | removeTail p =>
    cases h
    exact ⟨rfl, rfl, rfl, rfl⟩
  | _ => cases h

theorem exec_jId (q : Queue ι π) (pc : Pc ι π) (jId : π → ι) :
    ({ q with jId := jId } : Queue ι π).exec pc =
      (q.exec pc).map fun (q', pc') => ({ q' with jId := jId }, pc') := by
  cases pc with
  | insertTest p | appendTest p =>
    rw [exec, exec]
    dsimp only
    split <;> rfl
  | removeTest p =>
    rw [exec, exec]
    split_ifs <;> rfl
  | removeHeadTest p =>
    rw [exec, exec]
    dsimp only
    split_ifs
    · rfl
    · cases q.jNext p <;> rfl
  | removeTailNext p | removeNext p =>
    rw [exec, exec]
    dsimp only
    cases q.jPrev p <;> rfl
  | removePrev p =>
    rw [exec, exec]
    dsimp only
    cases q.jNext p <;> rfl
  | _ => rfl

theorem Finishes.assign (h : q.Finishes pc l) (jId : π → ι) :
    ({ q with jId := jId } : Queue ι π).Finishes pc l := by
  induction h with
  | unlock h => exact .unlock h
  | removeUnlock h => exact .removeUnlock h
  | exec h _ ih =>
    refine .exec ?_ ih
    rw [exec_jId, h]
    rfl

theorem Finishes.exists_exec (h : q.Finishes pc l) (hpc : pc.writes) :
    ∃ q' pc', q.exec pc = some (q', pc') ∧ q'.Finishes pc' l := by
  cases h with
  | unlock h => cases hpc
  | removeUnlock h => cases hpc
  | exec h hq => exact ⟨_, _, h, hq⟩

theorem Finishes.spells (h : q.Finishes pc l) (hpc : pc.writes = false) : q.Spells l := by
  cases h with
  | unlock h => exact h
  | removeUnlock h => exact h
  | exec h hq =>
    rw [(exec_cases h).1] at hpc
    cases hpc

end Queue

namespace State
variable [DecidableEq ι] {s t : State ι π} {i j : ι} {p : π} {pc pc' : Pc ι π} {l : List π}

/-- What the place of a thread says about the queue. -/
structure Knows (s : State ι π) (i : ι) (pc : Pc ι π) : Prop where
  found : ∀ p, pc = .found i (some p) → p ∈ s.jobs ∧ s.queue.jId p = i
  removing : ∀ p, pc = .removeLock p → p ∈ s.jobs ∧ s.queue.jId p = i
  passed : ∀ id jp, pc = .findTest id jp → ∃ xs ys, s.jobs = xs ++ ys ∧ jp = ys.head? ∧
    ∀ q ∈ xs, s.queue.jId q ≠ id
  result : ∀ id jp, pc = .findUnlock id jp → jp = s.jobs.find? fun q => s.queue.jId q = id

omit [DecidableEq π] in
theorem Knows.of_ne (hfound : ∀ p, pc ≠ .found i (some p)) (hremove : ∀ p, pc ≠ .removeLock p)
    (hreads : pc.reads = false) : s.Knows i pc := by
  refine ⟨fun p hp => absurd hp (hfound p), fun p hp => absurd hp (hremove p), fun id jp hp => ?_,
    fun id jp hp => ?_⟩
  all_goals
    rw [hp] at hreads
    cases hreads

omit [DecidableEq π] in
/-- A thread without a read lock knows only of its own jobs. -/
theorem Knows.congr (h : s.Knows i pc) (hreads : pc.reads = false)
    (hjobs : ∀ p, p ∈ s.jobs ∧ s.queue.jId p = i → p ∈ t.jobs ∧ t.queue.jId p = i) :
    t.Knows i pc := by
  refine ⟨fun p hp => hjobs p (h.found p hp), fun p hp => hjobs p (h.removing p hp),
    fun id jp hp => ?_, fun id jp hp => ?_⟩
  all_goals
    rw [hp] at hreads
    cases hreads

omit [DecidableEq π] in
theorem Knows.of_jId (h : s.Knows i pc) (hjobs : t.jobs = s.jobs)
    (hid : ∀ p ∈ s.jobs, t.queue.jId p = s.queue.jId p) : t.Knows i pc := by
  have hown : ∀ p, p ∈ s.jobs ∧ s.queue.jId p = i → p ∈ t.jobs ∧ t.queue.jId p = i := by
    rintro p ⟨hp, hpi⟩
    exact ⟨hjobs ▸ hp, (hid p hp).trans hpi⟩
  refine ⟨fun p hp => hown p (h.found p hp), fun p hp => hown p (h.removing p hp),
    fun id jp hp => ?_, fun id jp hp => ?_⟩
  · obtain ⟨xs, ys, hl, hjp, hxs⟩ := h.passed id jp hp
    refine ⟨xs, ys, hjobs.trans hl, hjp, fun q hq => ?_⟩
    rw [hid q (by rw [hl]; exact List.mem_append_left ys hq)]
    exact hxs q hq
  · rw [h.result id jp hp, hjobs]
    apply List.find?_congr
    intro q hq
    rw [hid q hq]

variable [Fintype ι]

/-- The places where a job is: the queue, a thread, a call. -/
def places (s : State ι π) (p : π) : ℕ :=
  (if p ∈ s.jobs then 1 else 0) + (if s.owner p = none then 0 else 1) + tally (Pc.carries p) s.pc

/-- The lock keeps its promise, the pointers spell the queue when nobody writes, and each job is
in one place. -/
structure Inv (s : State ι π) : Prop where
  fault : s.fault = false
  lock : OwnedBy Pc.inSection id s.pc s.writer
  reading : ∀ i, s.reading i = (s.pc i).reads
  apart : s.writer ≠ none → ∀ i, (s.pc i).reads = false
  writing : ∀ i, (s.pc i).inSection → s.queue.Finishes (s.pc i) s.jobs
  resting : s.writer = none → s.queue.Spells s.jobs
  placed : ∀ p, s.places p = 1
  knows : ∀ i, s.Knows i (s.pc i)

omit [DecidableEq ι] in
theorem places_of_mem (h : s.places p = 1) (hp : p ∈ s.jobs) :
    s.owner p = none ∧ ∀ i, (s.pc i).carried ≠ some p := by
  rw [places, if_pos hp] at h
  refine ⟨?_, fun i hi => ?_⟩
  · by_contra hne
    rw [if_neg hne] at h
    omega
  · have hle := le_tally (Pc.carries p) s.pc i
    rw [Pc.carries, if_pos hi] at hle
    omega

omit [DecidableEq ι] in
theorem notMem_of_carried (h : s.places p = 1) (hp : (s.pc i).carried = some p) : p ∉ s.jobs :=
  fun hmem => (places_of_mem h hmem).2 i hp

omit [DecidableEq ι] in
theorem owner_of_carried (h : s.places p = 1) (hp : (s.pc i).carried = some p) : s.owner p = none := by
  by_contra hne
  have hle := le_tally (Pc.carries p) s.pc i
  rw [Pc.carries, if_pos hp] at hle
  rw [places, if_neg hne] at h
  omega

omit [DecidableEq ι] in
theorem notMem_of_owner (h : s.places p = 1) (hp : s.owner p ≠ none) : p ∉ s.jobs :=
  fun hmem => hp (places_of_mem h hmem).1

theorem places_goto (p : π) (hjobs : t.jobs = s.jobs) (howner : t.owner = s.owner)
    (hpc : t.pc = Function.update s.pc i pc) (hcarried : pc.carried = (s.pc i).carried) :
    t.places p = s.places p := by
  have hupdate := tally_update (Pc.carries p) s.pc i pc
  have hsame : Pc.carries p pc = Pc.carries p (s.pc i) := by rw [Pc.carries, Pc.carries, hcarried]
  rw [places, places, hjobs, howner, hpc]
  omega

namespace Inv

theorem goto (h : Inv s) (hpc : (s.pc i) = pc) (hsection : pc.inSection = false)
    (hsection' : pc'.inSection = false) (hqueue : t.queue = s.queue) (hwriter : t.writer = s.writer)
    (hfault : t.fault = s.fault) (hjobs : t.jobs = s.jobs) (howner : t.owner = s.owner)
    (hpc' : t.pc = Function.update s.pc i pc') (hreading : t.reading = Function.update s.reading i pc'.reads)
    (hcarried : pc'.carried = pc.carried) (hapart : s.writer ≠ none → pc'.reads = false)
    (hknows : s.Knows i pc') : Inv t := by
  subst hpc
  have hcongr : ∀ {j pc}, s.Knows j pc → t.Knows j pc := fun hk => hk.of_jId hjobs fun p _ => by rw [hqueue]
  refine ⟨hfault.trans h.fault, ?_, fun j => ?_, fun hw j => ?_, fun j hj => ?_, fun hw => ?_, fun p => ?_,
    fun j => ?_⟩
  · rw [hpc', hwriter]
    exact h.lock.keep (hsection'.trans hsection.symm)
  · rw [hpc', hreading]
    by_cases hj : j = i
    · rw [hj, Function.update_self, Function.update_self]
    · rw [Function.update_of_ne hj, Function.update_of_ne hj, h.reading]
  · rw [hwriter] at hw
    rw [hpc']
    by_cases hj : j = i
    · rw [hj, Function.update_self]
      exact hapart hw
    · rw [Function.update_of_ne hj]
      exact h.apart hw j
  · rw [hpc'] at hj ⊢
    by_cases hji : j = i
    · rw [hji, Function.update_self, hsection'] at hj
      cases hj
    · rw [Function.update_of_ne hji] at hj ⊢
      rw [hqueue, hjobs]
      exact h.writing j hj
  · rw [hqueue, hjobs]
    exact h.resting (hwriter ▸ hw)
  · rw [places_goto p hjobs howner hpc' hcarried]
    exact h.placed p
  · rw [hpc']
    by_cases hj : j = i
    · rw [hj, Function.update_self]
      exact hcongr hknows
    · rw [Function.update_of_ne hj]
      exact hcongr (h.knows j)

theorem wrlock (h : Inv s) (hpc : s.pc i = pc) (hsection : pc'.inSection)
    (hreads : pc'.reads = false) (hfinishes : s.queue.Spells s.jobs → s.queue.Finishes pc' l)
    (hcount : s.queue.Spells s.jobs → ∀ p, (if p ∈ l then 1 else 0) + Pc.carries p pc' =
      (if p ∈ s.jobs then 1 else 0) + Pc.carries p pc)
    (hknows : ∀ j, j ≠ i → ∀ p, p ∈ s.jobs ∧ s.queue.jId p = j → p ∈ l)
    (hfound : ∀ p, pc' ≠ .found i (some p)) (hremove : ∀ p, pc' ≠ .removeLock p)
    (ht : s.wrlock i pc' l = some t) : Inv t := by
  subst hpc
  rw [State.wrlock] at ht
  split_ifs at ht with hfree
  obtain ⟨hwriter, hreading⟩ := hfree
  obtain rfl := Option.some.inj ht
  have hown := h.lock
  rw [hwriter] at hown
  have hnone : ∀ j, (s.pc j).reads = false := fun j => (h.reading j).symm.trans (hreading j)
  have hother : ∀ j, j ≠ i → (s.pc j).inSection = false := fun j _ =>
    hown.outside_of_ne (nofun : (none : Option ι) ≠ some (id j))
  refine ⟨h.fault, hown.lock Function.injective_id hsection, fun j => ?_, fun _ j => ?_, fun j hj => ?_,
    nofun, fun p => ?_, fun j => ?_⟩
  all_goals dsimp only [State.goto] at *
  · by_cases hj : j = i
    · rw [hj, Function.update_self, hreads, hreading]
    · rw [Function.update_of_ne hj, h.reading]
  · by_cases hj : j = i
    · rw [hj, Function.update_self, hreads]
    · rw [Function.update_of_ne hj, hnone]
  · by_cases hji : j = i
    · rw [hji, Function.update_self]
      exact hfinishes (h.resting hwriter)
    · rw [Function.update_of_ne hji, hother j hji] at hj
      cases hj
  · have hupdate := tally_update (Pc.carries p) s.pc i pc'
    have hold := h.placed p
    have hp := hcount (h.resting hwriter) p
    rw [places] at hold ⊢
    dsimp only
    omega
  · by_cases hj : j = i
    · rw [hj, Function.update_self]
      exact .of_ne hfound hremove hreads
    · rw [Function.update_of_ne hj]
      exact (h.knows j).congr (hnone j) fun p hp => ⟨hknows j hj p hp, hp.2⟩

theorem exec (h : Inv s) (hpc : s.pc i = pc) (hwrites : pc.writes)
    (ht : (match s.queue.exec pc with
      | some (q, pc') => some ({ s with queue := q }.goto i pc')
      | none => some { s with fault := true }) = some t) : Inv t := by
  subst hpc
  have hsection : (s.pc i).inSection := by
    cases hpc : s.pc i <;> rw [hpc] at hwrites <;> first | exact hwrites | rfl
  obtain ⟨q, pc', hexec, hfinishes⟩ := (h.writing i hsection).exists_exec hwrites
  obtain ⟨-, hsection', hcarried, hid⟩ := Queue.exec_cases hexec
  rw [hexec] at ht
  obtain rfl := Option.some.inj ht
  have hwriter : s.writer = some i := (h.lock i).mp hsection
  have hapart := h.apart (by rw [hwriter]; exact Option.some_ne_none i)
  have hreads : pc'.reads = false := by
    cases pc' <;> first | rfl | cases hsection'
  refine ⟨h.fault, h.lock.keep (hsection'.trans hsection.symm), fun j => ?_, fun _ j => ?_,
    fun j hj => ?_, fun hw => ?_, fun p => ?_, fun j => ?_⟩
  · dsimp only [State.goto]
    by_cases hj : j = i
    · rw [hj, Function.update_self, hreads, h.reading, hapart]
    · rw [Function.update_of_ne hj, h.reading]
  · dsimp only [State.goto]
    by_cases hj : j = i
    · rw [hj, Function.update_self, hreads]
    · rw [Function.update_of_ne hj, hapart]
  · dsimp only [State.goto] at hj ⊢
    by_cases hji : j = i
    · rw [hji, Function.update_self]
      exact hfinishes
    · rw [Function.update_of_ne hji] at hj
      exact absurd (Option.some.inj (((h.lock j).mp hj).symm.trans hwriter)) hji
  · rw [show s.writer = none from hw] at hwriter
    cases hwriter
  · have hplaces : ({ s with queue := q }.goto i pc').places p = s.places p :=
      places_goto p rfl rfl rfl hcarried
    exact hplaces.trans (h.placed p)
  · dsimp only [State.goto]
    by_cases hj : j = i
    · rw [hj, Function.update_self]
      refine .of_ne ?_ ?_ hreads
      all_goals
        rintro p rfl
        cases hsection'
    · rw [Function.update_of_ne hj]
      exact (h.knows j).of_jId rfl fun p _ => by rw [hid]

/-- The thread gives the write lock back, and a job that it has removed is its own. -/
theorem unlock (h : Inv s) (hpc : s.pc i = pc) (hsection : pc.inSection) (hwrites : pc.writes = false)
    (howner : ∀ p, (if t.owner p = none then 0 else 1) =
      (if s.owner p = none then 0 else 1) + Pc.carries p pc)
    (ht : t = { s with writer := none, owner := t.owner }.goto i .idle) : Inv t := by
  subst hpc
  rw [ht]
  have hwriter : s.writer = some i := (h.lock i).mp hsection
  have hapart := h.apart (by rw [hwriter]; exact Option.some_ne_none i)
  have hown := h.lock
  rw [hwriter] at hown
  have hother : ∀ j, j ≠ i → (s.pc j).inSection = false := fun j hj =>
    hown.outside_of_ne fun heq => hj (Option.some.inj heq).symm
  refine ⟨h.fault, hown.unlock Function.injective_id rfl, fun j => ?_, fun hw => absurd rfl hw,
    fun j hj => ?_, fun _ => (h.writing i hsection).spells hwrites, fun p => ?_, fun j => ?_⟩
  · dsimp only [State.goto]
    by_cases hj : j = i
    · rw [hj, Function.update_self, h.reading, hapart]
      rfl
    · rw [Function.update_of_ne hj, h.reading]
  · dsimp only [State.goto] at hj
    by_cases hji : j = i
    · rw [hji, Function.update_self] at hj
      cases hj
    · rw [Function.update_of_ne hji, hother j hji] at hj
      cases hj
  · have hupdate := tally_update (Pc.carries p) s.pc i .idle
    have hold := h.placed p
    have hidle : Pc.carries p (.idle : Pc ι π) = 0 := rfl
    have hp := howner p
    have hnew : ({ s with writer := none, owner := t.owner }.goto i .idle).places p =
        (if p ∈ s.jobs then 1 else 0) + (if t.owner p = none then 0 else 1) +
          tally (Pc.carries p) (Function.update s.pc i .idle) := rfl
    rw [places] at hold
    rw [hnew]
    omega
  · dsimp only [State.goto]
    by_cases hj : j = i
    · rw [hj, Function.update_self]
      exact .of_ne nofun nofun rfl
    · rw [Function.update_of_ne hj]
      exact (h.knows j).of_jId rfl fun _ _ => rfl

end Inv
end State
end CLib.Jobs
