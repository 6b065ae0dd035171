import CLib.Objects.Safety

namespace CLib.Objects
open CLib.Base

namespace Pc
variable {π : Type} {pc : Pc π} {p : π}

/-- The thread is at `pthread_mutex_lock(&hashlock)`. -/
def waitsHash : Pc π → Bool
  | .allocLock _ | .findLock _ | .retryLock _ => true
  | _ => false

/-- The object whose `f_lock` the thread is at. -/
def waitsFoo : Pc π → Option π
  | .allocFooLock fp | .holdLock _ fp | .releLock fp | .retryFooLock fp => some fp
  | _ => none

theorem waits_of_locked (h : pc.locked = some p) :
    pc ≠ .idle ∧ pc.waitsHash = false ∧ pc.waitsFoo = none := by
  cases pc with
  | idle => cases h
  | _ => first | exact ⟨nofun, rfl, rfl⟩ | cases h

theorem waits_of_holdsHash (h : pc.holdsHash) : pc ≠ .idle ∧ pc.waitsHash = false := by
  cases pc with
  | idle => cases h
  | _ => first | exact ⟨nofun, rfl⟩ | cases h

end Pc

namespace State
variable {ι π : Type} [DecidableEq ι] [DecidableEq π] {s : State ι π} {i : ι} {p : π} {pc : Pc π}

omit [DecidableEq ι] [DecidableEq π] in
theorem isSome_deref {v : Option π} {k : Foo ι π → Option (State ι π)}
    (hk : ∀ f, v.bind s.foo = some f → (k f).isSome) : (s.deref v k).isSome := by
  unfold deref
  split
  · rfl
  · exact hk _ ‹_›

theorem isSome_lockFoo (h : s.owner p = none) : (s.lockFoo i p pc).isSome := by
  refine isSome_deref fun f hf => ?_
  rw [Option.bind_some] at hf
  rw [if_pos ((owner_of_foo hf).symm.trans h)]
  rfl

omit [DecidableEq π] in
theorem isSome_lockHash (h : s.hashlock = none) : (s.lockHash i pc).isSome := by
  rw [lockHash, if_pos h]
  rfl

/-- Only a mutex can stop a thread in a call. -/
theorem isSome_run (hidle : (s.threads i).pc ≠ .idle)
    (hhash : (s.threads i).pc.waitsHash → s.hashlock = none)
    (hfoo : ∀ p, (s.threads i).pc.waitsFoo = some p → s.owner p = none) : (s.run i).isSome := by
  rw [run]
  cases hpc : (s.threads i).pc with
  | idle => exact absurd hpc hidle
  | allocLock p | findLock id | retryLock p =>
    rw [hpc] at hhash
    exact isSome_lockHash (hhash rfl)
  | allocFooLock p | holdLock finding p | releLock p | retryFooLock p =>
    rw [hpc] at hfoo
    exact isSome_lockFoo (hfoo p rfl)
  | findTest id v =>
    cases v with
    | none => rfl
    | some p => exact isSome_deref fun _ _ => rfl
  | findUnlock v => cases v <;> rfl
  | removeHead p =>
    refine isSome_deref fun f _ => ?_
    split_ifs <;> rfl
  | removeNext p v =>
    refine isSome_deref fun f _ => isSome_deref fun g hg => ?_
    cases v with
    | none => cases hg
    | some y => rfl
  | allocUnlock p | findHead id | leaveUnlock | freeUnlock p => rfl
  | allocNext p | allocHead p | allocFooUnlock p | holdCount finding p | holdUnlock finding p
  | releTest p | releCount p | releFooUnlock p | retryFooUnlock p | retryTest p | retryCount p
  | leaveFooUnlock p | removeSearch p v | freeFooUnlock p | free p =>
    exact isSome_deref fun _ _ => rfl

namespace Inv
variable [Fintype ι]

theorem exists_run_of_owner (h : Inv s) (hp : s.owner p ≠ none) : ∃ j, (s.run j).isSome := by
  obtain ⟨j, hj⟩ := Option.ne_none_iff_exists'.mp hp
  have hlocked : (s.threads j).pc.locked = some p := of_decide_eq_true ((h.counted.lock p j).mpr hj)
  obtain ⟨hidle, hhash, hfoo⟩ := Pc.waits_of_locked hlocked
  refine ⟨j, isSome_run hidle (fun hwaits => ?_) fun q hq => ?_⟩
  · rw [hhash] at hwaits
    cases hwaits
  · rw [hfoo] at hq
    cases hq

theorem exists_run_of_hashlock (h : Inv s) (hs : s.hashlock ≠ none) : ∃ j, (s.run j).isSome := by
  obtain ⟨j, hj⟩ := Option.ne_none_iff_exists'.mp hs
  obtain ⟨hidle, hhash⟩ := Pc.waits_of_holdsHash ((h.counted.hash j).mpr hj)
  by_cases hfoo : ∀ p, (s.threads j).pc.waitsFoo = some p → s.owner p = none
  · refine ⟨j, isSome_run hidle (fun hwaits => ?_) hfoo⟩
    rw [hhash] at hwaits
    cases hwaits
  · push Not at hfoo
    obtain ⟨p, -, hp⟩ := hfoo
    exact h.exists_run_of_owner hp

end Inv

/-- As long as some thread is in a call, some thread goes on in its call. -/
theorem objects_progress [Fintype ι] {turns : List (Turn ι π)} (h : runFrom step start turns = some s)
    (hroom : Along step HasRoom start turns) (hi : (s.threads i).pc ≠ .idle) :
    ∃ j t, s.run j = some t := by
  have hinv := inv_of_run h hroom
  have key : ∃ j, (s.run j).isSome := by
    by_cases hhash : s.hashlock = none
    · by_cases hfoo : ∀ p, (s.threads i).pc.waitsFoo = some p → s.owner p = none
      · exact ⟨i, isSome_run hi (fun _ => hhash) hfoo⟩
      · push Not at hfoo
        obtain ⟨p, -, hp⟩ := hfoo
        exact hinv.exists_run_of_owner hp
    · exact hinv.exists_run_of_hashlock hhash
  obtain ⟨j, hj⟩ := key
  exact ⟨j, Option.isSome_iff_exists.mp hj⟩

/-- One thread has `hashlock` and waits for an object that another one has locked. -/
def findLocked : List (Turn Bool ℕ) :=
  [.call false (.alloc 0 5)] ++ List.replicate 6 (.run false) ++ [.call true (.find 5)] ++
    List.replicate 3 (.run true) ++ [.call false (.rele 0), .run false]

theorem objects_progress_findLocked : ∃ s, runFrom step start findLocked = some s ∧
    s.run true = none ∧ ∃ j t, s.run j = some t := by
  obtain ⟨s, hs⟩ := Option.isSome_iff_exists.mp (show (runFrom step start findLocked).isSome by decide)
  have hpc : (runFrom step start findLocked).map (fun s => (s.threads true).pc) =
      some (.holdLock true 0) := by decide
  have hrun : ((runFrom step start findLocked).bind fun s => s.run true).isNone := by decide
  rw [hs, Option.map_some, Option.some.injEq] at hpc
  rw [hs, Option.bind_some, Option.isNone_iff_eq_none] at hrun
  exact ⟨s, hs, hrun, objects_progress (i := true) hs (by decide) (by rw [hpc]; exact nofun)⟩

end State
end CLib.Objects
