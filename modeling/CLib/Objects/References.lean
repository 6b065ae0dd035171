import CLib.Objects.Table

namespace CLib.Objects
open CLib.Base

/-- From one program point to the next nothing new is known of any object. -/
structure Pc.Quiet {π : Type} (pc pc' : Pc π) : Prop where
  carried : pc'.carried = pc.carried
  unlinked : pc'.unlinked = pc.unlinked
  sole : ∀ p, pc'.sole = some p → pc.sole = some p
  shared : ∀ p, pc'.shared = some p → pc.shared = some p
  given : ∀ p, pc'.given = some p → pc.given = some p
  reached : ∀ p, pc'.reached = some p → pc.reached = some p
  not_free : ∀ p, pc' ≠ .free p
  not_head : ∀ p, pc' ≠ .allocHead p
  not_search : ∀ p t, pc' ≠ .removeSearch p t
  not_next : ∀ p t, pc' ≠ .removeNext p t
  not_test : ∀ id t, pc' ≠ .findTest id t

/-- The steps that only take or leave a mutex, or find nothing to do. -/
inductive Pc.Plain {π : Type} : Pc π → Pc π → Prop
  | allocLock (fp : π) : Plain (.allocLock fp) (.allocNext fp)
  | allocFooLock (fp : π) : Plain (.allocFooLock fp) (.allocUnlock fp)
  | allocUnlock (fp : π) : Plain (.allocUnlock fp) (.allocFooUnlock fp)
  | holdLock (finding : Bool) (fp : π) : Plain (.holdLock finding fp) (.holdCount finding fp)
  | holdUnlock (fp : π) : Plain (.holdUnlock true fp) (.findUnlock (some fp))
  | findLock (id : ℤ) : Plain (.findLock id) (.findHead id)
  | findTest (id : ℤ) : Plain (.findTest id none) (.findUnlock none)
  | findUnlock : Plain (.findUnlock none) .idle
  | releLock (fp : π) : Plain (.releLock fp) (.releTest fp)
  | releTest (fp : π) : Plain (.releTest fp) (.retryFooUnlock fp)
  | releFooUnlock (fp : π) : Plain (.releFooUnlock fp) .idle
  | retryFooUnlock (fp : π) : Plain (.retryFooUnlock fp) (.retryLock fp)
  | retryLock (fp : π) : Plain (.retryLock fp) (.retryFooLock fp)
  | retryFooLock (fp : π) : Plain (.retryFooLock fp) (.retryTest fp)
  | leaveFooUnlock (fp : π) : Plain (.leaveFooUnlock fp) .leaveUnlock
  | leaveUnlock : Plain .leaveUnlock .idle
  | freeUnlock (fp : π) : Plain (.freeUnlock fp) (.freeFooUnlock fp)

theorem Pc.Plain.quiet {π : Type} {pc pc' : Pc π} (h : Plain pc pc') : pc.Quiet pc' := by
  cases h with
  | holdLock finding fp => cases finding <;> constructor <;> first | rfl | exact fun _ h => h | nofun
  | _ => constructor <;> first | rfl | exact fun _ h => h | nofun

namespace State
variable {ι π : Type} [DecidableEq π] {s t : State ι π} {i j : ι} {p : π} {x : Thread π}
  {pc pc' : Pc π} {f : Foo ι π} {lists : Cell π → List (Cell π)}

omit [DecidableEq π] in
theorem Settled.of_quiet {y : Thread π} (h : s.Settled y) (hq : y.pc.Quiet x.pc)
    (hrefs : x.refs = y.refs) (hcount : t.count = s.count) : t.Settled x := by
  refine ⟨fun p hp => ?_, fun p hp => ?_, fun p hp => absurd hp (hq.not_free p), fun p hp => ?_⟩
  · rw [hcount]
    exact h.sole p (hq.sole p hp)
  · rw [hcount]
    exact h.shared p (hq.shared p hp)
  · rw [hrefs]
    exact h.given p (hq.given p hp)

omit [DecidableEq π] in
theorem Placed.of_quiet (h : s.Placed lists pc) (hq : pc.Quiet pc') :
    s.Placed lists pc' :=
  ⟨fun p hp => h.reached p (hq.reached p hp), fun p hp => absurd hp (hq.not_head p),
    fun p t hp => absurd hp (hq.not_search p t), fun p t hp => absurd hp (hq.not_next p t),
    fun id t hp => absurd hp (hq.not_test id t)⟩

theorem weight_of_quiet {y : Thread π} (hq : y.pc.Quiet x.pc) (hrefs : x.refs = y.refs) (p : π) :
    x.weight p = y.weight p := by
  rw [Thread.weight, Thread.weight, hq.carried, hrefs]

/-- No thread has followed a pointer into the void, and counts and table are in order. -/
structure Inv [Fintype ι] (s : State ι π) : Prop where
  fault : s.fault = false
  counted : Counted s
  chained : ∃ lists, Chained s lists

namespace Inv
variable [Fintype ι] [DecidableEq ι]

/-- A thread goes on; only `hashlock` changes. -/
theorem setThread (h : Inv s) {m : Option ι}
    (hown : OwnedBy (fun x : Thread π => x.pc.holdsHash) id (Function.update s.threads i x) m)
    (hlocked : x.pc.locked = (s.threads i).pc.locked)
    (hunlinked : x.pc.unlinked = (s.threads i).pc.unlinked)
    (hweight : ∀ p, x.weight p = (s.threads i).weight p) (hsettled : s.Settled x)
    (hplaced : ∀ lists, Chained s lists → s.Placed lists x.pc) :
    Inv (State.setThread { s with hashlock := m } i x) := by
  obtain ⟨lists, hchained⟩ := h.chained
  refine ⟨h.fault, ?_, lists, ?_⟩
  · exact h.counted.goto rfl hown rfl rfl (fun _ hp => hp) hlocked hweight hsettled
  · exact hchained.goto rfl rfl (fun _ => rfl) (fun _ => rfl) (fun _ => Iff.rfl) hunlinked
      (hplaced lists hchained)

theorem goto (h : Inv s) (hpc : (s.threads i).pc = pc) (hhash : pc'.holdsHash = pc.holdsHash)
    (hlocked : pc'.locked = pc.locked) (hunlinked : pc'.unlinked = pc.unlinked)
    (hcarried : pc'.carried = pc.carried) (hsettled : s.Settled ⟨pc', (s.threads i).refs⟩)
    (hplaced : ∀ lists, Chained s lists → s.Placed lists pc') : Inv (s.goto i pc') := by
  subst hpc
  refine h.setThread (h.counted.hash.keep hhash) hlocked hunlinked (fun p => ?_) hsettled hplaced
  rw [Thread.weight, Thread.weight, hcarried]

theorem goto_of_plain (h : Inv s) (hpc : (s.threads i).pc = pc) (hq : pc.Plain pc')
    (hhash : pc'.holdsHash = pc.holdsHash) (hlocked : pc'.locked = pc.locked) :
    Inv (s.goto i pc') := by
  subst hpc
  exact h.goto rfl hhash hlocked hq.quiet.unlinked hq.quiet.carried
    ((h.counted.settled i).of_quiet hq.quiet rfl rfl)
    fun _ hchained => (hchained.placed i).of_quiet hq.quiet

theorem lockHash (h : Inv s) (hpc : (s.threads i).pc = pc) (hq : pc.Plain pc') (hhash : pc'.holdsHash)
    (hlocked : pc'.locked = pc.locked) (ht : s.lockHash i pc' = some t) : Inv t := by
  subst hpc
  rw [State.lockHash] at ht
  split_ifs at ht with hfree
  obtain rfl := Option.some.inj ht
  have hown := h.counted.hash
  rw [hfree] at hown
  exact h.setThread (hown.lock Function.injective_id hhash) hlocked hq.quiet.unlinked
    (weight_of_quiet hq.quiet rfl) ((h.counted.settled i).of_quiet hq.quiet rfl rfl)
    fun _ hchained => (hchained.placed i).of_quiet hq.quiet

theorem unlockHash (h : Inv s) (hi : (s.threads i).pc.holdsHash) (hhash : x.pc.holdsHash = false)
    (hlocked : x.pc.locked = (s.threads i).pc.locked)
    (hunlinked : x.pc.unlinked = (s.threads i).pc.unlinked)
    (hweight : ∀ p, x.weight p = (s.threads i).weight p) (hsettled : s.Settled x) :
    Inv (s.unlockHash.setThread i x) := by
  have hown := h.counted.hash
  rw [(hown i).mp hi] at hown
  exact h.setThread (hown.unlock Function.injective_id hhash) hlocked hunlinked hweight hsettled
    fun _ _ => .of_not_holdsHash hhash

theorem unlockHash_of_plain (h : Inv s) (hpc : (s.threads i).pc = pc) (hi : pc.holdsHash)
    (hq : pc.Plain pc') (hhash : pc'.holdsHash = false) (hlocked : pc'.locked = pc.locked) :
    Inv (s.unlockHash.goto i pc') := by
  subst hpc
  exact h.unlockHash hi hhash hlocked hq.quiet.unlinked (weight_of_quiet hq.quiet rfl)
    ((h.counted.settled i).of_quiet hq.quiet rfl rfl)

theorem setLock (h : Inv s) (hf : s.foo p = some f) {m : Option ι}
    (hown : OwnedBy (fun x : Thread π => decide (x.pc.locked = some p)) id
      (Function.update s.threads i x) m)
    (hlocked : ∀ q, q ≠ p → (x.pc.locked = some q ↔ (s.threads i).pc.locked = some q))
    (hhash : x.pc.holdsHash = (s.threads i).pc.holdsHash)
    (hunlinked : x.pc.unlinked = (s.threads i).pc.unlinked)
    (hweight : ∀ q, x.weight q = (s.threads i).weight q)
    (hfree : ∀ j, j ≠ i → (s.threads j).pc = .free p → m = none)
    (hsettled : ((s.setFoo p { f with lock := m }).setThread i x).Settled x)
    (hplaced : ∀ lists, Chained s lists → s.Placed lists x.pc) :
    Inv ((s.setFoo p { f with lock := m }).setThread i x) := by
  obtain ⟨lists, hchained⟩ := h.chained
  exact ⟨h.fault, h.counted.setLock hf hown hlocked hhash hweight hfree hsettled, lists,
    hchained.setFoo hf rfl rfl hunlinked (hplaced lists hchained)⟩

theorem lockFoo (h : Inv s) (hpc : (s.threads i).pc = pc) (hq : pc.Plain pc') (hi : s.Handle i p)
    (hold : pc.locked = none) (hnew : pc'.locked = some p) (hhash : pc'.holdsHash = pc.holdsHash)
    (ht : s.lockFoo i p pc' = some t) : Inv t := by
  subst hpc
  have hq := hq.quiet
  obtain ⟨f, hf⟩ := h.counted.exists_foo_of_handle hi
  rw [State.lockFoo, deref_some hf] at ht
  split_ifs at ht with hfree
  obtain rfl := Option.some.inj ht
  have hown := h.counted.lock p
  rw [owner_of_foo hf, hfree] at hown
  refine h.setLock hf (hown.lock Function.injective_id (decide_eq_true hnew)) (fun q hqp => ?_) hhash
    hq.unlinked (weight_of_quiet hq rfl) (fun j hj hpc => ?_)
    ((h.counted.settled i).of_quiet hq rfl ?_) fun _ hchained => (hchained.placed i).of_quiet hq
  · rw [hold, hnew]
    exact iff_of_false (fun heq => hqp (Option.some.inj heq).symm) nofun
  · exact absurd (h.counted.eq_of_sole_of_handle (by rw [hpc]; rfl) hi) hj
  · exact count_setLock hf (some i)

theorem unlockFoo (h : Inv s) {k : State ι π → State ι π} (hi : (s.threads i).pc.locked = some p)
    (hk : ∀ f, k (s.setFoo p f) = (s.setFoo p f).setThread i x) (hnew : x.pc.locked = none)
    (hhash : x.pc.holdsHash = (s.threads i).pc.holdsHash)
    (hunlinked : x.pc.unlinked = (s.threads i).pc.unlinked)
    (hweight : ∀ q, x.weight q = (s.threads i).weight q)
    (hsole : ∀ q, x.pc.sole = some q → (s.threads i).pc.sole = some q) (hshared : x.pc.shared = none)
    (hgiven : x.pc.given = none) (hfree : ∀ q, x.pc = .free q → q = p)
    (hplaced : ∀ lists, Chained s lists → s.Placed lists x.pc) (ht : s.unlockFoo p k = some t) :
    Inv t := by
  obtain ⟨f, hf⟩ := h.counted.exists_foo_of_locked hi
  rw [State.unlockFoo, deref_some hf, hk] at ht
  obtain rfl := Option.some.inj ht
  have hown := h.counted.lock p
  rw [h.counted.owner_of_locked hi] at hown
  have hcount : ((s.setFoo p { f with lock := none }).setThread i x).count = s.count :=
    count_setLock hf none
  refine h.setLock hf (hown.unlock Function.injective_id (by simp [hnew])) (fun q hqp => ?_) hhash
    hunlinked hweight (fun _ _ _ => rfl) ⟨fun q hq => ?_, fun q hq => ?_, fun q hq => ?_, fun q hq => ?_⟩
    hplaced
  · rw [hnew, hi]
    exact iff_of_false nofun fun heq => hqp (Option.some.inj heq).symm
  · rw [hcount]
    exact (h.counted.settled i).sole q (hsole q hq)
  · rw [hshared] at hq
    cases hq
  · have howner := owner_setFoo s p { f with lock := none }
    rw [hfree q hq]
    exact (congrFun howner p).trans (Function.update_self ..)
  · rw [hgiven] at hq
    cases hq

theorem unlockFoo_of_plain (h : Inv s) (hpc : (s.threads i).pc = pc) (hi : pc.locked = some p)
    (hq : pc.Plain pc') (hnew : pc'.locked = none) (hshared : pc'.shared = none)
    (hgiven : pc'.given = none) (hhash : pc'.holdsHash = pc.holdsHash)
    (ht : (s.unlockFoo p fun t => t.goto i pc') = some t) : Inv t := by
  subst hpc
  have hq := hq.quiet
  exact h.unlockFoo (x := ⟨pc', (s.threads i).refs⟩) hi (fun _ => rfl) hnew hhash hq.unlinked
    (weight_of_quiet hq rfl) hq.sole hshared hgiven (fun q hpc => absurd hpc (hq.not_free q))
    (fun _ hchained => (hchained.placed i).of_quiet hq) ht

omit [Fintype ι] [DecidableEq ι] in
theorem weight_ret {y : Thread π} (hy : y.pc.carried = some p) (q : π) :
    Thread.weight q { y.gain p with pc := .idle } = y.weight q := by
  rw [Thread.weight, Thread.weight, hy, Thread.refs_gain]
  by_cases hq : q = p
  · rw [hq, Function.update_self, if_pos rfl]
    rfl
  · rw [Function.update_of_ne hq, if_neg (fun heq => hq (Option.some.inj heq).symm)]
    rfl

theorem unlockFoo_ret (h : Inv s) (hpc : (s.threads i).pc = pc) (hi : pc.locked = some p)
    (hcarried : pc.carried = some p) (hhash : pc.holdsHash = false) (hunlinked : pc.unlinked = none)
    (ht : (s.unlockFoo p fun t => t.ret i p) = some t) : Inv t := by
  subst hpc
  exact h.unlockFoo (x := { (s.threads i).gain p with pc := .idle }) hi (fun _ => rfl) rfl hhash.symm
    hunlinked.symm (weight_ret hcarried) nofun rfl rfl nofun (fun _ _ => .of_not_holdsHash rfl) ht

theorem addCount (h : Inv s) {n : Int32} (hpc : (s.threads i).pc = pc)
    (ht : s.addCount i p n pc' = some t) (hi : pc.locked = some p) (hnew : pc'.locked = some p)
    (hhash : pc'.holdsHash = pc.holdsHash) (hunlinked : pc'.unlinked = pc.unlinked)
    (hn : (Thread.weight p ⟨pc', (s.threads i).refs⟩ : ℤ) = (s.threads i).weight p + n.toInt)
    (hweight : ∀ q, q ≠ p → (pc'.carried = some q ↔ pc.carried = some q))
    (hpos : 0 < s.count p + n.toInt) (hlt : s.count p + n.toInt < 2 ^ 31) (hsole : ∀ j, (s.threads j).pc.sole = some p → j = i)
    (hnone : pc'.sole = none ∧ pc'.shared = none ∧ pc'.given = none) (hfree : ∀ q, pc' ≠ .free q)
    (hplaced : ∀ lists, Chained s lists → s.Placed lists pc') : Inv t := by
  subst hpc
  obtain ⟨f, hf⟩ := h.counted.exists_foo_of_locked hi
  rw [State.addCount, deref_some hf] at ht
  obtain rfl := Option.some.inj ht
  obtain ⟨hsole', hshared, hgiven⟩ := hnone
  obtain ⟨lists, hchained⟩ := h.chained
  rw [count_of_foo hf] at hpos hlt
  have hadd : (f.count + n).toInt = f.count.toInt + n.toInt := by
    rw [Int32.toInt_add]
    apply Int.bmod_eq_of_le <;> omega
  refine ⟨h.fault, ?_, lists, hchained.setFoo hf rfl rfl hunlinked (hplaced lists hchained)⟩
  refine h.counted.setCount hf hi hnew hhash hn hadd (fun q hq => ?_) hpos hsole
    ⟨fun q hq => ?_, fun q hq => ?_, fun q hq => absurd hq (hfree q), fun q hq => ?_⟩
  · rw [Thread.weight, Thread.weight]
    congr 1
    simp only [hweight q hq]
  · rw [hsole'] at hq
    cases hq
  · rw [hshared] at hq
    cases hq
  · rw [hgiven] at hq
    cases hq

end Inv
end State
end CLib.Objects
