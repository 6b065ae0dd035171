import CLib.Objects.Linking

namespace CLib.Objects
open CLib.Base
namespace State
variable {ι π : Type} [DecidableEq ι] [DecidableEq π] {s t : State ι π} {i j : ι} {p : π}
  {pc : Pc π} {f : Foo ι π}

namespace Inv
variable [Fintype ι]

omit [DecidableEq ι] in
theorem start : Inv (start : State ι π) := by
  have hnone : ∀ p : π, ¬ (State.start : State ι π).Linked p := fun p hp => hp.1 rfl
  refine ⟨rfl, ⟨fun i => ?_, fun p i => ?_, fun p => ?_, fun p hp => absurd rfl hp, fun i => ?_⟩,
    fun _ => [], ⟨⟨?_, fun _ _ => List.nodup_nil, fun y => ?_, nofun, ?_⟩, fun p hp => ?_, fun i => ?_⟩⟩
  · exact iff_of_false nofun nofun
  · refine iff_of_false (fun h => ?_) nofun
    cases of_decide_eq_true h
  · have hzero : tally (Thread.weight p) (State.start : State ι π).threads = 0 :=
      CLib.Base.tally_eq_zero fun _ => rfl
    rw [hzero]
    rfl
  · exact .of_none rfl rfl rfl nofun
  · rintro y ⟨k, -, rfl⟩
    rfl
  · refine iff_of_false ?_ fun ⟨_, _, hy⟩ => nomatch hy
    rintro ⟨p, -, hp⟩
    exact hnone p hp
  · rintro y ⟨k, -, rfl⟩ ⟨p, -, hp⟩
    exact hnone p hp
  · exact absurd hp (hnone p)
  · exact .of_not_holdsHash rfl

theorem call (h : Inv s) {c : Call π} (ht : s.call i c = some t) : Inv t := by
  unfold State.call at ht
  split_ifs at ht with hidle
  rw [ne_eq, not_not] at hidle
  cases c with
  | alloc p id =>
    dsimp only at ht
    split_ifs at ht with hp
    obtain rfl := Option.some.inj ht
    obtain ⟨lists, hchained⟩ := h.chained
    have hzero := h.counted.weight_eq_zero hp
    have hnew : Thread.weight p ⟨.allocLock p, (s.threads i).refs⟩ = 1 := by
      have hrefs : (s.threads i).weight p = (s.threads i).refs p :=
        Thread.weight_of_not_carried (by rw [hidle]; exact (Option.some_ne_none _).symm)
      rw [Thread.weight_of_carried rfl, ← hrefs, hzero]
    refine ⟨h.fault, h.counted.malloc hp id (by rw [hidle]; rfl) (by rw [hidle]; rfl) hnew
      (fun q hq => ?_) ⟨fun q hq => ?_, (by rintro _ ⟨⟩), (by rintro _ ⟨⟩), (by rintro _ ⟨⟩)⟩, lists,
      hchained.outside (p := p) rfl rfl (fun q hq => Function.update_of_ne hq ..) (fun hl => hl.1 hp)
        (not_linked_of_unlinked (i := i) ?_) (fun q hq => ?_) (fun j hj hc => ?_) (.of_not_holdsHash rfl)⟩
    · have hsame : (s.threads i).weight q = (s.threads i).refs q :=
        Thread.weight_of_not_carried (by rw [hidle]; exact (Option.some_ne_none _).symm)
      exact (Thread.weight_of_ne rfl hq).trans hsame.symm
    · obtain rfl := Option.some.inj hq
      exact (congrFun (count_setFoo s p _) p).trans (Function.update_self ..)
    · rw [State.goto, threads_setThread, Function.update_self]
      rfl
    · rw [hidle]
      exact iff_of_false (fun heq => hq (Option.some.inj heq).symm)
        (Option.some_ne_none _).symm
    · have hpos := Thread.weight_pos_of_carried hc
      rw [hzero] at hpos
      exact lt_irrefl _ hpos
  | hold p =>
    dsimp only at ht
    split_ifs at ht with hp
    obtain rfl := Option.some.inj ht
    refine h.goto hidle rfl rfl rfl rfl ⟨(by rintro _ ⟨⟩), (by rintro _ ⟨⟩), (by rintro _ ⟨⟩), ?_⟩ fun _ _ => .of_not_holdsHash rfl
    rintro q ⟨⟩
    exact hp
  | find id =>
    obtain rfl := Option.some.inj ht
    exact h.goto hidle rfl rfl rfl rfl (.of_none rfl rfl rfl (by rintro _ ⟨⟩)) fun _ _ => .of_not_holdsHash rfl
  | rele p =>
    dsimp only at ht
    split_ifs at ht with hp
    obtain rfl := Option.some.inj ht
    refine h.setThread (h.counted.hash.keep (by rw [hidle]; rfl)) (by rw [hidle]; rfl)
      (by rw [hidle]; rfl) (fun q => ?_) (.of_none rfl rfl rfl (by rintro _ ⟨⟩)) fun _ _ => .of_not_holdsHash rfl
    have hold : (s.threads i).weight q = (s.threads i).refs q :=
      Thread.weight_of_not_carried (by rw [hidle]; exact (Option.some_ne_none _).symm)
    have hlose := Thread.weight_lose hp q
    have hlost : ((s.threads i).lose p).weight q = ((s.threads i).lose p).refs q :=
      Thread.weight_of_not_carried (by rw [Thread.pc_lose, hidle]; exact (Option.some_ne_none _).symm)
    by_cases hq : q = p
    · have hnew : Thread.weight q ⟨.releLock p, ((s.threads i).lose p).refs⟩ =
          ((s.threads i).lose p).refs q + 1 := Thread.weight_of_carried (by rw [hq]; rfl)
      rw [if_pos hq] at hlose
      exact hnew.trans (by omega)
    · have hnew : Thread.weight q ⟨.releLock p, ((s.threads i).lose p).refs⟩ =
          ((s.threads i).lose p).refs q := Thread.weight_of_ne rfl hq
      rw [if_neg hq] at hlose
      exact hnew.trans (by omega)

theorem give (h : Inv s) (ht : s.give i j p = some t) : Inv t := by
  have hcounted := h.counted.give ht
  rw [State.give] at ht
  split_ifs at ht
  obtain rfl := Option.some.inj ht
  obtain ⟨lists, hchained⟩ := h.chained
  have hpc : ∀ k, ((((s.setThread i ((s.threads i).lose p)).setThread j
      (((s.setThread i ((s.threads i).lose p)).threads j).gain p))).threads k).pc = (s.threads k).pc := by
    intro k
    have hfirst : ∀ k, ((s.setThread i ((s.threads i).lose p)).threads k).pc = (s.threads k).pc := by
      intro k
      by_cases hk : k = i
      · rw [hk, threads_setThread, Function.update_self]
        rfl
      · rw [threads_setThread, Function.update_of_ne hk]
    by_cases hk : k = j
    · rw [hk, threads_setThread, Function.update_self]
      exact hfirst j
    · rw [threads_setThread, Function.update_of_ne hk]
      exact hfirst k
  refine ⟨h.fault, hcounted, lists, hchained.congr (fun q => ?_) (fun _ _ => rfl) (fun _ _ => rfl) fun k => ?_⟩
  · simp only [Linked, hpc]
    rfl
  · rw [hpc]
    refine (hchained.placed k).congr rfl (fun q hq => ?_) (fun _ _ => rfl) (fun _ _ => rfl)
      fun _ _ _ => rfl
    simp only [Linked, hpc]
    exact hq

theorem run (h : Inv s) (hroom : s.HasRoom (.run i)) (ht : s.run i = some t) : Inv t := by
  rw [State.run] at ht
  cases hpc : (s.threads i).pc with
  | idle =>
    rw [hpc] at ht
    cases ht
  | allocLock p =>
    rw [hpc] at ht
    exact h.lockHash hpc (.allocLock p) rfl rfl ht
  | allocNext p =>
    rw [hpc] at ht
    exact h.allocNext hpc ht
  | allocHead p =>
    rw [hpc] at ht
    exact h.allocHead hpc ht
  | allocFooLock p =>
    rw [hpc] at ht
    exact h.lockFoo hpc (.allocFooLock p) (.of_carried hpc rfl) rfl rfl rfl ht
  | allocUnlock p =>
    rw [hpc] at ht
    obtain rfl := Option.some.inj ht
    exact h.unlockHash_of_plain hpc rfl (.allocUnlock p) rfl rfl
  | allocFooUnlock p =>
    rw [hpc] at ht
    exact h.unlockFoo_ret hpc rfl rfl rfl rfl ht
  | holdLock finding p =>
    rw [hpc] at ht
    exact h.lockFoo hpc (.holdLock finding p) (h.handle_of_hold (.inl hpc)) rfl rfl rfl ht
  | holdCount finding p =>
    rw [hpc] at ht
    exact h.addCount_hold hpc hroom ht
  | holdUnlock finding p =>
    rw [hpc] at ht
    cases finding with
    | true => exact h.unlockFoo_of_plain hpc rfl (.holdUnlock p) rfl rfl rfl rfl ht
    | false => exact h.unlockFoo_ret hpc rfl rfl rfl rfl ht
  | findLock id =>
    rw [hpc] at ht
    exact h.lockHash hpc (.findLock id) rfl rfl ht
  | findHead id =>
    rw [hpc] at ht
    obtain rfl := Option.some.inj ht
    exact h.findHead hpc
  | findTest id v =>
    rw [hpc] at ht
    cases v with
    | none =>
      obtain rfl := Option.some.inj ht
      exact h.goto_of_plain hpc (.findTest id) rfl rfl
    | some p => exact h.findTest hpc ht
  | findUnlock v =>
    rw [hpc] at ht
    cases v with
    | none =>
      obtain rfl := Option.some.inj ht
      exact h.unlockHash_of_plain hpc rfl .findUnlock rfl rfl
    | some p =>
      obtain rfl := Option.some.inj ht
      exact h.findUnlock hpc
  | releLock p =>
    rw [hpc] at ht
    exact h.lockFoo hpc (.releLock p) (.of_carried hpc rfl) rfl rfl rfl ht
  | releTest p =>
    rw [hpc] at ht
    exact h.test hpc rfl (fun _ => h.goto_of_plain hpc (.releTest p) rfl rfl)
      (h.goto_shared hpc (.inl ⟨rfl, rfl⟩)) ht
  | releCount p =>
    rw [hpc] at ht
    exact h.addCount_shared hpc (.inl ⟨rfl, rfl⟩) ht
  | releFooUnlock p =>
    rw [hpc] at ht
    exact h.unlockFoo_of_plain hpc rfl (.releFooUnlock p) rfl rfl rfl rfl ht
  | retryFooUnlock p =>
    rw [hpc] at ht
    exact h.unlockFoo_of_plain hpc rfl (.retryFooUnlock p) rfl rfl rfl rfl ht
  | retryLock p =>
    rw [hpc] at ht
    exact h.lockHash hpc (.retryLock p) rfl rfl ht
  | retryFooLock p =>
    rw [hpc] at ht
    exact h.lockFoo hpc (.retryFooLock p) (.of_carried hpc rfl) rfl rfl rfl ht
  | retryTest p =>
    rw [hpc] at ht
    simp only [ite_not] at ht
    exact h.test hpc rfl (h.goto_last hpc) (h.goto_shared hpc (.inr ⟨rfl, rfl⟩)) ht
  | retryCount p =>
    rw [hpc] at ht
    exact h.addCount_shared hpc (.inr ⟨rfl, rfl⟩) ht
  | leaveFooUnlock p =>
    rw [hpc] at ht
    exact h.unlockFoo_of_plain hpc rfl (.leaveFooUnlock p) rfl rfl rfl rfl ht
  | leaveUnlock =>
    rw [hpc] at ht
    obtain rfl := Option.some.inj ht
    exact h.unlockHash_of_plain hpc rfl .leaveUnlock rfl rfl
  | removeHead p =>
    rw [hpc] at ht
    exact h.removeHead hpc ht
  | removeSearch p v =>
    rw [hpc] at ht
    exact h.removeSearch hpc ht
  | removeNext p v =>
    rw [hpc] at ht
    obtain ⟨lists, hchained⟩ := h.chained
    obtain ⟨_, y, _, rfl, _⟩ := (hchained.placed i).adjacent p v hpc
    exact h.removeNext hpc ht
  | freeUnlock p =>
    rw [hpc] at ht
    obtain rfl := Option.some.inj ht
    exact h.unlockHash_of_plain hpc rfl (.freeUnlock p) rfl rfl
  | freeFooUnlock p =>
    rw [hpc] at ht
    exact h.freeFooUnlock hpc ht
  | free p =>
    rw [hpc] at ht
    exact h.free hpc ht

theorem step (h : Inv s) {turn : Turn ι π} (hroom : s.HasRoom turn) (ht : s.step turn = some t) :
    Inv t := by
  cases turn with
  | call i c => exact h.call ht
  | run i => exact h.run hroom ht
  | give i j p => exact h.give ht

end Inv
/-- No thread has followed a pointer to freed memory, each object counts its references, and
the thread that frees an object has given up the last one. -/
structure Sound [Fintype ι] (s : State ι π) : Prop where
  fault : s.fault = false
  count : ∀ p f, s.foo p = some f →
    0 < f.count.toInt ∧ f.count.toInt = tally (Thread.weight p) s.threads
  alive : ∀ i p, 0 < (s.threads i).weight p → s.foo p ≠ none
  last : ∀ i p, (s.threads i).pc = .free p → ∀ j, (s.threads j).refs p = 0

def Chain (s : State ι π) : Option π → List π → Prop
  | fp, [] => fp = none
  | fp, p :: ps => fp = some p ∧ ∃ f, s.foo p = some f ∧ s.Chain f.next ps

/-- The buckets hold exactly the objects that are not being made or freed, and a search that
comes to the end of its list has missed none. -/
structure Tabled (s : State ι π) : Prop where
  chain : ∀ k < nhash, ∃ ps, s.Chain (s.fh k) ps ∧ ps.Nodup ∧
    ∀ p, p ∈ ps ↔ s.Linked p ∧ hash (s.idOf p) = k
  absent : ∀ i id, (s.threads i).pc = .findTest id none → ∀ p, s.Linked p → s.idOf p ≠ id

omit [DecidableEq ι] [DecidableEq π] in
theorem chain_of_links {v : Option π} {xs : List (Cell π)} (h : Links none Cell.addr s.next v xs)
    (hxs : ∀ y ∈ xs, y ∈ s.linked) : ∃ ps, s.Chain v ps ∧ xs = ps.map .foo := by
  induction xs generalizing v with
  | nil => exact ⟨[], h, rfl⟩
  | cons y xs ih =>
    obtain ⟨hv, -, h⟩ := h
    obtain ⟨p, rfl, hp⟩ := hxs y List.mem_cons_self
    obtain ⟨f, hf⟩ := Option.ne_none_iff_exists'.mp hp.1
    obtain ⟨ps, hps, rfl⟩ := ih h fun y hy => hxs y (List.mem_cons_of_mem _ hy)
    rw [next_of_foo hf] at hps
    exact ⟨p :: ps, ⟨hv, f, hf, hps⟩, rfl⟩

namespace Inv
variable [Fintype ι]

omit [DecidableEq ι] in
theorem sound (h : Inv s) : Sound s := by
  classical
  refine ⟨h.fault, fun p f hf => ?_, fun i p hp => ?_, fun i p hpc j => ?_⟩
  · rw [← count_of_foo hf]
    exact ⟨h.counted.alive p (foo_ne_none hf), h.counted.count p⟩
  · obtain ⟨f, hf⟩ := h.counted.exists_foo_of_weight hp
    exact foo_ne_none hf
  · by_contra hne
    have hsole : (s.threads i).pc.sole = some p := by rw [hpc]; rfl
    have hj : 0 < (s.threads j).weight p := (Nat.pos_of_ne_zero hne).trans_le (Nat.le_add_right _ _)
    obtain rfl := h.counted.eq_of_sole hsole hj
    have hle := h.counted.weight_le i p
    rw [(h.counted.settled i).sole p hsole, Thread.weight_of_carried (Pc.carried_of_sole hsole)] at hle
    omega

omit [DecidableEq ι] in
theorem tabled (h : Inv s) : Tabled s := by
  obtain ⟨lists, hchained⟩ := h.chained
  refine ⟨fun k hk => ?_, fun i id hpc p hp hid => ?_⟩
  · have hmem : Cell.bucket k ∈ buckets π := ⟨k, hk, rfl⟩
    obtain ⟨ps, hps, hl⟩ := chain_of_links (hchained.dealt.linked _ hmem)
      fun y hy => hchained.dealt.mem_of_mem hmem hy
    have hnodup := hchained.dealt.nodup _ hmem
    rw [hl] at hnodup
    refine ⟨ps, hps, hnodup.of_map _, fun p => ?_⟩
    rw [← List.mem_map_of_injective (f := Cell.foo) (fun _ _ => Cell.foo.inj), ← hl]
    constructor
    · intro hp
      have hlinked : s.Linked p := mem_linked.mp (hchained.dealt.mem_of_mem hmem hp)
      have hbucket := hchained.dealt.apart _ hmem _ (s.bucketOf_mem p) _ hp (hchained.sorted p hlinked)
      exact ⟨hlinked, (Cell.bucket.inj hbucket).symm⟩
    · rintro ⟨hlinked, rfl⟩
      exact hchained.sorted p hlinked
  · obtain ⟨xs, ys, hl, hys, hxs⟩ := (hchained.placed i).passed id none hpc
    have hmem := hchained.sorted p hp
    rw [bucketOf, hid, hl] at hmem
    rcases List.mem_append.mp hmem with hmem | hmem
    · exact hxs p hmem hid
    · cases ys with
      | nil => cases hmem
      | cons y ys =>
        have hy : y ∈ s.linked := by
          apply hchained.dealt.mem_of_mem (bucket_mem id)
          rw [hl]
          exact List.mem_append_right xs List.mem_cons_self
        obtain ⟨q, rfl, -⟩ := hy
        cases hys

end Inv

theorem inv_of_run [Fintype ι] {turns : List (Turn ι π)} (h : runFrom step start turns = some s)
    (hroom : Along step HasRoom start turns) : Inv s :=
  hroom.invariant .start (fun _ _ _ hinv => hinv.step) s ⟨turns, List.prefix_rfl, h⟩

/-- Whatever threads share objects, and in whatever order they run, no object is freed too
early and none is freed while it is referenced, as long as the counts have room. -/
theorem objects_sound [Fintype ι] {turns : List (Turn ι π)} (h : runFrom step start turns = some s)
    (hroom : Along step HasRoom start turns) : Sound s := (inv_of_run h hroom).sound

theorem objects_tabled [Fintype ι] {turns : List (Turn ι π)} (h : runFrom step start turns = some s)
    (hroom : Along step HasRoom start turns) : Tabled s := (inv_of_run h hroom).tabled

/-- One thread makes an object and leaves a reference to another one, and both give theirs back. -/
def shareOne : List (Turn Bool ℕ) :=
  [.call false (.alloc 0 5)] ++ List.replicate 6 (.run false) ++
    [.call false (.hold 0)] ++ List.replicate 3 (.run false) ++ [.give false true 0] ++
    [.call true (.rele 0), .call false (.rele 0)] ++ List.replicate 4 (.run true) ++
    List.replicate 9 (.run false)

theorem objects_sound_shareOne : ∃ s, runFrom step start shareOne = some s ∧ Sound s := by
  obtain ⟨s, hs⟩ := Option.isSome_iff_exists.mp (show (runFrom step start shareOne).isSome by decide)
  exact ⟨s, hs, objects_sound hs (by decide)⟩

theorem objects_tabled_shareOne : ∃ s, runFrom step start shareOne = some s ∧ Tabled s := by
  obtain ⟨s, hs⟩ := Option.isSome_iff_exists.mp (show (runFrom step start shareOne).isSome by decide)
  exact ⟨s, hs, objects_tabled hs (by decide)⟩

end State
end CLib.Objects
