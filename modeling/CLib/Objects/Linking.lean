import CLib.Objects.Calls

namespace CLib.Objects
open CLib.Base
namespace State
variable {ι π : Type} {s t : State ι π} {i j : ι} {p q : π} {x : Thread π}
  {pc pc' : Pc π} {f : Foo ι π} {lists : Cell π → List (Cell π)}

theorem next_of_foo (hf : s.foo p = some f) : s.next (.foo p) = f.next := by
  rw [next, hf, Option.bind_some]

theorem idOf_of_foo (hf : s.foo p = some f) : s.idOf p = f.id := by
  rw [idOf, hf, Option.map_some, Option.getD_some]

theorem bucketOf_of_foo (hf : s.foo p = some f) : s.bucketOf p = .bucket (hash f.id) := by
  rw [bucketOf, idOf_of_foo hf]

theorem not_linked_of_unlinked (h : (s.threads i).pc.unlinked = some p) : ¬ s.Linked p :=
  fun hp => hp.2 i h

variable [DecidableEq π]

theorem next_setHead (s : State ι π) (k : ℕ) (v : Option π) :
    ({ s with fh := Function.update s.fh k v } : State ι π).next =
      Function.update s.next (.bucket k) v := by
  funext y
  cases y with
  | bucket j =>
    by_cases hj : j = k
    · rw [hj, Function.update_self]
      exact Function.update_self ..
    · rw [Function.update_of_ne (fun heq => hj (Cell.bucket.inj heq))]
      exact Function.update_of_ne hj ..
  | foo p =>
    have hne : Cell.foo p ≠ .bucket k := nofun
    rw [Function.update_of_ne hne, next, next]

theorem next_setNext (s : State ι π) (p : π) (f : Foo ι π) :
    (s.setFoo p f).next = Function.update s.next (.foo p) f.next := by
  funext y
  cases y with
  | bucket j =>
    have hne : Cell.bucket j ≠ .foo p := nofun
    rw [Function.update_of_ne hne, next, next, setFoo]
  | foo q =>
    by_cases hq : q = p
    · rw [hq, Function.update_self, next, foo_setFoo, Function.update_self, Option.bind_some]
    · rw [Function.update_of_ne (fun heq => hq (Cell.foo.inj heq)), next, foo_setFoo,
        Function.update_of_ne hq, next]

theorem owner_setNext (hf : s.foo p = some f) (v : Option π) :
    (s.setFoo p { f with next := v }).owner = s.owner := by
  have hself : Function.update s.owner p f.lock = s.owner :=
    Function.update_eq_self_iff.mpr (owner_of_foo hf).symm
  exact (owner_setFoo s p _).trans hself

theorem count_setNext (hf : s.foo p = some f) (v : Option π) :
    (s.setFoo p { f with next := v }).count = s.count := by
  have hself : Function.update s.count p f.count.toInt = s.count :=
    Function.update_eq_self_iff.mpr (count_of_foo hf).symm
  exact (count_setFoo s p _).trans hself

theorem bucketOf_setNext (hf : s.foo p = some f) (v : Option π) (q : π) :
    (s.setFoo p { f with next := v }).bucketOf q = s.bucketOf q := by
  by_cases hq : q = p
  · rw [hq, bucketOf_of_foo hf, bucketOf_of_foo (f := { f with next := v }) (Function.update_self ..)]
  · rw [bucketOf, idOf, foo_setFoo, Function.update_of_ne hq, bucketOf, idOf]

variable [DecidableEq ι]

omit [DecidableEq π] in
theorem linked_of_push (hthreads : t.threads = Function.update s.threads i x)
    (hfoo : ∀ q, t.foo q ≠ none ↔ s.foo q ≠ none) (hi : (s.threads i).pc.unlinked = some p)
    (hx : x.pc.unlinked = none) (hp : s.foo p ≠ none)
    (hothers : ∀ j, j ≠ i → (s.threads j).pc.unlinked ≠ some p) (q : π) :
    t.Linked q ↔ q = p ∨ s.Linked q := by
  have hpc : ∀ j, (t.threads j).pc.unlinked = some q ↔ j ≠ i ∧ (s.threads j).pc.unlinked = some q := by
    intro j
    rw [hthreads]
    by_cases hj : j = i
    · rw [hj, Function.update_self, hx]
      exact iff_of_false nofun fun h => h.1 rfl
    · rw [Function.update_of_ne hj, and_iff_right hj]
  rw [Linked, hfoo]
  simp only [ne_eq, hpc, not_and]
  constructor
  · rintro ⟨hq, hall⟩
    by_cases hqp : q = p
    · exact .inl hqp
    · refine .inr ⟨hq, fun j => ?_⟩
      by_cases hj : j = i
      · rw [hj, hi]
        exact fun heq => hqp (Option.some.inj heq).symm
      · exact hall j hj
  · rintro (rfl | ⟨hq, hall⟩)
    · exact ⟨hp, hothers⟩
    · exact ⟨hq, fun j _ => hall j⟩

omit [DecidableEq π] in
theorem linked_of_unlink (hthreads : t.threads = Function.update s.threads i x)
    (hfoo : ∀ q, t.foo q ≠ none ↔ s.foo q ≠ none) (hi : (s.threads i).pc.unlinked = none)
    (hx : x.pc.unlinked = some p) (q : π) : t.Linked q ↔ s.Linked q ∧ q ≠ p := by
  have hpc : ∀ j, (t.threads j).pc.unlinked = some q ↔
      j = i ∧ q = p ∨ (s.threads j).pc.unlinked = some q := by
    intro j
    rw [hthreads]
    by_cases hj : j = i
    · rw [hj, Function.update_self, hx, hi, Option.some.injEq]
      simp [eq_comm]
    · rw [Function.update_of_ne hj]
      simp [hj]
  rw [Linked, hfoo]
  simp only [ne_eq, hpc, not_or, not_and]
  constructor
  · rintro ⟨hq, hall⟩
    exact ⟨⟨hq, fun j => (hall j).2⟩, (hall i).1 rfl⟩
  · rintro ⟨⟨hq, hall⟩, hqp⟩
    exact ⟨hq, fun j => ⟨fun _ => hqp, hall j⟩⟩

omit [DecidableEq π] [DecidableEq ι] in
theorem foo_ne_none (hf : s.foo p = some f) : s.foo p ≠ none := by
  rw [hf]
  exact Option.some_ne_none f

namespace Inv
variable [Fintype ι]

theorem placed_of_holdsHash (h : Inv s) (hi : (s.threads i).pc.holdsHash)
    (hthreads : t.threads = Function.update s.threads i x) (hx : ∀ lists, t.Placed lists x.pc) (j : ι)
    (lists : Cell π → List (Cell π)) : t.Placed lists (t.threads j).pc := by
  rw [hthreads]
  by_cases hj : j = i
  · rw [hj, Function.update_self]
    exact hx lists
  · rw [Function.update_of_ne hj]
    apply Placed.of_not_holdsHash
    rw [Bool.eq_false_iff]
    exact fun hhash => hj (h.counted.eq_of_holdsHash hi hhash)

theorem carried_ne_of_sole (h : Inv s) (hpc : (s.threads i).pc = pc) (hp : pc.sole = some p) (j : ι)
    (hj : j ≠ i) : (s.threads j).pc.carried ≠ some p := by
  subst hpc
  exact fun hc => hj (h.counted.eq_of_sole hp (Thread.weight_pos_of_carried hc)).symm

omit [DecidableEq ι] in
/-- A thread that has the only reference keeps it. -/
theorem settled_of_sole (h : Inv s) {refs : π → ℕ} (hpc : (s.threads i).pc = pc) (hp : pc.sole = some p)
    (hp' : pc'.sole = some p) (hshared : pc'.shared = none) (hgiven : pc'.given = none)
    (hfree : ∀ q, pc' ≠ .free q) : s.Settled ⟨pc', refs⟩ := by
  refine ⟨fun q hq => ?_, fun q hq => ?_, fun q hq => absurd hq (hfree q), fun q hq => ?_⟩
  · rw [← Option.some.inj (hp'.symm.trans hq)]
    exact h.count_of_sole hpc hp
  · rw [show pc'.shared = none from hshared] at hq
    cases hq
  · rw [show pc'.given = none from hgiven] at hq
    cases hq

theorem allocNext (h : Inv s) (hpc : (s.threads i).pc = .allocNext p)
    (ht : (s.deref p fun f => some ((s.setFoo p { f with next := s.fh (hash f.id) }).goto i
      (.allocHead p))) = some t) : Inv t := by
  obtain ⟨f, hf⟩ := h.exists_foo hpc rfl
  rw [deref_some hf] at ht
  obtain rfl := Option.some.inj ht
  obtain ⟨lists, hchained⟩ := h.chained
  have hunlinked : (s.threads i).pc.unlinked = some p := by rw [hpc]; rfl
  have hnew : (s.setFoo p { f with next := s.fh (hash f.id) }).next (.foo p) =
      (s.setFoo p { f with next := s.fh (hash f.id) }).next
        ((s.setFoo p { f with next := s.fh (hash f.id) }).bucketOf p) := by
    rw [bucketOf_setNext hf, bucketOf_of_foo hf, next_setNext, Function.update_self,
      Function.update_of_ne (show Cell.bucket (hash f.id) ≠ .foo p by rintro ⟨⟩)]
    rfl
  have hsettled : s.Settled ⟨.allocHead p, (s.threads i).refs⟩ :=
    h.settled_of_sole hpc rfl rfl rfl rfl (by rintro _ ⟨⟩)
  refine ⟨h.fault, ?_, lists, ?_⟩
  · refine h.counted.goto rfl (h.counted.hash.keep (by rw [hpc]; rfl)) (owner_setNext hf _)
      (count_setNext hf _) (fun q => foo_setFoo_ne_none hf _) (by rw [hpc]; rfl) (fun q => ?_) hsettled
    rw [Thread.weight, Thread.weight, hpc]
    rfl
  · refine hchained.outside (p := p) rfl rfl (fun q hq => Function.update_of_ne hq ..)
      (not_linked_of_unlinked hunlinked) (not_linked_of_unlinked (i := i) ?_) (fun q _ => ?_)
      (h.carried_ne_of_sole hpc rfl) (.of_allocHead hnew)
    · rw [State.goto, threads_setThread, Function.update_self]
      rfl
    · rw [hunlinked]
      exact Iff.rfl

theorem allocHead (h : Inv s) (hpc : (s.threads i).pc = .allocHead p)
    (ht : (s.deref p fun f => some ({ s with fh := Function.update s.fh (hash f.id) (some p) }.goto i
      (.allocFooLock p))) = some t) : Inv t := by
  obtain ⟨f, hf⟩ := h.exists_foo hpc rfl
  rw [deref_some hf] at ht
  obtain rfl := Option.some.inj ht
  obtain ⟨lists, hchained⟩ := h.chained
  have hunlinked : (s.threads i).pc.unlinked = some p := by rw [hpc]; rfl
  have hbucket := bucketOf_of_foo hf
  refine ⟨h.fault, ?_, _, hchained.push (not_linked_of_unlinked hunlinked)
    ((hchained.placed i).fresh p hpc) ?_ (linked_of_push rfl (fun _ => Iff.rfl) hunlinked rfl
    (foo_ne_none hf) fun j hj hj' => h.carried_ne_of_sole hpc rfl j hj
      (Pc.carried_of_sole (Pc.sole_of_unlinked hj'))) (fun _ => rfl)
    (h.placed_of_holdsHash (by rw [hpc]; rfl) rfl fun _ => .of_reached nofun nofun nofun nofun nofun)⟩
  · refine h.counted.goto rfl (h.counted.hash.keep (by rw [hpc]; rfl)) rfl rfl (fun _ hq => hq)
      (by rw [hpc]; rfl) (fun q => ?_) (.of_none rfl rfl rfl nofun)
    rw [Thread.weight, Thread.weight, hpc]
    rfl
  · rw [hbucket]
    exact next_setHead s _ _

theorem findHead (h : Inv s) {id : ℤ} (hpc : (s.threads i).pc = .findHead id) :
    Inv (s.goto i (.findTest id (s.fh (hash id)))) := by
  refine h.goto hpc rfl rfl rfl rfl (.of_none rfl rfl rfl nofun) fun lists hchained =>
    .of_findTest (fun q hq => hchained.linked_of_fh hq) ⟨[], _, rfl,
      Cell.head_of_links (hchained.dealt.linked _ (bucket_mem id)), nofun⟩

theorem findTest (h : Inv s) {id : ℤ} (hpc : (s.threads i).pc = .findTest id (some p))
    (ht : (s.deref p fun f => some (s.goto i (if f.id = id then .holdLock true p
      else .findTest id f.next))) = some t) : Inv t := by
  obtain ⟨lists, hchained⟩ := h.chained
  have hlinked : s.Linked p := (hchained.placed i).reached p (by rw [hpc]; rfl)
  obtain ⟨f, hf⟩ := Option.ne_none_iff_exists'.mp hlinked.1
  rw [deref_some hf] at ht
  obtain rfl := Option.some.inj ht
  split_ifs with hid
  · refine h.goto hpc rfl rfl rfl rfl (.of_none rfl rfl rfl (by rintro _ ⟨⟩)) fun _ _ =>
      .of_reached (fun q hq => ?_) (by rintro _ ⟨⟩) (by rintro _ _ ⟨⟩) (by rintro _ _ ⟨⟩)
        (by rintro _ _ ⟨⟩)
    obtain rfl := Option.some.inj hq
    exact hlinked
  · refine h.goto hpc rfl rfl rfl rfl (.of_none rfl rfl rfl (by rintro _ ⟨⟩)) fun lists' hchained' =>
      .of_findTest (fun q hq => hchained'.linked_of_next hlinked ((next_of_foo hf).trans hq)) ?_
    obtain ⟨xs, ys, hl, hp, hxs⟩ := (hchained'.placed i).passed id _ hpc
    obtain ⟨ys, rfl⟩ := Cell.eq_cons_of_head hp
    have hlinks := hchained'.dealt.linked _ (bucket_mem id)
    rw [hl] at hlinks
    refine ⟨xs ++ [.foo p], ys, by rw [hl, List.append_assoc]; rfl,
      (next_of_foo hf).symm.trans (Cell.head_of_links hlinks.of_append), fun q hq => ?_⟩
    rcases List.mem_append.mp hq with hq | hq
    · exact hxs q hq
    · obtain rfl := Cell.foo.inj (List.mem_singleton.mp hq)
      rw [idOf_of_foo hf]
      exact hid

theorem counted_remove (h : Inv s) (hpc : (s.threads i).pc = pc) (hi : pc.holdsHash)
    (hlocked : pc.locked = some p) (hsole : pc.sole = some p)
    (hthreads : t.threads = Function.update s.threads i ⟨.freeUnlock p, (s.threads i).refs⟩)
    (hhash : t.hashlock = s.hashlock) (howner : t.owner = s.owner) (hcount : t.count = s.count)
    (halive : ∀ q, t.foo q ≠ none → s.foo q ≠ none) : Counted t := by
  subst hpc
  refine h.counted.goto hthreads ?_ howner hcount halive hlocked.symm (fun q => ?_)
    (h.settled_of_sole rfl hsole rfl rfl rfl nofun)
  · rw [hthreads, hhash]
    exact h.counted.hash.keep hi.symm
  · rw [Thread.weight, Thread.weight, Pc.carried_of_sole hsole]
    rfl

theorem removeHead (h : Inv s) (hpc : (s.threads i).pc = .removeHead p)
    (ht : (s.deref p fun f =>
      if s.fh (hash f.id) = some p then
        some ({ s with fh := Function.update s.fh (hash f.id) f.next }.goto i (.freeUnlock p))
      else some (s.goto i (.removeSearch p (s.fh (hash f.id))))) = some t) : Inv t := by
  obtain ⟨f, hf⟩ := h.exists_foo hpc rfl
  obtain ⟨lists, hchained⟩ := h.chained
  have hlinked := h.linked_of_sole hpc rfl rfl
  have hbucket := bucketOf_of_foo hf
  rw [deref_some hf] at ht
  split_ifs at ht with hhead
  · obtain rfl := Option.some.inj ht
    obtain ⟨ys, hl⟩ := hchained.head_of_next hlinked (by rw [hbucket]; exact hhead)
    have hl : lists (s.bucketOf p) = [] ++ .foo p :: ys := hl
    refine ⟨h.fault, h.counted_remove hpc rfl rfl rfl rfl rfl rfl rfl fun _ hq => hq, _,
      hchained.unlink hl ?_ (linked_of_unlink rfl (fun _ => Iff.rfl) (by rw [hpc]; rfl) rfl)
        (fun _ => rfl)
        (h.placed_of_holdsHash (by rw [hpc]; rfl) rfl fun _ => .of_reached nofun nofun nofun nofun nofun)⟩
    rw [List.getLast_singleton, hbucket, next_of_foo hf]
    exact next_setHead s _ _
  · obtain rfl := Option.some.inj ht
    refine h.goto hpc rfl rfl rfl rfl (h.settled_of_sole hpc rfl rfl rfl rfl nofun) fun lists' hchained' =>
      .of_removeSearch ?_
    rw [← show s.next (s.bucketOf p) = s.fh (hash f.id) by rw [hbucket]; rfl] at hhead ⊢
    exact hchained'.search_of_head hlinked hhead

theorem removeSearch (h : Inv s) {v : Option π} (hpc : (s.threads i).pc = .removeSearch p v)
    (ht : (s.deref v fun g => some (s.goto i (if g.next = some p then .removeNext p v
      else .removeSearch p g.next))) = some t) : Inv t := by
  obtain ⟨lists, hchained⟩ := h.chained
  obtain ⟨xs, y, ys, zs, rfl, hl⟩ := (hchained.placed i).search p v hpc
  have hy : s.Linked y := mem_linked.mp (hchained.dealt.mem_of_mem (s.bucketOf_mem p) (by simp [hl]))
  obtain ⟨g, hg⟩ := Option.ne_none_iff_exists'.mp hy.1
  have hnext := next_of_foo hg
  have hsettled {v : Option π} : s.Settled ⟨.removeSearch p v, (s.threads i).refs⟩ :=
    h.settled_of_sole hpc rfl rfl rfl rfl (by rintro _ ⟨⟩)
  rw [deref_some hg] at ht
  obtain rfl := Option.some.inj ht
  split_ifs with hfound
  · refine h.goto hpc rfl rfl rfl rfl (h.settled_of_sole hpc rfl rfl rfl rfl (by rintro _ ⟨⟩))
      fun lists' hchained' => .of_removeNext ?_
    obtain ⟨xs', y', ys', zs', hy', hl'⟩ := (hchained'.placed i).search p _ hpc
    obtain rfl := Option.some.inj hy'
    obtain rfl := (hchained'.search_step hl').1 (hnext.trans hfound)
    exact ⟨xs', y, zs', rfl, hl'⟩
  · refine h.goto hpc rfl rfl rfl rfl hsettled fun lists' hchained' =>
      .of_removeSearch ?_
    obtain ⟨xs', y', ys', zs', hy', hl'⟩ := (hchained'.placed i).search p _ hpc
    obtain rfl := Option.some.inj hy'
    obtain ⟨z, ys'', hz, hl''⟩ := (hchained'.search_step hl').2 (hnext ▸ hfound)
    exact ⟨_, z, ys'', zs', hnext.symm.trans hz, hl''⟩

theorem removeNext (h : Inv s) {y : π} (hpc : (s.threads i).pc = .removeNext p (some y))
    (ht : (s.deref p fun f => s.deref (some y) fun g =>
      some ((s.setFoo y { g with next := f.next }).goto i (.freeUnlock p))) = some t) : Inv t := by
  obtain ⟨f, hf⟩ := h.exists_foo hpc rfl
  obtain ⟨lists, hchained⟩ := h.chained
  obtain ⟨xs, y', zs, hy', hl⟩ := (hchained.placed i).adjacent p _ hpc
  obtain rfl := Option.some.inj hy'
  have hy : s.Linked y := mem_linked.mp (hchained.dealt.mem_of_mem (s.bucketOf_mem p) (by simp [hl]))
  obtain ⟨g, hg⟩ := Option.ne_none_iff_exists'.mp hy.1
  rw [deref_some hf, deref_some hg] at ht
  obtain rfl := Option.some.inj ht
  have hfoo : ∀ q, (s.setFoo y { g with next := f.next }).foo q ≠ none ↔ s.foo q ≠ none := by
    intro q
    by_cases hq : q = y
    · rw [hq, foo_setFoo, Function.update_self]
      exact iff_of_true (Option.some_ne_none _) (foo_ne_none hg)
    · rw [foo_setFoo, Function.update_of_ne hq]
  have hl' : lists (s.bucketOf p) = (xs ++ [.foo y]) ++ .foo p :: zs := by
    rw [hl, List.append_assoc]
    rfl
  refine ⟨h.fault, h.counted_remove hpc rfl rfl rfl rfl rfl (owner_setNext hg _) (count_setNext hg _)
    fun q => (hfoo q).mp, _, hchained.unlink hl' ?_
    (linked_of_unlink rfl hfoo (by rw [hpc]; rfl) rfl) (bucketOf_setNext hg _)
    (h.placed_of_holdsHash (by rw [hpc]; rfl) rfl fun _ => .of_reached nofun nofun nofun nofun nofun)⟩
  have hlast : (s.bucketOf p :: (xs ++ [.foo y])).getLast (List.cons_ne_nil _ _) = .foo y := by
    rw [List.getLast_cons (by simp), List.getLast_append_singleton]
  rw [hlast, next_of_foo hf]
  exact next_setNext s y _

theorem freeFooUnlock (h : Inv s) (hpc : (s.threads i).pc = .freeFooUnlock p)
    (ht : (s.unlockFoo p fun t => t.goto i (.free p)) = some t) : Inv t := by
  refine h.unlockFoo (x := ⟨.free p, (s.threads i).refs⟩) (by rw [hpc]; rfl) (fun _ => rfl) rfl
    (by rw [hpc]; rfl) (by rw [hpc]; rfl) (fun q => ?_) (fun q hq => ?_) rfl rfl
    (fun q hq => (Pc.free.inj hq).symm) (fun _ _ => .of_not_holdsHash rfl) ht
  · rw [Thread.weight, Thread.weight, hpc]
    rfl
  · rw [hpc]
    exact hq

theorem free (h : Inv s) (hpc : (s.threads i).pc = .free p)
    (ht : (s.deref p fun _ => some ({ s with foo := Function.update s.foo p none }.goto i .idle)) =
      some t) : Inv t := by
  obtain ⟨f, hf⟩ := h.exists_foo hpc rfl
  obtain ⟨lists, hchained⟩ := h.chained
  rw [deref_some hf] at ht
  obtain rfl := Option.some.inj ht
  have hunlinked : (s.threads i).pc.unlinked = some p := by rw [hpc]; rfl
  refine ⟨h.fault, h.counted.free hpc rfl rfl rfl, lists, hchained.outside (p := p) rfl rfl
    (fun q hq => Function.update_of_ne hq ..) (not_linked_of_unlinked hunlinked)
    (fun hp => hp.1 (Function.update_self ..)) (fun q hq => ?_) (h.carried_ne_of_sole hpc rfl)
    (.of_not_holdsHash rfl)⟩
  rw [hunlinked]
  exact iff_of_false nofun fun heq => hq (Option.some.inj heq).symm

theorem findUnlock (h : Inv s) (hpc : (s.threads i).pc = .findUnlock (some p)) :
    Inv (s.unlockHash.ret i p) :=
  h.unlockHash (x := { (s.threads i).gain p with pc := .idle }) (by rw [hpc]; rfl) rfl (by rw [hpc]; rfl)
    (by rw [hpc]; rfl) (weight_ret (by rw [hpc]; rfl)) (.of_none rfl rfl rfl nofun)

end Inv
end State
end CLib.Objects
