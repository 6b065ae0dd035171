import CLib.Base.Links
import CLib.Objects.Counts

namespace CLib.Objects
open CLib.Base

/-- Where a pointer of the table is kept: in a bucket, or in the `f_next` of an object. -/
inductive Cell (π : Type)
  | bucket (j : ℕ)
  | foo (p : π)
  deriving DecidableEq

namespace Cell
variable {π : Type}

def addr : Cell π → Option π
  | .bucket _ => none
  | .foo p => some p

theorem eq_foo_of_addr {x : Cell π} {p : π} (h : x.addr = some p) : x = .foo p := by
  cases x with
  | bucket j => cases h
  | foo q => rw [Option.some.inj h]

theorem head_of_links {next : Cell π → Option π} {t : Option π} {xs : List (Cell π)}
    (h : Links none addr next t xs) : t = xs.head?.bind addr := by
  cases xs with
  | nil => exact h
  | cons x xs => exact h.1

theorem eq_cons_of_head {p : π} {xs : List (Cell π)} (h : some p = xs.head?.bind addr) :
    ∃ ys, xs = .foo p :: ys := by
  cases xs with
  | nil => cases h
  | cons x xs => exact ⟨xs, by rw [eq_foo_of_addr h.symm]⟩

end Cell

/-- The buckets that `HASH` leads to. -/
def buckets (π : Type) : Set (Cell π) := {x | ∃ j < nhash, x = .bucket j}

theorem bucket_mem {π : Type} (id : ℤ) : .bucket (hash id) ∈ buckets π :=
  ⟨_, Nat.mod_lt _ (by decide), rfl⟩

namespace Pc
variable {π : Type} {pc : Pc π} {p : π}

/-- The object that a thread has come to through the table. -/
def reached : Pc π → Option π
  | .findTest _ fp => fp
  | .holdLock true fp | .holdCount true fp => some fp
  | _ => none

theorem holdsHash_of_reached (h : pc.reached = some p) : pc.holdsHash := by
  cases pc with
  | holdLock finding fp => cases finding <;> first | rfl | cases h
  | holdCount finding fp => cases finding <;> first | rfl | cases h
  | _ => first | rfl | cases h

end Pc

namespace State
variable {ι π : Type} {s t : State ι π} {i j : ι} {p q : π} {x : Thread π} {f : Foo ι π}
  {lists : Cell π → List (Cell π)}

def next (s : State ι π) : Cell π → Option π
  | .bucket j => s.fh j
  | .foo p => (s.foo p).bind Foo.next

def idOf (s : State ι π) (p : π) : ℤ := ((s.foo p).map Foo.id).getD 0

def bucketOf (s : State ι π) (p : π) : Cell π := .bucket (hash (s.idOf p))

/-- The object is in the table. -/
def Linked (s : State ι π) (p : π) : Prop :=
  s.foo p ≠ none ∧ ∀ i, (s.threads i).pc.unlinked ≠ some p

def linked (s : State ι π) : Set (Cell π) := {x | ∃ p, x = .foo p ∧ s.Linked p}

/-- What the place of a thread says about the table. -/
structure Placed (s : State ι π) (lists : Cell π → List (Cell π)) (pc : Pc π) : Prop where
  reached : ∀ p, pc.reached = some p → s.Linked p
  fresh : ∀ p, pc = .allocHead p → s.next (.foo p) = s.next (s.bucketOf p)
  search : ∀ p t, pc = .removeSearch p t → ∃ xs y ys zs, t = some y ∧
    lists (s.bucketOf p) = xs ++ .foo y :: (ys ++ .foo p :: zs)
  adjacent : ∀ p t, pc = .removeNext p t → ∃ xs y zs, t = some y ∧
    lists (s.bucketOf p) = xs ++ .foo y :: .foo p :: zs
  passed : ∀ id t, pc = .findTest id t → ∃ xs ys, lists (.bucket (hash id)) = xs ++ ys ∧
    t = ys.head?.bind Cell.addr ∧ ∀ q, .foo q ∈ xs → s.idOf q ≠ id

/-- The objects in the table are in the lists of their buckets. -/
structure Chained (s : State ι π) (lists : Cell π → List (Cell π)) : Prop where
  dealt : Dealt none Cell.addr s.next (buckets π) s.linked lists
  sorted : ∀ p, s.Linked p → .foo p ∈ lists (s.bucketOf p)
  placed : ∀ i, s.Placed lists (s.threads i).pc

theorem mem_linked : .foo p ∈ s.linked ↔ s.Linked p := by
  constructor
  · rintro ⟨q, hq, hlinked⟩
    rwa [Cell.foo.inj hq]
  · exact fun h => ⟨p, rfl, h⟩

theorem bucketOf_mem (s : State ι π) (p : π) : s.bucketOf p ∈ buckets π := bucket_mem _

theorem foo_notMem_buckets (p : π) : Cell.foo p ∉ buckets π := by
  rintro ⟨j, -, h⟩
  cases h

theorem Placed.of_not_holdsHash {pc : Pc π} (h : pc.holdsHash = false) : s.Placed lists pc := by
  refine ⟨fun p hp => ?_, fun p hp => ?_, fun p t hp => ?_, fun p t hp => ?_, fun id t hp => ?_⟩
  · rw [Pc.holdsHash_of_reached hp] at h
    cases h
  all_goals
    rw [hp] at h
    cases h

/-- What is known of the table under `hashlock` is about objects that stay as they are. -/
theorem Placed.congr {pc : Pc π} (h : s.Placed lists pc) (hfh : t.fh = s.fh)
    (hlinked : ∀ p, s.Linked p → t.Linked p)
    (hnext : ∀ p, pc.carried = some p → t.next (.foo p) = s.next (.foo p))
    (hid : ∀ p, pc.carried = some p → t.idOf p = s.idOf p)
    (hpassed : ∀ id q, .foo q ∈ lists (.bucket (hash id)) → t.idOf q = s.idOf q) :
    t.Placed lists pc := by
  have hbucket : ∀ p, pc.carried = some p → t.bucketOf p = s.bucketOf p := by
    intro p hp
    rw [bucketOf, bucketOf, hid p hp]
  refine ⟨fun p hp => hlinked p (h.reached p hp), fun p hp => ?_, fun p t' hp => ?_, fun p t' hp => ?_,
    fun id t' hp => ?_⟩
  · have hcarried : pc.carried = some p := by rw [hp]; rfl
    have hhead : t.next (s.bucketOf p) = s.next (s.bucketOf p) := congrFun hfh _
    rw [hnext p hcarried, hbucket p hcarried, hhead]
    exact h.fresh p hp
  · rw [hbucket p (by rw [hp]; rfl)]
    exact h.search p t' hp
  · rw [hbucket p (by rw [hp]; rfl)]
    exact h.adjacent p t' hp
  · obtain ⟨xs, ys, hl, ht, hxs⟩ := h.passed id t' hp
    refine ⟨xs, ys, hl, ht, fun q hq => ?_⟩
    rw [hpassed id q (by rw [hl]; exact List.mem_append_left ys hq)]
    exact hxs q hq

variable [DecidableEq ι]

theorem linked_congr (hthreads : t.threads = Function.update s.threads i x)
    (hfoo : ∀ p, t.foo p ≠ none ↔ s.foo p ≠ none)
    (hunlinked : x.pc.unlinked = (s.threads i).pc.unlinked) (p : π) : t.Linked p ↔ s.Linked p := by
  have hpc : ∀ j, (t.threads j).pc.unlinked = (s.threads j).pc.unlinked := by
    intro j
    rw [hthreads]
    by_cases hj : j = i
    · rw [hj, Function.update_self, hunlinked]
    · rw [Function.update_of_ne hj]
  simp only [Linked, hfoo, hpc]

namespace Chained

omit [DecidableEq ι] in
/-- Only the pointers of the buckets and of the objects in the table count. -/
theorem congr (h : Chained s lists) (hlinked : ∀ q, t.Linked q ↔ s.Linked q)
    (hnext : ∀ y, y ∈ buckets π ∨ y ∈ s.linked → t.next y = s.next y)
    (hbucket : ∀ q, s.Linked q → t.bucketOf q = s.bucketOf q)
    (hplaced : ∀ j, t.Placed lists (t.threads j).pc) : Chained t lists := by
  have hset : t.linked = s.linked := by
    ext y
    simp only [linked, hlinked]
  refine ⟨?_, fun q hq => ?_, hplaced⟩
  · rw [hset]
    exact h.dealt.congr (fun _ _ => rfl) hnext
  · have hq' := (hlinked q).mp hq
    rw [hbucket q hq']
    exact h.sorted q hq'

omit [DecidableEq ι] in
theorem linked_of_mem (h : Chained s lists) {id : ℤ} (hp : .foo p ∈ lists (.bucket (hash id))) :
    s.Linked p :=
  mem_linked.mp (h.dealt.mem_of_mem (bucket_mem id) hp)

theorem goto (h : Chained s lists) (hthreads : t.threads = Function.update s.threads i x)
    (hfh : t.fh = s.fh) (hnext : ∀ p, t.next (.foo p) = s.next (.foo p))
    (hid : ∀ p, t.idOf p = s.idOf p) (hfoo : ∀ p, t.foo p ≠ none ↔ s.foo p ≠ none)
    (hunlinked : x.pc.unlinked = (s.threads i).pc.unlinked) (hx : s.Placed lists x.pc) :
    Chained t lists := by
  have hlinked := linked_congr hthreads hfoo hunlinked
  apply h.congr hlinked
  · intro y _
    cases y with
    | bucket j => exact congrFun hfh j
    | foo p => exact hnext p
  · intro p _
    rw [bucketOf, bucketOf, hid]
  · intro j
    have hplaced : s.Placed lists (t.threads j).pc := by
      rw [hthreads]
      by_cases hj : j = i
      · rw [hj, Function.update_self]
        exact hx
      · rw [Function.update_of_ne hj]
        exact h.placed j
    exact hplaced.congr hfh (fun p hp => (hlinked p).mpr hp) (fun p _ => hnext p) (fun p _ => hid p)
      fun _ q _ => hid q

theorem outside (h : Chained s lists) (hthreads : t.threads = Function.update s.threads i x)
    (hfh : t.fh = s.fh) (hfoo : ∀ q, q ≠ p → t.foo q = s.foo q) (hp : ¬ s.Linked p)
    (hp' : ¬ t.Linked p)
    (hunlinked : ∀ q, q ≠ p → (x.pc.unlinked = some q ↔ (s.threads i).pc.unlinked = some q))
    (hothers : ∀ j, j ≠ i → (s.threads j).pc.carried ≠ some p) (hx : t.Placed lists x.pc) :
    Chained t lists := by
  have hid : ∀ q, q ≠ p → t.idOf q = s.idOf q := by
    intro q hq
    rw [idOf, idOf, hfoo q hq]
  have hnext : ∀ q, q ≠ p → t.next (.foo q) = s.next (.foo q) := by
    intro q hq
    rw [next, next, hfoo q hq]
  have hlinked : ∀ q, t.Linked q ↔ s.Linked q := by
    intro q
    by_cases hq : q = p
    · rw [hq]
      exact iff_of_false hp' hp
    · have hpc : ∀ j, (t.threads j).pc.unlinked = some q ↔ (s.threads j).pc.unlinked = some q := by
        intro j
        rw [hthreads]
        by_cases hj : j = i
        · rw [hj, Function.update_self, hunlinked q hq]
        · rw [Function.update_of_ne hj]
      simp only [Linked, hfoo q hq, ne_eq, hpc]
  have hne : ∀ q, s.Linked q → q ≠ p := by
    rintro q hq rfl
    exact hp hq
  apply h.congr hlinked
  · rintro y (⟨j, -, rfl⟩ | ⟨q, rfl, hq⟩)
    · exact congrFun hfh j
    · exact hnext q (hne q hq)
  · intro q hq
    rw [bucketOf, bucketOf, hid q (hne q hq)]
  · intro j
    rw [hthreads]
    by_cases hj : j = i
    · rw [hj, Function.update_self]
      exact hx
    · have hcarried : ∀ q, (s.threads j).pc.carried = some q → q ≠ p := by
        rintro q hq rfl
        exact hothers j hj hq
      rw [Function.update_of_ne hj]
      exact (h.placed j).congr hfh (fun q hq => (hlinked q).mpr hq) (fun q hq => hnext q (hcarried q hq))
        (fun q hq => hid q (hcarried q hq)) fun _ q hq => hid q (hne q (h.linked_of_mem hq))

variable [DecidableEq π]

theorem setFoo (h : Chained s lists) (hf : s.foo p = some f) {f' : Foo ι π} (hid : f'.id = f.id)
    (hnext : f'.next = f.next) (hunlinked : x.pc.unlinked = (s.threads i).pc.unlinked)
    (hx : s.Placed lists x.pc) : Chained ((s.setFoo p f').setThread i x) lists := by
  have hfoo : ∀ q, ((s.setFoo p f').setThread i x).foo q = if q = p then some f' else s.foo q :=
    fun q => Function.update_apply ..
  refine h.goto rfl rfl (fun q => ?_) (fun q => ?_) (fun q => ?_) hunlinked hx
  · rw [next, hfoo, next]
    split_ifs with hq
    · rw [hq, hf, Option.bind_some, Option.bind_some, hnext]
    · rfl
  · rw [idOf, hfoo, idOf]
    split_ifs with hq
    · rw [hq, hf, Option.map_some, Option.map_some, hid]
    · rfl
  · rw [hfoo]
    split_ifs with hq
    · rw [hq, hf]
      exact iff_of_true (Option.some_ne_none _) (Option.some_ne_none _)
    · rfl

omit [DecidableEq ι] in
theorem push (h : Chained s lists) (hp : ¬ s.Linked p) (hfresh : s.next (.foo p) = s.next (s.bucketOf p))
    (hnext : t.next = Function.update s.next (s.bucketOf p) (some p))
    (hlinked : ∀ q, t.Linked q ↔ q = p ∨ s.Linked q) (hbucket : ∀ q, t.bucketOf q = s.bucketOf q)
    (hplaced : ∀ j lists', t.Placed lists' (t.threads j).pc) :
    Chained t (Function.update lists (s.bucketOf p) (.foo p :: lists (s.bucketOf p))) := by
  have hpush := h.dealt.push (s.bucketOf_mem p) (fun hmem => hp (mem_linked.mp hmem))
    (foo_notMem_buckets p) (Option.some_ne_none p)
  have hset : t.linked = insert (.foo p) s.linked := by
    ext y
    rw [Set.mem_insert_iff]
    cases y with
    | bucket j =>
      constructor
      · rintro ⟨q, hq, -⟩
        cases hq
      · rintro (hq | ⟨q, hq, -⟩) <;> cases hq
    | foo q => rw [mem_linked, hlinked, mem_linked, Cell.foo.injEq]
  have hself : Function.update s.next (.foo p) (s.next (s.bucketOf p)) = s.next :=
    Function.update_eq_self_iff.mpr hfresh.symm
  refine ⟨?_, fun q hq => ?_, fun j => hplaced j _⟩
  · rw [hset, hnext]
    rwa [hself] at hpush
  · rw [hbucket, Dealt.mem_push_iff]
    rcases (hlinked q).mp hq with rfl | hq
    · exact .inl ⟨rfl, rfl⟩
    · exact .inr (h.sorted q hq)

omit [DecidableEq ι] in
theorem unlink (h : Chained s lists) {xs ys : List (Cell π)}
    (hl : lists (s.bucketOf p) = xs ++ .foo p :: ys)
    (hnext : t.next = Function.update s.next
      ((s.bucketOf p :: xs).getLast (List.cons_ne_nil _ xs)) (s.next (.foo p)))
    (hlinked : ∀ q, t.Linked q ↔ s.Linked q ∧ q ≠ p) (hbucket : ∀ q, t.bucketOf q = s.bucketOf q)
    (hplaced : ∀ j lists', t.Placed lists' (t.threads j).pc) :
    Chained t (Function.update lists (s.bucketOf p) (xs ++ ys)) := by
  have hremove := h.dealt.remove (s.bucketOf_mem p) hl
  have hset : t.linked = s.linked \ {.foo p} := by
    ext y
    rw [Set.mem_sdiff, Set.mem_singleton_iff]
    cases y with
    | bucket j =>
      constructor
      · rintro ⟨q, hq, -⟩
        cases hq
      · rintro ⟨⟨q, hq, -⟩, -⟩
        cases hq
    | foo q => rw [mem_linked, hlinked, mem_linked, Cell.foo.injEq]
  refine ⟨?_, fun q hq => ?_, fun j => hplaced j _⟩
  · rw [hset, hnext]
    exact hremove
  · obtain ⟨hq, hqp⟩ := (hlinked q).mp hq
    rw [hbucket, h.dealt.mem_remove_iff (s.bucketOf_mem p) (s.bucketOf_mem q) hl]
    exact ⟨h.sorted q hq, fun hqp' => hqp (Cell.foo.inj hqp')⟩

omit [DecidableEq ι] [DecidableEq π] in
theorem linked_of_fh (h : Chained s lists) {id : ℤ} (hp : s.fh (hash id) = some p) : s.Linked p := by
  rcases (h.dealt.linked _ (bucket_mem id)).exists_addr with hnone | ⟨y, hy, haddr⟩
  · rw [show s.next (.bucket (hash id)) = some p from hp] at hnone
    cases hnone
  · have hy' := Cell.eq_foo_of_addr (haddr.symm.trans hp)
    exact mem_linked.mp (hy' ▸ h.dealt.mem_of_mem (bucket_mem id) hy)

omit [DecidableEq ι] [DecidableEq π] in
theorem linked_of_next (h : Chained s lists) (hq : s.Linked q) (hp : s.next (.foo q) = some p) :
    s.Linked p := by
  obtain ⟨xs, ys, hl⟩ := List.append_of_mem (h.sorted q hq)
  have hlinks := h.dealt.linked _ (s.bucketOf_mem q)
  rw [hl] at hlinks
  rcases hlinks.of_append.exists_addr with hnone | ⟨y, hy, haddr⟩
  · rw [hp] at hnone
    cases hnone
  · have hy' := Cell.eq_foo_of_addr (haddr.symm.trans hp)
    apply mem_linked.mp
    apply h.dealt.mem_of_mem (s.bucketOf_mem q)
    rw [hl, ← hy']
    exact List.mem_append_right xs (List.mem_cons_of_mem _ hy)

omit [DecidableEq ι] [DecidableEq π] in
theorem search_of_head (h : Chained s lists) (hp : s.Linked p) (hne : s.next (s.bucketOf p) ≠ some p) :
    ∃ xs y ys zs, s.next (s.bucketOf p) = some y ∧
      lists (s.bucketOf p) = xs ++ .foo y :: (ys ++ .foo p :: zs) := by
  obtain ⟨xs, zs, hl⟩ := List.append_of_mem (h.sorted p hp)
  have hlinks := h.dealt.linked _ (s.bucketOf_mem p)
  rw [hl] at hlinks
  cases xs with
  | nil => exact absurd hlinks.1 hne
  | cons y ys =>
    have hy : y ∈ s.linked := by
      apply h.dealt.mem_of_mem (s.bucketOf_mem p)
      rw [hl]
      exact List.mem_cons_self
    obtain ⟨q, rfl, -⟩ := hy
    exact ⟨[], q, ys, zs, hlinks.1, hl⟩

omit [DecidableEq ι] [DecidableEq π] in
theorem head_of_next (h : Chained s lists) (hp : s.Linked p)
    (hnext : s.next (s.bucketOf p) = some p) : ∃ ys, lists (s.bucketOf p) = .foo p :: ys := by
  have hlinks := h.dealt.linked _ (s.bucketOf_mem p)
  have hmem := h.sorted p hp
  cases hl : lists (s.bucketOf p) with
  | nil =>
    rw [hl] at hmem
    cases hmem
  | cons y ys =>
    rw [hl] at hlinks
    exact ⟨ys, by rw [Cell.eq_foo_of_addr (hlinks.1.symm.trans hnext)]⟩

omit [DecidableEq ι] [DecidableEq π] in
theorem search_step (h : Chained s lists) {y : π} {xs ys zs : List (Cell π)}
    (hl : lists (s.bucketOf p) = xs ++ .foo y :: (ys ++ .foo p :: zs)) :
    (s.next (.foo y) = some p → ys = []) ∧
      (s.next (.foo y) ≠ some p → ∃ y' ys', s.next (.foo y) = some y' ∧
        lists (s.bucketOf p) = (xs ++ [.foo y]) ++ .foo y' :: (ys' ++ .foo p :: zs)) := by
  have hlinks := h.dealt.linked _ (s.bucketOf_mem p)
  have hnodup := h.dealt.nodup _ (s.bucketOf_mem p)
  rw [hl] at hlinks hnodup
  have hrest := hlinks.of_append
  cases ys with
  | nil => exact ⟨fun _ => rfl, fun hne => absurd hrest.1 hne⟩
  | cons z ys =>
    have hz : z ∈ s.linked := by
      apply h.dealt.mem_of_mem (s.bucketOf_mem p)
      rw [hl]
      exact List.mem_append_right xs (List.mem_cons_of_mem _ List.mem_cons_self)
    obtain ⟨q, rfl, -⟩ := hz
    refine ⟨fun hp => ?_, fun _ => ⟨q, ys, hrest.1, ?_⟩⟩
    · have hqp : q = p := Option.some.inj (hrest.1.symm.trans hp)
      have htail := (List.nodup_cons.mp (hnodup.of_append_right)).2
      rw [hqp] at htail
      exact absurd (List.mem_append_right ys List.mem_cons_self) (List.nodup_cons.mp htail).1
    · rw [hl, List.append_assoc]
      rfl

end Chained
end State
end CLib.Objects
