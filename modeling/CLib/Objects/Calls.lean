import CLib.Objects.References

namespace CLib.Objects
open CLib.Base
namespace State
variable {ι π : Type} {s t : State ι π} {i j : ι} {p : π} {x : Thread π}
  {pc pc' : Pc π} {f : Foo ι π} {lists : Cell π → List (Cell π)}

theorem Placed.of_reached (hreached : ∀ p, pc.reached = some p → s.Linked p)
    (hhead : ∀ p, pc ≠ .allocHead p) (hsearch : ∀ p t, pc ≠ .removeSearch p t)
    (hnext : ∀ p t, pc ≠ .removeNext p t) (htest : ∀ id t, pc ≠ .findTest id t) :
    s.Placed lists pc :=
  ⟨hreached, fun p hp => absurd hp (hhead p), fun p t hp => absurd hp (hsearch p t),
    fun p t hp => absurd hp (hnext p t), fun id t hp => absurd hp (htest id t)⟩

section
variable {v : Option π} {id : ℤ}

theorem Placed.of_allocHead (h : s.next (.foo p) = s.next (s.bucketOf p)) :
    s.Placed lists (.allocHead p) := by
  refine ⟨by rintro _ ⟨⟩, ?_, by rintro _ _ ⟨⟩, by rintro _ _ ⟨⟩, by rintro _ _ ⟨⟩⟩
  rintro q ⟨⟩
  exact h

theorem Placed.of_removeSearch (h : ∃ xs y ys zs, v = some y ∧
    lists (s.bucketOf p) = xs ++ .foo y :: (ys ++ .foo p :: zs)) : s.Placed lists (.removeSearch p v) := by
  refine ⟨by rintro _ ⟨⟩, by rintro _ ⟨⟩, ?_, by rintro _ _ ⟨⟩, by rintro _ _ ⟨⟩⟩
  rintro q w ⟨⟩
  exact h

theorem Placed.of_removeNext (h : ∃ xs y zs, v = some y ∧
    lists (s.bucketOf p) = xs ++ .foo y :: .foo p :: zs) : s.Placed lists (.removeNext p v) := by
  refine ⟨by rintro _ ⟨⟩, by rintro _ ⟨⟩, by rintro _ _ ⟨⟩, ?_, by rintro _ _ ⟨⟩⟩
  rintro q w ⟨⟩
  exact h

theorem Placed.of_findTest (hv : ∀ p, v = some p → s.Linked p) (h : ∃ xs ys,
    lists (.bucket (hash id)) = xs ++ ys ∧ v = ys.head?.bind Cell.addr ∧
      ∀ q, .foo q ∈ xs → s.idOf q ≠ id) : s.Placed lists (.findTest id v) := by
  refine ⟨hv, by rintro _ ⟨⟩, by rintro _ _ ⟨⟩, by rintro _ _ ⟨⟩, ?_⟩
  rintro id' w ⟨⟩
  exact h

end

theorem Settled.of_none (hsole : x.pc.sole = none) (hshared : x.pc.shared = none)
    (hgiven : x.pc.given = none) (hfree : ∀ p, x.pc ≠ .free p) : s.Settled x := by
  refine ⟨fun p hp => ?_, fun p hp => ?_, fun p hp => absurd hp (hfree p), fun p hp => ?_⟩
  · rw [hsole] at hp
    cases hp
  · rw [hshared] at hp
    cases hp
  · rw [hgiven] at hp
    cases hp

variable [DecidableEq π]

theorem Handle.of_carried (hpc : (s.threads i).pc = pc) (hp : pc.carried = some p) : s.Handle i p := by
  subst hpc
  exact .inl (Thread.weight_pos_of_carried hp)

theorem Handle.of_linked (hpc : (s.threads i).pc = pc) (hi : pc.holdsHash) (hp : s.Linked p) :
    s.Handle i p := by
  subst hpc
  exact .inr ⟨hi, hp⟩

theorem Handle.of_refs (hp : 0 < (s.threads i).refs p) : s.Handle i p := by
  refine .inl (hp.trans_le ?_)
  exact Nat.le_add_right _ _

namespace Inv
variable [Fintype ι]

/-- `foo_hold` has been called by `foo_find`, or on a reference that the caller has. -/
theorem handle_of_hold (h : Inv s) {finding : Bool}
    (hp : (s.threads i).pc = .holdLock finding p ∨ (s.threads i).pc = .holdCount finding p) :
    s.Handle i p := by
  obtain ⟨lists, hchained⟩ := h.chained
  cases finding with
  | true =>
    have hreached : (s.threads i).pc.reached = some p := by rcases hp with hp | hp <;> rw [hp] <;> rfl
    exact .of_linked rfl (Pc.holdsHash_of_reached hreached) ((hchained.placed i).reached p hreached)
  | false =>
    apply Handle.of_refs
    apply (h.counted.settled i).given
    rcases hp with hp | hp <;> rw [hp] <;> rfl

/-- The object with the last reference is in the table, if it is not known to be out of it. -/
theorem linked_of_sole (h : Inv s) (hpc : (s.threads i).pc = pc) (hp : pc.sole = some p)
    (hi : pc.unlinked = none) : s.Linked p := by
  classical
  subst hpc
  have hpos := Thread.weight_pos_of_carried (Pc.carried_of_sole hp)
  refine ⟨?_, fun j hj => ?_⟩
  · obtain ⟨f, hf⟩ := h.counted.exists_foo_of_weight hpos
    rw [hf]
    exact Option.some_ne_none f
  · obtain rfl := h.counted.eq_of_sole (Pc.sole_of_unlinked hj) hpos
    rw [hi] at hj
    cases hj

theorem count_of_sole (h : Inv s) (hpc : (s.threads i).pc = pc) (hp : pc.sole = some p) :
    s.count p = 1 := by
  subst hpc
  exact (h.counted.settled i).sole p hp

theorem exists_foo (h : Inv s) (hpc : (s.threads i).pc = pc) (hp : pc.carried = some p) :
    ∃ f, s.foo p = some f := h.counted.exists_foo_of_handle (.of_carried hpc hp)

variable [DecidableEq ι]

theorem test (h : Inv s) (hpc : (s.threads i).pc = pc) (hi : pc.carried = some p) {last more : Pc π}
    (hlast : s.count p = 1 → Inv (s.goto i last)) (hmore : 1 < s.count p → Inv (s.goto i more))
    (ht : (s.deref p fun f => some (s.goto i (if f.count = 1 then last else more))) = some t) :
    Inv t := by
  obtain ⟨f, hf⟩ := h.exists_foo hpc hi
  have hpos := h.counted.alive p (by rw [hf]; exact Option.some_ne_none f)
  rw [deref_some hf] at ht
  obtain rfl := Option.some.inj ht
  rw [count_of_foo hf] at hlast hmore hpos
  have hone : f.count = 1 ↔ f.count.toInt = 1 := Int32.toInt_inj.symm
  split_ifs with htest
  · exact hlast (hone.mp htest)
  · have hne := mt hone.mpr htest
    exact hmore (by omega)

theorem goto_shared (h : Inv s) (hpc : (s.threads i).pc = pc)
    (hmove : pc = .releTest p ∧ pc' = .releCount p ∨ pc = .retryTest p ∧ pc' = .retryCount p)
    (hcount : 1 < s.count p) : Inv (s.goto i pc') := by
  have hshared : ∀ q, some p = some q → 1 < s.count q := by
    rintro q ⟨⟩
    exact hcount
  rcases hmove with ⟨rfl, rfl⟩ | ⟨rfl, rfl⟩
  · exact h.goto hpc rfl rfl rfl rfl ⟨nofun, hshared, nofun, nofun⟩ fun _ _ =>
      .of_reached nofun nofun nofun nofun nofun
  · exact h.goto hpc rfl rfl rfl rfl ⟨nofun, hshared, nofun, nofun⟩ fun _ _ =>
      .of_reached nofun nofun nofun nofun nofun

theorem goto_last (h : Inv s) (hpc : (s.threads i).pc = .retryTest p) (hcount : s.count p = 1) :
    Inv (s.goto i (.removeHead p)) := by
  refine h.goto hpc rfl rfl rfl rfl ⟨?_, nofun, nofun, nofun⟩ fun _ _ =>
    .of_reached nofun nofun nofun nofun nofun
  rintro q ⟨⟩
  exact hcount

theorem addCount_shared (h : Inv s) (hpc : (s.threads i).pc = pc)
    (hmove : pc = .releCount p ∧ pc' = .releFooUnlock p ∨ pc = .retryCount p ∧ pc' = .leaveFooUnlock p)
    (ht : s.addCount i p (-1) pc' = some t) : Inv t := by
  have hshared : 1 < s.count p := by
    apply (h.counted.settled i).shared
    rcases hmove with ⟨rfl, -⟩ | ⟨rfl, -⟩ <;> rw [hpc] <;> rfl
  have hsole : ∀ j, (s.threads j).pc.sole = some p → j = i := by
    intro j hj
    have hone := (h.counted.settled j).sole p hj
    omega
  have hcarried : (s.threads i).pc.carried = some p := by
    rcases hmove with ⟨rfl, -⟩ | ⟨rfl, -⟩ <;> rw [hpc] <;> rfl
  have hold := Thread.weight_of_carried hcarried
  have hnew : Thread.weight p ⟨pc', (s.threads i).refs⟩ = (s.threads i).refs p := by
    apply Thread.weight_of_not_carried
    rcases hmove with ⟨-, rfl⟩ | ⟨-, rfl⟩ <;> exact nofun
  have hminus : (-1 : Int32).toInt = -1 := by decide
  obtain ⟨f, hf⟩ := h.exists_foo rfl hcarried
  have hint := f.count.toInt_lt
  rw [← count_of_foo hf] at hint
  have hn : (Thread.weight p ⟨pc', (s.threads i).refs⟩ : ℤ) =
      (s.threads i).weight p + (-1 : Int32).toInt := by omega
  have hpos : 0 < s.count p + (-1 : Int32).toInt := by omega
  have hlt : s.count p + (-1 : Int32).toInt < 2 ^ 31 := by omega
  have hother : ∀ q, q ≠ p → (none = some q ↔ some p = some q) := fun q hq =>
    iff_of_false nofun fun heq => hq (Option.some.inj heq).symm
  rcases hmove with ⟨rfl, rfl⟩ | ⟨rfl, rfl⟩
  · exact h.addCount hpc ht rfl rfl rfl rfl hn hother hpos hlt hsole ⟨rfl, rfl, rfl⟩ nofun
      fun _ _ => .of_reached nofun nofun nofun nofun nofun
  · exact h.addCount hpc ht rfl rfl rfl rfl hn hother hpos hlt hsole ⟨rfl, rfl, rfl⟩ nofun
      fun _ _ => .of_reached nofun nofun nofun nofun nofun

theorem addCount_hold (h : Inv s) {finding : Bool} (hpc : (s.threads i).pc = .holdCount finding p)
    (hroom : s.HasRoom (.run i)) (ht : s.addCount i p 1 (.holdUnlock finding p) = some t) : Inv t := by
  have hhandle := h.handle_of_hold (.inr hpc)
  obtain ⟨f, hf⟩ := h.counted.exists_foo_of_handle hhandle
  have hpos := h.counted.alive p (by rw [hf]; exact Option.some_ne_none f)
  have hold : (s.threads i).weight p = (s.threads i).refs p := by
    apply Thread.weight_of_not_carried
    rw [hpc]
    exact (Option.some_ne_none _).symm
  have hnew : Thread.weight p ⟨.holdUnlock finding p, (s.threads i).refs⟩ = (s.threads i).refs p + 1 :=
    Thread.weight_of_carried rfl
  have hone : (1 : Int32).toInt = 1 := Int32.toInt_one
  have hmax : f.count.toInt ≠ 2 ^ 31 - 1 := by
    rw [HasRoom, hpc] at hroom
    exact fun heq => hroom f hf (Int32.toInt_inj.mp heq)
  have hint := f.count.toInt_lt
  rw [← count_of_foo hf] at hint hmax
  have hn : (Thread.weight p ⟨.holdUnlock finding p, (s.threads i).refs⟩ : ℤ) =
      (s.threads i).weight p + (1 : Int32).toInt := by omega
  have hgrows : 0 < s.count p + (1 : Int32).toInt := by omega
  have hlt : s.count p + (1 : Int32).toInt < 2 ^ 31 := by omega
  have hother : ∀ q, q ≠ p → (some p = some q ↔ none = some q) := fun q hq =>
    iff_of_false (fun heq => hq (Option.some.inj heq).symm) (Option.some_ne_none q).symm
  exact h.addCount hpc ht rfl rfl rfl rfl hn hother hgrows hlt
    (fun j hj => h.counted.eq_of_sole_of_handle hj hhandle) ⟨rfl, rfl, rfl⟩ (by rintro _ ⟨⟩)
    fun _ _ => .of_reached (by rintro _ ⟨⟩) (by rintro _ ⟨⟩) (by rintro _ _ ⟨⟩) (by rintro _ _ ⟨⟩)
      (by rintro _ _ ⟨⟩)

end Inv
end State
end CLib.Objects
