import CLib.Base.Handover
import CLib.Base.Holders
import CLib.Messages.Threads

namespace CLib.Messages
open CLib.Base

/-- The message that the producer has made and nobody else knows yet. -/
def ProducerPc.own : ProducerPc → Option ℕ
  | .allocated m | .numbered m | .locked m | .linked m => some m
  | _ => none

/-- The message that the next step of the producer reads or writes. -/
def ProducerPc.touches : ProducerPc → Option ℕ
  | .allocated m | .locked m | .unlocked m => some m
  | _ => none

/-- The message that the consumer has removed and not freed yet. -/
def ConsumerPc.holds : ConsumerPc → Option ℕ
  | .removed m | .unlocked m | .printed m => some m
  | _ => none

/-- The message that the next step of the consumer reads or frees. -/
def ConsumerPc.touches : ConsumerPc → Option ℕ
  | .took m | .unlocked m | .printed m => some m
  | _ => none

@[simp] theorem ConsumerPc.holds_woken (pc : ConsumerPc) : pc.woken.holds = pc.holds := by
  cases pc <;> rfl

namespace State
variable {ι κ : Type} {s t : State ι κ} {i : ι} {k : κ} {m : ℕ}

/-- Every message that has been pushed is on the list or has been taken by exactly one
consumer, and who has taken one holds it until he has freed it, once. -/
def Accounted (s : State ι κ) : Prop :=
  HandedOver (fun m => (s.msgs m).next) s.head s.pushed s.taken s.freed
    (ConsumerPc.holds ∘ s.consumer)

def touches (s : State ι κ) : Turn ι κ → Option ℕ
  | .producer i _ => (s.producer i).touches
  | .consumer k => (s.consumer k).touches
  | .wake _ => none

/-- The step does not read, write or free a message that has been freed. -/
def AccessSafe (s : State ι κ) (turn : Turn ι κ) : Prop :=
  ∀ m, s.touches turn = some m → m ∉ s.freed.map Prod.fst

/-- A message is not freed while a producer has still to print it. -/
def FreedAfterPrint (s : State ι κ) : Turn ι κ → Prop
  | .consumer k => ∀ m, s.consumer k = .printed m → ∀ i, s.producer i ≠ .unlocked m
  | _ => True

/-- The messages that have been made are those that have been pushed and those that the
producers own. -/
structure Owned (s : State ι κ) : Prop where
  protect : s.Protected
  accounted : s.Accounted
  born : ∀ m ∈ s.pushed, m < s.born
  own : Held (fun m => m < s.born ∧ m ∉ s.pushed) (ProducerPc.own ∘ s.producer)

theorem owned_start : Owned (start : State ι κ) where
  protect := protected_start
  accounted := handedOver_start _
  born := fun _ hm => by cases hm
  own := by
    refine ⟨fun m => ?_, fun i j m hi _ => by cases hi⟩
    simp [start, ProducerPc.own]

namespace Owned

theorem own_not_pushed (h : s.Owned) (hi : (s.producer i).own = some m) : m ∉ s.pushed :=
  ((h.own.conserved m).mpr ⟨i, hi⟩).2

theorem own_not_freed (h : s.Owned) (hi : (s.producer i).own = some m) :
    m ∉ s.freed.map Prod.fst := by
  intro hm
  exact h.own_not_pushed hi (h.accounted.mem_put_of_taken (h.accounted.mem_taken_of_given hm))

theorem accessSafe (h : s.Owned)
    (hprint : ∀ i m, s.producer i = .unlocked m → m ∉ s.freed.map Prod.fst) (turn : Turn ι κ) :
    s.AccessSafe turn := by
  intro m hm
  cases turn with
  | producer i num =>
    have hm' : (s.producer i).touches = some m := hm
    cases hpc : s.producer i with
    | unlocked m' =>
      rw [hpc] at hm'
      obtain rfl := Option.some.inj hm'
      exact hprint i m' hpc
    | allocated m' | locked m' =>
      rw [hpc] at hm'
      obtain rfl := Option.some.inj hm'
      exact h.own_not_freed (i := i) (by rw [hpc]; rfl)
    | start | numbered m' | linked m' | pushed m' | printed =>
      rw [hpc] at hm'
      cases hm'
  | consumer k =>
    have hm' : (s.consumer k).touches = some m := hm
    cases hpc : s.consumer k with
    | took m' =>
      rw [hpc] at hm'
      obtain rfl := Option.some.inj hm'
      have hhead := h.protect.consumers k
      rw [hpc] at hhead
      have haccounted := h.accounted
      rw [Accounted, show s.head = some m' from hhead] at haccounted
      exact haccounted.head_not_given
    | unlocked m' | printed m' =>
      rw [hpc] at hm'
      obtain rfl := Option.some.inj hm'
      apply h.accounted.held_not_given (k := k)
      show (s.consumer k).holds = some m'
      rw [hpc]
      rfl
    | start | testing | waiting | asleep | waking | found | removed m' =>
      rw [hpc] at hm'
      cases hm'
  | wake k => cases hm

section Producer
variable [DecidableEq ι] {num : ℤ}

theorem own_move (h : s.Owned) {pc : ProducerPc} (hpc : pc.own = (s.producer i).own) :
    Held (fun m => m < s.born ∧ m ∉ s.pushed)
      (ProducerPc.own ∘ Function.update s.producer i pc) := by
  rw [comp_update_of_eq hpc]
  exact h.own

theorem stepProducer (h : s.Owned) (ht : s.stepProducer i num = some t) : t.Owned := by
  have hprotect := h.protect.stepProducer ht
  have hknows := h.protect.producers i
  cases produces_of_step ht with
  | start hpc =>
    have hnew : s.born ∉ s.pushed := fun hm => Nat.lt_irrefl _ (h.born _ hm)
    refine ⟨hprotect, h.accounted, fun m hm => Nat.lt_succ_of_lt (h.born m hm), ?_⟩
    show Held (fun m => m < s.born + 1 ∧ m ∉ s.pushed)
      (ProducerPc.own ∘ Function.update s.producer i (.allocated s.born))
    rw [Function.comp_update]
    refine (h.own.acquire (k := s.born) (by simp [hpc, ProducerPc.own]) (by simp)).congr fun m => ?_
    by_cases hm : m = s.born
    · simp [hm, hnew]
    · simp only [hm, false_or]
      have : m < s.born + 1 ↔ m < s.born := by omega
      rw [this]
  | allocated m hpc =>
    refine ⟨hprotect, ?_, h.born, h.own_move (by rw [hpc]; rfl)⟩
    exact h.accounted.relink fun m' _ => s.setMsg_next m num m'
  | locked m hpc =>
    refine ⟨hprotect, ?_, h.born, h.own_move (by rw [hpc]; rfl)⟩
    have hm : m ∉ s.pushed := h.own_not_pushed (i := i) (by rw [hpc]; rfl)
    apply h.accounted.relink
    intro m' hm'
    show (Function.update s.msgs m _ m').next = (s.msgs m').next
    have hne : m' ≠ m := fun heq => hm (heq ▸ hm')
    rw [Function.update_of_ne hne]
  | linked m hpc =>
    rw [hpc] at hknows
    have howns : (ProducerPc.own ∘ s.producer) i = some m := by
      show (s.producer i).own = some m
      rw [hpc]
      rfl
    obtain ⟨hborn, hm⟩ := (h.own.conserved m).mpr ⟨i, howns⟩
    refine ⟨hprotect, h.accounted.push hm hknows, fun m' hm' => ?_, ?_⟩
    · rcases List.mem_append.mp hm' with hm' | hm'
      · exact h.born m' hm'
      · rw [List.mem_singleton.mp hm']
        exact hborn
    · show Held (fun m' => m' < s.born ∧ m' ∉ s.pushed ++ [m])
        (ProducerPc.own ∘ Function.update s.producer i (.pushed m))
      rw [Function.comp_update]
      refine (h.own.release howns).congr fun m' => ?_
      simp only [List.mem_append, List.mem_singleton]
      tauto
  | numbered m hpc | pushed m hpc | unlocked m hpc =>
    exact ⟨hprotect, h.accounted, h.born, h.own_move (by rw [hpc]; rfl)⟩
  | printed hpc =>
    refine ⟨hprotect, ?_, h.born, h.own_move (by rw [hpc]; rfl)⟩
    have hwoken : (ConsumerPc.holds ∘ fun k => (s.consumer k).woken) = ConsumerPc.holds ∘ s.consumer := by
      funext k
      exact ConsumerPc.holds_woken (s.consumer k)
    show HandedOver _ s.head s.pushed s.taken s.freed (ConsumerPc.holds ∘ fun k => (s.consumer k).woken)
    rw [hwoken]
    exact h.accounted

end Producer

section Consumer
variable [DecidableEq κ]

theorem moveConsumer (h : s.Owned) {u : State ι κ} {pc : ConsumerPc}
    (hpc : pc.holds = (s.consumer k).holds) (hlock : u = { s with lock := u.lock })
    (hu : (u.goConsumer k pc).Protected) : (u.goConsumer k pc).Owned := by
  rw [hlock] at hu ⊢
  refine ⟨hu, ?_, h.born, h.own⟩
  show HandedOver _ s.head s.pushed s.taken s.freed
    (ConsumerPc.holds ∘ Function.update s.consumer k pc)
  rw [comp_update_of_eq hpc]
  exact h.accounted

theorem stepConsumer (h : s.Owned) (ht : s.stepConsumer k = some t) : t.Owned := by
  have hprotect := h.protect.stepConsumer ht
  have hknows := h.protect.consumers k
  cases consumes_of_step ht with
  | lock hpc =>
    apply h.moveConsumer _ rfl hprotect
    rcases hpc with hpc | hpc <;> rw [hpc] <;> rfl
  | testing hpc =>
    apply h.moveConsumer _ rfl hprotect
    rw [hpc]
    split_ifs <;> rfl
  | took m hpc =>
    rw [hpc] at hknows
    refine ⟨hprotect, ?_, h.born, h.own⟩
    have haccounted := h.accounted
    rw [Accounted, show s.head = some m from hknows] at haccounted
    show HandedOver _ (s.msgs m).next s.pushed (s.taken ++ [(m, k)]) s.freed
      (ConsumerPc.holds ∘ Function.update s.consumer k (.removed m))
    rw [Function.comp_update]
    apply haccounted.take
    show (s.consumer k).holds = none
    rw [hpc]
    rfl
  | printed m hpc =>
    refine ⟨hprotect, ?_, h.born, h.own⟩
    show HandedOver _ s.head s.pushed s.taken (s.freed ++ [(m, k)])
      (ConsumerPc.holds ∘ Function.update s.consumer k .start)
    rw [Function.comp_update]
    apply h.accounted.give
    show (s.consumer k).holds = some m
    rw [hpc]
    rfl
  | found m hpc | waiting hpc | removed m hpc | unlocked m hpc =>
    exact h.moveConsumer (by rw [hpc]; rfl) rfl hprotect

theorem stepWake (h : s.Owned) (ht : s.stepWake k = some t) : t.Owned := by
  have hprotect := h.protect.stepWake ht
  unfold State.stepWake at ht
  split_ifs at ht with hpc
  obtain rfl := Option.some.inj ht
  exact h.moveConsumer (by rw [hpc]; rfl) rfl hprotect

end Consumer

theorem step [DecidableEq ι] [DecidableEq κ] (h : s.Owned) {turn : Turn ι κ}
    (ht : s.step turn = some t) : t.Owned := by
  cases turn with
  | producer i num => exact h.stepProducer ht
  | consumer k => exact h.stepConsumer ht
  | wake k => exact h.stepWake ht

end Owned

/-- A message that a producer has still to print has not been freed. -/
def Unprinted (s : State ι κ) : Prop :=
  ∀ i m, s.producer i = .unlocked m → m ∉ s.freed.map Prod.fst

theorem stepProducer_freed [DecidableEq ι] {num : ℤ} (ht : s.stepProducer i num = some t) :
    t.freed = s.freed := by
  cases produces_of_step ht <;> rfl

theorem stepProducer_unlocked [DecidableEq ι] {num : ℤ} (ht : s.stepProducer i num = some t) {j : ι}
    (hj : t.producer j = .unlocked m) : s.producer j = .unlocked m ∨ s.producer j = .pushed m := by
  have hkeep : ∀ {pc : ProducerPc}, pc ≠ .unlocked m →
      Function.update s.producer i pc j = .unlocked m → s.producer j = .unlocked m := by
    intro pc hpc hj
    by_cases hji : j = i
    · rw [hji, Function.update_self] at hj
      exact absurd hj hpc
    · rwa [Function.update_of_ne hji] at hj
  cases produces_of_step ht with
  | pushed m' hpc =>
    by_cases hji : j = i
    · subst hji
      have hm : m' = m := ProducerPc.unlocked.inj ((Function.update_self ..).symm.trans hj)
      exact .inr (hm ▸ hpc)
    · exact .inl ((Function.update_of_ne hji ..).symm.trans hj)
  | start | allocated | numbered | locked | linked | unlocked | printed =>
    exact .inl (hkeep (by simp) hj)

theorem stepConsumer_freed [DecidableEq κ] (ht : s.stepConsumer k = some t) :
    t.producer = s.producer ∧
      (t.freed = s.freed ∨ ∃ m, s.consumer k = .printed m ∧ t.freed = s.freed ++ [(m, k)]) := by
  cases consumes_of_step ht with
  | printed m hpc => exact ⟨rfl, .inr ⟨m, hpc, rfl⟩⟩
  | lock | testing | waiting | found | took | removed | unlocked => exact ⟨rfl, .inl rfl⟩

section Runs
variable [DecidableEq ι] [DecidableEq κ] {turn : Turn ι κ}

theorem Unprinted.step (h : s.Unprinted) (ho : s.Owned) (hG : s.FreedAfterPrint turn)
    (ht : s.step turn = some t) : t.Unprinted := by
  intro i m hi
  cases turn with
  | producer j num =>
    rw [stepProducer_freed ht]
    rcases stepProducer_unlocked ht hi with hi | hi
    · exact h i m hi
    · -- the message that has just been pushed is still the first of the list
      have hknows := ho.protect.producers i
      rw [hi] at hknows
      have haccounted := ho.accounted
      rw [Accounted, show s.head = some m from hknows] at haccounted
      exact haccounted.head_not_given
  | consumer k =>
    obtain ⟨hproducer, hfreed⟩ := stepConsumer_freed ht
    rw [hproducer] at hi
    rcases hfreed with hfreed | ⟨m', hk, hfreed⟩
    · rw [hfreed]
      exact h i m hi
    · have hne : m ≠ m' := fun heq => hG m' hk i (heq ▸ hi)
      rw [hfreed]
      simpa [hne] using h i m hi
  | wake k =>
    have ht' : s.stepWake k = some t := ht
    unfold State.stepWake at ht'
    split_ifs at ht' with hpc
    obtain rfl := Option.some.inj ht'
    exact h i m hi

/-- A message that is freed too early is freed memory for the producer's next step. -/
theorem freedAfterPrint_of_accessSafe (ht : s.step turn = some t)
    (hsafe : ∀ turn, t.AccessSafe turn) : s.FreedAfterPrint turn := by
  cases turn with
  | consumer k =>
    intro m hk i hi
    have ht' : s.stepConsumer k = some t := ht
    unfold State.stepConsumer at ht'
    rw [hk] at ht'
    obtain rfl := Option.some.inj ht'
    apply hsafe (.producer i 0) m
    · show (s.producer i).touches = some m
      rw [hi]
      rfl
    · show m ∈ (s.freed ++ [(m, k)]).map Prod.fst
      simp
  | producer i num => trivial
  | wake k => trivial

/-- Every message has one owner at a time, and no step of any thread reads or writes a freed
one, in exactly the runs in which no message is freed while its producer has still to print it. -/
theorem ownership_iff (turns : List (Turn ι κ)) :
    (∀ s : State ι κ, Visits step start turns s → s.Accounted ∧ ∀ turn, s.AccessSafe turn) ↔
      Along step FreedAfterPrint start turns := by
  have hstart : (start : State ι κ).Unprinted := fun i m hi => by cases hi
  apply along_iff_forall_visits_of_invariant (I := fun s => s.Owned ∧ s.Unprinted)
  · exact fun s h => ⟨h.1.accounted, h.1.accessSafe h.2⟩
  · exact ⟨owned_start, hstart⟩
  · exact fun s turn t h hG ht => ⟨h.1.step ht, h.2.step h.1 hG ht⟩
  · exact fun s turn t _ ht h => freedAfterPrint_of_accessSafe ht h.2

end Runs

/-- The producer releases `lock` and is held up, the consumer takes and frees its message, and
the producer prints it. -/
def latePrint : List (Turn Unit Unit) :=
  List.replicate 6 (.producer () 7) ++ List.replicate 8 (.consumer ()) ++ [.producer () 0]

theorem not_ownership_latePrint :
    ¬ ∀ s : State Unit Unit, Visits step start latePrint s →
      s.Accounted ∧ ∀ turn, s.AccessSafe turn := by
  intro h
  have hrun : (runFrom step (start : State Unit Unit) (latePrint.take 14)).isSome := by decide
  obtain ⟨s, hs⟩ := Option.isSome_iff_exists.mp hrun
  have hbad : ∀ s ∈ runFrom step (start : State Unit Unit) (latePrint.take 14),
      s.touches (.producer () 0) = some 0 ∧ 0 ∈ s.freed.map Prod.fst := by decide
  obtain ⟨htouch, hfreed⟩ := hbad s hs
  exact (h s ⟨latePrint.take 14, List.take_prefix 14 latePrint, hs⟩).2 (.producer () 0) 0 htouch hfreed

end State
end CLib.Messages
