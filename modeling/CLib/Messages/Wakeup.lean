import CLib.Messages.Threads

namespace CLib.Messages
open CLib.Base

/-- The producer stands between its push and its `pthread_cond_broadcast`. -/
def ProducerPc.owesBroadcast : ProducerPc → Bool
  | .pushed _ | .unlocked _ | .printed => true
  | _ => false

namespace State
variable {ι κ : Type} {s t : State ι κ} {i : ι} {k : κ}

/-- While something is on the list, somebody is about to wake the sleepers. -/
structure Woken (s : State ι κ) : Prop where
  protect : s.Protected
  woken : s.head ≠ none → ∀ k, s.consumer k = .asleep → ∃ i, (s.producer i).owesBroadcast

theorem woken_start : Woken (start : State ι κ) :=
  ⟨protected_start, fun _ k hk => by cases hk⟩

namespace Woken

section Producer
variable [DecidableEq ι]

theorem moveProducer (h : s.Woken) {u : State ι κ} {pc : ProducerPc}
    (hpc : (s.producer i).owesBroadcast → pc.owesBroadcast) (hhead : u.head = s.head)
    (hproducer : u.producer = s.producer) (hconsumer : u.consumer = s.consumer)
    (hu : (u.goProducer i pc).Protected) : (u.goProducer i pc).Woken := by
  refine ⟨hu, fun hne k hk => ?_⟩
  obtain ⟨j, hj⟩ := h.woken (hhead ▸ hne) k (hconsumer ▸ hk)
  refine ⟨j, ?_⟩
  show (Function.update u.producer i pc j).owesBroadcast = true
  rw [hproducer]
  by_cases hji : j = i
  · subst hji
    rw [Function.update_self]
    exact hpc hj
  · rw [Function.update_of_ne hji]
    exact hj

theorem stepProducer (h : s.Woken) {num : ℤ} (ht : s.stepProducer i num = some t) : t.Woken := by
  have hprotect := h.protect.stepProducer ht
  cases produces_of_step ht with
  | start hpc | allocated m hpc | numbered m hpc | locked m hpc | pushed m hpc | unlocked m hpc =>
    exact h.moveProducer (by simp [hpc, ProducerPc.owesBroadcast]) rfl rfl rfl hprotect
  | linked m =>
    refine ⟨hprotect, fun _ _ _ => ⟨i, ?_⟩⟩
    show (Function.update s.producer i (.pushed m) i).owesBroadcast = true
    rw [Function.update_self]
    rfl
  | printed =>
    -- nobody sleeps after the broadcast
    refine ⟨hprotect, fun _ k hk => ?_⟩
    exact absurd hk (ConsumerPc.woken_ne_asleep (s.consumer k))

end Producer

section Consumer
variable [DecidableEq κ]

theorem moveConsumer (h : s.Woken) {u : State ι κ} {pc : ConsumerPc}
    (hpc : u.head ≠ none → pc ≠ .asleep) (hhead : u.head ≠ none → s.head ≠ none)
    (hproducer : u.producer = s.producer) (hconsumer : u.consumer = s.consumer)
    (hu : (u.goConsumer k pc).Protected) : (u.goConsumer k pc).Woken := by
  refine ⟨hu, fun hne l hl => ?_⟩
  show ∃ i, (u.producer i).owesBroadcast
  rw [hproducer]
  apply h.woken (hhead hne) l
  rw [← hconsumer]
  by_cases hlk : l = k
  · subst hlk
    exact absurd ((Function.update_self ..).symm.trans hl) (hpc hne)
  · exact (Function.update_of_ne hlk ..).symm.trans hl

theorem stepConsumer (h : s.Woken) (ht : s.stepConsumer k = some t) : t.Woken := by
  have hprotect := h.protect.stepConsumer ht
  have hknows := h.protect.consumers k
  cases consumes_of_step ht with
  | testing =>
    apply h.moveConsumer _ id rfl rfl hprotect
    split_ifs <;> simp
  | waiting hpc =>
    -- it falls asleep with the empty list that it saw under the same lock
    rw [hpc] at hknows
    exact h.moveConsumer (fun hne => absurd hknows hne) id rfl rfl hprotect
  | took m hpc =>
    rw [hpc] at hknows
    have hhead : s.head ≠ none := by
      rw [show s.head = some m from hknows]
      simp
    exact h.moveConsumer (by simp) (fun _ => hhead) rfl rfl hprotect
  | lock | found | removed | unlocked | printed =>
    exact h.moveConsumer (by simp) id rfl rfl hprotect

theorem stepWake (h : s.Woken) (ht : s.stepWake k = some t) : t.Woken := by
  have hprotect := h.protect.stepWake ht
  unfold State.stepWake at ht
  split_ifs at ht with hpc
  obtain rfl := Option.some.inj ht
  exact h.moveConsumer (by simp) id rfl rfl hprotect

end Consumer

variable [DecidableEq ι] [DecidableEq κ]

theorem step (h : s.Woken) {turn : Turn ι κ} (ht : s.step turn = some t) : t.Woken := by
  cases turn with
  | producer i num => exact h.stepProducer ht
  | consumer k => exact h.stepConsumer ht
  | wake k => exact h.stepWake ht

end Woken

theorem step_isSome_of_owesBroadcast [DecidableEq ι] [DecidableEq κ]
    (hi : (s.producer i).owesBroadcast) (num : ℤ) : (s.step (.producer i num)).isSome := by
  show (s.stepProducer i num).isSome
  unfold State.stepProducer
  cases hpc : s.producer i with
  | pushed m | unlocked m | printed => simp
  | start | allocated m | numbered m | locked m | linked m =>
    rw [hpc] at hi
    cases hi

/-- No wakeup is lost: if a message is on the list and a consumer sleeps, then a producer is on
its way to its broadcast, and nothing holds it up. -/
theorem no_lostWakeup [DecidableEq ι] [DecidableEq κ] (hs : Reachable step start s)
    (hhead : s.head ≠ none) (hasleep : ∃ k, s.consumer k = .asleep) :
    ∃ i, (s.producer i).owesBroadcast ∧ ∀ num, (s.step (.producer i num)).isSome := by
  obtain ⟨k, hk⟩ := hasleep
  have h : s.Woken := hs.invariant woken_start fun _ _ _ h ht => h.step ht
  obtain ⟨i, hi⟩ := h.woken hhead k hk
  exact ⟨i, hi, step_isSome_of_owesBroadcast hi⟩

/-- The consumer falls asleep, then the producer pushes a message. -/
def onePush : List (Turn Unit Unit) :=
  List.replicate 3 (.consumer ()) ++ List.replicate 5 (.producer () 7)

def afterOnePush : State Unit Unit := (runFrom step start onePush).get (by decide)

theorem no_lostWakeup_onePush :
    ∃ i, (afterOnePush.producer i).owesBroadcast ∧
      ∀ num, (afterOnePush.step (.producer i num)).isSome :=
  no_lostWakeup ⟨onePush, (Option.some_get _).symm⟩ (by decide) ⟨(), by decide⟩

end State
end CLib.Messages
