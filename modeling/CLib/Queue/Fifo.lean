import CLib.Base.Runs
import CLib.Queue.Chains

namespace CLib.Queue
open CLib.Base

variable {α : Type}

/-- What a call returns: an element or 0, or a truth value. -/
inductive Result (α : Type)
  | element (x : Option α)
  | truth (b : Bool)
  deriving DecidableEq

/-- A call on the queue at `Q`; `p` is what `malloc` returns for the node. -/
inductive Call (α : Type)
  | createQueue (Q p : Ptr)
  | enqueue (Q p : Ptr) (x : α)
  | front (Q : Ptr)
  | dequeue (Q : Ptr)
  | frontAndDequeue (Q : Ptr)
  | isEmpty (Q : Ptr)
  | makeEmpty (Q : Ptr)
  | disposeQueue (Q : Ptr)

/-- The heap with any number of queues on it, and what the calls have returned so far. -/
structure Store (α : Type) where
  nodes : Nodes α
  queues : Ptr → Option Ends
  results : List (Result α)

namespace Store

def start : Store α := ⟨.empty, fun _ => none, []⟩

/-- The outcome of a call that changes the queue at `Q`. -/
def put (s : Store α) (Q : Ptr) (r : Nodes α × Ends) : Store α :=
  { s with nodes := r.1, queues := Function.update s.queues Q (some r.2) }

def give (s : Store α) (r : Result α) : Store α := { s with results := s.results ++ [r] }

/-- One call; `none` if it follows a bad pointer or frees a block twice. -/
def call (s : Store α) : Call α → Option (Store α)
  | .createQueue Q p => some (s.put Q (Ends.createQueue s.nodes p))
  | .enqueue Q p x => (s.queues Q).bind fun E => (E.enqueue s.nodes p x).map (s.put Q)
  | .front Q =>
    (s.queues Q).bind fun E => (E.frontElement s.nodes).map fun x => s.give (.element x)
  | .dequeue Q => (s.queues Q).bind fun E => (E.dequeue s.nodes).map (s.put Q)
  | .frontAndDequeue Q => (s.queues Q).bind fun E =>
    (E.frontAndDequeue s.nodes).map fun r => (s.put Q r.2).give (.element r.1)
  | .isEmpty Q => (s.queues Q).map fun E => s.give (.truth E.isEmpty)
  | .makeEmpty Q => (s.queues Q).bind fun E => (E.makeEmpty s.nodes).map (s.put Q)
  | .disposeQueue Q => (s.queues Q).bind fun E => (E.disposeQueue s.nodes).map (s.put Q)

/-- The queue at `Q` has been created and not been disposed of. -/
def Live (s : Store α) (Q : Ptr) : Prop := (s.queues Q).bind Ends.front ≠ none

instance (s : Store α) (Q : Ptr) : Decidable (s.Live Q) := inferInstanceAs (Decidable (_ ≠ none))

/-- `malloc` succeeds, and so returns blocks that are not allocated; all calls but
`create_queue` are for a live queue. -/
def Allowed (s : Store α) : Call α → Prop
  | .createQueue Q p => s.queues Q = none ∧ s.nodes.blocks p = none
  | .enqueue Q p _ => s.Live Q ∧ s.nodes.blocks p = none
  | .front Q | .dequeue Q | .frontAndDequeue Q | .isEmpty Q | .makeEmpty Q | .disposeQueue Q =>
    s.Live Q

instance (s : Store α) : DecidablePred s.Allowed := fun c => by
  cases c <;> unfold Allowed <;> infer_instance

end Store

/-- Mathematical queues: for each that there is, the list of its elements. -/
structure Model (α : Type) where
  queues : Ptr → Option (List α)
  results : List (Result α)

namespace Model

def start : Model α := ⟨fun _ => none, []⟩

def elements (a : Model α) (Q : Ptr) : List α := (a.queues Q).getD []

def put (a : Model α) (Q : Ptr) (xs : Option (List α)) : Model α :=
  { a with queues := Function.update a.queues Q xs }

def give (a : Model α) (r : Result α) : Model α := { a with results := a.results ++ [r] }

/-- What the calls are to do. -/
def call (a : Model α) : Call α → Model α
  | .createQueue Q _ => a.put Q (some [])
  | .enqueue Q _ x => a.put Q (some (a.elements Q ++ [x]))
  | .front Q => a.give (.element (a.elements Q).head?)
  | .dequeue Q => a.put Q (some (a.elements Q).tail)
  | .frontAndDequeue Q =>
    (a.put Q (some (a.elements Q).tail)).give (.element (a.elements Q).head?)
  | .isEmpty Q => a.give (.truth (a.elements Q).isEmpty)
  | .makeEmpty Q => a.put Q (some [])
  | .disposeQueue Q => a.put Q none

end Model

/-- The store holds these chains and no other nodes, every queue its own ones, and every node
that is gone has been freed exactly once. -/
structure Laid (s : Store α) (chains : Ptr → Option (Chain α)) : Prop where
  linked : ∀ Q E, s.queues Q = some E → Linked s.nodes.blocks E (chains Q)
  missing : ∀ Q, s.queues Q = none → chains Q = none
  apart : ∀ Q Q' p, p ∈ nodesOf (chains Q) → p ∈ nodesOf (chains Q') → Q = Q'
  allocated : ∀ p, s.nodes.blocks p ≠ none → ∃ Q, p ∈ nodesOf (chains Q)
  accounted : s.nodes.Accounted

section Laid
variable {s : Store α} {chains : Ptr → Option (Chain α)} {Q p : Ptr} {c : Option (Chain α)}

theorem laid_start : Laid (Store.start : Store α) fun _ => none :=
  ⟨fun _ _ h => absurd h (by simp [Store.start]), fun _ _ => rfl, fun _ _ _ h => absurd h (by simp [nodesOf]),
    fun _ h => absurd rfl h, Heap.accounted_empty⟩

theorem Laid.mem_allocated (hs : Laid s chains) (hp : p ∈ nodesOf (chains Q)) :
    s.nodes.blocks p ≠ none := by
  cases hQ : s.queues Q with
  | none =>
    rw [hs.missing Q hQ] at hp
    cases hp
  | some E => exact (hs.linked Q E hQ).allocated hp

/-- A node that a queue gets is not one of another queue. -/
theorem Laid.not_mem_of_ne (hs : Laid s chains) {h' : Nodes α} {Q' : Ptr} (hQ : Q' ≠ Q)
    (hre : Rechained s.nodes h' (nodesOf (chains Q)) (nodesOf c)) (hp : p ∈ nodesOf (chains Q')) :
    p ∉ nodesOf (chains Q) ∧ p ∉ nodesOf c := by
  have hold : p ∉ nodesOf (chains Q) := fun hp' => hQ (hs.apart Q' Q p hp hp')
  exact ⟨hold, fun hnew => hs.mem_allocated hp (hre.fresh p hnew hold)⟩

theorem Laid.put (hs : Laid s chains) {h' : Nodes α} {E' : Ends} (hl : Linked h'.blocks E' c)
    (hre : Rechained s.nodes h' (nodesOf (chains Q)) (nodesOf c)) :
    Laid (s.put Q (h', E')) (Function.update chains Q c) := by
  refine ⟨fun Q' E hE => ?_, fun Q' hQ' => ?_, fun Q₁ Q₂ p h₁ h₂ => ?_, fun p hp => ?_, ?_⟩
  · by_cases hQ : Q' = Q
    · subst hQ
      obtain rfl : E' = E := by simpa [Store.put] using hE
      rwa [Function.update_self]
    · have hE : s.queues Q' = some E := by simpa [Store.put, hQ] using hE
      rw [Function.update_of_ne hQ]
      apply (hs.linked Q' E hE).congr
      intro r hr
      obtain ⟨hold, hnew⟩ := hs.not_mem_of_ne hQ hre hr
      exact hre.frame r hold hnew
  · have hQ : Q' ≠ Q := by
      rintro rfl
      simp [Store.put] at hQ'
    rw [Function.update_of_ne hQ]
    exact hs.missing Q' (by simpa [Store.put, hQ] using hQ')
  · by_cases hQ₁ : Q₁ = Q <;> by_cases hQ₂ : Q₂ = Q
    · rw [hQ₁, hQ₂]
    · subst hQ₁
      rw [Function.update_self] at h₁
      rw [Function.update_of_ne hQ₂] at h₂
      exact absurd h₁ (hs.not_mem_of_ne hQ₂ hre h₂).2
    · subst hQ₂
      rw [Function.update_of_ne hQ₁] at h₁
      rw [Function.update_self] at h₂
      exact absurd h₂ (hs.not_mem_of_ne hQ₁ hre h₁).2
    · rw [Function.update_of_ne hQ₁] at h₁
      rw [Function.update_of_ne hQ₂] at h₂
      exact hs.apart Q₁ Q₂ p h₁ h₂
  · by_cases hnew : p ∈ nodesOf c
    · exact ⟨Q, by rwa [Function.update_self]⟩
    · have hold : p ∉ nodesOf (chains Q) := fun hold => hp (hre.freed p hold hnew)
      obtain ⟨Q', hQ'⟩ := hs.allocated p fun hnone => hp ((hre.frame p hold hnew).trans hnone)
      have hQ : Q' ≠ Q := fun hQ => hold (hQ ▸ hQ')
      exact ⟨Q', by rwa [Function.update_of_ne hQ]⟩
  · exact hre.accounted hs.accounted

theorem Laid.exists_chain (hs : Laid s chains) (hQ : s.Live Q) :
    ∃ E f cs, s.queues Q = some E ∧ chains Q = some (f, cs) ∧ Linked s.nodes.blocks E (some (f, cs)) := by
  obtain ⟨E, hE, hfront⟩ : ∃ E, s.queues Q = some E ∧ E.front ≠ none := by
    cases hE : s.queues Q with
    | none => exact absurd (by rw [hE, Option.bind_none]) hQ
    | some E => exact ⟨E, rfl, fun hfront => hQ (by rw [hE, Option.bind_some, hfront])⟩
  have hl := hs.linked Q E hE
  cases hc : chains Q with
  | none =>
    rw [hc] at hl
    exact absurd hl hfront
  | some c =>
    rw [hc] at hl
    exact ⟨E, c.1, c.2, hE, rfl, hl⟩

/-- There are fewer nodes than calls of `malloc` and `free`, so the loops have fuel enough. -/
theorem Laid.length_lt (hs : Laid s chains) {E : Ends} {f : Ptr} {cs : List (Ptr × α)}
    (hl : Linked s.nodes.blocks E (some (f, cs))) : cs.length + 1 < s.nodes.log.length + 1 := by
  have hlen := hs.accounted.length_le hl.2.2.2 fun p hp => hl.allocated hp
  rw [List.length_cons, List.length_map] at hlen
  omega

end Laid

/-- The elements along a chain. -/
def elementsOf (c : Option (Chain α)) : Option (List α) := c.map fun c => c.2.map Prod.snd

/-- The chains carry the elements of the model, and the calls have returned the same. -/
structure Refines (s : Store α) (a : Model α) (chains : Ptr → Option (Chain α)) : Prop where
  laid : Laid s chains
  queues : ∀ Q, a.queues Q = elementsOf (chains Q)
  results : s.results = a.results

section Refines
variable {s : Store α} {a : Model α} {chains : Ptr → Option (Chain α)} {Q p : Ptr}

theorem Refines.put (hr : Refines s a chains) {c : Option (Chain α)} {h' : Nodes α} {E' : Ends}
    (hl : Linked h'.blocks E' c)
    (hre : Rechained s.nodes h' (nodesOf (chains Q)) (nodesOf c)) :
    Refines (s.put Q (h', E')) (a.put Q (elementsOf c)) (Function.update chains Q c) := by
  refine ⟨hr.laid.put hl hre, fun Q' => ?_, hr.results⟩
  by_cases hQ : Q' = Q
  · subst hQ
    simp [Model.put]
  · simp [Model.put, hQ, hr.queues Q']

theorem Refines.give (hr : Refines s a chains) {r r' : Result α} (h : r = r') :
    Refines (s.give r) (a.give r') chains :=
  ⟨⟨hr.laid.linked, hr.laid.missing, hr.laid.apart, hr.laid.allocated, hr.laid.accounted⟩, hr.queues,
    by rw [Store.give, Model.give, hr.results, h]⟩

theorem Refines.elements (hr : Refines s a chains) {f : Ptr} {cs : List (Ptr × α)}
    (hc : chains Q = some (f, cs)) : a.elements Q = cs.map Prod.snd := by
  rw [Model.elements, hr.queues Q, hc]
  rfl

/-- A call that is allowed goes through, and does to the chains and returns what the
mathematical queues say. -/
theorem Refines.call (hr : Refines s a chains) {c : Call α} (hc : s.Allowed c) :
    ∃ t chains', s.call c = some t ∧ Refines t (a.call c) chains' := by
  cases c with
  | createQueue Q p =>
    have hre := rechained_createQueue hc.2
    rw [show ([] : List Ptr) = nodesOf (chains Q) by rw [hr.laid.missing Q hc.1]; rfl] at hre
    exact ⟨_, _, rfl, hr.put (linked_createQueue s.nodes p) hre⟩
  | enqueue Q p x =>
    obtain ⟨E, f, cs, hE, hchain, hl⟩ := hr.laid.exists_chain hc.1
    obtain ⟨h', E', hrun, hl', hre⟩ := hl.enqueue hc.2 x
    rw [← hchain] at hre
    have hput := hr.put hl' hre
    rw [elementsOf, Option.map_some, List.map_append, ← hr.elements hchain] at hput
    exact ⟨_, _, by rw [Store.call, hE, Option.bind_some, hrun, Option.map_some], hput⟩
  | front Q =>
    obtain ⟨E, f, cs, hE, hchain, hl⟩ := hr.laid.exists_chain hc
    refine ⟨_, chains, by rw [Store.call, hE, Option.bind_some, hl.frontElement, Option.map_some], ?_⟩
    apply hr.give
    rw [hr.elements hchain, List.head?_map]
  | dequeue Q =>
    obtain ⟨E, f, cs, hE, hchain, hl⟩ := hr.laid.exists_chain hc
    obtain ⟨h', E', hrun, hl', hre⟩ := hl.dequeue
    rw [← hchain] at hre
    have hput := hr.put hl' hre
    rw [elementsOf, Option.map_some, List.map_tail, ← hr.elements hchain] at hput
    exact ⟨_, _, by rw [Store.call, hE, Option.bind_some, hrun, Option.map_some], hput⟩
  | frontAndDequeue Q =>
    obtain ⟨E, f, cs, hE, hchain, hl⟩ := hr.laid.exists_chain hc
    obtain ⟨h', E', hrun, hl', hre⟩ := hl.frontAndDequeue
    rw [← hchain] at hre
    have hput := hr.put hl' hre
    rw [elementsOf, Option.map_some, List.map_tail, ← hr.elements hchain] at hput
    have hhead : cs.head?.map Prod.snd = (a.elements Q).head? := by
      rw [hr.elements hchain, List.head?_map]
    refine ⟨_, _, ?_, hput.give (congrArg Result.element hhead)⟩
    rw [Store.call, hE, Option.bind_some, hrun, Option.map_some]
  | isEmpty Q =>
    obtain ⟨E, f, cs, hE, hchain, hl⟩ := hr.laid.exists_chain hc
    refine ⟨_, chains, by rw [Store.call, hE, Option.map_some], hr.give ?_⟩
    have hiff := hl.isEmpty_iff
    rw [hr.elements hchain]
    cases cs <;> simp_all
  | makeEmpty Q =>
    obtain ⟨E, f, cs, hE, hchain, hl⟩ := hr.laid.exists_chain hc
    have hfuel := hr.laid.length_lt hl
    obtain ⟨h', E', hrun, hl', hre⟩ := hl.makeEmptyLoop (n := s.nodes.log.length + 1) (by omega)
    rw [← hchain] at hre
    refine ⟨_, _, ?_, hr.put hl' hre⟩
    rw [Store.call, hE, Option.bind_some, Ends.makeEmpty, hrun, Option.map_some]
  | disposeQueue Q =>
    obtain ⟨E, f, cs, hE, hchain, hl⟩ := hr.laid.exists_chain hc
    have hfuel := hr.laid.length_lt hl
    obtain ⟨hfront, -, hspine, hnodup⟩ := hl
    obtain ⟨h', hrun, hre⟩ := hspine.disposeQueueLoop hnodup hfront hfuel
    have hgone : Linked h'.blocks ⟨none, none⟩ none := rfl
    refine ⟨_, _, ?_, hr.put hgone (by rw [hchain]; exact hre)⟩
    rw [Store.call, hE, Option.bind_some, Ends.disposeQueue, hrun, Option.map_some]

end Refines

/-- Whatever calls are made, none of them goes wrong, the chains of the queues carry what
mathematical queues would hold, the calls return what these would return, and once all queues
are disposed of every node that there has been is freed, and each once. -/
theorem fifo_run (calls : List (Call α)) (h : Offers Store.call Store.Allowed Store.start calls) :
    ∃ s chains, runFrom Store.call Store.start calls = some s ∧
      Refines s (calls.foldl Model.call Model.start) chains ∧
      ((∀ Q, (calls.foldl Model.call Model.start).queues Q = none) →
        ∀ p, ∃ n, s.nodes.history p = (List.replicate n [.malloc p, .free p]).flatten) := by
  have h0 : Refines (Store.start : Store α) Model.start fun _ => none :=
    ⟨laid_start, fun _ => rfl, rfl⟩
  have hstep : ∀ s a c, (∃ chains, Refines s a chains) → Store.Allowed s c →
      ∃ t, Store.call s c = some t ∧ ∃ chains : Ptr → Option (Chain α), Refines t (Model.call a c) chains := by
    rintro s a c ⟨chains, hr⟩ hc
    obtain ⟨t, chains', ht, hr'⟩ := hr.call hc
    exact ⟨t, ht, chains', hr'⟩
  obtain ⟨s, hs, chains, hr⟩ := h.simulates hstep ⟨_, h0⟩
  refine ⟨s, chains, hs, hr, fun hdisposed p => ?_⟩
  have hblock : s.nodes.blocks p = none := by
    by_contra hp
    obtain ⟨Q, hQ⟩ := hr.laid.allocated p hp
    have hnone : chains Q = none := by
      have hchain := hr.queues Q
      rw [hdisposed Q] at hchain
      exact Option.map_eq_none_iff.mp hchain.symm
    rw [hnone] at hQ
    cases hQ
  obtain ⟨n, hn⟩ := hr.laid.accounted p
  rw [hblock] at hn
  exact ⟨n, by simpa using hn⟩

/-- Two queues side by side; the address of a freed node is used again. -/
def twoQueues : List (Call Char) :=
  [.createQueue 0 0, .createQueue 1 1, .enqueue 0 2 'a', .enqueue 1 3 'b', .frontAndDequeue 0,
    .enqueue 1 2 'c', .front 1, .makeEmpty 1, .isEmpty 1, .disposeQueue 1, .disposeQueue 0]

theorem fifo_run_twoQueues :
    ∃ s chains, runFrom Store.call Store.start twoQueues = some s ∧
      Refines s (twoQueues.foldl Model.call Model.start) chains ∧
      ((∀ Q, (twoQueues.foldl Model.call Model.start).queues Q = none) →
        ∀ p, ∃ n, s.nodes.history p = (List.replicate n [.malloc p, .free p]).flatten) :=
  fifo_run twoQueues (by decide)

end CLib.Queue
