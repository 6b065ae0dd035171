import CLib.Base.Heap
import CLib.Queue.LinkedQueue

namespace CLib.Queue
open CLib.Base

/-- The blocks that hold a `struct QNode`. -/
abbrev Nodes (α : Type) := Heap Ptr (QNode α)

/-- `struct Node`, to which a `Queue` points, apart from the nodes. -/
structure Ends where
  front : Option Ptr
  rear : Option Ptr
  deriving DecidableEq

variable {α : Type}

namespace Ends

def isEmpty (Q : Ends) : Bool := Q.front == Q.rear

/-- `create_queue`, where `malloc` returns `p` for the dummy node. -/
def createQueue (h : Nodes α) (p : Ptr) : Nodes α × Ends :=
  (h.malloc p ⟨none, none⟩, ⟨some p, some p⟩)

/-- `enqueue`, where `malloc` returns `p`. -/
def enqueue (Q : Ends) (h : Nodes α) (p : Ptr) (x : α) : Option (Nodes α × Ends) := do
  let h := h.malloc p ⟨some x, none⟩
  let last ← h.load Q.rear
  let h ← h.store Q.rear { last with next := some p }
  some (h, { Q with rear := some p })

/-- `front`; the result 0 is `none`. -/
def frontElement (Q : Ends) (h : Nodes α) : Option (Option α) :=
  if Q.isEmpty then some none
  else do
    let dummy ← h.load Q.front
    let node ← h.load dummy.next
    some node.element

def dequeue (Q : Ends) (h : Nodes α) : Option (Nodes α × Ends) :=
  if Q.isEmpty then some (h, Q)
  else do
    let dummy ← h.load Q.front
    let p ← dummy.next
    let node ← h.load (some p)
    let h ← h.store Q.front { dummy with next := node.next }
    let h ← h.free p
    some (h, { Q with rear := if Q.rear = some p then Q.front else Q.rear })

/-- `front_and_dequeue`, which ends the process if `Q->Front->Next` is `NULL`. -/
def frontAndDequeue (Q : Ends) (h : Nodes α) : Option (Option α × Nodes α × Ends) :=
  if Q.isEmpty then some (none, h, Q)
  else do
    let dummy ← h.load Q.front
    let p ← dummy.next
    let node ← h.load (some p)
    let h ← h.store Q.front { dummy with next := node.next }
    let h ← h.free p
    some (node.element, h, { Q with rear := if Q.rear = some p then Q.front else Q.rear })

/-- The loop of `make_empty`; `none` if the fuel runs out. -/
def makeEmptyLoop : ℕ → Ends → Nodes α → Option (Nodes α × Ends)
  | 0, _, _ => none
  | n + 1, Q, h =>
    if Q.isEmpty then some (h, Q)
    else (Q.dequeue h).bind fun r => makeEmptyLoop n r.2 r.1

/-- `make_empty`. There are no more nodes to remove than there were calls of `malloc`. -/
def makeEmpty (Q : Ends) (h : Nodes α) : Option (Nodes α × Ends) :=
  makeEmptyLoop (h.log.length + 1) Q h

/-- The loop of `dispose_queue`. -/
def disposeQueueLoop : ℕ → Ends → Nodes α → Option (Nodes α × Ends)
  | 0, _, _ => none
  | n + 1, Q, h =>
    match Q.front with
    | none => some (h, Q)
    | some f =>
      (h.load (some f)).bind fun dummy =>
        (h.free f).bind fun h => disposeQueueLoop n ⟨dummy.next, dummy.next⟩ h

/-- `dispose_queue`, which does not free the `struct Node` itself. -/
def disposeQueue (Q : Ends) (h : Nodes α) : Option (Nodes α × Ends) :=
  disposeQueueLoop (h.log.length + 1) Q h

theorem dequeue_eq (Q : Ends) (h : Nodes α) : Q.dequeue h = (Q.frontAndDequeue h).map Prod.snd := by
  unfold dequeue frontAndDequeue
  by_cases hempty : Q.isEmpty
  · rw [if_pos hempty, if_pos hempty, Option.map_some]
  · rw [if_neg hempty, if_neg hempty]
    simp only [Option.bind_eq_bind, Option.map_bind, Function.comp_def, Option.map_some]

/-- A queue and its nodes as one value. -/
def node (Q : Ends) (h : Nodes α) : Node α := ⟨h.blocks, Q.front, Q.rear⟩

theorem node_enqueue (Q : Ends) (h : Nodes α) (p : Ptr) (x : α) :
    (Q.enqueue h p x).map (fun r => r.2.node r.1) = (Q.node h).enqueue p x := by
  obtain ⟨front, rear⟩ := Q
  cases rear with
  | none => rfl
  | some r =>
    cases hr : (h.malloc p ⟨some x, none⟩).blocks r with
    | none =>
      have hr' : Function.update h.blocks p (some ⟨some x, none⟩) r = none := hr
      simp [enqueue, Node.enqueue, node, hr']
    | some last =>
      have hr' : Function.update h.blocks p (some ⟨some x, none⟩) r = some last := hr
      simp [enqueue, Node.enqueue, node, hr', Heap.store_eq hr]

/-- On the contents of the nodes, `front_and_dequeue` does what `Node.frontAndDequeue` does. -/
theorem node_frontAndDequeue (Q : Ends) (h : Nodes α) :
    (Q.frontAndDequeue h).map (fun r => (r.1, r.2.2.node r.2.1)) = (Q.node h).frontAndDequeue := by
  have hempty : (Q.node h).isEmpty = Q.isEmpty := rfl
  rw [frontAndDequeue, Node.frontAndDequeue, hempty]
  by_cases he : Q.isEmpty
  · rw [if_pos he, if_pos he]
    rfl
  rw [if_neg he, if_neg he]
  obtain ⟨front, rear⟩ := Q
  cases front with
  | none => rfl
  | some f =>
    cases hf : h.blocks f with
    | none => simp [node, hf]
    | some dummy =>
      obtain ⟨e, next⟩ := dummy
      cases next with
      | none => simp [node, hf]
      | some p =>
        cases hp : h.blocks p with
        | none => simp [node, hf, hp]
        | some n =>
          have hfree : ∃ n', Function.update h.blocks f (some ⟨e, n.next⟩) p = some n' := by
            by_cases hpf : p = f
            · exact ⟨_, by rw [hpf, Function.update_self]⟩
            · exact ⟨n, by rw [Function.update_of_ne hpf, hp]⟩
          obtain ⟨n', hn'⟩ := hfree
          by_cases hr : rear = some p <;> simp [node, hf, hp, Heap.store_eq hf, Heap.free, hn', hr]

end Ends

/-- A dummy node, and the nodes behind it with their elements. -/
abbrev Chain (α : Type) := Ptr × List (Ptr × α)

/-- The nodes of a queue; a queue that has been disposed of has none. -/
def nodesOf : Option (Chain α) → List Ptr
  | none => []
  | some (f, cs) => f :: cs.map Prod.fst

/-- `Q` is the queue of this chain: the pointers lead from `Front` through its nodes,
without a cycle, to `Rear`, and the last one is `NULL`. -/
def Linked (blocks : Ptr → Option (QNode α)) (Q : Ends) : Option (Chain α) → Prop
  | none => Q.front = none
  | some (f, cs) =>
    Q.front = some f ∧ Q.rear = some (lastNode f cs) ∧ Spine blocks f cs ∧
      (f :: cs.map Prod.fst).Nodup

/-- From `h` to `h'` one queue has exchanged its nodes: no others are touched, those that
it lost are freed, and those that it got are new. -/
structure Rechained (h h' : Nodes α) (old new : List Ptr) : Prop where
  frame : ∀ r, r ∉ old → r ∉ new → h'.blocks r = h.blocks r
  freed : ∀ r ∈ old, r ∉ new → h'.blocks r = none
  fresh : ∀ r ∈ new, r ∉ old → h.blocks r = none
  accounted : h.Accounted → h'.Accounted

section Chains
variable {h h' h'' : Nodes α} {Q : Ends} {f p : Ptr} {x : α} {cs : List (Ptr × α)} {c : Option (Chain α)}

theorem Rechained.refl (h : Nodes α) (ps : List Ptr) : Rechained h h ps ps :=
  ⟨fun _ _ _ => rfl, fun _ hr hr' => absurd hr hr', fun _ hr hr' => absurd hr hr', id⟩

/-- Two exchanges in each of which nodes are only lost. -/
theorem Rechained.trans {ps qs rs : List Ptr} (h₁ : Rechained h h' ps qs)
    (h₂ : Rechained h' h'' qs rs) (hqp : qs ⊆ ps) (hrq : rs ⊆ qs) : Rechained h h'' ps rs := by
  refine ⟨fun r hr hr' => ?_, fun r hr hr' => ?_, fun r hr hr' => absurd (hqp (hrq hr)) hr', ?_⟩
  · have hq : r ∉ qs := fun hq => hr (hqp hq)
    rw [h₂.frame r hq hr', h₁.frame r hr hq]
  · by_cases hq : r ∈ qs
    · exact h₂.freed r hq hr'
    · rw [h₂.frame r hq hr', h₁.freed r hr hq]
  · exact fun ha => h₂.accounted (h₁.accounted ha)

theorem Rechained.free {d : QNode α} (hd : h.blocks f = some d) (ps : List Ptr) :
    Rechained h ⟨Function.update h.blocks f none, h.log ++ [.free f]⟩ (f :: ps) ps := by
  refine ⟨fun r hr _ => ?_, fun r hr hr' => ?_, fun r hr hr' => ?_, fun ha => ?_⟩
  · exact Function.update_of_ne (List.ne_of_not_mem_cons hr) none h.blocks
  · rw [(List.mem_cons.mp hr).resolve_right hr']
    exact Function.update_self f none h.blocks
  · exact absurd (List.mem_cons_of_mem f hr) hr'
  · exact ha.free (by rw [hd]; exact Option.some_ne_none d)

theorem Linked.congr {blocks blocks' : Ptr → Option (QNode α)} (hl : Linked blocks Q c)
    (hblocks : ∀ r ∈ nodesOf c, blocks' r = blocks r) : Linked blocks' Q c := by
  cases c with
  | none => exact hl
  | some c =>
    obtain ⟨hfront, hrear, hspine, hnodup⟩ := hl
    refine ⟨hfront, hrear, hspine.congr (hblocks _ List.mem_cons_self) fun r hr => ?_, hnodup⟩
    exact hblocks r.1 (List.mem_cons_of_mem _ (List.mem_map_of_mem hr))

theorem Linked.allocated (hl : Linked h.blocks Q c) (hp : p ∈ nodesOf c) : h.blocks p ≠ none := by
  cases c with
  | none => cases hp
  | some c => exact hl.2.2.1.mem_allocated hp

/-- `is_empty` compares two pointers, which are equal only on the bare dummy node. -/
theorem Linked.isEmpty_iff (hl : Linked h.blocks Q (some (f, cs))) : Q.isEmpty ↔ cs = [] := by
  obtain ⟨hfront, hrear, -, hnodup⟩ := hl
  rw [Ends.isEmpty, hfront, hrear]
  cases cs with
  | nil => simp
  | cons c cs =>
    have hne : f ≠ lastNode c.1 cs := fun hf =>
      (List.nodup_cons.mp hnodup).1 (hf ▸ lastNode_mem c.1 cs)
    simpa using hne

theorem linked_createQueue (h : Nodes α) (p : Ptr) :
    Linked (Ends.createQueue h p).1.blocks (Ends.createQueue h p).2 (some (p, [])) :=
  ⟨rfl, rfl, ⟨none, Function.update_self ..⟩, List.nodup_singleton p⟩

theorem rechained_createQueue (hp : h.blocks p = none) :
    Rechained h (Ends.createQueue h p).1 [] (nodesOf (some (p, ([] : List (Ptr × α))))) := by
  refine ⟨fun r _ hr => ?_, fun r hr => (nomatch hr), fun r hr _ => ?_, fun ha => ha.malloc hp _⟩
  · exact Function.update_of_ne (by simpa [nodesOf] using hr) _ _
  · obtain rfl : r = p := by simpa [nodesOf] using hr
    exact hp

theorem Linked.enqueue (hl : Linked h.blocks Q (some (f, cs))) (hp : h.blocks p = none) (x : α) :
    ∃ h' Q', Q.enqueue h p x = some (h', Q') ∧ Linked h'.blocks Q' (some (f, cs ++ [(p, x)])) ∧
      Rechained h h' (nodesOf (some (f, cs))) (nodesOf (some (f, cs ++ [(p, x)]))) := by
  obtain ⟨hfront, hrear, hspine, hnodup⟩ := hl
  have hfresh : p ∉ f :: cs.map Prod.fst := fun hmem => hspine.mem_allocated hmem hp
  have hne : lastNode f cs ≠ p := fun hlp => hfresh (hlp ▸ lastNode_mem f cs)
  obtain ⟨last, hlast⟩ : ∃ last, h.blocks (lastNode f cs) = some last :=
    Option.ne_none_iff_exists'.mp (hspine.mem_allocated (lastNode_mem f cs))
  have hlast' : (h.malloc p ⟨some x, none⟩).blocks (lastNode f cs) = some last := by
    rw [Heap.blocks_malloc, Function.update_of_ne hne, hlast]
  have hrun : Q.enqueue h p x = some
      (⟨Function.update (h.malloc p ⟨some x, none⟩).blocks (lastNode f cs)
          (some { last with next := some p }), (h.malloc p ⟨some x, none⟩).log⟩,
        ⟨some f, some p⟩) := by
    rw [Ends.enqueue, hrear, hfront]
    simp only [Heap.load_some, hlast', Option.bind_eq_bind, Option.bind_some,
      Heap.store_eq hlast']
  refine ⟨_, _, hrun, ⟨rfl, by rw [lastNode_concat], ?_, ?_⟩, ⟨fun r hr hr' => ?_, ?_, ?_, fun ha => ?_⟩⟩
  · apply hspine.concat hnodup hfresh hlast
    · simp [hne.symm]
    · simp
    · intro r hrp hrl
      simp [hrp, hrl]
  · rw [List.map_append, ← List.cons_append]
    exact hnodup.append (List.nodup_singleton p) (by simpa [eq_comm] using hfresh)
  · have hrl : r ≠ lastNode f cs := fun hrl => hr (hrl ▸ lastNode_mem f cs)
    have hrp : r ≠ p := fun hrp => hr' (by simp [nodesOf, hrp])
    simp [hrp, hrl]
  · intro r hr hr'
    exact absurd (by simpa [nodesOf, or_assoc] using Or.inl hr) hr'
  · intro r hr hr'
    have hrp : r = p := by
      rw [nodesOf, List.map_append, ← List.cons_append, List.mem_append] at hr
      simpa using hr.resolve_left hr'
    rw [hrp, hp]
  · apply (ha.malloc hp ⟨some x, none⟩).store
    rw [hlast']
    exact Option.some_ne_none last

theorem Linked.frontElement (hl : Linked h.blocks Q (some (f, cs))) :
    Q.frontElement h = some (cs.head?.map Prod.snd) := by
  have hempty := hl.isEmpty_iff
  obtain ⟨hfront, -, hspine, -⟩ := hl
  cases cs with
  | nil => rw [Ends.frontElement, if_pos (hempty.mpr rfl), List.head?_nil, Option.map_none]
  | cons c cs =>
    obtain ⟨⟨e, he⟩, ⟨n, hn⟩, -⟩ := hspine
    rw [Ends.frontElement, if_neg (by simp [hempty]), hfront]
    simp [he, hn]

theorem Linked.frontAndDequeue_cons (hl : Linked h.blocks Q (some (f, (p, x) :: cs))) :
    ∃ h' Q', Q.frontAndDequeue h = some (some x, h', Q') ∧ Linked h'.blocks Q' (some (f, cs)) ∧
      Rechained h h' (nodesOf (some (f, (p, x) :: cs))) (nodesOf (some (f, cs))) := by
  have hempty := hl.isEmpty_iff
  obtain ⟨hfront, hrear, ⟨⟨e, he⟩, ⟨n, hn⟩, htail⟩, hnodup⟩ := hl
  simp only [List.map_cons, List.nodup_cons, List.mem_cons, not_or] at hnodup
  obtain ⟨⟨hfp, hfcs⟩, hpcs, hcs⟩ := hnodup
  let h₁ : Nodes α := ⟨Function.update h.blocks f (some ⟨e, n⟩), h.log⟩
  have hn' : h₁.blocks p = some ⟨some x, n⟩ := by
    show Function.update h.blocks f (some ⟨e, n⟩) p = _
    rw [Function.update_of_ne (Ne.symm hfp), hn]
  have hrun : Q.frontAndDequeue h = some (some x,
      ⟨Function.update h₁.blocks p none, h₁.log ++ [.free p]⟩,
      { Q with rear := if Q.rear = some p then Q.front else Q.rear }) := by
    rw [Ends.frontAndDequeue, if_neg (by simp [hempty]), hfront]
    have hstore : h.store (some f) ⟨e, n⟩ = some h₁ := Heap.store_eq he _
    simp [he, hn, hstore, Heap.free_eq hn']
  refine ⟨_, _, hrun, ⟨hfront, ?_, ?_, List.nodup_cons.mpr ⟨hfcs, hcs⟩⟩, ?_, ?_, ?_, fun ha => ?_⟩
  · rw [hrear, hfront, lastNode_cons]
    cases cs with
    | nil => simp
    | cons c cs =>
      have hlast : lastNode c.1 cs ≠ p := fun hlp => hpcs (hlp ▸ lastNode_mem c.1 cs)
      simp [hlast]
  · apply htail.relabel hpcs hn ⟨e, by simp [h₁, hfp]⟩
    intro r hr
    have hmem : r.1 ∈ cs.map Prod.fst := List.mem_map_of_mem hr
    have hrp : r.1 ≠ p := fun hrp => hpcs (hrp ▸ hmem)
    have hrf : r.1 ≠ f := fun hrf => hfcs (hrf ▸ hmem)
    simp [h₁, hrp, hrf]
  · intro r hr hr'
    simp only [nodesOf, List.map_cons, List.mem_cons, not_or] at hr
    simp [h₁, hr.1, hr.2.1]
  · intro r hr hr'
    simp only [nodesOf, List.map_cons, List.mem_cons, not_or] at hr hr'
    have hrp : r = p := (hr.resolve_left hr'.1).resolve_right hr'.2
    simp [hrp]
  · intro r hr hr'
    simp only [nodesOf, List.map_cons, List.mem_cons, not_or] at hr hr'
    exact absurd (hr.resolve_left hr'.1) hr'.2.2
  · have ha₁ : h₁.Accounted := ha.store (by rw [he]; exact Option.some_ne_none _) ⟨e, n⟩
    apply ha₁.free
    rw [hn']
    exact Option.some_ne_none _

theorem Linked.frontAndDequeue (hl : Linked h.blocks Q (some (f, cs))) :
    ∃ h' Q', Q.frontAndDequeue h = some (cs.head?.map Prod.snd, h', Q') ∧
      Linked h'.blocks Q' (some (f, cs.tail)) ∧
      Rechained h h' (nodesOf (some (f, cs))) (nodesOf (some (f, cs.tail))) := by
  cases cs with
  | nil =>
    have hempty : Q.isEmpty := hl.isEmpty_iff.mpr rfl
    exact ⟨h, Q, if_pos hempty, hl, .refl h _⟩
  | cons c cs => exact hl.frontAndDequeue_cons

theorem Linked.dequeue (hl : Linked h.blocks Q (some (f, cs))) :
    ∃ h' Q', Q.dequeue h = some (h', Q') ∧ Linked h'.blocks Q' (some (f, cs.tail)) ∧
      Rechained h h' (nodesOf (some (f, cs))) (nodesOf (some (f, cs.tail))) := by
  obtain ⟨h', Q', hrun, hl', hre⟩ := hl.frontAndDequeue
  exact ⟨h', Q', by rw [Ends.dequeue_eq, hrun, Option.map_some], hl', hre⟩

theorem Linked.makeEmptyLoop (hl : Linked h.blocks Q (some (f, cs))) {n : ℕ} (hn : cs.length < n) :
    ∃ h' Q', Ends.makeEmptyLoop n Q h = some (h', Q') ∧ Linked h'.blocks Q' (some (f, [])) ∧
      Rechained h h' (nodesOf (some (f, cs))) (nodesOf (some (f, ([] : List (Ptr × α))))) := by
  obtain ⟨n, rfl⟩ : ∃ m, n = m + 1 := ⟨n - 1, by omega⟩
  induction cs generalizing h Q n with
  | nil =>
    have hempty : Q.isEmpty := hl.isEmpty_iff.mpr rfl
    exact ⟨h, Q, if_pos hempty, hl, .refl h _⟩
  | cons c cs ih =>
    have hempty : ¬ Q.isEmpty := by simp [hl.isEmpty_iff]
    obtain ⟨h₁, Q₁, hrun, hl₁, hre₁⟩ := hl.dequeue
    rw [List.length_cons] at hn
    obtain ⟨n, rfl⟩ : ∃ m, n = m + 1 := ⟨n - 1, by omega⟩
    obtain ⟨h₂, Q₂, hloop, hl₂, hre₂⟩ := ih hl₁ n (by omega)
    refine ⟨h₂, Q₂, ?_, hl₂, hre₁.trans hre₂ ?_ ?_⟩
    · rw [Ends.makeEmptyLoop, if_neg hempty, hrun, Option.bind_some, hloop]
    · intro r hr
      simp only [nodesOf, List.tail_cons, List.map_cons, List.mem_cons] at hr ⊢
      tauto
    · intro r hr
      simp only [nodesOf, List.tail_cons, List.map_nil, List.mem_cons] at hr ⊢
      tauto

theorem Spine.disposeQueueLoop (hs : Spine h.blocks f cs) (hnodup : (f :: cs.map Prod.fst).Nodup)
    (hf : Q.front = some f) {n : ℕ} (hn : cs.length + 1 < n) :
    ∃ h', Ends.disposeQueueLoop n Q h = some (h', ⟨none, none⟩) ∧
      Rechained h h' (f :: cs.map Prod.fst) [] := by
  obtain ⟨n, rfl⟩ : ∃ m, n = m + 2 := ⟨n - 2, by omega⟩
  induction cs generalizing h f Q n with
  | nil =>
    obtain ⟨e, he⟩ := hs
    refine ⟨_, ?_, .free he []⟩
    rw [Ends.disposeQueueLoop, hf]
    simp [he, Heap.free_eq he, Ends.disposeQueueLoop]
  | cons c cs ih =>
    obtain ⟨⟨e, he⟩, -, htail⟩ := hs
    rw [List.map_cons, List.nodup_cons] at hnodup
    let h₁ : Nodes α := ⟨Function.update h.blocks f none, h.log ++ [.free f]⟩
    have hother : ∀ r ∈ c.1 :: cs.map Prod.fst, h₁.blocks r = h.blocks r := by
      intro r hr
      have hrf : r ≠ f := fun hrf => hnodup.1 (hrf ▸ hr)
      exact Function.update_of_ne hrf none h.blocks
    have htail₁ : Spine h₁.blocks c.1 cs := htail.congr (hother _ List.mem_cons_self) fun r hr =>
      hother r.1 (List.mem_cons_of_mem _ (List.mem_map_of_mem hr))
    rw [List.length_cons] at hn
    obtain ⟨n, rfl⟩ : ∃ m, n = m + 1 := ⟨n - 1, by omega⟩
    obtain ⟨h₂, hloop, hre⟩ :=
      ih htail₁ hnodup.2 (Q := ⟨some c.1, some c.1⟩) rfl n (by omega)
    refine ⟨h₂, ?_, (Rechained.free he _).trans hre (List.subset_cons_self f _) (List.nil_subset _)⟩
    rw [Ends.disposeQueueLoop, hf]
    simp only [Heap.load_some, he, Option.bind_some, Heap.free_eq he]
    exact hloop

end Chains

section Holds
variable {q : Node α} {xs : List α} {x : α} {f p : Ptr} {cs : List (Ptr × α)}

def Node.ends (q : Node α) : Ends := ⟨q.front, q.rear⟩

/-- A heap with the cells of `q` only. -/
def Node.heap (q : Node α) : Nodes α := ⟨q.cells, []⟩

theorem Represents.linked (hrep : Represents q f cs) :
    Linked q.heap.blocks q.ends (some (f, cs)) :=
  ⟨hrep.front, hrep.rear, hrep.spine, hrep.nodup⟩

theorem Represents.rechained (hrep : Represents q f cs) {h' : Nodes α} {Q' : Ends}
    {cs' : List (Ptr × α)} (hl : Linked h'.blocks Q' (some (f, cs')))
    (hre : Rechained q.heap h' (nodesOf (some (f, cs))) (nodesOf (some (f, cs')))) :
    Represents (Q'.node h') f cs' := by
  obtain ⟨hfront, hrear, hspine, hnodup⟩ := hl
  refine ⟨hfront, hrear, hspine, hnodup, fun r hr => ?_⟩
  by_contra hnew
  by_cases hold : r ∈ nodesOf (some (f, cs))
  · exact hr (hre.freed r hold hnew)
  · have hcells : q.cells r = none := by
      by_contra hne
      exact hold (hrep.allocated r hne)
    exact hr ((hre.frame r hold hnew).trans hcells)

theorem holds_createQueue (p : Ptr) : Holds (Node.createQueue p : Node α) [] := by
  refine ⟨p, [], ⟨rfl, rfl, ⟨none, ?_⟩, by simp, fun r hr => ?_⟩, rfl⟩
  · simp [Node.createQueue]
  · by_contra hne
    have hrp : r ≠ p := by simpa using hne
    simp [Node.createQueue, hrp] at hr

theorem Holds.isEmpty_iff (h : Holds q xs) : q.isEmpty ↔ xs = [] := by
  obtain ⟨f, cs, hrep, rfl⟩ := h
  have hempty : q.isEmpty ↔ cs = [] := hrep.linked.isEmpty_iff
  rw [hempty, List.map_eq_nil_iff]

theorem Holds.enqueue (h : Holds q xs) (hp : q.cells p = none) (x : α) :
    ∃ q', q.enqueue p x = some q' ∧ Holds q' (xs ++ [x]) := by
  obtain ⟨f, cs, hrep, rfl⟩ := h
  obtain ⟨h', Q', hrun, hl, hre⟩ := hrep.linked.enqueue hp x
  have hnode := q.ends.node_enqueue q.heap p x
  rw [hrun, Option.map_some] at hnode
  exact ⟨_, hnode.symm, f, _, hrep.rechained hl hre, by simp⟩

theorem Holds.frontAndDequeue (h : Holds q (x :: xs)) :
    ∃ q', q.frontAndDequeue = some (some x, q') ∧ Holds q' xs := by
  obtain ⟨f, cs, hrep, hxs⟩ := h
  obtain ⟨h', Q', hrun, hl, hre⟩ := hrep.linked.frontAndDequeue
  have hhead : cs.head?.map Prod.snd = some x := by
    rw [← List.head?_map, hxs, List.head?_cons]
  have hnode := q.ends.node_frontAndDequeue q.heap
  rw [hrun, Option.map_some, hhead] at hnode
  refine ⟨_, hnode.symm, f, cs.tail, hrep.rechained hl hre, ?_⟩
  rw [List.map_tail, hxs, List.tail_cons]

end Holds
end CLib.Queue
