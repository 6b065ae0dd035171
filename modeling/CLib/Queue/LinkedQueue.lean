import Mathlib.Logic.Function.Basic
import Mathlib.Data.List.Nodup
import Mathlib.Tactic.Common

namespace CLib.Queue

/-- An address that `malloc` returns; `NULL` is `none` of `Option Ptr`. -/
abbrev Ptr := ℕ

/-- `struct QNode`; the element of the dummy node is never set. -/
structure QNode (α : Type) where
  element : Option α
  next : Option Ptr

/-- `struct Node`, with the `QNode` blocks that are allocated. -/
structure Node (α : Type) where
  cells : Ptr → Option (QNode α)
  front : Option Ptr
  rear : Option Ptr

variable {α : Type}

namespace Node

def isEmpty (q : Node α) : Bool := q.front == q.rear

/-- `create_queue`, where `malloc` returns `p` for the dummy node. -/
def createQueue (p : Ptr) : Node α where
  cells := Function.update (fun _ => none) p (some ⟨none, none⟩)
  front := some p
  rear := some p

/-- `enqueue`, where `malloc` returns `p`; `none` if a pointer that is followed
is `NULL` or does not lead to an allocated node. -/
def enqueue (q : Node α) (p : Ptr) (x : α) : Option (Node α) := do
  let cells := Function.update q.cells p (some ⟨some x, none⟩)
  let r ← q.rear
  let last ← cells r
  some { q with cells := Function.update cells r (some { last with next := some p }), rear := some p }

/-- `front_and_dequeue`: the element and the queue after it. The pointer that the
code tests against `NULL` before it goes on is `p`. -/
def frontAndDequeue (q : Node α) : Option (Option α × Node α) :=
  if q.isEmpty then some (none, q)
  else do
    let f ← q.front
    let dummy ← q.cells f
    let p ← dummy.next
    let node ← q.cells p
    let cells := Function.update q.cells f (some { dummy with next := node.next })
    some (node.element,
      { cells := Function.update cells p none
        front := q.front
        rear := if q.rear = some p then q.front else q.rear })

end Node

/-- The nodes after `f`, with their elements: following `next` from `f` passes
through them in this order and ends in `NULL`. -/
def Spine (cells : Ptr → Option (QNode α)) : Ptr → List (Ptr × α) → Prop
  | f, [] => ∃ e, cells f = some ⟨e, none⟩
  | f, (p, x) :: cs =>
    (∃ e, cells f = some ⟨e, some p⟩) ∧ (∃ n, cells p = some ⟨some x, n⟩) ∧ Spine cells p cs

def lastNode (f : Ptr) (cs : List (Ptr × α)) : Ptr := (cs.map Prod.fst).getLastD f

/-- `q` represents the elements `xs`: the chain from the dummy node has no
cycle, ends at `rear`, carries `xs`, and takes up all allocated nodes. -/
structure Represents (q : Node α) (f : Ptr) (cs : List (Ptr × α)) : Prop where
  front : q.front = some f
  rear : q.rear = some (lastNode f cs)
  spine : Spine q.cells f cs
  nodup : (f :: cs.map Prod.fst).Nodup
  allocated : ∀ p, q.cells p ≠ none → p ∈ f :: cs.map Prod.fst

def Holds (q : Node α) (xs : List α) : Prop := ∃ f cs, Represents q f cs ∧ cs.map Prod.snd = xs

section Spine
variable {cells cells' : Ptr → Option (QNode α)} {f p : Ptr} {x : α} {cs : List (Ptr × α)}

theorem Spine.congr (h : Spine cells f cs) (hf : cells' f = cells f)
    (hcs : ∀ r ∈ cs, cells' r.1 = cells r.1) : Spine cells' f cs := by
  induction cs generalizing f with
  | nil =>
    rw [Spine, hf]
    exact h
  | cons c cs ih =>
    obtain ⟨hhead, hnode, htail⟩ := h
    obtain ⟨hc, hcs⟩ := List.forall_mem_cons.mp hcs
    exact ⟨hf ▸ hhead, hc ▸ hnode, ih htail hc hcs⟩

theorem Spine.allocated (h : Spine cells f cs) : cells f ≠ none := by
  cases cs with
  | nil =>
    obtain ⟨e, he⟩ := h
    simp [he]
  | cons c cs =>
    obtain ⟨⟨e, he⟩, -⟩ := h
    simp [he]

theorem Spine.relabel (h : Spine cells f cs) (hnodup : f ∉ cs.map Prod.fst) {g : Ptr} {e : Option α}
    {n : Option Ptr} (hn : cells f = some ⟨e, n⟩) (hg : ∃ e', cells' g = some ⟨e', n⟩)
    (hcs : ∀ r ∈ cs, cells' r.1 = cells r.1) : Spine cells' g cs := by
  obtain ⟨e', he'⟩ := hg
  cases cs with
  | nil =>
    obtain ⟨e₀, he₀⟩ := h
    rw [he₀, Option.some.injEq, QNode.mk.injEq] at hn
    exact ⟨e', hn.2 ▸ he'⟩
  | cons c cs =>
    obtain ⟨⟨e₀, he₀⟩, hnode, htail⟩ := h
    rw [he₀, Option.some.injEq, QNode.mk.injEq] at hn
    obtain ⟨hc, hcs⟩ := List.forall_mem_cons.mp hcs
    exact ⟨⟨e', hn.2 ▸ he'⟩, hc ▸ hnode, htail.congr hc hcs⟩

@[simp] theorem lastNode_nil (f : Ptr) : lastNode f ([] : List (Ptr × α)) = f := rfl

@[simp] theorem lastNode_cons (f : Ptr) (c : Ptr × α) (cs : List (Ptr × α)) :
    lastNode f (c :: cs) = lastNode c.1 cs := by
  rw [lastNode, lastNode, List.map_cons, List.getLastD_cons]

theorem Spine.mem_allocated (h : Spine cells f cs) (hp : p ∈ f :: cs.map Prod.fst) :
    cells p ≠ none := by
  induction cs generalizing f with
  | nil =>
    rw [List.mem_singleton.mp hp]
    exact h.allocated
  | cons c cs ih =>
    rcases List.mem_cons.mp hp with rfl | hp
    · exact h.allocated
    · exact ih h.2.2 hp

theorem lastNode_concat (f : Ptr) (cs : List (Ptr × α)) (c : Ptr × α) :
    lastNode f (cs ++ [c]) = c.1 := by
  simp [lastNode, List.getLastD_eq_getLast?]

theorem lastNode_mem (f : Ptr) (cs : List (Ptr × α)) : lastNode f cs ∈ f :: cs.map Prod.fst := by
  induction cs generalizing f with
  | nil => exact List.mem_cons_self
  | cons c cs ih =>
    rw [lastNode_cons]
    exact List.mem_cons_of_mem f (ih c.1)

theorem Spine.concat (h : Spine cells f cs) (hnodup : (f :: cs.map Prod.fst).Nodup)
    (hp : p ∉ f :: cs.map Prod.fst) {last : QNode α} (hlast : cells (lastNode f cs) = some last)
    (hnew : cells' p = some ⟨some x, none⟩)
    (hrear : cells' (lastNode f cs) = some { last with next := some p })
    (hother : ∀ r, r ≠ p → r ≠ lastNode f cs → cells' r = cells r) :
    Spine cells' f (cs ++ [(p, x)]) := by
  induction cs generalizing f with
  | nil => exact ⟨⟨_, hrear⟩, ⟨_, hnew⟩, _, hnew⟩
  | cons c cs ih =>
    obtain ⟨⟨e, he⟩, ⟨n, hn⟩, htail⟩ := h
    rw [List.map_cons, List.nodup_cons] at hnodup
    rw [List.map_cons, List.mem_cons, not_or] at hp
    rw [lastNode_cons] at hlast hrear hother
    have hflast : f ≠ lastNode c.1 cs := fun hf => hnodup.1 (hf ▸ lastNode_mem c.1 cs)
    refine ⟨⟨e, (hother f (Ne.symm hp.1) hflast).trans he⟩, ?_,
      ih htail hnodup.2 hp.2 hlast hrear hother⟩
    by_cases hc : c.1 = lastNode c.1 cs
    · rw [← hc, hn, Option.some.injEq] at hlast
      rw [← hc, ← hlast] at hrear
      exact ⟨_, hrear⟩
    · have hcp : c.1 ≠ p := fun hcp => hp.2 (hcp ▸ List.mem_cons_self)
      exact ⟨n, (hother c.1 hcp hc).trans hn⟩

theorem Spine.unique {ds : List (Ptr × α)} (h : Spine cells f cs) (h' : Spine cells f ds) :
    cs = ds := by
  induction cs generalizing f ds with
  | nil =>
    obtain ⟨e, he⟩ := h
    cases ds with
    | nil => rfl
    | cons d ds =>
      obtain ⟨⟨e', he'⟩, -⟩ := h'
      rw [he] at he'
      cases he'
  | cons c cs ih =>
    obtain ⟨⟨e, he⟩, ⟨n, hn⟩, htail⟩ := h
    cases ds with
    | nil =>
      obtain ⟨e', he'⟩ := h'
      rw [he] at he'
      cases he'
    | cons d ds =>
      obtain ⟨⟨e', he'⟩, ⟨n', hn'⟩, htail'⟩ := h'
      rw [he, Option.some.injEq, QNode.mk.injEq, Option.some.injEq] at he'
      rw [he'.2, hn', Option.some.injEq, QNode.mk.injEq, Option.some.injEq] at hn
      rw [he'.2] at htail
      rw [ih htail htail', Prod.ext he'.2 hn.1.symm]

end Spine

theorem Holds.unique {q : Node α} {xs ys : List α} (h : Holds q xs) (h' : Holds q ys) : xs = ys := by
  obtain ⟨f, cs, hrep, rfl⟩ := h
  obtain ⟨g, ds, hrep', rfl⟩ := h'
  have hfront : some f = some g := hrep.front.symm.trans hrep'.front
  obtain rfl : f = g := Option.some.inj hfront
  rw [hrep.spine.unique hrep'.spine]

end CLib.Queue
