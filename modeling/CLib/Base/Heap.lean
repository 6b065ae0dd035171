import Mathlib.Logic.Function.Basic
import Mathlib.Data.List.Nodup
import Mathlib.Data.List.Perm.Subperm
import Mathlib.Tactic.Common

namespace CLib.Base

/-- What happens to the block at an address. -/
inductive HeapEvent (ι : Type*)
  | malloc (p : ι)
  | free (p : ι)
  deriving DecidableEq

/-- The address that an event is about. -/
def HeapEvent.address {ι : Type*} : HeapEvent ι → ι
  | .malloc p => p
  | .free p => p

/-- The blocks that are allocated, and all calls of `malloc` and `free` in order. -/
structure Heap (ι β : Type*) where
  blocks : ι → Option β
  log : List (HeapEvent ι)

namespace Heap
variable {ι β : Type*}

def empty : Heap ι β := ⟨fun _ => none, []⟩

/-- A read through a pointer; `none` if it is `NULL` or its block is not allocated. -/
def load (h : Heap ι β) (p : Option ι) : Option β := p.bind h.blocks

@[simp] theorem load_none (h : Heap ι β) : h.load none = none := rfl

@[simp] theorem load_some (h : Heap ι β) (p : ι) : h.load (some p) = h.blocks p := rfl

variable [DecidableEq ι]

/-- `malloc` returns `p`, and the block is filled with `b`. -/
def malloc (h : Heap ι β) (p : ι) (b : β) : Heap ι β :=
  ⟨Function.update h.blocks p (some b), h.log ++ [.malloc p]⟩

/-- A write through a pointer, with the same faults. -/
def store (h : Heap ι β) (p : Option ι) (b : β) : Option (Heap ι β) :=
  p.bind fun q => (h.blocks q).map fun _ =>
    { h with blocks := Function.update h.blocks q (some b) }

/-- `free` of a block; `none` if it is not allocated, so also if it has been freed before. -/
def free (h : Heap ι β) (p : ι) : Option (Heap ι β) :=
  (h.blocks p).map fun _ => ⟨Function.update h.blocks p none, h.log ++ [.free p]⟩

/-- The calls that are about one address. -/
def history (h : Heap ι β) (p : ι) : List (HeapEvent ι) := h.log.filter fun e => e.address = p

/-- Every allocation has been freed exactly once, except for those of the blocks that are
still there. -/
def Accounted (h : Heap ι β) : Prop :=
  ∀ p, ∃ n, h.history p = (List.replicate n [HeapEvent.malloc p, .free p]).flatten ++
    if (h.blocks p).isSome then [.malloc p] else []

section Operations
variable {h h' : Heap ι β} {p q : ι} {b : β}

@[simp] theorem blocks_malloc (h : Heap ι β) (p : ι) (b : β) :
    (h.malloc p b).blocks = Function.update h.blocks p (some b) := rfl

theorem store_eq {b' : β} (hp : h.blocks p = some b') (b : β) :
    h.store (some p) b = some { h with blocks := Function.update h.blocks p (some b) } := by
  simp [store, hp]

theorem free_eq (hp : h.blocks p = some b) :
    h.free p = some ⟨Function.update h.blocks p none, h.log ++ [.free p]⟩ := by
  simp [free, hp]

theorem accounted_empty : (empty : Heap ι β).Accounted := fun _ => ⟨0, rfl⟩

theorem history_concat (h : Heap ι β) (blocks : ι → Option β) (e : HeapEvent ι) (q : ι) :
    history ⟨blocks, h.log ++ [e]⟩ q = h.history q ++ if e.address = q then [e] else [] := by
  by_cases he : e.address = q <;> simp [history, he]

theorem Accounted.malloc (ha : h.Accounted) (hp : h.blocks p = none) (b : β) :
    (h.malloc p b).Accounted := by
  intro q
  obtain ⟨n, hn⟩ := ha q
  refine ⟨n, ?_⟩
  rw [Heap.malloc, history_concat, hn]
  by_cases hpq : p = q
  · subst hpq
    simp [HeapEvent.address, hp]
  · simp [HeapEvent.address, hpq, Ne.symm hpq]

theorem Accounted.store (ha : h.Accounted) (hp : h.blocks p ≠ none) (b : β) :
    Accounted { h with blocks := Function.update h.blocks p (some b) } := by
  intro q
  obtain ⟨n, hn⟩ := ha q
  refine ⟨n, hn.trans ?_⟩
  by_cases hpq : q = p
  · subst hpq
    simp [Option.isSome_iff_ne_none, hp]
  · simp [hpq]

theorem Accounted.free (ha : h.Accounted) (hp : h.blocks p ≠ none) :
    Accounted ⟨Function.update h.blocks p none, h.log ++ [.free p]⟩ := by
  intro q
  obtain ⟨n, hn⟩ := ha q
  by_cases hpq : q = p
  · subst hpq
    refine ⟨n + 1, ?_⟩
    rw [if_pos (Option.isSome_iff_ne_none.mpr hp)] at hn
    rw [history_concat, hn]
    simp [HeapEvent.address, List.replicate_succ']
  · refine ⟨n, ?_⟩
    rw [history_concat, hn]
    simp [HeapEvent.address, hpq, Ne.symm hpq]

theorem Accounted.malloc_mem (ha : h.Accounted) (hp : h.blocks p ≠ none) : .malloc p ∈ h.log := by
  obtain ⟨n, hn⟩ := ha p
  rw [if_pos (Option.isSome_iff_ne_none.mpr hp)] at hn
  have hmem : HeapEvent.malloc p ∈ h.history p := by
    rw [hn]
    exact List.mem_append_right _ List.mem_cons_self
  exact (List.mem_filter.mp hmem).1

theorem Accounted.length_le (ha : h.Accounted) {ps : List ι} (hps : ps.Nodup)
    (hblocks : ∀ p ∈ ps, h.blocks p ≠ none) : ps.length ≤ h.log.length := by
  have hsub : ps.map HeapEvent.malloc ⊆ h.log := by
    intro e he
    obtain ⟨p, hp, rfl⟩ := List.mem_map.mp he
    exact ha.malloc_mem (hblocks p hp)
  have hnodup : (ps.map HeapEvent.malloc).Nodup := hps.map fun p q hpq => HeapEvent.malloc.inj hpq
  have hlen := (List.subperm_of_subset hnodup hsub).length_le
  rwa [List.length_map] at hlen

end Operations
end Heap
end CLib.Base
