import CLib.Base.Links
import CLib.Db.Functions

namespace CLib.Db
open CLib.Base

/-- An index record with its chain pointer, and the data record that belongs to it. -/
structure Slot where
  ptr : ℕ
  key : Text
  data : Text
  deriving DecidableEq, Inhabited

/-- The length of the key and that of the data record: a slot never changes them. -/
def Slot.shape (s : Slot) : ℕ × ℕ := (s.key.length, s.data.length + 1)

/-- The length of an index record of this shape, whose data record begins at `d`. -/
def recordSize (d : ℕ) (z : ℕ × ℕ) : ℕ := z.1 + (percentU d).length + (percentU z.2).length + 3

def tableSize : ℕ → List (ℕ × ℕ) → ℕ
  | _, [] => 0
  | d, z :: zs => ptrSz + idxlenSz + recordSize d z + tableSize (d + z.2) zs

def dataSize (zs : List (ℕ × ℕ)) : ℕ := (zs.map Prod.snd).sum

def renderSlot (d : ℕ) (s : Slot) : Text :=
  percentPad ptrSz s.ptr ++
    (percentPad idxlenSz (recordSize d s.shape) ++ indexRecord s.key d (s.data.length + 1))

def renderSlots : ℕ → List Slot → Text
  | _, [] => []
  | d, s :: ss => renderSlot d s ++ renderSlots (d + s.shape.2) ss

def renderData (ss : List Slot) : Text := ss.flatMap fun s => s.data ++ ['\n']

/-- What the functions check of a record that they read, and its callers of one they write. -/
structure SlotOk (d : ℕ) (s : Slot) : Prop where
  ptr : s.ptr ≤ ptrMax
  key_ne : s.key ≠ []
  sep_key : sep ∉ s.key
  nul_key : nul ∉ s.key
  data_ne : s.data ≠ []
  nul_data : nul ∉ s.data
  datlen : s.data.length + 1 ≤ datlenMax
  idxlen : recordSize d s.shape ≤ idxlenMax
  datoff : d < 2 ^ 63

def SlotsOk : ℕ → List Slot → Prop
  | _, [] => True
  | d, s :: ss => SlotOk d s ∧ SlotsOk (d + s.shape.2) ss

section Rows
variable {d j v w : ℕ} {z : ℕ × ℕ} {zs zs' : List (ℕ × ℕ)} {s s' : Slot} {ss ss' : List Slot}

theorem tableSize_append (d : ℕ) (zs zs' : List (ℕ × ℕ)) :
    tableSize d (zs ++ zs') = tableSize d zs + tableSize (d + dataSize zs) zs' := by
  induction zs generalizing d with
  | nil => simp [tableSize, dataSize]
  | cons z zs ih =>
    rw [List.cons_append, tableSize, tableSize, ih]
    simp only [dataSize, List.map_cons, List.sum_cons, Nat.add_assoc]

theorem renderSlots_append (d : ℕ) (ss ss' : List Slot) : renderSlots d (ss ++ ss') =
    renderSlots d ss ++ renderSlots (d + dataSize (ss.map Slot.shape)) ss' := by
  induction ss generalizing d with
  | nil => simp [renderSlots, dataSize]
  | cons s ss ih =>
    rw [List.cons_append, renderSlots, renderSlots, ih]
    simp only [dataSize, List.map_cons, List.sum_cons, Nat.add_assoc, List.append_assoc]

theorem slotsOk_append (d : ℕ) (ss ss' : List Slot) : SlotsOk d (ss ++ ss') ↔
    SlotsOk d ss ∧ SlotsOk (d + dataSize (ss.map Slot.shape)) ss' := by
  induction ss generalizing d with
  | nil => simp [SlotsOk, dataSize]
  | cons s ss ih =>
    rw [List.cons_append, SlotsOk, SlotsOk, ih]
    simp only [dataSize, List.map_cons, List.sum_cons, Nat.add_assoc, and_assoc]

theorem indexRecord_length (key : Text) (d l : ℕ) :
    (indexRecord key d l).length = recordSize d (key.length, l) := by
  simp only [indexRecord, recordSize, List.length_append, List.length_cons, List.length_nil]
  omega

theorem percentPad_ptrSz_length (hv : v ≤ ptrMax) : (percentPad ptrSz v).length = ptrSz :=
  percentPad_length (Nat.lt_succ_of_le hv) (by decide)

theorem percentPad_idxlenSz_length (hv : v ≤ idxlenMax) :
    (percentPad idxlenSz v).length = idxlenSz :=
  percentPad_length (hv.trans_lt (by decide)) (by decide)

theorem renderSlot_length (hs : SlotOk d s) :
    (renderSlot d s).length = ptrSz + idxlenSz + recordSize d s.shape := by
  rw [renderSlot, List.length_append, List.length_append, percentPad_ptrSz_length hs.ptr,
    percentPad_idxlenSz_length hs.idxlen, indexRecord_length, Slot.shape, Nat.add_assoc]

theorem renderSlots_length (hs : SlotsOk d ss) :
    (renderSlots d ss).length = tableSize d (ss.map Slot.shape) := by
  induction ss generalizing d with
  | nil => rfl
  | cons s ss ih =>
    rw [renderSlots, List.length_append, renderSlot_length hs.1, ih hs.2, List.map_cons, tableSize]

theorem renderData_length (ss : List Slot) :
    (renderData ss).length = dataSize (ss.map Slot.shape) := by
  rw [renderData, List.length_flatMap, dataSize, List.map_map]
  congr 1
  apply List.map_congr_left
  intro s _
  rw [List.length_append, List.length_singleton, Function.comp_apply, Slot.shape]

theorem flatMap_percentPad_length {ps : List ℕ} (hps : ∀ p ∈ ps, p ≤ ptrMax) :
    (ps.flatMap (percentPad ptrSz)).length = ps.length * ptrSz := by
  induction ps with
  | nil => simp
  | cons p ps ih =>
    rw [List.flatMap_cons, List.length_append, percentPad_ptrSz_length (hps p List.mem_cons_self),
      ih fun q hq => hps q (List.mem_cons_of_mem p hq), List.length_cons, Nat.succ_mul, Nat.add_comm]

theorem two_le_recordSize (hs : SlotOk d s) : idxlenMin ≤ recordSize d s.shape := by
  have hkey := List.length_pos_iff.mpr hs.key_ne
  have hd := percentU_length_pos d
  have hl := percentU_length_pos s.shape.2
  simp only [recordSize, Slot.shape, idxlenMin] at hl ⊢
  omega

end Rows

/-- The free list pointer and the chain pointers, and the records behind them. -/
structure Layout where
  heads : List ℕ
  slots : List Slot

/-- Where a pointer is kept: `head 0` is the free list pointer. -/
inductive Cell
  | head (j : ℕ)
  | slot (i : ℕ)
  deriving DecidableEq

namespace Layout

def slot (L : Layout) (i : ℕ) : Slot := L.slots.getD i default

def shapes (L : Layout) : List (ℕ × ℕ) := L.slots.map Slot.shape

def field (L : Layout) : Cell → ℕ
  | .head j => L.heads.getD j 0
  | .slot i => (L.slot i).ptr

def addr (L : Layout) : Cell → ℕ
  | .head j => j * ptrSz
  | .slot i => (nhash + 1) * ptrSz + 1 + tableSize 0 (L.shapes.take i)

def datOff (L : Layout) (i : ℕ) : ℕ := dataSize (L.shapes.take i)

def setSlot (L : Layout) (i : ℕ) (s : Slot) : Layout := { L with slots := L.slots.set i s }

def setPtr (L : Layout) : Cell → ℕ → Layout
  | .head j, v => { L with heads := L.heads.set j v }
  | .slot i, v => L.setSlot i { L.slot i with ptr := v }

def concat (L : Layout) (s : Slot) : Layout := { L with slots := L.slots ++ [s] }

def idx (L : Layout) : Text :=
  L.heads.flatMap (percentPad ptrSz) ++ '\n' :: renderSlots 0 L.slots

def dat (L : Layout) : Text := renderData L.slots

/-- The cells that hold a pointer. -/
def Cells (L : Layout) : Cell → Prop
  | .head j => j < nhash + 1
  | .slot i => i < L.slots.length

structure Fits (L : Layout) : Prop where
  heads_length : L.heads.length = nhash + 1
  heads_le : ∀ p ∈ L.heads, p ≤ ptrMax
  slots : SlotsOk 0 L.slots

variable {L : Layout} {i j v : ℕ} {x y : Cell} {s : Slot}

theorem slot_eq_getElem (hi : i < L.slots.length) : L.slot i = L.slots[i] := by
  rw [slot, List.getD_eq_getElem?_getD, List.getElem?_eq_getElem hi, Option.getD_some]

theorem slots_eq (hi : i < L.slots.length) :
    L.slots = L.slots.take i ++ L.slot i :: L.slots.drop (i + 1) := by
  rw [slot_eq_getElem hi, List.getElem_cons_drop, List.take_append_drop]

theorem setSlot_slots (hi : i < L.slots.length) (s : Slot) :
    (L.setSlot i s).slots = L.slots.take i ++ s :: L.slots.drop (i + 1) :=
  List.set_eq_take_append_cons_drop.trans (if_pos hi)

theorem setSlot_slot (hi : i < L.slots.length) : L.setSlot i (L.slot i) = L := by
  have hslots : (L.setSlot i (L.slot i)).slots = L.slots := by
    rw [setSlot_slots hi, ← slots_eq hi]
  rw [setSlot] at hslots ⊢
  simp only at hslots
  rw [hslots]

theorem slot_setSlot (hi : i < L.slots.length) (s : Slot) (j : ℕ) :
    (L.setSlot i s).slot j = if j = i then s else L.slot j := by
  rw [slot, setSlot, List.getD_eq_getElem?_getD, List.getElem?_set]
  by_cases hj : j = i
  · rw [if_pos hj.symm, if_pos hj, if_pos (hj ▸ hi), Option.getD_some]
  · rw [if_neg (Ne.symm hj), if_neg hj, slot, List.getD_eq_getElem?_getD]

theorem shapes_setSlot (hi : i < L.slots.length) (hs : s.shape = (L.slot i).shape) :
    (L.setSlot i s).shapes = L.shapes := by
  rw [shapes, shapes, setSlot_slots hi, List.map_append, List.map_cons, hs, ← List.map_cons,
    ← List.map_append, ← slots_eq hi]

theorem take_shapes (L : Layout) (i : ℕ) :
    (L.slots.take i).map Slot.shape = L.shapes.take i := List.map_take

@[simp] theorem heads_setSlot (L : Layout) (i : ℕ) (s : Slot) : (L.setSlot i s).heads = L.heads := rfl

@[simp] theorem slots_length_setSlot (L : Layout) (i : ℕ) (s : Slot) :
    (L.setSlot i s).slots.length = L.slots.length := List.length_set

theorem shapes_setPtr (hx : L.Cells x) (v : ℕ) : (L.setPtr x v).shapes = L.shapes := by
  cases x with
  | head j => rfl
  | slot i => exact shapes_setSlot hx rfl

theorem take_all_shapes (L : Layout) : L.shapes.take L.slots.length = L.shapes :=
  List.take_of_length_le (by rw [shapes, List.length_map])

theorem field_setSlot (hi : i < L.slots.length) (s : Slot) :
    (L.setSlot i s).field = Function.update L.field (.slot i) s.ptr := by
  funext y
  cases y with
  | head j => rfl
  | slot j =>
    rw [field, slot_setSlot hi]
    by_cases hj : j = i
    · rw [if_pos hj, hj, Function.update_self]
    · rw [if_neg hj, Function.update_of_ne (by simpa using hj), field]

theorem field_setPtr (hh : L.heads.length = nhash + 1) (hx : L.Cells x) (v : ℕ) :
    (L.setPtr x v).field = Function.update L.field x v := by
  cases x with
  | head j =>
    funext y
    cases y with
    | head k =>
      have hj : j < L.heads.length := hh ▸ hx
      rw [field, setPtr, List.getD_eq_getElem?_getD, List.getElem?_set]
      by_cases hk : k = j
      · rw [if_pos hk.symm, hk, if_pos hj, Option.getD_some, Function.update_self]
      · rw [if_neg (Ne.symm hk), Function.update_of_ne (by simpa using hk), field,
          List.getD_eq_getElem?_getD]
    | slot k => rfl
  | slot i => exact field_setSlot hx _

theorem slot_setPtr_key (hx : L.Cells x) (v j : ℕ) :
    ((L.setPtr x v).slot j).key = (L.slot j).key ∧ ((L.setPtr x v).slot j).data = (L.slot j).data := by
  cases x with
  | head i => exact ⟨rfl, rfl⟩
  | slot i =>
    rw [setPtr, slot_setSlot hx]
    split_ifs with hj
    · rw [hj]
      exact ⟨rfl, rfl⟩
    · exact ⟨rfl, rfl⟩

theorem addr_eq_of_shapes {L' : Layout} (h : L'.shapes = L.shapes) : L'.addr = L.addr := by
  funext x
  cases x with
  | head j => rfl
  | slot i => rw [addr, addr, h]

theorem exists_idx_eq (hfits : L.Fits) (hi : i < L.slots.length) :
    ∃ a c, a.length = L.addr (.slot i) ∧ ∀ s, s.shape = (L.slot i).shape →
      (L.setSlot i s).idx = a ++ renderSlot (L.datOff i) s ++ c := by
  have hok := hfits.slots
  rw [slots_eq hi, slotsOk_append] at hok
  refine ⟨L.heads.flatMap (percentPad ptrSz) ++ '\n' :: renderSlots 0 (L.slots.take i),
    renderSlots (L.datOff i + (L.slot i).shape.2) (L.slots.drop (i + 1)), ?_, fun s hs => ?_⟩
  · rw [List.length_append, List.length_cons, flatMap_percentPad_length hfits.heads_le,
      hfits.heads_length, renderSlots_length hok.1, take_shapes, addr]
    omega
  · rw [idx, setSlot_slots hi, renderSlots_append, take_shapes, renderSlots, hs, datOff, Nat.zero_add]
    simp only [heads_setSlot, List.append_assoc, List.cons_append]

theorem exists_dat_eq (hi : i < L.slots.length) :
    ∃ a c, a.length = L.datOff i ∧ ∀ s, (L.setSlot i s).dat = a ++ (s.data ++ ['\n']) ++ c := by
  refine ⟨renderData (L.slots.take i), renderData (L.slots.drop (i + 1)), ?_, fun s => ?_⟩
  · rw [renderData_length, take_shapes, datOff]
  · rw [dat, setSlot_slots hi, renderData, List.flatMap_append, List.flatMap_cons,
      ← List.append_assoc]
    rfl

theorem exists_idx_eq_of_cell (hfits : L.Fits) (hx : L.Cells x) :
    ∃ a c, a.length = L.addr x ∧ ∀ v, (L.setPtr x v).idx = a ++ percentPad ptrSz v ++ c := by
  cases x with
  | head j =>
    have hj : j < L.heads.length := hfits.heads_length ▸ hx
    refine ⟨(L.heads.take j).flatMap (percentPad ptrSz),
      (L.heads.drop (j + 1)).flatMap (percentPad ptrSz) ++ '\n' :: renderSlots 0 L.slots, ?_, fun v => ?_⟩
    · rw [flatMap_percentPad_length fun p hp => hfits.heads_le p (List.mem_of_mem_take hp),
        List.length_take, addr, Nat.min_eq_left hj.le]
    · have hset : (L.setPtr (.head j) v).heads = L.heads.take j ++ v :: L.heads.drop (j + 1) :=
        List.set_eq_take_append_cons_drop.trans (if_pos hj)
      rw [idx, hset, List.flatMap_append, List.flatMap_cons]
      simp only [List.append_assoc]
      rfl
  | slot i =>
    obtain ⟨a, c, ha, hidx⟩ := exists_idx_eq hfits hx
    refine ⟨a, percentPad idxlenSz (recordSize (L.datOff i) (L.slot i).shape) ++
      indexRecord (L.slot i).key (L.datOff i) ((L.slot i).data.length + 1) ++ c, ha, fun v => ?_⟩
    have hset := hidx { L.slot i with ptr := v } rfl
    rw [renderSlot, List.append_assoc, List.append_assoc, ← List.append_assoc] at hset
    exact hset

theorem setPtr_field (hfits : L.Fits) (hx : L.Cells x) : L.setPtr x (L.field x) = L := by
  cases x with
  | head j =>
    have hj : j < L.heads.length := hfits.heads_length ▸ hx
    have hget : L.heads.getD j 0 = L.heads[j] := by
      rw [List.getD_eq_getElem?_getD, List.getElem?_eq_getElem hj, Option.getD_some]
    rw [field, hget, setPtr, List.set_getElem_self]
  | slot i => exact setSlot_slot hx

theorem Fits.slotOk (hfits : L.Fits) (hi : i < L.slots.length) : SlotOk (L.datOff i) (L.slot i) := by
  have hok := hfits.slots
  rw [slots_eq hi, slotsOk_append, take_shapes, Nat.zero_add] at hok
  exact hok.2.1

theorem Fits.setSlot (hfits : L.Fits) (hi : i < L.slots.length) (hs : SlotOk (L.datOff i) s)
    (hshape : s.shape = (L.slot i).shape) : (L.setSlot i s).Fits := by
  refine ⟨hfits.heads_length, hfits.heads_le, ?_⟩
  have hok := hfits.slots
  rw [slots_eq hi, slotsOk_append, take_shapes, Nat.zero_add] at hok
  rw [setSlot_slots hi, slotsOk_append, take_shapes, Nat.zero_add]
  refine ⟨hok.1, hs, ?_⟩
  rw [hshape]
  exact hok.2.2

theorem Fits.field_le (hfits : L.Fits) (hx : L.Cells x) : L.field x ≤ ptrMax := by
  cases x with
  | head j =>
    have hj : j < L.heads.length := hfits.heads_length ▸ hx
    rw [field, List.getD_eq_getElem?_getD, List.getElem?_eq_getElem hj, Option.getD_some]
    exact hfits.heads_le _ (List.getElem_mem hj)
  | slot i => exact (hfits.slotOk hx).ptr

theorem Fits.setPtr (hfits : L.Fits) (hx : L.Cells x) (hv : v ≤ ptrMax) : (L.setPtr x v).Fits := by
  cases x with
  | head j =>
    refine ⟨by rw [Layout.setPtr, List.length_set, hfits.heads_length], fun p hp => ?_, hfits.slots⟩
    rcases List.mem_or_eq_of_mem_set hp with hp | hp
    · exact hfits.heads_le p hp
    · exact hp ▸ hv
  | slot i => exact hfits.setSlot hx { hfits.slotOk hx with ptr := hv } rfl

theorem Fits.idx_length (hfits : L.Fits) : L.idx.length = L.addr (.slot L.slots.length) := by
  rw [idx, List.length_append, List.length_cons, flatMap_percentPad_length hfits.heads_le,
    hfits.heads_length, renderSlots_length hfits.slots, addr, take_all_shapes, shapes]
  omega

theorem dat_length (L : Layout) : L.dat.length = L.datOff L.slots.length := by
  rw [dat, renderData_length, datOff, take_all_shapes, shapes]

end Layout
end CLib.Db
