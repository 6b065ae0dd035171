import CLib.Db.Updates

namespace CLib.Db
open CLib.Base

/-- The cells that the lists begin at. -/
def headCells : Set Cell := {x | ∃ j < nhash + 1, x = .head j}

def slotCells (n : ℕ) : Set Cell := {x | ∃ i < n, x = .slot i}

def Layout.record (L : Layout) (i : ℕ) : Text × Text := ((L.slot i).key, (L.slot i).data)

/-- The free list, `head 0`, holds the blank records, and the others are in the lists of
their keys; there is one for each key of the map `m`, with its data. -/
structure Filed (n : ℕ) (record : ℕ → Text × Text) (lists : Cell → List Cell)
    (m : Text → Option Text) : Prop where
  sorted : ∀ i < n, .slot i ∈ lists (.head 0) ∨ .slot i ∈ lists (chainHead (record i).1)
  blank : ∀ i, .slot i ∈ lists (.head 0) → ∀ c ∈ (record i).1, c = ' '
  unique : ∀ i j, .slot i ∈ lists (chainHead (record i).1) →
    .slot j ∈ lists (chainHead (record j).1) → (record i).1 = (record j).1 → i = j
  contents : ∀ key data, m key = some data ↔
    ∃ i, .slot i ∈ lists (chainHead key) ∧ record i = (key, data)

/-- The slot `i` is now in the list that begins at `c`. -/
def Moved (c : Cell) (i : ℕ) (lists lists' : Cell → List Cell) : Prop :=
  ∀ b ∈ headCells, ∀ y, y ∈ lists' b ↔ (b = c ∧ y = .slot i) ∨ (y ∈ lists b ∧ y ≠ .slot i)

section Filing
variable {n i : ℕ} {record : ℕ → Text × Text} {lists lists' : Cell → List Cell}
variable {m : Text → Option Text} {key data : Text}

theorem chainHead_mem_headCells (key : Text) : chainHead key ∈ headCells :=
  ⟨hash key + 1, Nat.succ_lt_succ (Nat.mod_lt _ (by decide)), rfl⟩

theorem freeHead_mem_headCells : Cell.head 0 ∈ headCells := ⟨0, Nat.succ_pos nhash, rfl⟩

theorem chainHead_ne_freeHead (key : Text) : chainHead key ≠ .head 0 :=
  fun h => Nat.succ_ne_zero _ (Cell.head.inj h)

theorem Filed.delete (h : Filed n record lists m) (hi : i < n)
    (hlive : .slot i ∈ lists (chainHead key)) (hkey : (record i).1 = key)
    (hmoved : Moved (.head 0) i lists lists') {r : Text × Text} (hr : ∀ c ∈ r.1, c = ' ') :
    Filed n (Function.update record i r) lists' (Function.update m key none) := by
  have hchain : ∀ k j, .slot j ∈ lists' (chainHead k) ↔ .slot j ∈ lists (chainHead k) ∧ j ≠ i := by
    intro k j
    rw [hmoved _ (chainHead_mem_headCells k)]
    have hne := chainHead_ne_freeHead k
    simp only [hne, false_and, false_or, ne_eq, Cell.slot.injEq]
  have hother : ∀ j, j ≠ i → Function.update record i r j = record j :=
    fun j hj => Function.update_of_ne hj r record
  refine ⟨fun j hj => ?_, fun j hj => ?_, fun j k hj hk hjk => ?_, fun k d => ?_⟩
  · rw [hmoved _ freeHead_mem_headCells]
    by_cases hji : j = i
    · exact .inl (.inl ⟨rfl, by rw [hji]⟩)
    · rw [hchain, hother j hji]
      exact (h.sorted j hj).imp (fun hmem => .inr ⟨hmem, by simpa using hji⟩) fun hmem => ⟨hmem, hji⟩
  · rcases (hmoved _ freeHead_mem_headCells _).mp hj with ⟨-, hji⟩ | ⟨hmem, hji⟩
    · rw [Cell.slot.inj hji, Function.update_self]
      exact hr
    · rw [hother j (by simpa using hji)]
      exact h.blank j hmem
  · rw [hchain] at hj hk
    rw [hother j hj.2] at hj hjk
    rw [hother k hk.2] at hk hjk
    exact h.unique j k hj.1 hk.1 hjk
  · simp only [hchain]
    by_cases hk : k = key
    · rw [hk, Function.update_self]
      constructor
      · intro hnone
        cases hnone
      · rintro ⟨j, ⟨hmem, hji⟩, hrec⟩
        rw [hother j hji] at hrec
        have hj1 : (record j).1 = key := by rw [hrec]
        exact absurd (h.unique j i (hj1.symm ▸ hmem) (hkey.symm ▸ hlive) (hj1.trans hkey.symm)) hji
    · rw [Function.update_of_ne hk, h.contents]
      constructor
      · rintro ⟨j, hmem, hrec⟩
        have hji : j ≠ i := by
          rintro rfl
          apply hk
          rw [← hkey, hrec]
        exact ⟨j, ⟨hmem, hji⟩, by rw [hother j hji, hrec]⟩
      · rintro ⟨j, ⟨hmem, hji⟩, hrec⟩
        rw [hother j hji] at hrec
        exact ⟨j, hmem, hrec⟩

theorem Filed.insert (h : Filed n record lists m) {n' : ℕ} (hn : ∀ j < n', j ≠ i → j < n)
    (hfree : ∀ k, .slot i ∉ lists (chainHead k)) (hkey : m key = none)
    (hmoved : Moved (chainHead key) i lists lists') :
    Filed n' (Function.update record i (key, data)) lists' (Function.update m key (some data)) := by
  have hchain : ∀ k j, .slot j ∈ lists' (chainHead k) ↔
      (chainHead k = chainHead key ∧ j = i) ∨ (.slot j ∈ lists (chainHead k) ∧ j ≠ i) := by
    intro k j
    rw [hmoved _ (chainHead_mem_headCells k)]
    simp only [ne_eq, Cell.slot.injEq]
  have hother : ∀ j, j ≠ i → Function.update record i (key, data) j = record j :=
    fun j hj => Function.update_of_ne hj _ record
  have hnew : ∀ j, .slot j ∈ lists (chainHead (record j).1) → (record j).1 ≠ key := by
    intro j hmem hj
    have hsome : m key = some (record j).2 := (h.contents key _).mpr ⟨j, hj ▸ hmem, by rw [← hj]⟩
    rw [hkey] at hsome
    cases hsome
  have hlive : ∀ j, j ≠ i → .slot j ∈ lists' (chainHead (Function.update record i (key, data) j).1) →
      .slot j ∈ lists (chainHead (record j).1) := by
    intro j hji hj
    rw [hother j hji, hchain] at hj
    exact (hj.resolve_left fun hj => hji hj.2).1
  refine ⟨fun j hj => ?_, fun j hj => ?_, fun j k hj hk hjk => ?_, fun k d => ?_⟩
  · rw [hchain]
    by_cases hji : j = i
    · exact .inr (.inl ⟨by rw [hji, Function.update_self], hji⟩)
    · rw [hother j hji, hmoved _ freeHead_mem_headCells]
      exact (h.sorted j (hn j hj hji)).imp (fun hmem => .inr ⟨hmem, by simpa using hji⟩)
        fun hmem => .inr ⟨hmem, hji⟩
  · rcases (hmoved _ freeHead_mem_headCells _).mp hj with ⟨hhead, -⟩ | ⟨hmem, hji⟩
    · exact absurd hhead.symm (chainHead_ne_freeHead key)
    · rw [hother j (by simpa using hji)]
      exact h.blank j hmem
  · by_cases hji : j = i
    · by_cases hki : k = i
      · rw [hji, hki]
      · rw [hji, Function.update_self, hother k hki] at hjk
        exact absurd hjk.symm (hnew k (hlive k hki hk))
    · by_cases hki : k = i
      · rw [hki, Function.update_self, hother j hji] at hjk
        exact absurd hjk (hnew j (hlive j hji hj))
      · rw [hother j hji, hother k hki] at hjk
        exact h.unique j k (hlive j hji hj) (hlive k hki hk) hjk
  · simp only [hchain]
    by_cases hk : k = key
    · rw [hk, Function.update_self]
      constructor
      · intro hd
        rw [← Option.some.inj hd]
        exact ⟨i, .inl ⟨rfl, rfl⟩, Function.update_self i _ record⟩
      · rintro ⟨j, ⟨-, rfl⟩ | ⟨hmem, hji⟩, hrec⟩
        · rw [Function.update_self] at hrec
          exact congrArg some (Prod.ext_iff.mp hrec).2
        · rw [hother j hji] at hrec
          have hj1 : (record j).1 = key := by rw [hrec]
          exact absurd hj1 (hnew j (hj1.symm ▸ hmem))
    · rw [Function.update_of_ne hk, h.contents]
      constructor
      · rintro ⟨j, hmem, hrec⟩
        have hji : j ≠ i := fun hji => hfree k (hji ▸ hmem)
        exact ⟨j, .inr ⟨hmem, hji⟩, by rw [hother j hji, hrec]⟩
      · rintro ⟨j, ⟨-, rfl⟩ | ⟨hmem, hji⟩, hrec⟩
        · rw [Function.update_self] at hrec
          exact absurd (Prod.ext_iff.mp hrec).1.symm hk
        · rw [hother j hji] at hrec
          exact ⟨j, hmem, hrec⟩

theorem Filed.replace (h : Filed n record lists m) (hlive : .slot i ∈ lists (chainHead key))
    (hkey : (record i).1 = key) (data : Text) :
    Filed n (Function.update record i (key, data)) lists (Function.update m key (some data)) := by
  have hfst : ∀ j, (Function.update record i (key, data) j).1 = (record j).1 := by
    intro j
    by_cases hj : j = i
    · rw [hj, Function.update_self, hkey]
    · rw [Function.update_of_ne hj]
  refine ⟨fun j hj => ?_, fun j hj => ?_, fun j k hj hk hjk => ?_, fun k d => ?_⟩
  · rw [hfst]
    exact h.sorted j hj
  · rw [hfst]
    exact h.blank j hj
  · rw [hfst] at hj hk hjk
    rw [hfst] at hjk
    exact h.unique j k hj hk hjk
  · by_cases hk : k = key
    · rw [hk, Function.update_self]
      constructor
      · intro hd
        rw [← Option.some.inj hd]
        exact ⟨i, hlive, Function.update_self i _ record⟩
      · rintro ⟨j, hmem, hrec⟩
        have hj1 : (record j).1 = key := by rw [← hfst, hrec]
        have hji := h.unique j i (hj1.symm ▸ hmem) (hkey.symm ▸ hlive) (hj1.trans hkey.symm)
        rw [hji, Function.update_self] at hrec
        exact congrArg some (Prod.ext_iff.mp hrec).2
    · rw [Function.update_of_ne hk, h.contents]
      have hother : ∀ j, .slot j ∈ lists (chainHead k) → (record j).1 = k →
          Function.update record i (key, data) j = record j := by
        intro j _ hj
        apply Function.update_of_ne
        rintro rfl
        exact hk (hj.symm.trans hkey)
      constructor
      · rintro ⟨j, hmem, hrec⟩
        exact ⟨j, hmem, by rw [hother j hmem (by rw [hrec]), hrec]⟩
      · rintro ⟨j, hmem, hrec⟩
        rw [hother j hmem (by rw [← hfst, hrec])] at hrec
        exact ⟨j, hmem, hrec⟩

end Filing

section Layouts
variable {L : Layout} {i v : ℕ} {x c : Cell} {lists : Cell → List Cell} {ys zs : List Cell}
variable {key data : Text}

theorem mem_slotCells {n : ℕ} : .slot i ∈ slotCells n ↔ i < n := by
  constructor
  · rintro ⟨j, hj, hij⟩
    rwa [Cell.slot.inj hij]
  · exact fun hi => ⟨i, hi, rfl⟩

theorem slot_notMem_headCells (i : ℕ) : Cell.slot i ∉ headCells := by
  rintro ⟨j, -, hij⟩
  cases hij

theorem insert_slotCells (n : ℕ) : insert (.slot n) (slotCells n) = slotCells (n + 1) := by
  ext y
  cases y with
  | head j =>
    simp [slotCells]
  | slot i =>
    rw [Set.mem_insert_iff, mem_slotCells, mem_slotCells, Cell.slot.injEq]
    omega

namespace Layout

theorem record_setPtr (hx : L.Cells x) (v : ℕ) : (L.setPtr x v).record = L.record := by
  funext j
  obtain ⟨hkey, hdata⟩ := slot_setPtr_key hx v j
  rw [record, hkey, hdata, record]

theorem record_setSlot (hi : i < L.slots.length) (s : Slot) :
    (L.setSlot i s).record = Function.update L.record i (s.key, s.data) := by
  funext j
  rw [record, slot_setSlot hi]
  by_cases hj : j = i
  · rw [if_pos hj, hj, Function.update_self]
  · rw [if_neg hj, Function.update_of_ne hj, record]

theorem slot_concat (L : Layout) (s : Slot) (j : ℕ) :
    (L.concat s).slot j = if j = L.slots.length then s else L.slot j := by
  rw [slot, concat, List.getD_eq_getElem?_getD]
  split_ifs with hj
  · rw [hj, List.getElem?_concat_length, Option.getD_some]
  · by_cases hlt : j < L.slots.length
    · rw [List.getElem?_append_left hlt, slot, List.getD_eq_getElem?_getD]
    · rw [slot, List.getD_eq_getElem?_getD, List.getElem?_eq_none, List.getElem?_eq_none]
      · omega
      · rw [List.length_append, List.length_singleton]
        omega

theorem record_concat (L : Layout) (s : Slot) :
    (L.concat s).record = Function.update L.record L.slots.length (s.key, s.data) := by
  funext j
  rw [record, slot_concat]
  by_cases hj : j = L.slots.length
  · rw [if_pos hj, hj, Function.update_self]
  · rw [if_neg hj, Function.update_of_ne hj, record]

theorem field_concat (L : Layout) (s : Slot) :
    (L.concat s).field = Function.update L.field (.slot L.slots.length) s.ptr := by
  funext y
  cases y with
  | head j => rfl
  | slot j =>
    rw [field, slot_concat]
    by_cases hj : j = L.slots.length
    · rw [if_pos hj, hj, Function.update_self]
    · rw [if_neg hj, Function.update_of_ne (by simpa using hj), field]

theorem cells_of_mem (hx : x ∈ headCells ∨ x ∈ slotCells L.slots.length) : L.Cells x := by
  rcases hx with ⟨j, hj, rfl⟩ | ⟨j, hj, rfl⟩
  · exact hj
  · exact hj

theorem shapes_deleted (hi : i < L.slots.length) (hx : L.Cells x) :
    (L.deleted x i).shapes = L.shapes := by
  have hhead : L.Cells (.head 0) := Nat.succ_pos nhash
  rw [deleted, shapes_setPtr ((hx.setSlot i _).setPtr _ _), shapes_setPtr (hhead.setSlot i _),
    shapes_setSlot hi (Slot.shape_blank _ _)]

theorem record_deleted (hi : i < L.slots.length) (hx : L.Cells x) :
    (L.deleted x i).record = Function.update L.record i
      (List.replicate (L.slot i).key.length ' ', List.replicate (L.slot i).data.length ' ') := by
  have hhead : L.Cells (.head 0) := Nat.succ_pos nhash
  rw [deleted, record_setPtr ((hx.setSlot i _).setPtr _ _), record_setPtr (hhead.setSlot i _),
    record_setSlot hi]
  rfl

theorem field_deleted (hh : L.heads.length = nhash + 1) (hi : i < L.slots.length) (hx : L.Cells x) :
    (L.deleted x i).field = Function.update (Function.update (Function.update L.field (.slot i)
      (L.field (.head 0))) (.head 0) (L.addr (.slot i))) x (L.field (.slot i)) := by
  have hhead : L.Cells (.head 0) := Nat.succ_pos nhash
  have hh₁ : (L.setSlot i ((L.slot i).blank (L.field (.head 0)))).heads.length = nhash + 1 := hh
  have hh₂ : ((L.setSlot i ((L.slot i).blank (L.field (.head 0)))).setPtr (.head 0)
      (L.addr (.slot i))).heads.length = nhash + 1 := List.length_set.trans hh
  rw [deleted, field_setPtr hh₂ ((hx.setSlot i _).setPtr _ _), field_setPtr hh₁ (hhead.setSlot i _),
    field_setSlot hi]
  rfl

theorem shapes_linked (hi : i < L.slots.length) (hc : L.Cells c)
    (hkey : key.length = (L.slot i).key.length) (hdata : data.length = (L.slot i).data.length) :
    (L.linked c i key data).shapes = L.shapes := by
  rw [linked, shapes_setPtr (hc.setSlot i _), shapes_setSlot hi]
  rw [Slot.shape, Slot.shape, hkey, hdata]

theorem record_linked (hi : i < L.slots.length) (hc : L.Cells c) :
    (L.linked c i key data).record = Function.update L.record i (key, data) := by
  rw [linked, record_setPtr (hc.setSlot i _), record_setSlot hi]

theorem field_linked (hh : L.heads.length = nhash + 1) (hi : i < L.slots.length) (hc : L.Cells c) :
    (L.linked c i key data).field = Function.update (Function.update L.field (.slot i) (L.field c)) c
      (L.addr (.slot i)) := by
  have hh' : (L.setSlot i ⟨L.field c, key, data⟩).heads.length = nhash + 1 := hh
  rw [linked, field_setPtr hh' (hc.setSlot i _), field_setSlot hi]

theorem record_extended (hc : L.Cells c) : (L.extended c key data).record =
    Function.update L.record L.slots.length (key, data) := by
  rw [extended, record_setPtr (hc.concat _), record_concat]

theorem field_extended (hh : L.heads.length = nhash + 1) (hc : L.Cells c) :
    (L.extended c key data).field = Function.update (Function.update L.field
      (.slot L.slots.length) (L.field c)) c (L.addr (.slot L.slots.length)) := by
  have hh' : (L.concat ⟨L.field c, key, data⟩).heads.length = nhash + 1 := hh
  rw [extended, field_setPtr hh' (hc.concat _), field_concat]

theorem slots_length_setPtr (L : Layout) (x : Cell) (v : ℕ) :
    (L.setPtr x v).slots.length = L.slots.length := by
  cases x with
  | head j => rfl
  | slot j => exact slots_length_setSlot L j _

end Layout
end Layouts
end CLib.Db
