import CLib.Db.Calls

namespace CLib.Db
open CLib.Base

/-- `n` calls of `db_nextrec` in a row, and what they return. -/
def nextrecs : ℕ → DB → Option (List (Option (Text × Text)) × DB)
  | 0, db => some ([], db)
  | n + 1, db =>
    db.nextrec.bind fun (r, db) => (nextrecs n db).map fun (rs, db) => (r :: rs, db)

/-- The records from the slot `i` on that are not passed over. -/
def Layout.listed (L : Layout) (i : ℕ) : List (Text × Text) :=
  ((L.slots.drop i).filter fun s => !s.key.all (· == ' ')).map fun s => (s.key, s.data)

section Slots
variable {db : DB} {L : Layout} {lists : Cell → List Cell} {m : Text → Option Text}
variable {key data : Text} {i n : ℕ}

theorem Layout.drop_slots (hi : i < L.slots.length) :
    L.slots.drop i = L.slot i :: L.slots.drop (i + 1) := by
  rw [slot_eq_getElem hi, List.getElem_cons_drop]

theorem Layout.listed_of_blank (hi : i < L.slots.length) (hblank : (L.slot i).key.all (· == ' ')) :
    L.listed i = L.listed (i + 1) := by
  rw [listed, drop_slots hi, List.filter_cons_of_neg (by simp [hblank]), listed]

theorem Layout.listed_of_not_blank (hi : i < L.slots.length)
    (hblank : ¬ (L.slot i).key.all (· == ' ')) : L.listed i = L.record i :: L.listed (i + 1) := by
  rw [listed, drop_slots hi, List.filter_cons_of_pos (by simpa using hblank), listed, List.map_cons]
  rfl

theorem Layout.listed_end (L : Layout) : L.listed L.slots.length = [] := by
  rw [listed, List.drop_length]
  rfl

theorem Layout.addr_succ (hi : i < L.slots.length) : L.addr (.slot (i + 1)) =
    L.addr (.slot i) + (ptrSz + idxlenSz) + recordSize (L.datOff i) (L.slot i).shape := by
  have hlt : i < L.shapes.length := by
    rw [shapes, List.length_map]
    exact hi
  have hshape : L.shapes[i] = (L.slot i).shape := by
    simp only [shapes, List.getElem_map, slot_eq_getElem hi]
  rw [addr, addr, List.take_add_one, List.getElem?_eq_getElem hlt, hshape, tableSize_append, datOff,
    Nat.zero_add]
  simp only [Option.toList_some, tableSize]
  omega

theorem Holds.nextrecLoop (h : Holds db L) {fuel : ℕ} (hi : i ≤ L.slots.length)
    (hpos : db.idxPos = L.addr (.slot i)) (hfuel : L.slots.length - i < fuel) :
    ∃ db' j, db.nextrecLoop fuel = some ((L.listed i).head?, db') ∧ Holds db' L ∧
      j ≤ L.slots.length ∧ db'.idxPos = L.addr (.slot j) ∧ L.listed j = (L.listed i).tail := by
  induction fuel generalizing db i with
  | zero => cases hfuel
  | succ fuel ih =>
    rcases hi.eq_or_lt with rfl | hlt
    · have hread := h.readidx_end hpos
      refine ⟨{ db with idxoff := db.idxPos }, L.slots.length, ?_, ⟨h.idx, h.dat, h.fits⟩, le_rfl, hpos, ?_⟩
      · rw [DB.nextrecLoop, hread, L.listed_end]
        rfl
      · rw [L.listed_end, List.tail_nil]
    · have hoff : (0 : ℤ) = L.addr (.slot i) ∨ (0 : ℤ) = 0 ∧ db.idxPos = L.addr (.slot i) :=
        .inr ⟨rfl, hpos⟩
      obtain ⟨db₁, hread, hon, h₁, -⟩ := h.onSlot hlt hoff
      have hpos₁ : db₁.idxPos = L.addr (.slot (i + 1)) := by
        have heq := Option.some.inj (hread.symm.trans (h.readidx hlt hoff))
        have heq₂ := (Prod.ext_iff.mp heq).2
        dsimp only at heq₂
        rw [heq₂, Layout.addr_succ hlt]
      rw [DB.nextrecLoop, hread]
      dsimp only
      by_cases hblank : (L.slot i).key.all (· == ' ')
      · rw [if_pos (hon.idxbuf.symm ▸ hblank), Layout.listed_of_blank hlt hblank]
        exact ih h₁ hlt hpos₁ (by omega)
      · rw [if_neg (hon.idxbuf.symm ▸ hblank), Layout.listed_of_not_blank hlt hblank,
          h₁.readdat hlt hon, Option.map_some, hon.idxbuf]
        exact ⟨db₁, i + 1, rfl, h₁, hlt, hpos₁, rfl⟩

theorem Holds.nextrecs (h : Holds db L) (hi : i ≤ L.slots.length)
    (hpos : db.idxPos = L.addr (.slot i)) (n : ℕ) :
    ∃ db', nextrecs n db = some ((List.range n).map ((L.listed i)[·]?), db') ∧ Holds db' L := by
  induction n generalizing db i with
  | zero => exact ⟨db, rfl, h⟩
  | succ n ih =>
    have hfuel : L.slots.length - i < db.fuel := by
      have htable := length_le_tableSize 0 L.shapes
      rw [Layout.shapes, List.length_map, ← Layout.shapes] at htable
      rw [DB.fuel, h.idx, h.fits.idx_length, Layout.addr, Layout.take_all_shapes]
      omega
    obtain ⟨db₁, j, hnext, h₁, hj, hpos₁, hlisted⟩ := h.nextrecLoop hi hpos hfuel
    obtain ⟨db', hrest, h'⟩ := ih h₁ hj hpos₁
    refine ⟨db', ?_, h'⟩
    rw [CLib.Db.nextrecs, DB.nextrec, hnext, Option.bind_some]
    dsimp only
    rw [hrest, Option.map_some, hlisted, List.range_succ_eq_map, List.map_cons, List.map_map]
    simp only [List.head?_eq_getElem?, Function.comp_def, List.getElem?_tail]

end Slots

end CLib.Db
