import CLib.Db.Records
import Mathlib.Data.List.Perm.Subperm

namespace CLib.Db
open CLib.Base

variable {db db' : DB} {L : Layout} {i j v : ℕ} {x : Cell} {key data : Text}

def Slot.blank (s : Slot) (ptr : ℕ) : Slot :=
  ⟨ptr, List.replicate s.key.length ' ', List.replicate s.data.length ' '⟩

namespace Layout

/-- The slot `i`, to which the cell `x` points, is put in front of the free list. -/
def deleted (L : Layout) (x : Cell) (i : ℕ) : Layout :=
  ((L.setSlot i ((L.slot i).blank (L.field (.head 0)))).setPtr (.head 0) (L.addr (.slot i))).setPtr x
    (L.slot i).ptr

/-- A record in the slot `i` is put in front of the list of `x`. -/
def linked (L : Layout) (x : Cell) (i : ℕ) (key data : Text) : Layout :=
  (L.setSlot i ⟨L.field x, key, data⟩).setPtr x (L.addr (.slot i))

/-- A record in a new slot is put in front of the list of `x`. -/
def extended (L : Layout) (x : Cell) (key data : Text) : Layout :=
  (L.concat ⟨L.field x, key, data⟩).setPtr x (L.addr (.slot L.slots.length))

theorem setSlot_setSlot (L : Layout) (i : ℕ) (s s' : Slot) :
    (L.setSlot i s).setSlot i s' = L.setSlot i s' := by
  rw [setSlot, setSlot, setSlot, List.set_set]

theorem datOff_eq_of_shapes {L' : Layout} (h : L'.shapes = L.shapes) (i : ℕ) :
    L'.datOff i = L.datOff i := by
  rw [datOff, datOff, h]

theorem Cells.setSlot (hx : L.Cells x) (i : ℕ) (s : Slot) : (L.setSlot i s).Cells x := by
  cases x with
  | head j => exact hx
  | slot j => exact hx.trans_eq (slots_length_setSlot L i s).symm

theorem Cells.setPtr (hx : L.Cells x) (y : Cell) (v : ℕ) : (L.setPtr y v).Cells x := by
  cases y with
  | head j => cases x <;> exact hx
  | slot j => exact hx.setSlot j _

theorem datOff_take (L : Layout) : dataSize (L.slots.map Slot.shape) = L.datOff L.slots.length := by
  rw [datOff, take_all_shapes, shapes]

theorem idx_concat (L : Layout) (s : Slot) :
    (L.concat s).idx = L.idx ++ renderSlot (L.datOff L.slots.length) s := by
  have hslots : renderSlots 0 (L.concat s).slots =
      renderSlots 0 L.slots ++ renderSlot (L.datOff L.slots.length) s := by
    rw [concat, renderSlots_append, Nat.zero_add, datOff_take, renderSlots, renderSlots,
      List.append_nil]
  rw [idx, hslots, idx, List.append_assoc, List.cons_append]
  rfl

theorem dat_concat (L : Layout) (s : Slot) : (L.concat s).dat = L.dat ++ (s.data ++ ['\n']) := by
  rw [dat, concat, renderData, List.flatMap_append, List.flatMap_singleton]
  rfl

theorem Fits.concat (hfits : L.Fits) {s : Slot} (hs : SlotOk (L.datOff L.slots.length) s) :
    (L.concat s).Fits := by
  refine ⟨hfits.heads_length, hfits.heads_le, ?_⟩
  rw [Layout.concat, slotsOk_append, Nat.zero_add, datOff_take]
  exact ⟨hfits.slots, hs, trivial⟩

theorem Cells.concat (hx : L.Cells x) (s : Slot) : (L.concat s).Cells x := by
  cases x with
  | head j => exact hx
  | slot i =>
    have hlen : (L.concat s).slots.length = L.slots.length + 1 := List.length_append
    exact (Nat.lt_succ_of_lt hx).trans_eq hlen.symm

theorem addr_concat_slot (hi : i ≤ L.slots.length) (s : Slot) :
    (L.concat s).addr (.slot i) = L.addr (.slot i) := by
  have hlen : i ≤ L.shapes.length := by
    rw [shapes, List.length_map]
    exact hi
  rw [addr, addr, shapes, concat, List.map_append, ← shapes, List.take_append_of_le_length hlen]

theorem addr_concat (hx : L.Cells x) (s : Slot) : (L.concat s).addr x = L.addr x := by
  cases x with
  | head j => rfl
  | slot i => exact addr_concat_slot (le_of_lt hx) s

end Layout

theorem Slot.shape_blank (s : Slot) (ptr : ℕ) : (s.blank ptr).shape = s.shape := by
  rw [Slot.shape, Slot.blank, List.length_replicate, List.length_replicate, Slot.shape]

theorem notMem_blanks {c : Char} (hc : c ≠ ' ') (n : ℕ) : c ∉ List.replicate n ' ' :=
  fun hmem => hc (List.eq_of_mem_replicate hmem)

section Writing

theorem Holds.dodelete (h : Holds db L) (hdb : OnSlot L i db) (hi : i < L.slots.length)
    (hx : L.Cells x) (hptroff : db.ptroff = L.addr x) (hmax : L.addr (.slot i) ≤ ptrMax) :
    ∃ db', db.dodelete = some db' ∧ Holds db' (L.deleted x i) ∧ db'.chainoff = db.chainoff := by
  have hhead : L.Cells (.head 0) := Nat.succ_pos nhash
  let s : Slot := { L.slot i with data := List.replicate (L.slot i).data.length ' ' }
  have hs : s.shape = (L.slot i).shape := by
    rw [Slot.shape, Slot.shape, List.length_replicate]
  have haddr : (L.setSlot i s).addr = L.addr :=
    Layout.addr_eq_of_shapes (Layout.shapes_setSlot hi hs)
  have hslot : (L.setSlot i s).slot i = s := by
    rw [Layout.slot_setSlot hi, if_pos rfl]
  have hi' : i < (L.setSlot i s).slots.length := hi.trans_eq (Layout.slots_length_setSlot L i s).symm
  have h₁ := h.writedat hi List.length_replicate (notMem_blanks (by decide) (L.slot i).data.length)
  obtain ⟨db₂, hread, h₂, hsame₂⟩ := h₁.readptr (hhead.setSlot i s)
  have hdatoff : db₂.datoff = (L.setSlot i s).datOff i := by
    rw [hsame₂.datoff, Layout.datOff_eq_of_shapes (Layout.shapes_setSlot hi hs)]
    rfl
  have hdatlen : db₂.datlen = ((L.setSlot i s).slot i).data.length + 1 := by
    rw [hsame₂.datlen, hslot]
    rfl
  have hkeylen : (List.replicate db.idxbuf.length ' ').length = ((L.setSlot i s).slot i).key.length := by
    rw [List.length_replicate, hdb.idxbuf, hslot]
  obtain ⟨db₃, hwrite, h₃, hoff₃, hptroff₃, hchain₃⟩ := h₂.writeidx hi' hdatoff hdatlen hkeylen
    (notMem_blanks (by decide) _) (notMem_blanks (by decide) _) (h.fits.field_le hhead)
  rw [haddr] at hwrite hoff₃
  have hset : (L.setSlot i s).setSlot i { (L.setSlot i s).slot i with
      ptr := L.field (.head 0)
      key := List.replicate db.idxbuf.length ' ' } =
        L.setSlot i ((L.slot i).blank (L.field (.head 0))) := by
    rw [Layout.setSlot_setSlot, hslot, hdb.idxbuf]
    rfl
  rw [hset] at h₃
  have haddr₃ : (L.setSlot i ((L.slot i).blank (L.field (.head 0)))).addr = L.addr :=
    Layout.addr_eq_of_shapes (Layout.shapes_setSlot hi (Slot.shape_blank _ _))
  obtain ⟨db₄, hfree, h₄, hsame₄⟩ := h₃.writeptr (hhead.setSlot i _) hmax
  obtain ⟨db₅, hlast, h₅, hsame₅⟩ := h₄.writeptr ((hx.setSlot i _).setPtr (.head 0) _)
    (h.fits.slotOk hi).ptr
  rw [Layout.addr_eq_of_shapes (Layout.shapes_setPtr (hhead.setSlot i _) _), haddr₃] at hlast
  refine ⟨db₅, ?_, h₅, ?_⟩
  · have hblanks : List.replicate (db.datlen - 1) ' ' = List.replicate (L.slot i).data.length ' ' := by
      rw [hdb.datlen, Nat.add_sub_cancel]
    have hptr : db₂.ptrval = (L.slot i).ptr := hsame₂.ptrval.trans hdb.ptrval
    have hptroff₄ : db₄.ptroff = L.addr x := by
      rw [hsame₄.ptroff, hptroff₃, hsame₂.ptroff]
      exact hptroff
    have hoff₂ : db₂.idxoff = L.addr (.slot i) := hsame₂.idxoff.trans hdb.idxoff
    have hfree' : db₃.writeptr freeOff (db₃.idxoff : ℤ) = some db₄ := by
      rw [hoff₃]
      exact hfree
    have hread' : (db.writedat (List.replicate (L.slot i).data.length ' ')
        (.set (L.datOff i))).readptr freeOff = some ((L.field (.head 0) : ℤ), db₂) := hread
    rw [DB.dodelete, hblanks, hdb.datoff, hread', Option.bind_some]
    dsimp only
    rw [hoff₂, hwrite, Option.bind_some, hfree', Option.bind_some, hptroff₄, hptr, hlast]
  · rw [hsame₅.chainoff, hsame₄.chainoff, hchain₃, hsame₂.chainoff]
    rfl

theorem Holds.append (h : Holds db L) (hx : L.Cells x) (hchain : db.chainoff = L.addr x)
    (hs : SlotOk (L.datOff L.slots.length) ⟨L.field x, key, data⟩) (hmax : L.idx.length ≤ ptrMax) :
    ∃ db', db.append key data (L.field x) = some db' ∧ Holds db' (L.extended x key data) := by
  have hmin := two_le_recordSize hs
  have hsize : (indexRecord key (L.datOff L.slots.length) (data.length + 1)).length =
      recordSize (L.datOff L.slots.length) (⟨L.field x, key, data⟩ : Slot).shape := by
    rw [indexRecord_length, Slot.shape]
  have hidxlen := hs.idxlen
  have hptr : L.field x ≤ ptrMax := hs.ptr
  have hend : db.datFile.length = L.datOff L.slots.length := by
    rw [h.dat, Layout.dat_length]
  have hidx : db.idxFile.length = L.addr (.slot L.slots.length) := by
    rw [h.idx, h.fits.idx_length]
  let s : Slot := ⟨L.field x, key, data⟩
  obtain ⟨db₁, hwrite, h₁, hoff, hchain₁⟩ :
      ∃ db₁, (db.writedat data .atEnd).writeidx key .atEnd (L.field x) = some db₁ ∧
        Holds db₁ (L.concat s) ∧ db₁.idxoff = L.addr (.slot L.slots.length) ∧
        db₁.chainoff = db.chainoff := by
    have hrecord : (indexRecord key (db.writedat data .atEnd).datoff
        (db.writedat data .atEnd).datlen).length =
          recordSize (L.datOff L.slots.length) (⟨L.field x, key, data⟩ : Slot).shape := by
      rw [← hsize, ← hend]
      rfl
    refine ⟨_, if_neg (by omega), ⟨?_, ?_, h.fits.concat hs⟩, ?_, rfl⟩
    · rw [Layout.idx_concat, renderSlot, ← hsize, ← hend, ← h.idx, ← List.append_assoc (percentPad _ _)]
      exact pwrite_end db.idxFile _
    · rw [Layout.dat_concat, ← h.dat]
      exact pwrite_end db.datFile _
    · exact hidx
  have haddr : (L.concat s).addr x = L.addr x := Layout.addr_concat hx s
  obtain ⟨db₂, hlast, h₂, -⟩ := h₁.writeptr (hx.concat s) (h.fits.idx_length ▸ hmax)
  refine ⟨db₂, ?_, h₂⟩
  rw [DB.append, hwrite, Option.bind_some, hoff, hchain₁, hchain, ← haddr]
  exact hlast

theorem Holds.reuse (h : Holds db L) (hi : i < L.slots.length) (hx : L.Cells x)
    (hchain : db.chainoff = L.addr x) (hoff : db.idxoff = L.addr (.slot i))
    (hdatoff : db.datoff = L.datOff i) (hkey : key.length = (L.slot i).key.length)
    (hdata : data.length = (L.slot i).data.length) (hsep : sep ∉ key) (hnul : nul ∉ key)
    (hnul' : nul ∉ data) (hmax : L.addr (.slot i) ≤ ptrMax) :
    ∃ db', (((db.writedat data (.set db.datoff)).writeidx key (.set db.idxoff) (L.field x)).bind
        fun db => db.writeptr db.chainoff db.idxoff) = some db' ∧ Holds db' (L.linked x i key data) := by
  let s : Slot := { L.slot i with data := data }
  have hs : s.shape = (L.slot i).shape := by
    rw [Slot.shape, Slot.shape, hdata]
  have hshapes := Layout.shapes_setSlot hi hs
  have haddr : (L.setSlot i s).addr = L.addr := Layout.addr_eq_of_shapes hshapes
  have hslot : (L.setSlot i s).slot i = s := by
    rw [Layout.slot_setSlot hi, if_pos rfl]
  have h₁ := h.writedat hi hdata hnul'
  have hdatoff₁ : L.datOff i = (L.setSlot i s).datOff i :=
    (Layout.datOff_eq_of_shapes hshapes i).symm
  have hdatlen₁ : data.length + 1 = ((L.setSlot i s).slot i).data.length + 1 := by
    rw [hslot]
  have hkey₁ : key.length = ((L.setSlot i s).slot i).key.length := by
    rw [hslot, hkey]
  obtain ⟨db₂, hwrite, h₂, hoff₂, -, hchain₂⟩ := h₁.writeidx
    (hi.trans_eq (Layout.slots_length_setSlot L i s).symm) hdatoff₁ hdatlen₁ hkey₁ hsep hnul
    (h.fits.field_le hx)
  have hset : (L.setSlot i s).setSlot i { (L.setSlot i s).slot i with ptr := L.field x, key := key } =
      L.setSlot i ⟨L.field x, key, data⟩ := by
    rw [Layout.setSlot_setSlot, hslot]
  have hshapes₂ : (L.setSlot i ⟨L.field x, key, data⟩).shapes = L.shapes := by
    apply Layout.shapes_setSlot hi
    rw [Slot.shape, Slot.shape, hdata, hkey]
  rw [haddr] at hwrite hoff₂
  rw [hset] at h₂
  obtain ⟨db₃, hlast, h₃, -⟩ := h₂.writeptr (hx.setSlot i _) hmax
  rw [Layout.addr_eq_of_shapes hshapes₂] at hlast
  refine ⟨db₃, ?_, h₃⟩
  have hchain₂' : db₂.chainoff = L.addr x := hchain₂.trans hchain
  rw [hdatoff]
  have hoff₁ : (db.writedat data (.set (L.datOff i))).idxoff = L.addr (.slot i) := hoff
  rw [hoff, hwrite, Option.bind_some, hoff₂, hchain₂', hlast]

end Writing

section Searching

def Layout.SlotWith (L : Layout) (P : Slot → Prop) : Cell → Prop
  | .head _ => False
  | .slot i => i < L.slots.length ∧ P (L.slot i)

theorem Holds.find_append (h : Holds db L) (fuel : ℕ) {p : ℕ} {a : Cell} {ys zs : List Cell}
    (hlinks : Links 0 L.addr L.field p (ys ++ zs)) (hys : ∀ y ∈ ys, L.SlotWith (·.key ≠ key) y)
    (hptroff : db.ptroff = L.addr a) :
    ∃ db' p', db.find key (ys.length + fuel) p = db'.find key fuel (p' : ℕ) ∧
      Links 0 L.addr L.field p' zs ∧ Holds db' L ∧ db'.chainoff = db.chainoff ∧
      db'.ptroff = L.addr ((a :: ys).getLast (List.cons_ne_nil a ys)) := by
  induction ys generalizing db p a with
  | nil => exact ⟨db, p, by rw [List.length_nil, Nat.zero_add], hlinks, h, rfl, hptroff⟩
  | cons y ys ih =>
    obtain ⟨hp, hne, hlinks⟩ := hlinks
    have hy := hys y List.mem_cons_self
    cases y with
    | head j => exact hy.elim
    | slot i =>
      obtain ⟨hi, hkey⟩ := hy
      obtain ⟨db₁, hread, hon, h₁, -, hchain⟩ := h.onSlot hi (.inl rfl)
      have h₂ : Holds { db₁ with ptroff := L.addr (.slot i) } L := ⟨h₁.idx, h₁.dat, h₁.fits⟩
      obtain ⟨db', p', hfind, hlinks', h', hchain', hlast⟩ :=
        ih (a := .slot i) h₂ hlinks (fun z hz => hys z (List.mem_cons_of_mem _ hz)) rfl
      refine ⟨db', p', ?_, hlinks', h', hchain'.trans hchain, ?_⟩
      · have hne' : (p : ℤ) ≠ 0 := by omega
        rw [List.length_cons, Nat.succ_add, DB.find, if_neg hne', hp, hread]
        dsimp only
        rw [if_neg (hon.idxbuf.symm ▸ hkey), Int.toNat_natCast]
        exact hfind
      · rw [hlast, List.getLast_cons (List.cons_ne_nil _ _)]

theorem Holds.findfreeLoop_append (h : Holds db L) (fuel : ℕ) {p keylen datlen : ℕ} {a : Cell}
    {ys zs : List Cell} (hlinks : Links 0 L.addr L.field p (ys ++ zs))
    (hys : ∀ y ∈ ys, L.SlotWith (·.shape ≠ (keylen, datlen)) y) :
    ∃ db' p', db.findfreeLoop keylen datlen (ys.length + fuel) (L.addr a) p =
        db'.findfreeLoop keylen datlen fuel (L.addr ((a :: ys).getLast (List.cons_ne_nil a ys)))
          (p' : ℕ) ∧
      Links 0 L.addr L.field p' zs ∧ Holds db' L ∧ db'.chainoff = db.chainoff := by
  induction ys generalizing db p a with
  | nil => exact ⟨db, p, by rw [List.length_nil, Nat.zero_add]; rfl, hlinks, h, rfl⟩
  | cons y ys ih =>
    obtain ⟨hp, hne, hlinks⟩ := hlinks
    have hy := hys y List.mem_cons_self
    cases y with
    | head j => exact hy.elim
    | slot i =>
      obtain ⟨hi, hshape⟩ := hy
      obtain ⟨db₁, hread, hon, h₁, -, hchain⟩ := h.onSlot hi (.inl rfl)
      obtain ⟨db', p', hfind, hlinks', h', hchain'⟩ :=
        ih (a := .slot i) h₁ hlinks (fun z hz => hys z (List.mem_cons_of_mem _ hz))
      refine ⟨db', p', ?_, hlinks', h', hchain'.trans hchain⟩
      have hne' : (p : ℤ) ≠ 0 := by omega
      have hother : ¬ (db₁.idxbuf.length = keylen ∧ db₁.datlen = datlen) := by
        rw [hon.idxbuf, hon.datlen]
        exact fun heq => hshape (Prod.ext heq.1 heq.2)
      rw [List.length_cons, Nat.succ_add, DB.findfreeLoop, if_neg hne', hp, hread]
      dsimp only
      rw [if_neg hother, Int.toNat_natCast, List.getLast_cons (List.cons_ne_nil _ _)]
      exact hfind

theorem length_le_tableSize (d : ℕ) (zs : List (ℕ × ℕ)) : zs.length ≤ tableSize d zs := by
  induction zs generalizing d with
  | nil => exact Nat.zero_le _
  | cons z zs ih =>
    have hzs := ih (d + z.2)
    rw [List.length_cons, tableSize, ptrSz]
    omega

theorem Layout.SlotWith.exists_slot {P : Slot → Prop} (hx : L.SlotWith P x) :
    ∃ i < L.slots.length, x = .slot i := by
  cases x with
  | head j => exact hx.elim
  | slot i => exact ⟨i, hx.1, rfl⟩

theorem Holds.length_lt_fuel (h : Holds db L) {xs : List Cell} (hnodup : xs.Nodup)
    (hxs : ∀ x ∈ xs, ∃ i < L.slots.length, x = .slot i) : xs.length < db.fuel := by
  have hsub : xs ⊆ (List.range L.slots.length).map Cell.slot := by
    intro x hx
    obtain ⟨i, hi, rfl⟩ := hxs x hx
    exact List.mem_map_of_mem (List.mem_range.mpr hi)
  have hle := (List.subperm_of_subset hnodup hsub).length_le
  rw [List.length_map, List.length_range] at hle
  have htable := length_le_tableSize 0 L.shapes
  rw [Layout.shapes, List.length_map, ← Layout.shapes] at htable
  rw [DB.fuel, h.idx, h.fits.idx_length, Layout.addr, Layout.take_all_shapes]
  omega

/-- The cell that `_db_find_and_lock` begins at. -/
def chainHead (key : Text) : Cell := .head (hash key + 1)

theorem cells_chainHead (L : Layout) (key : Text) : L.Cells (chainHead key) :=
  Nat.succ_lt_succ (Nat.mod_lt _ (by decide))

theorem addr_chainHead (L : Layout) (key : Text) :
    L.addr (chainHead key) = hash key * ptrSz + hashOff := Nat.succ_mul _ _

theorem Holds.findAndLock_eq (h : Holds db L) (key : Text) :
    ∃ db', db.findAndLock key = db'.find key db'.fuel (L.field (chainHead key) : ℕ) ∧ Holds db' L ∧
      db'.chainoff = L.addr (chainHead key) ∧ db'.ptroff = L.addr (chainHead key) := by
  have h₁ : Holds { db with chainoff := L.addr (chainHead key), ptroff := L.addr (chainHead key) } L :=
    ⟨h.idx, h.dat, h.fits⟩
  obtain ⟨db', hread, h', hsame⟩ := h₁.readptr (cells_chainHead L key)
  refine ⟨db', ?_, h', hsame.chainoff, hsame.ptroff⟩
  rw [DB.findAndLock, ← addr_chainHead L]
  dsimp only
  rw [hread]
  rfl

theorem Holds.findAndLock_of_forall_ne (h : Holds db L) {xs : List Cell}
    (hlinks : Links 0 L.addr L.field (L.field (chainHead key)) xs) (hnodup : xs.Nodup)
    (hxs : ∀ x ∈ xs, L.SlotWith (·.key ≠ key) x) :
    ∃ db', db.findAndLock key = some (false, db') ∧ Holds db' L ∧
      db'.chainoff = L.addr (chainHead key) := by
  obtain ⟨db₁, hfind, h₁, hchain, hptroff⟩ := h.findAndLock_eq key
  obtain ⟨k, hk⟩ := Nat.exists_eq_add_of_lt
    (h₁.length_lt_fuel hnodup fun x hx => (hxs x hx).exists_slot)
  rw [← List.append_nil xs] at hlinks
  obtain ⟨db₂, p, hskip, hp, h₂, hchain₂, -⟩ := h₁.find_append (k + 1) hlinks hxs hptroff
  refine ⟨db₂, ?_, h₂, hchain₂.trans hchain⟩
  rw [hfind, hk, Nat.add_assoc, hskip, DB.find, if_pos (by rw [show p = 0 from hp]; rfl)]

theorem Holds.findAndLock_of_eq (h : Holds db L) {ys zs : List Cell}
    (hlinks : Links 0 L.addr L.field (L.field (chainHead key)) (ys ++ .slot i :: zs))
    (hnodup : ys.Nodup) (hys : ∀ x ∈ ys, L.SlotWith (·.key ≠ key) x) (hi : i < L.slots.length)
    (hkey : (L.slot i).key = key) :
    ∃ db', db.findAndLock key = some (true, db') ∧ Holds db' L ∧ OnSlot L i db' ∧
      db'.chainoff = L.addr (chainHead key) ∧
      db'.ptroff = L.addr ((chainHead key :: ys).getLast (List.cons_ne_nil _ ys)) := by
  obtain ⟨db₁, hfind, h₁, hchain, hptroff⟩ := h.findAndLock_eq key
  obtain ⟨k, hk⟩ := Nat.exists_eq_add_of_lt
    (h₁.length_lt_fuel hnodup fun x hx => (hys x hx).exists_slot)
  obtain ⟨db₂, p, hskip, ⟨hp, hne, -⟩, h₂, hchain₂, hptroff₂⟩ :=
    h₁.find_append (k + 1) hlinks hys hptroff
  obtain ⟨db₃, hread, hon, h₃, hptroff₃, hchain₃⟩ := h₂.onSlot hi (.inl rfl)
  refine ⟨db₃, ?_, h₃, hon, ?_, ?_⟩
  · have hne' : (p : ℤ) ≠ 0 := by omega
    rw [hfind, hk, Nat.add_assoc, hskip, DB.find, if_neg hne', hp, hread]
    dsimp only
    rw [if_pos (hon.idxbuf.trans hkey)]
  · rw [hchain₃, hchain₂, hchain]
  · rw [hptroff₃, hptroff₂]

theorem Holds.findfree_of_forall_ne (h : Holds db L) {keylen datlen : ℕ} {xs : List Cell}
    (hlinks : Links 0 L.addr L.field (L.field (.head 0)) xs) (hnodup : xs.Nodup)
    (hxs : ∀ x ∈ xs, L.SlotWith (·.shape ≠ (keylen, datlen)) x) :
    ∃ db', db.findfree keylen datlen = some (false, db') ∧ Holds db' L ∧
      db'.chainoff = db.chainoff := by
  obtain ⟨db₁, hread, h₁, hsame⟩ := h.readptr (x := .head 0) (Nat.succ_pos nhash)
  obtain ⟨k, hk⟩ := Nat.exists_eq_add_of_lt
    (h₁.length_lt_fuel hnodup fun x hx => (hxs x hx).exists_slot)
  rw [← List.append_nil xs] at hlinks
  obtain ⟨db₂, p, hskip, hp, h₂, hchain₂⟩ := h₁.findfreeLoop_append (k + 1) (a := .head 0) hlinks hxs
  refine ⟨db₂, ?_, h₂, hchain₂.trans hsame.chainoff⟩
  have hread' : db.readptr freeOff = some ((L.field (.head 0) : ℤ), db₁) := hread
  rw [DB.findfree, hread', Option.bind_some]
  dsimp only
  rw [hk, Nat.add_assoc]
  exact hskip.trans (by rw [DB.findfreeLoop, if_pos (by rw [show p = 0 from hp]; rfl)])

theorem Holds.findfree_of_eq (h : Holds db L) {keylen datlen : ℕ} {ys zs : List Cell}
    (hlinks : Links 0 L.addr L.field (L.field (.head 0)) (ys ++ .slot i :: zs)) (hnodup : ys.Nodup)
    (hys : ∀ x ∈ ys, L.SlotWith (·.shape ≠ (keylen, datlen)) x) (hi : i < L.slots.length)
    (hshape : (L.slot i).shape = (keylen, datlen)) :
    ∃ db', db.findfree keylen datlen = some (true, db') ∧
      Holds db' (L.setPtr ((.head 0 :: ys).getLast (List.cons_ne_nil _ ys)) (L.slot i).ptr) ∧
      db'.idxoff = L.addr (.slot i) ∧ db'.datoff = L.datOff i ∧ db'.chainoff = db.chainoff := by
  obtain ⟨db₁, hread, h₁, hsame⟩ := h.readptr (x := .head 0) (Nat.succ_pos nhash)
  obtain ⟨k, hk⟩ := Nat.exists_eq_add_of_lt
    (h₁.length_lt_fuel hnodup fun x hx => (hys x hx).exists_slot)
  obtain ⟨db₂, p, hskip, ⟨hp, hne, -⟩, h₂, hchain₂⟩ :=
    h₁.findfreeLoop_append (k + 1) (a := .head 0) hlinks hys
  obtain ⟨db₃, hread₃, hon, h₃, -, hchain₃⟩ := h₂.onSlot hi (.inl rfl)
  have hprev : L.Cells ((.head 0 :: ys).getLast (List.cons_ne_nil _ ys)) := by
    rcases List.mem_cons.mp (List.getLast_mem (List.cons_ne_nil (.head 0) ys)) with hlast | hlast
    · rw [hlast]
      exact Nat.succ_pos nhash
    · obtain ⟨j, hj, hlast⟩ := (hys _ hlast).exists_slot
      rw [hlast]
      exact hj
  obtain ⟨db₄, hwrite, h₄, hsame₄⟩ := h₃.writeptr hprev (h.fits.slotOk hi).ptr
  refine ⟨db₄, ?_, h₄, ?_, ?_, ?_⟩
  · have hread' : db.readptr freeOff = some ((L.field (.head 0) : ℤ), db₁) := hread
    have hne' : (p : ℤ) ≠ 0 := by omega
    have hfound : db₃.idxbuf.length = keylen ∧ db₃.datlen = datlen := by
      rw [hon.idxbuf, hon.datlen]
      exact Prod.ext_iff.mp hshape
    rw [DB.findfree, hread', Option.bind_some]
    dsimp only
    rw [hk, Nat.add_assoc]
    refine hskip.trans ?_
    rw [DB.findfreeLoop, if_neg hne', hp, hread₃]
    dsimp only
    rw [if_pos hfound, hon.ptrval, hwrite, Option.map_some]
  · rw [hsame₄.idxoff, hon.idxoff]
  · rw [hsame₄.datoff, hon.datoff]
  · rw [hsame₄.chainoff, hchain₃, hchain₂, hsame.chainoff]

end Searching
end CLib.Db
