import CLib.Db.Layout

namespace CLib.Db
open CLib.Base

/-- The two files hold the records of the layout. -/
structure Holds (db : DB) (L : Layout) : Prop where
  idx : db.idxFile = L.idx
  dat : db.datFile = L.dat
  fits : L.Fits

/-- The fields that `_db_readidx` sets are those of the slot `i`. -/
structure OnSlot (L : Layout) (i : ℕ) (db : DB) : Prop where
  idxbuf : db.idxbuf = (L.slot i).key
  idxoff : db.idxoff = L.addr (.slot i)
  datoff : db.datoff = L.datOff i
  datlen : db.datlen = (L.slot i).data.length + 1
  ptrval : db.ptrval = (L.slot i).ptr

/-- The handle is the same but for its files and its file offset. -/
structure Same (db db' : DB) : Prop where
  idxbuf : db'.idxbuf = db.idxbuf
  idxoff : db'.idxoff = db.idxoff
  datoff : db'.datoff = db.datoff
  datlen : db'.datlen = db.datlen
  ptrval : db'.ptrval = db.ptrval
  ptroff : db'.ptroff = db.ptroff
  chainoff : db'.chainoff = db.chainoff

variable {db db' : DB} {L : Layout} {i j v : ℕ} {x : Cell} {key data : Text}

section Fields

theorem takeWhile_append_sep {s : Text} (hs : sep ∉ s) (t : Text) :
    (s ++ sep :: t).takeWhile (· != sep) = s := by
  rw [List.takeWhile_append_of_pos, List.takeWhile_cons_of_neg (by simp), List.append_nil]
  intro c hc
  rw [bne_iff_ne]
  rintro rfl
  exact hs hc

theorem tail_dropWhile_append_sep {s : Text} (hs : sep ∉ s) (t : Text) :
    ((s ++ sep :: t).dropWhile (· != sep)).tail = t := by
  rw [List.dropWhile_append_of_pos, List.dropWhile_cons_of_neg (by simp), List.tail_cons]
  intro c hc
  rw [bne_iff_ne]
  rintro rfl
  exact hs hc

theorem indexRecord_eq_concat (key : Text) (d l : ℕ) :
    indexRecord key d l = (key ++ sep :: (percentU d ++ sep :: percentU l)) ++ ['\n'] := by
  rw [indexRecord]
  simp only [List.append_assoc, List.cons_append]

theorem splitIndex_dropLast_indexRecord (hsep : sep ∉ key) (hnul : nul ∉ key) (d l : ℕ) :
    DB.splitIndex (indexRecord key d l).dropLast = some (key, percentU d, percentU l) := by
  have hd : sep ∉ percentU d := notMem_percentU (by decide) d
  have hl : sep ∉ percentU l := notMem_percentU (by decide) l
  have hcstr : cstr (key ++ sep :: (percentU d ++ sep :: percentU l)) =
      key ++ sep :: (percentU d ++ sep :: percentU l) := by
    apply cstr_of_not_mem
    simp only [List.mem_append, List.mem_cons, not_or]
    exact ⟨hnul, by decide, notMem_percentU (by decide) d, by decide, notMem_percentU (by decide) l⟩
  rw [indexRecord_eq_concat, List.dropLast_concat, DB.splitIndex, hcstr]
  simp only [tail_dropWhile_append_sep hsep, tail_dropWhile_append_sep hd,
    takeWhile_append_sep hsep, takeWhile_append_sep hd]
  rw [if_pos ⟨by simp, by simp, hl⟩]

end Fields

section Reading

theorem Holds.readptr (h : Holds db L) (hx : L.Cells x) :
    ∃ db', db.readptr (L.addr x) = some ((L.field x : ℤ), db') ∧ Holds db' L ∧ Same db db' := by
  obtain ⟨a, c, ha, hidx⟩ := Layout.exists_idx_eq_of_cell h.fits hx
  have hle := h.fits.field_le hx
  have hread : pread db.idxFile (L.addr x) ptrSz = percentPad ptrSz (L.field x) := by
    have happend := pread_append a (percentPad ptrSz (L.field x)) c
    rwa [ha, percentPad_ptrSz_length hle, ← hidx, Layout.setPtr_field h.fits hx, ← h.idx] at happend
  have hlt : L.field x < 2 ^ 63 := hle.trans_lt (by decide)
  refine ⟨{ db with idxPos := L.addr x + ptrSz }, ?_, ⟨h.idx, h.dat, h.fits⟩,
    ⟨rfl, rfl, rfl, rfl, rfl, rfl, rfl⟩⟩
  simp only [DB.readptr, hread]
  rw [if_pos (percentPad_ptrSz_length hle), atol_percentPad ptrSz hlt]

theorem Layout.addr_slot_pos (L : Layout) (i : ℕ) : 0 < L.addr (.slot i) := by
  rw [Layout.addr]
  omega

theorem Holds.pread_slot (h : Holds db L) (hi : i < L.slots.length) :
    pread db.idxFile (L.addr (.slot i)) (ptrSz + idxlenSz) = percentPad ptrSz (L.slot i).ptr ++
        percentPad idxlenSz (recordSize (L.datOff i) (L.slot i).shape) ∧
      pread db.idxFile (L.addr (.slot i) + (ptrSz + idxlenSz))
          (recordSize (L.datOff i) (L.slot i).shape) =
        indexRecord (L.slot i).key (L.datOff i) ((L.slot i).data.length + 1) := by
  obtain ⟨a, c, ha, hidx⟩ := Layout.exists_idx_eq h.fits hi
  have hok := h.fits.slotOk hi
  have hfile := hidx (L.slot i) rfl
  rw [Layout.setSlot_slot hi, ← h.idx, renderSlot] at hfile
  have hptr := percentPad_ptrSz_length hok.ptr
  have hlen := percentPad_idxlenSz_length hok.idxlen
  have hrec := indexRecord_length (L.slot i).key (L.datOff i) ((L.slot i).data.length + 1)
  generalize percentPad ptrSz (L.slot i).ptr = A at hfile hptr
  generalize percentPad idxlenSz (recordSize (L.datOff i) (L.slot i).shape) = B at hfile hlen
  generalize indexRecord (L.slot i).key (L.datOff i) ((L.slot i).data.length + 1) = R at hfile hrec
  constructor
  · have happend := pread_append a (A ++ B) (R ++ c)
    rw [List.length_append, hptr, hlen, ha] at happend
    rwa [← List.append_assoc, List.append_assoc a, List.append_assoc (A), ← hfile] at happend
  · have happend := pread_append (a ++ (A ++ B)) R c
    rw [List.length_append, List.length_append, hptr, hlen, ha, hrec] at happend
    rwa [List.append_assoc a, List.append_assoc A, ← hfile] at happend

theorem Holds.readidx (h : Holds db L) (hi : i < L.slots.length) {offset : ℤ}
    (hoff : offset = L.addr (.slot i) ∨ offset = 0 ∧ db.idxPos = L.addr (.slot i)) :
    db.readidx offset = some (some ((L.slot i).ptr : ℤ), { db with
      idxPos := L.addr (.slot i) + (ptrSz + idxlenSz) + recordSize (L.datOff i) (L.slot i).shape
      idxbuf := (L.slot i).key
      idxoff := L.addr (.slot i)
      idxlen := recordSize (L.datOff i) (L.slot i).shape
      datoff := L.datOff i
      datlen := (L.slot i).data.length + 1
      ptrval := (L.slot i).ptr }) := by
  have hok := h.fits.slotOk hi
  have hpos := L.addr_slot_pos i
  have hnonneg : ¬ offset < 0 := by omega
  have hoffset : (if offset = 0 then db.idxPos else offset.toNat) = L.addr (.slot i) := by
    split_ifs <;> omega
  obtain ⟨hhead, hrecord⟩ := h.pread_slot hi
  have hptr := percentPad_ptrSz_length hok.ptr
  have hlen := percentPad_idxlenSz_length hok.idxlen
  have hsize := two_le_recordSize hok
  have hidxlen : recordSize (L.datOff i) (L.slot i).shape < 2 ^ 63 := hok.idxlen.trans_lt (by decide)
  have hptrlt : (L.slot i).ptr < 2 ^ 63 := hok.ptr.trans_lt (by decide)
  have hdatlen : (L.slot i).data.length + 1 < 2 ^ 63 := hok.datlen.trans_lt (by decide)
  have hrange : ¬ ((recordSize (L.datOff i) (L.slot i).shape : ℤ) < idxlenMin ∨
      (idxlenMax : ℤ) < recordSize (L.datOff i) (L.slot i).shape) := by
    have hmax := hok.idxlen
    omega
  have hlast : (indexRecord (L.slot i).key (L.datOff i) ((L.slot i).data.length + 1)).getLast? =
      some '\n' := by
    rw [indexRecord_eq_concat, List.getLast?_concat]
  have hdat : ¬ ((L.datOff i : ℤ) < 0 ∨ (((L.slot i).data.length + 1 : ℕ) : ℤ) ≤ 0 ∨
      (datlenMax : ℤ) < ((L.slot i).data.length + 1 : ℕ)) := by
    have hmax := hok.datlen
    omega
  rw [DB.readidx, if_neg hnonneg]
  simp only [hoffset, hhead]
  rw [if_neg (by rw [List.length_append, hptr, hlen]; decide), List.take_left' hptr,
    List.drop_left' hptr, atol_percentPad _ hptrlt, atol_percentPad _ hidxlen, if_neg hrange, Int.toNat_natCast,
    hrecord, if_neg]
  · rw [splitIndex_dropLast_indexRecord hok.sep_key hok.nul_key, Option.bind_some]
    simp only [atol_percentU hok.datoff, atol_percentU hdatlen]
    rw [if_neg hdat]
    rfl
  · rw [indexRecord_length, hlast]
    simp [Slot.shape]

theorem Holds.onSlot (h : Holds db L) (hi : i < L.slots.length) {offset : ℤ}
    (hoff : offset = L.addr (.slot i) ∨ offset = 0 ∧ db.idxPos = L.addr (.slot i)) :
    ∃ db', db.readidx offset = some (some ((L.slot i).ptr : ℤ), db') ∧ OnSlot L i db' ∧ Holds db' L ∧
      db'.ptroff = db.ptroff ∧ db'.chainoff = db.chainoff :=
  ⟨_, h.readidx hi hoff, ⟨rfl, rfl, rfl, rfl, rfl⟩, ⟨h.idx, h.dat, h.fits⟩, rfl, rfl⟩

theorem Holds.readidx_end (h : Holds db L) (hpos : db.idxPos = L.addr (.slot L.slots.length)) :
    db.readidx 0 = some (none, { db with idxoff := db.idxPos }) := by
  have hhead : pread db.idxFile db.idxPos (ptrSz + idxlenSz) = [] := by
    rw [pread, hpos, ← h.fits.idx_length, h.idx, List.drop_length, List.take_nil]
  rw [DB.readidx, if_neg (lt_irrefl 0)]
  simp only [if_true, hhead]
  rw [if_pos (by decide), if_pos (by simp)]

theorem Holds.readdat (h : Holds db L) (hi : i < L.slots.length) (hdb : OnSlot L i db) :
    db.readdat = some (L.slot i).data := by
  obtain ⟨a, c, ha, hdat⟩ := Layout.exists_dat_eq hi
  have hok := h.fits.slotOk hi
  have hread : pread db.datFile db.datoff db.datlen = (L.slot i).data ++ ['\n'] := by
    have happend := pread_append a ((L.slot i).data ++ ['\n']) c
    rwa [ha, List.length_append, List.length_singleton, ← hdat, Layout.setSlot_slot hi, ← h.dat,
      ← hdb.datoff, ← hdb.datlen] at happend
  rw [DB.readdat]
  simp only [hread]
  rw [if_neg, List.dropLast_concat, cstr_of_not_mem hok.nul_data]
  rw [List.getLast?_concat, hdb.datlen, List.length_append, List.length_singleton]
  simp

end Reading

section Writing

theorem dat_setSlot {s : Slot} (hi : i < L.slots.length) (hs : s.data = (L.slot i).data) :
    (L.setSlot i s).dat = L.dat := by
  obtain ⟨a, c, -, hdat⟩ := Layout.exists_dat_eq hi
  have hself := hdat (L.slot i)
  rw [Layout.setSlot_slot hi] at hself
  rw [hdat, hself, hs]

theorem dat_setPtr (hx : L.Cells x) (v : ℕ) : (L.setPtr x v).dat = L.dat := by
  cases x with
  | head j => rfl
  | slot i => exact dat_setSlot hx rfl

theorem Holds.writeptr (h : Holds db L) (hx : L.Cells x) (hv : v ≤ ptrMax) :
    ∃ db', db.writeptr (L.addr x) v = some db' ∧ Holds db' (L.setPtr x v) ∧ Same db db' := by
  obtain ⟨a, c, ha, hidx⟩ := Layout.exists_idx_eq_of_cell h.fits hx
  have hfile : db.idxFile = a ++ percentPad ptrSz (L.field x) ++ c := by
    rw [← hidx, Layout.setPtr_field h.fits hx, h.idx]
  have hlen : (percentPad ptrSz v).length = (percentPad ptrSz (L.field x)).length := by
    rw [percentPad_ptrSz_length hv, percentPad_ptrSz_length (h.fits.field_le hx)]
  refine ⟨{ db with idxFile := (L.setPtr x v).idx, idxPos := L.addr x + ptrSz }, ?_,
    ⟨rfl, h.dat.trans (dat_setPtr hx v).symm, h.fits.setPtr hx hv⟩, ⟨rfl, rfl, rfl, rfl, rfl, rfl, rfl⟩⟩
  rw [DB.writeptr, if_neg (by omega), Int.toNat_natCast, hidx, hfile, ← ha, pwrite_append a c hlen]

theorem Holds.writedat (h : Holds db L) (hi : i < L.slots.length)
    (hlen : data.length = (L.slot i).data.length) (hnul : nul ∉ data) :
    Holds (db.writedat data (.set (L.datOff i))) (L.setSlot i { L.slot i with data := data }) := by
  have hok := h.fits.slotOk hi
  have hshape : ({ L.slot i with data := data } : Slot).shape = (L.slot i).shape := by
    rw [Slot.shape, Slot.shape, hlen]
  refine ⟨?_, ?_, h.fits.setSlot hi ?_ hshape⟩
  · obtain ⟨a, c, -, hidx⟩ := Layout.exists_idx_eq h.fits hi
    have hself := hidx (L.slot i) rfl
    rw [Layout.setSlot_slot hi] at hself
    rw [hidx _ hshape, renderSlot, hshape]
    simp only [hlen]
    exact h.idx.trans hself
  · obtain ⟨a, c, ha, hdat⟩ := Layout.exists_dat_eq hi
    have hself := hdat (L.slot i)
    rw [Layout.setSlot_slot hi] at hself
    have hlen' : (data ++ ['\n']).length = ((L.slot i).data ++ ['\n']).length := by
      rw [List.length_append, List.length_append, hlen]
    have hwrite : pwrite db.datFile (L.datOff i) (data ++ ['\n']) = a ++ (data ++ ['\n']) ++ c := by
      rw [h.dat, hself, ← ha, pwrite_append a c hlen']
    rw [hdat]
    exact hwrite
  · have hne : data ≠ [] := by
      rw [← List.length_pos_iff, hlen]
      exact List.length_pos_iff.mpr hok.data_ne
    refine { hok with data_ne := hne, nul_data := hnul, datlen := ?_, idxlen := ?_ }
    · rw [hlen]
      exact hok.datlen
    · rw [hshape]
      exact hok.idxlen

theorem Holds.writeidx (h : Holds db L) (hi : i < L.slots.length) (hdatoff : db.datoff = L.datOff i)
    (hdatlen : db.datlen = (L.slot i).data.length + 1) (hkey : key.length = (L.slot i).key.length)
    (hsep : sep ∉ key) (hnul : nul ∉ key) (hv : v ≤ ptrMax) :
    ∃ db', db.writeidx key (.set (L.addr (.slot i))) v = some db' ∧
      Holds db' (L.setSlot i { L.slot i with ptr := v, key := key }) ∧
      db'.idxoff = L.addr (.slot i) ∧ db'.ptroff = db.ptroff ∧ db'.chainoff = db.chainoff := by
  have hok := h.fits.slotOk hi
  have hshape : ({ L.slot i with ptr := v, key := key } : Slot).shape = (L.slot i).shape := by
    rw [Slot.shape, Slot.shape, hkey]
  have hsize : (indexRecord key db.datoff db.datlen).length =
      recordSize (L.datOff i) (L.slot i).shape := by
    rw [indexRecord_length, hdatoff, hdatlen, hkey, Slot.shape]
  have hmin := two_le_recordSize hok
  have hmax := hok.idxlen
  obtain ⟨a, c, ha, hidx⟩ := Layout.exists_idx_eq h.fits hi
  have hself := hidx (L.slot i) rfl
  have hok' : SlotOk (L.datOff i) { L.slot i with ptr := v, key := key } := by
    refine { hok with ptr := hv, key_ne := ?_, sep_key := hsep, nul_key := hnul, idxlen := ?_ }
    · rw [← List.length_pos_iff, hkey]
      exact List.length_pos_iff.mpr hok.key_ne
    · rw [hshape]
      exact hmax
  have hlen : (renderSlot (L.datOff i) { L.slot i with ptr := v, key := key }).length =
      (renderSlot (L.datOff i) (L.slot i)).length := by
    rw [renderSlot_length hok', renderSlot_length hok, hshape]
  have hwrite : pwrite db.idxFile (L.addr (.slot i))
      (renderSlot (L.datOff i) { L.slot i with ptr := v, key := key }) =
        (L.setSlot i { L.slot i with ptr := v, key := key }).idx := by
    rw [Layout.setSlot_slot hi] at hself
    rw [h.idx, hself, ← ha, pwrite_append a c hlen, hidx _ hshape]
  refine ⟨_, if_neg (by omega), ⟨?_, ?_, h.fits.setSlot hi hok' hshape⟩, rfl, rfl, rfl⟩
  · rw [← hwrite, renderSlot, hshape, ← List.append_assoc, ← hsize, hdatoff, hdatlen,
      Int.toNat_natCast]
    rfl
  · exact h.dat.trans (dat_setSlot (s := { L.slot i with ptr := v, key := key }) hi rfl).symm

end Writing
end CLib.Db
