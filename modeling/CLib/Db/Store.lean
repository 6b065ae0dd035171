import CLib.Db.Chains
import Mathlib.Order.BooleanAlgebra.Set

namespace CLib.Db
open CLib.Base

/-- The files of `db` hold the layout, its pointers deal the slots out to these lists, and
its records are filed in them as the map says. -/
structure Kept (db : DB) (L : Layout) (lists : Cell → List Cell) (m : Text → Option Text) : Prop where
  holds : Holds db L
  dealt : Dealt 0 L.addr L.field headCells (slotCells L.slots.length) lists
  filed : Filed L.slots.length L.record lists m

/-- The database holds the records of the map. -/
def Keeps (db : DB) (m : Text → Option Text) : Prop := ∃ L lists, Kept db L lists m

/-- Keys and data that the callers may use: the code ends the process on others, or writes
an index record that it cannot read again. -/
structure ValidKey (key : Text) : Prop where
  ne_nil : key ≠ []
  sep : sep ∉ key
  nul : nul ∉ key

structure ValidData (data : Text) : Prop where
  ne_nil : data ≠ []
  nul : nul ∉ data
  length : data.length + 1 ≤ datlenMax

section Lists
variable {db : DB} {L : Layout} {lists : Cell → List Cell} {m : Text → Option Text}
variable {key data : Text} {i : ℕ} {ys zs : List Cell} {c : Cell}

theorem Kept.slot_lt (k : Kept db L lists m) (hc : c ∈ headCells) (hi : .slot i ∈ lists c) :
    i < L.slots.length := mem_slotCells.mp (k.dealt.mem_of_mem hc hi)

theorem Kept.slotWith (k : Kept db L lists m) (hc : c ∈ headCells) {P : Slot → Prop}
    {xs : List Cell} (hxs : ∀ x ∈ xs, x ∈ lists c) (hP : ∀ i, .slot i ∈ xs → P (L.slot i)) :
    ∀ x ∈ xs, L.SlotWith P x := by
  intro x hx
  obtain ⟨i, hi, rfl⟩ := k.dealt.mem_of_mem hc (hxs x hx)
  exact ⟨hi, hP i hx⟩

theorem Kept.addr_le (k : Kept db L lists m) (hc : c ∈ headCells) (hi : .slot i ∈ lists c) :
    L.addr (.slot i) ≤ ptrMax := by
  rcases (k.dealt.linked c hc).addr_eq hi with haddr | ⟨y, hy, haddr⟩
  · exact haddr ▸ k.holds.fits.field_le (Layout.cells_of_mem (.inl hc))
  · exact haddr ▸ k.holds.fits.field_le (Layout.cells_of_mem (.inr (k.dealt.mem_of_mem hc hy)))

theorem Kept.previous_cells (k : Kept db L lists m) (hc : c ∈ headCells)
    (hl : lists c = ys ++ .slot i :: zs) : L.Cells ((c :: ys).getLast (List.cons_ne_nil c ys)) := by
  apply Layout.cells_of_mem
  rcases Dealt.previous hl with hlast | hlast
  · rw [hlast]
    exact .inl hc
  · exact .inr (k.dealt.mem_of_mem hc hlast)

theorem Kept.exists_split (k : Kept db L lists m) (hm : m key = some data) :
    ∃ i ys zs, lists (chainHead key) = ys ++ .slot i :: zs ∧ L.record i = (key, data) ∧
      ∀ x ∈ ys, L.SlotWith (·.key ≠ key) x := by
  obtain ⟨i, hi, hrec⟩ := (k.filed.contents key data).mp hm
  obtain ⟨ys, zs, hl⟩ := List.append_of_mem hi
  refine ⟨i, ys, zs, hl, hrec, k.slotWith (chainHead_mem_headCells key) (fun x hx => ?_) fun j hj hkey => ?_⟩
  · rw [hl]
    exact List.mem_append_left _ hx
  · have hj1 : (L.record j).1 = key := hkey
    have hi1 : (L.record i).1 = key := by rw [hrec]
    have hmem : .slot j ∈ lists (chainHead key) := by
      rw [hl]
      exact List.mem_append_left _ hj
    have hji := k.filed.unique j i (hj1.symm ▸ hmem) (hi1.symm ▸ hi) (hj1.trans hi1.symm)
    have hnodup := k.dealt.nodup _ (chainHead_mem_headCells key)
    rw [hl] at hnodup
    exact List.disjoint_of_nodup_append hnodup hj (hji ▸ List.mem_cons_self)

theorem Kept.forall_ne (k : Kept db L lists m) (hm : m key = none) :
    ∀ x ∈ lists (chainHead key), L.SlotWith (·.key ≠ key) x := by
  apply k.slotWith (chainHead_mem_headCells key) fun _ hx => hx
  intro j hj hkey
  have hsome : m key = some (L.slot j).data :=
    (k.filed.contents key _).mpr ⟨j, hj, Prod.ext hkey rfl⟩
  rw [hm] at hsome
  cases hsome

theorem Kept.findAndLock_none (k : Kept db L lists m) (hm : m key = none) :
    ∃ db', db.findAndLock key = some (false, db') ∧ Kept db' L lists m ∧
      db'.chainoff = L.addr (chainHead key) := by
  have hhead := chainHead_mem_headCells key
  obtain ⟨db', hfind, h', hchain⟩ := k.holds.findAndLock_of_forall_ne (k.dealt.linked _ hhead)
    (k.dealt.nodup _ hhead) (k.forall_ne hm)
  exact ⟨db', hfind, ⟨h', k.dealt, k.filed⟩, hchain⟩

theorem Kept.findAndLock_some (k : Kept db L lists m) (hl : lists (chainHead key) = ys ++ .slot i :: zs)
    (hrec : L.record i = (key, data)) (hys : ∀ x ∈ ys, L.SlotWith (·.key ≠ key) x) :
    ∃ db', db.findAndLock key = some (true, db') ∧ Kept db' L lists m ∧ OnSlot L i db' ∧
      db'.chainoff = L.addr (chainHead key) ∧
      db'.ptroff = L.addr ((chainHead key :: ys).getLast (List.cons_ne_nil _ ys)) := by
  have hhead := chainHead_mem_headCells key
  have hi : .slot i ∈ lists (chainHead key) := by
    rw [hl]
    exact List.mem_append_right ys List.mem_cons_self
  have hnodup : ys.Nodup := by
    have hall := k.dealt.nodup _ hhead
    rw [hl] at hall
    exact hall.of_append_left
  obtain ⟨db', hfind, h', hon, hchain, hptroff⟩ := k.holds.findAndLock_of_eq
    (hl ▸ k.dealt.linked _ hhead) hnodup hys (k.slot_lt hhead hi) (congrArg Prod.fst hrec)
  exact ⟨db', hfind, ⟨h', k.dealt, k.filed⟩, hon, hchain, hptroff⟩

end Lists

section Updates
variable {db : DB} {L : Layout} {lists : Cell → List Cell} {m : Text → Option Text}
variable {key data : Text} {i : ℕ} {ys zs : List Cell}

theorem Holds.lengths {db' : DB} {L' : Layout} (h : Holds db L) (h' : Holds db' L')
    (hshapes : L'.shapes = L.shapes) (hlen : L'.slots.length = L.slots.length) :
    db'.idxFile.length = db.idxFile.length ∧ db'.datFile.length = db.datFile.length := by
  rw [h.idx, h.dat, h'.idx, h'.dat, h.fits.idx_length, h'.fits.idx_length, Layout.dat_length,
    Layout.dat_length, hlen, Layout.addr_eq_of_shapes hshapes, Layout.datOff_eq_of_shapes hshapes]
  exact ⟨rfl, rfl⟩

theorem insert_diff_slotCells (hi : i < L.slots.length) :
    insert (.slot i) (slotCells L.slots.length \ {.slot i}) = slotCells L.slots.length :=
  Set.insert_sdiff_self_of_mem (mem_slotCells.mpr hi)

theorem Kept.dodelete (k : Kept db L lists m) (hl : lists (chainHead key) = ys ++ .slot i :: zs)
    (hkey : (L.record i).1 = key) (hon : OnSlot L i db)
    (hptroff : db.ptroff = L.addr ((chainHead key :: ys).getLast (List.cons_ne_nil _ ys))) :
    ∃ db', db.dodelete = some db' ∧ Keeps db' (Function.update m key none) ∧
      db'.chainoff = db.chainoff ∧
      db'.idxFile.length = db.idxFile.length ∧ db'.datFile.length = db.datFile.length := by
  have hhead := chainHead_mem_headCells key
  have hfree := freeHead_mem_headCells
  have hi : .slot i ∈ lists (chainHead key) := by
    rw [hl]
    exact List.mem_append_right ys List.mem_cons_self
  have hlt := k.slot_lt hhead hi
  have hprev := k.previous_cells hhead hl
  have hne := k.dealt.previous_ne hhead hl
  have hne₀ := (k.dealt.previous_ne_of_ne hhead hfree (chainHead_ne_freeHead key) hl).1
  obtain ⟨db', hrun, h', hchain⟩ := k.holds.dodelete hon hlt hprev hptroff (k.addr_le hhead hi)
  have hshapes := Layout.shapes_deleted hlt hprev
  have hlen : (L.deleted ((chainHead key :: ys).getLast (List.cons_ne_nil _ ys)) i).slots.length =
      L.slots.length := by
    rw [Layout.deleted, Layout.slots_length_setPtr, Layout.slots_length_setPtr,
      Layout.slots_length_setSlot]
  have hremove := k.dealt.remove hhead hl
  have hpush := hremove.push hfree (fun hmem => hmem.2 rfl) (slot_notMem_headCells i)
    (L.addr_slot_pos i).ne'
  refine ⟨db', hrun, ⟨_, Function.update (Function.update lists (chainHead key) (ys ++ zs)) (.head 0)
    (.slot i :: Function.update lists (chainHead key) (ys ++ zs) (.head 0)), h', ?_, ?_⟩, hchain,
    k.holds.lengths h' hshapes hlen⟩
  · rw [hlen, Layout.addr_eq_of_shapes hshapes, Layout.field_deleted k.holds.fits.heads_length hlt hprev,
      Function.update_comm hne₀.symm, Function.update_comm hne.symm]
    rw [insert_diff_slotCells hlt, Function.update_of_ne hne₀.symm] at hpush
    exact hpush
  · rw [hlen, Layout.record_deleted hlt hprev]
    apply k.filed.delete hlt hi hkey
    · intro b hb y
      rw [Dealt.mem_push_iff, k.dealt.mem_remove_iff hhead hb hl]
    · exact fun c hc => List.eq_of_mem_replicate hc

theorem SlotsOk.dataSize_le {d : ℕ} {ss : List Slot} (h : SlotsOk d ss) :
    dataSize (ss.map Slot.shape) ≤ ss.length * datlenMax := by
  induction ss generalizing d with
  | nil => exact Nat.zero_le _
  | cons s ss ih =>
    have hs := h.1.datlen
    have htail := ih h.2
    rw [List.map_cons, dataSize, List.map_cons, List.sum_cons, List.length_cons, Nat.succ_mul]
    rw [dataSize] at htail
    simp only [Slot.shape] at hs ⊢
    omega

theorem Holds.datOff_lt (h : Holds db L) (hidx : db.idxFile.length ≤ ptrMax) :
    L.datOff L.slots.length < 2 ^ 63 := by
  have hdata := h.fits.slots.dataSize_le
  have htable := length_le_tableSize 0 L.shapes
  rw [Layout.datOff_take] at hdata
  rw [Layout.shapes, List.length_map, ← Layout.shapes] at htable
  rw [h.idx, h.fits.idx_length, Layout.addr, Layout.take_all_shapes, ptrMax] at hidx
  rw [datlenMax] at hdata
  omega

theorem Kept.append (k : Kept db L lists m) (hm : m key = none)
    (hchain : db.chainoff = L.addr (chainHead key)) (hkey : ValidKey key) (hdata : ValidData data)
    (hidx : db.idxFile.length ≤ ptrMax)
    (hrecord : (indexRecord key db.datFile.length (data.length + 1)).length ≤ idxlenMax) :
    ∃ db', db.append key data (L.field (chainHead key)) = some db' ∧
      Keeps db' (Function.update m key (some data)) := by
  have hhead := chainHead_mem_headCells key
  have hcell := cells_chainHead L key
  have hok : SlotOk (L.datOff L.slots.length) ⟨L.field (chainHead key), key, data⟩ := by
    refine ⟨k.holds.fits.field_le hcell, hkey.ne_nil, hkey.sep, hkey.nul, hdata.ne_nil, hdata.nul,
      hdata.length, ?_, k.holds.datOff_lt hidx⟩
    rwa [k.holds.dat, Layout.dat_length, indexRecord_length] at hrecord
  rw [k.holds.idx] at hidx
  obtain ⟨db', hrun, h'⟩ := k.holds.append hcell hchain hok hidx
  have hlen : (L.extended (chainHead key) key data).slots.length = L.slots.length + 1 := by
    rw [Layout.extended, Layout.slots_length_setPtr, Layout.concat, List.length_append,
      List.length_singleton]
  have hnew : .slot L.slots.length ∉ slotCells L.slots.length :=
    fun hmem => lt_irrefl _ (mem_slotCells.mp hmem)
  have hpush := k.dealt.push hhead hnew (slot_notMem_headCells _) (L.addr_slot_pos _).ne'
  rw [insert_slotCells, ← hlen] at hpush
  refine ⟨db', hrun, _, Function.update lists (chainHead key)
    (.slot L.slots.length :: lists (chainHead key)), h', ?_, ?_⟩
  · rw [Layout.field_extended k.holds.fits.heads_length hcell]
    apply hpush.congr
    · rintro x ⟨i, hi, rfl⟩
      rw [hlen] at hi
      rw [Layout.extended, Layout.addr_eq_of_shapes (Layout.shapes_setPtr (hcell.concat _) _),
        Layout.addr_concat_slot (Nat.le_of_lt_succ hi)]
    · exact fun _ _ => rfl
  · rw [hlen, Layout.record_extended hcell]
    apply k.filed.insert
    · intro j hj hne
      omega
    · exact fun k' hmem => lt_irrefl _ (k.slot_lt (chainHead_mem_headCells k') hmem)
    · exact hm
    · intro b hb y
      have hy : y ∈ lists b → y ≠ .slot L.slots.length := by
        rintro hmem rfl
        exact lt_irrefl _ (k.slot_lt hb hmem)
      rw [Dealt.mem_push_iff]
      tauto

theorem Kept.reuse {db₁ : DB} (k : Kept db L lists m) (hm : m key = none)
    (hl : lists (.head 0) = ys ++ .slot i :: zs)
    (hshape : (L.slot i).shape = (key.length, data.length + 1))
    (h : Holds db₁ (L.setPtr ((.head 0 :: ys).getLast (List.cons_ne_nil _ ys)) (L.slot i).ptr))
    (hchain : db₁.chainoff = L.addr (chainHead key)) (hoff : db₁.idxoff = L.addr (.slot i))
    (hdatoff : db₁.datoff = L.datOff i) (hkey : ValidKey key) (hdata : ValidData data) :
    ∃ db', (((db₁.writedat data (.set db₁.datoff)).writeidx key (.set db₁.idxoff)
        (L.field (chainHead key))).bind fun db => db.writeptr db.chainoff db.idxoff) = some db' ∧
      Keeps db' (Function.update m key (some data)) := by
  have hhead := chainHead_mem_headCells key
  have hfree := freeHead_mem_headCells
  have hcell := cells_chainHead L key
  have hi : .slot i ∈ lists (.head 0) := by
    rw [hl]
    exact List.mem_append_right ys List.mem_cons_self
  have hlt := k.slot_lt hfree hi
  have hprev := k.previous_cells hfree hl
  have hne₀ := (k.dealt.previous_ne_of_ne hfree hhead (chainHead_ne_freeHead key).symm hl).1
  have hh := k.holds.fits.heads_length
  let L₁ := L.setPtr ((.head 0 :: ys).getLast (List.cons_ne_nil _ ys)) (L.slot i).ptr
  have hshapes₁ : L₁.shapes = L.shapes := Layout.shapes_setPtr hprev _
  have haddr₁ : L₁.addr = L.addr := Layout.addr_eq_of_shapes hshapes₁
  have hlen₁ : L₁.slots.length = L.slots.length := Layout.slots_length_setPtr L _ _
  have hfield₁ : L₁.field = Function.update L.field
      ((.head 0 :: ys).getLast (List.cons_ne_nil _ ys)) (L.field (.slot i)) :=
    Layout.field_setPtr hh hprev _
  have hptr : L.field (chainHead key) = L₁.field (chainHead key) := by
    rw [hfield₁, Function.update_of_ne hne₀.symm]
  obtain ⟨hkeys, hdatas⟩ := Layout.slot_setPtr_key hprev (L.slot i).ptr i
  have hkeylen : key.length = (L₁.slot i).key.length := by
    rw [hkeys]
    exact (Prod.ext_iff.mp hshape).1.symm
  have hdatalen : data.length = (L₁.slot i).data.length := by
    rw [hdatas]
    exact (Nat.succ.inj (Prod.ext_iff.mp hshape).2).symm
  have hlt₁ : i < L₁.slots.length := hlt.trans_eq hlen₁.symm
  have hcell₁ : L₁.Cells (chainHead key) := cells_chainHead L₁ key
  obtain ⟨db', hrun, h'⟩ := h.reuse hlt₁ hcell₁ (hchain.trans (by rw [haddr₁]))
    (hoff.trans (by rw [haddr₁])) (hdatoff.trans (Layout.datOff_eq_of_shapes hshapes₁ i).symm)
    hkeylen hdatalen hkey.sep hkey.nul hdata.nul (haddr₁ ▸ k.addr_le hfree hi)
  rw [← hptr] at hrun
  have hshapes' : (L₁.linked (chainHead key) i key data).shapes = L.shapes :=
    (Layout.shapes_linked hlt₁ hcell₁ hkeylen hdatalen).trans hshapes₁
  have hlen' : (L₁.linked (chainHead key) i key data).slots.length = L.slots.length := by
    rw [Layout.linked, Layout.slots_length_setPtr, Layout.slots_length_setSlot, hlen₁]
  have hh₁ : L₁.heads.length = nhash + 1 := h.fits.heads_length
  have hremove := k.dealt.remove hfree hl
  have hpush := hremove.push hhead (fun hmem => hmem.2 rfl) (slot_notMem_headCells i)
    (L.addr_slot_pos i).ne'
  refine ⟨db', hrun, _, Function.update (Function.update lists (.head 0) (ys ++ zs)) (chainHead key)
    (.slot i :: Function.update lists (.head 0) (ys ++ zs) (chainHead key)), h', ?_, ?_⟩
  · rw [hlen', Layout.addr_eq_of_shapes hshapes', Layout.field_linked hh₁ hlt₁ hcell₁, haddr₁, hfield₁]
    rwa [insert_diff_slotCells hlt] at hpush
  · rw [hlen', Layout.record_linked hlt₁ hcell₁, Layout.record_setPtr hprev]
    apply k.filed.insert fun j hj _ => hj
    · intro key' hmem
      have hheads := k.dealt.apart _ hfree _ (chainHead_mem_headCells key') _ hi hmem
      exact chainHead_ne_freeHead key' hheads.symm
    · exact hm
    · intro b hb y
      rw [Dealt.mem_push_iff, k.dealt.mem_remove_iff hfree hb hl]

theorem Kept.storeNew (k : Kept db L lists m) (hm : m key = none)
    (hchain : db.chainoff = L.addr (chainHead key)) (hkey : ValidKey key) (hdata : ValidData data)
    (hidx : db.idxFile.length ≤ ptrMax)
    (hrecord : (indexRecord key db.datFile.length (data.length + 1)).length ≤ idxlenMax) :
    ∃ db', db.storeNew key data = some db' ∧ Keeps db' (Function.update m key (some data)) := by
  have hfree := freeHead_mem_headCells
  obtain ⟨db₁, hread, h₁, hsame⟩ := k.holds.readptr (cells_chainHead L key)
  rw [← hchain] at hread
  have hlinks := k.dealt.linked _ hfree
  have hnodup := k.dealt.nodup _ hfree
  rcases forall_not_or_exists_first (L.SlotWith (·.shape = (key.length, data.length + 1)))
    (lists (.head 0)) with hall | ⟨ys, x, zs, hl, hys, hx⟩
  · have hother := k.slotWith (P := (·.shape ≠ (key.length, data.length + 1))) hfree
      (fun x hx => hx) fun i hi hs => hall _ hi ⟨k.slot_lt hfree hi, hs⟩
    obtain ⟨db₂, hfind, h₂, hchain₂⟩ := h₁.findfree_of_forall_ne hlinks hnodup hother
    have k₂ : Kept db₂ L lists m := ⟨h₂, k.dealt, k.filed⟩
    have hlengths := k.holds.lengths h₂ rfl rfl
    rw [← hlengths.1] at hidx
    rw [← hlengths.2] at hrecord
    obtain ⟨db', hrun, h'⟩ := k₂.append hm (hchain₂.trans (hsame.chainoff.trans hchain)) hkey hdata
      hidx hrecord
    refine ⟨db', ?_, h'⟩
    rw [DB.storeNew, hread, Option.bind_some]
    dsimp only
    rw [hfind, Option.bind_some]
    exact hrun
  · cases x with
    | head j => exact hx.elim
    | slot i =>
      rw [hl] at hlinks hnodup
      have hother : ∀ y ∈ ys, L.SlotWith (·.shape ≠ (key.length, data.length + 1)) y := by
        apply k.slotWith hfree
        · intro y hy
          rw [hl]
          exact List.mem_append_left _ hy
        · intro j hj hs
          have hmem : .slot j ∈ lists (.head 0) := by
            rw [hl]
            exact List.mem_append_left _ hj
          exact hys _ hj ⟨k.slot_lt hfree hmem, hs⟩
      obtain ⟨db₂, hfind, h₂, hoff, hdatoff, hchain₂⟩ := h₁.findfree_of_eq hlinks
        hnodup.of_append_left hother hx.1 hx.2
      obtain ⟨db', hrun, h'⟩ := k.reuse hm hl hx.2 h₂ (hchain₂.trans (hsame.chainoff.trans hchain)) hoff
        hdatoff hkey hdata
      refine ⟨db', ?_, h'⟩
      rw [DB.storeNew, hread, Option.bind_some]
      dsimp only
      rw [hfind, Option.bind_some]
      exact hrun

/-- A record of the same length is overwritten, one of another length is deleted and
appended again. -/
theorem Kept.storeOver (k : Kept db L lists m) {old : Text}
    (hl : lists (chainHead key) = ys ++ .slot i :: zs) (hrec : L.record i = (key, old))
    (hon : OnSlot L i db) (hchain : db.chainoff = L.addr (chainHead key))
    (hptroff : db.ptroff = L.addr ((chainHead key :: ys).getLast (List.cons_ne_nil _ ys)))
    (hkey : ValidKey key) (hdata : ValidData data) (hidx : db.idxFile.length ≤ ptrMax)
    (hrecord : (indexRecord key db.datFile.length (data.length + 1)).length ≤ idxlenMax) :
    ∃ db', db.storeOver key data = some db' ∧ Keeps db' (Function.update m key (some data)) := by
  have hhead := chainHead_mem_headCells key
  have hi : .slot i ∈ lists (chainHead key) := by
    rw [hl]
    exact List.mem_append_right ys List.mem_cons_self
  have hlt := k.slot_lt hhead hi
  have hkeyi : (L.record i).1 = key := by rw [hrec]
  by_cases hlen : data.length + 1 = db.datlen
  · rw [hon.datlen] at hlen
    have hdatalen : data.length = (L.slot i).data.length := Nat.succ.inj hlen
    have hset := k.holds.writedat hlt hdatalen hdata.nul
    have hshape : ({ L.slot i with data := data } : Slot).shape = (L.slot i).shape := by
      rw [Slot.shape, Slot.shape, hdatalen]
    refine ⟨db.writedat data (.set db.datoff), ?_, _, lists, hon.datoff ▸ hset, ?_, ?_⟩
    · rw [DB.storeOver, if_neg (not_not_intro (hlen.trans hon.datlen.symm))]
    · rw [Layout.slots_length_setSlot, Layout.addr_eq_of_shapes (Layout.shapes_setSlot hlt hshape),
        Layout.field_setSlot hlt]
      have hself : Function.update L.field (.slot i) (L.slot i).ptr = L.field :=
        Function.update_eq_self _ _
      rw [hself]
      exact k.dealt
    · rw [Layout.slots_length_setSlot, Layout.record_setSlot hlt]
      have hkeyi' : (L.slot i).key = key := hkeyi
      rw [hkeyi']
      exact k.filed.replace hi hkeyi data
  · obtain ⟨db₁, hdelete, ⟨L₁, lists₁, k₁⟩, hchain₁, hidx₁, hdat₁⟩ := k.dodelete hl hkeyi hon hptroff
    obtain ⟨db₂, hread, h₂, hsame⟩ := k₁.holds.readptr (cells_chainHead L₁ key)
    have k₂ : Kept db₂ L₁ lists₁ (Function.update m key none) := ⟨h₂, k₁.dealt, k₁.filed⟩
    have hchain₁' : db₁.chainoff = L₁.addr (chainHead key) := hchain₁.trans hchain
    have hlengths := k₁.holds.lengths h₂ rfl rfl
    rw [← hchain₁'] at hread
    obtain ⟨db', hrun, h'⟩ := k₂.append (Function.update_self key none m)
      (hsame.chainoff.trans hchain₁') hkey hdata (by rw [hlengths.1, hidx₁]; exact hidx)
      (by rw [hlengths.2, hdat₁]; exact hrecord)
    rw [Function.update_idem] at h'
    refine ⟨db', ?_, h'⟩
    rw [DB.storeOver, if_pos hlen, hdelete, Option.bind_some, hread]
    exact hrun

end Updates
end CLib.Db
