import CLib.Base.Runs
import Mathlib.Data.Finset.Card
import Mathlib.Data.Finset.Dedup
import Mathlib.Data.Int.Order.Basic

namespace CLib.Echo.Select
open CLib.Base

def fdSetSize : ℕ := 1024

/-- The server of `select` at the top of its loop. `opened` are the descriptors that are open in
the system, `reads` those that the last iteration has called `Read` for. -/
structure Server where
  client : ℕ → ℤ
  maxi : ℤ
  maxfd : ℤ
  allset : Finset ℤ
  opened : Finset ℤ
  reads : List ℤ
  exited : Bool

/-- What the system does in an iteration: which descriptors have something to read, what `Accept`
returns if it is called, and for which slots `Read` returns 0. -/
structure Round where
  ready : Finset ℤ
  connfd : ℤ
  eof : ℕ → Bool

namespace Server

def start (listenfd : ℕ) : Server :=
  ⟨fun _ => -1, -1, listenfd, {(listenfd : ℤ)}, {(listenfd : ℤ)}, [], false⟩

/-- `select(maxfd+1, &rset, ...)`: what it leaves in `rset`. -/
def select (s : Server) (ready : Finset ℤ) : Finset ℤ :=
  s.allset.filter fun fd => fd ≤ s.maxfd ∧ fd ∈ ready

def freeSlot (s : Server) : Option ℕ := (List.range fdSetSize).find? fun i => s.client i < 0

/-- A new connection. Without a slot for it the server exits. -/
def accept (s : Server) (connfd : ℤ) : Server :=
  match s.freeSlot with
  | none => { s with opened := insert connfd s.opened, reads := [], exited := true }
  | some i =>
    { s with
      client := Function.update s.client i connfd
      maxi := max s.maxi i
      maxfd := max s.maxfd connfd
      allset := insert connfd s.allset
      opened := insert connfd s.opened
      reads := [] }

/-- `Read` on the client of the slot. At the end of its stream the client is closed. -/
def read (s : Server) (i : ℕ) (eof : Bool) : Server :=
  if eof then
    { s with
      client := Function.update s.client i (-1)
      allset := s.allset.erase (s.client i)
      opened := s.opened.erase (s.client i)
      reads := s.reads ++ [s.client i] }
  else { s with reads := s.reads ++ [s.client i] }

/-- The loop over the slots, with `nready` counting down. -/
def serve (rset : Finset ℤ) (eof : ℕ → Bool) : List ℕ → ℤ → Server → Server
  | [], _, s => s
  | i :: is, nready, s =>
    if s.client i < 0 then serve rset eof is nready s
    else if s.client i ∈ rset then
      if nready - 1 = 0 then s.read i (eof i) else serve rset eof is (nready - 1) (s.read i (eof i))
    else serve rset eof is nready s

def slots (s : Server) : List ℕ := List.range (s.maxi + 1).toNat

/-- An iteration of the server. It waits until a descriptor is ready; `Accept` returns a
descriptor below `FD_SETSIZE` that is not open. -/
def iterate (listenfd : ℕ) (s : Server) (r : Round) : Option Server :=
  let rset := s.select r.ready
  let nready : ℤ := rset.card
  if s.exited ∨ rset = ∅ then none
  else if (listenfd : ℤ) ∈ rset then
    if 0 ≤ r.connfd ∧ r.connfd < fdSetSize ∧ r.connfd ∉ s.opened then
      let s := s.accept r.connfd
      if s.exited ∨ nready - 1 = 0 then some s else some (serve rset r.eof s.slots (nready - 1) s)
    else none
  else some (serve rset r.eof s.slots nready { s with reads := [] })

def Connected (s : Server) (fd : ℤ) : Prop := 0 ≤ fd ∧ ∃ i < fdSetSize, s.client i = fd

/-- The table, the set and the two bounds agree. -/
structure Consistent (listenfd : ℕ) (s : Server) : Prop where
  allset : ∀ fd, fd ∈ s.allset ↔ fd = listenfd ∨ s.Connected fd
  distinct : ∀ i < fdSetSize, ∀ j < fdSetSize, 0 ≤ s.client i → s.client i = s.client j → i = j
  le_maxi : ∀ i < fdSetSize, 0 ≤ s.client i → i ≤ s.maxi
  le_maxfd : ∀ i < fdSetSize, 0 ≤ s.client i → s.client i ≤ s.maxfd

/-- In the iteration from `s` to `t` every client that `select` has reported is read once, and
nothing else. -/
def ServesReported (s : Server) (r : Round) (t : Server) : Prop :=
  t.reads.Nodup ∧ ∀ fd, fd ∈ t.reads ↔ s.Connected fd ∧ fd ∈ s.select r.ready

/-- The client of the slot is reported. -/
def Due (rset : Finset ℤ) (s : Server) (i : ℕ) : Prop := 0 ≤ s.client i ∧ s.client i ∈ rset

instance (rset : Finset ℤ) (s : Server) : DecidablePred (Due rset s) := fun i =>
  inferInstanceAs (Decidable (0 ≤ s.client i ∧ s.client i ∈ rset))

/-- The loop has read from the reported clients of the slots `is`, and closed those of them that
have come to an end. -/
structure Served (rset : Finset ℤ) (eof : ℕ → Bool) (is : List ℕ) (s t : Server) : Prop where
  client : ∀ j, t.client j = if j ∈ is ∧ s.Due rset j ∧ eof j = true then -1 else s.client j
  allset : ∀ fd, fd ∈ t.allset ↔
    fd ∈ s.allset ∧ ∀ j ∈ is, s.Due rset j → eof j = true → s.client j ≠ fd
  opened : ∀ fd, fd ∈ t.opened ↔
    fd ∈ s.opened ∧ ∀ j ∈ is, s.Due rset j → eof j = true → s.client j ≠ fd
  reads : t.reads = s.reads ++ (is.filter fun i => s.Due rset i).map s.client
  maxi : t.maxi = s.maxi
  maxfd : t.maxfd = s.maxfd
  exited : t.exited = s.exited

section Serve
variable {rset : Finset ℤ} {eof : ℕ → Bool} {i : ℕ} {is : List ℕ} {s t : Server} {nready : ℤ}

theorem served_of_not_due (h : ∀ j ∈ is, ¬ s.Due rset j) : Served rset eof is s s where
  client := fun j => by
    rw [if_neg]
    exact fun hj => h j hj.1 hj.2.1
  allset := fun fd => by
    simp only [iff_self_and]
    exact fun _ j hj hdue => absurd hdue (h j hj)
  opened := fun fd => by
    simp only [iff_self_and]
    exact fun _ j hj hdue => absurd hdue (h j hj)
  reads := by
    rw [List.filter_eq_nil_iff.mpr (by simpa using h), List.map_nil, List.append_nil]
  maxi := rfl
  maxfd := rfl
  exited := rfl

theorem Served.skip (h : Served rset eof is s t) (hi : ¬ s.Due rset i) :
    Served rset eof (i :: is) s t where
  client := fun j => by
    rw [h.client]
    refine if_congr ?_ rfl rfl
    rw [List.mem_cons]
    constructor
    · exact fun hj => ⟨.inr hj.1, hj.2⟩
    · rintro ⟨rfl | hj, hdue, heof⟩
      · exact absurd hdue hi
      · exact ⟨hj, hdue, heof⟩
  allset := fun fd => by
    rw [h.allset, List.forall_mem_cons]
    simp [hi]
  opened := fun fd => by
    rw [h.opened, List.forall_mem_cons]
    simp [hi]
  reads := by
    rw [h.reads, List.filter_cons_of_neg (by simpa using hi)]
  maxi := h.maxi
  maxfd := h.maxfd
  exited := h.exited

theorem read_client (s : Server) (i : ℕ) (b : Bool) (j : ℕ) :
    (s.read i b).client j = if j = i ∧ b = true then -1 else s.client j := by
  unfold read
  by_cases hj : j = i
  · cases b <;> simp [hj]
  · cases b <;> simp [hj]

theorem mem_read_allset (s : Server) (i : ℕ) (b : Bool) (fd : ℤ) :
    fd ∈ (s.read i b).allset ↔ fd ∈ s.allset ∧ (b = true → s.client i ≠ fd) := by
  unfold read
  cases b
  · simp
  · simp [and_comm, eq_comm]

theorem mem_read_opened (s : Server) (i : ℕ) (b : Bool) (fd : ℤ) :
    fd ∈ (s.read i b).opened ↔ fd ∈ s.opened ∧ (b = true → s.client i ≠ fd) := by
  unfold read
  cases b
  · simp
  · simp [and_comm, eq_comm]

theorem read_reads (s : Server) (i : ℕ) (b : Bool) :
    (s.read i b).reads = s.reads ++ [s.client i] := by
  cases b <;> rfl

theorem due_read_iff {j : ℕ} (hj : j ≠ i) (b : Bool) :
    (s.read i b).Due rset j ↔ s.Due rset j := by
  have hclient : (s.read i b).client j = s.client j := by
    rw [read_client, if_neg fun h => hj h.1]
  rw [Due, Due, hclient]

theorem Served.read (h : Served rset eof is (s.read i (eof i)) t) (hi : s.Due rset i)
    (hmem : i ∉ is) : Served rset eof (i :: is) s t := by
  have hne : ∀ j ∈ is, j ≠ i := fun j hj he => hmem (he ▸ hj)
  have hclient : ∀ j ∈ is, (s.read i (eof i)).client j = s.client j := fun j hj => by
    rw [read_client, if_neg fun h => hne j hj h.1]
  have hdue : ∀ j ∈ is, ((s.read i (eof i)).Due rset j ↔ s.Due rset j) := fun j hj =>
    due_read_iff (hne j hj) (eof i)
  have hothers : ∀ fd, (∀ j ∈ is, (s.read i (eof i)).Due rset j → eof j = true →
      (s.read i (eof i)).client j ≠ fd) ↔ ∀ j ∈ is, s.Due rset j → eof j = true → s.client j ≠ fd :=
    fun fd => forall₂_congr fun j hj => by rw [hdue j hj, hclient j hj]
  refine ⟨fun j => ?_, fun fd => ?_, fun fd => ?_, ?_, ?_, ?_, ?_⟩
  · rw [h.client]
    by_cases hj : j = i
    · subst hj
      simp [hmem, read_client, hi]
    · by_cases hjs : j ∈ is
      · simp [hjs, hdue j hjs, hclient j hjs]
      · simp [hjs, hj, read_client]
  · rw [h.allset, mem_read_allset, hothers, List.forall_mem_cons, and_assoc]
    simp [hi]
  · rw [h.opened, mem_read_opened, hothers, List.forall_mem_cons, and_assoc]
    simp [hi]
  · have hfilter : (is.filter fun j => (s.read i (eof i)).Due rset j) =
        is.filter fun j => s.Due rset j :=
      List.filter_congr fun j hj => by simp only [hdue j hj]
    have hmap : (is.filter fun j => s.Due rset j).map (s.read i (eof i)).client =
        (is.filter fun j => s.Due rset j).map s.client :=
      List.map_congr_left fun j hj => hclient j (List.mem_filter.mp hj).1
    rw [h.reads, read_reads, hfilter, hmap, List.filter_cons_of_pos (by simpa using hi),
      List.map_cons, List.append_assoc]
    rfl
  · rw [h.maxi]
    cases eof i <;> rfl
  · rw [h.maxfd]
    cases eof i <;> rfl
  · rw [h.exited]
    cases eof i <;> rfl

/-- The loop gets to every reported client: it leaves early only when `nready` says that there
are no more. -/
theorem served_serve (hnodup : is.Nodup)
    (hready : nready = (is.filter fun i => s.Due rset i).length) :
    Served rset eof is s (serve rset eof is nready s) := by
  induction is generalizing s nready with
  | nil => exact served_of_not_due (by simp)
  | cons i is ih =>
    obtain ⟨hmem, hnodup⟩ := List.nodup_cons.mp hnodup
    by_cases hdue : s.Due rset i
    · have hfilter : (is.filter fun j => (s.read i (eof i)).Due rset j) =
          is.filter fun j => s.Due rset j :=
        List.filter_congr fun j hj => by
          simp only [due_read_iff (fun he => hmem (he ▸ hj) : j ≠ i)]
      rw [List.filter_cons_of_pos (by simpa using hdue), List.length_cons] at hready
      have hrest : nready - 1 = (is.filter fun j => (s.read i (eof i)).Due rset j).length := by
        rw [hfilter]
        omega
      rw [serve, if_neg (Int.not_lt.mpr hdue.1), if_pos hdue.2]
      split_ifs with hzero
      · -- No more clients have been reported.
        refine Served.read (served_of_not_due fun j hj hdue' => ?_) hdue hmem
        have hnil : (is.filter fun j => (s.read i (eof i)).Due rset j) = [] := by
          rw [← List.length_eq_zero_iff]
          omega
        exact absurd hdue' (by simpa using List.filter_eq_nil_iff.mp hnil j hj)
      · exact (ih hnodup hrest).read hdue hmem
    · rw [List.filter_cons_of_neg (by simpa using hdue)] at hready
      have hserve : serve rset eof (i :: is) nready s = serve rset eof is nready s := by
        rw [serve]
        split_ifs with hneg hin
        · rfl
        · exact absurd ⟨Int.not_lt.mp hneg, hin⟩ hdue
        · exact absurd ⟨Int.not_lt.mp hneg, hin⟩ hdue
        · rfl
      rw [hserve]
      exact (ih hnodup hready).skip hdue

end Serve

/-- What holds at the top of the loop. -/
structure Invariant (listenfd : ℕ) (s : Server) : Prop extends s.Consistent listenfd where
  opened : s.opened = s.allset
  listenfd_le : listenfd ≤ s.maxfd
  client_ne : ∀ i < fdSetSize, s.client i ≠ listenfd
  client_lt : ∀ i < fdSetSize, s.client i < fdSetSize
  maxi_lt : s.maxi < fdSetSize
  running : s.exited = false

section Invariant
variable {listenfd : ℕ} {s t : Server} {connfd : ℤ} {rset : Finset ℤ} {eof : ℕ → Bool} {nready : ℤ}

theorem invariant_start (listenfd : ℕ) : Invariant listenfd (start listenfd) where
  allset := fun fd => by
    simp only [start, Finset.mem_singleton, Connected, iff_self_or]
    rintro ⟨hfd, i, -, rfl⟩
    omega
  distinct := fun i _ j _ h => by simp [start] at h
  le_maxi := fun i _ h => by simp [start] at h
  le_maxfd := fun i _ h => by simp [start] at h
  opened := rfl
  listenfd_le := Int.le_refl _
  client_ne := fun i _ => by
    show (-1 : ℤ) ≠ listenfd
    omega
  client_lt := fun i _ => by
    show (-1 : ℤ) < fdSetSize
    decide
  maxi_lt := by
    show (-1 : ℤ) < fdSetSize
    decide
  running := rfl

section FreeSlot
variable {i : ℕ}

theorem lt_and_neg_of_freeSlot (h : s.freeSlot = some i) : i < fdSetSize ∧ s.client i < 0 := by
  have hmem := List.mem_of_find?_eq_some h
  have hfree := List.find?_some h
  exact ⟨List.mem_range.mp hmem, of_decide_eq_true hfree⟩

theorem accept_of_freeSlot (h : s.freeSlot = some i) (connfd : ℤ) :
    s.accept connfd =
      ⟨Function.update s.client i connfd, max s.maxi i, max s.maxfd connfd, insert connfd s.allset,
        insert connfd s.opened, [], s.exited⟩ := by
  unfold accept
  split
  · next hnone => cases hnone.symm.trans h
  · next j hj =>
    obtain rfl : j = i := Option.some.inj (hj.symm.trans h)
    rfl

theorem accept_client (h : s.freeSlot = some i) (connfd : ℤ) (j : ℕ) :
    (s.accept connfd).client j = if j = i then connfd else s.client j := by
  rw [accept_of_freeSlot h]
  exact Function.update_apply ..

theorem connected_accept_iff (h : s.freeSlot = some i) (h0 : 0 ≤ connfd) (fd : ℤ) :
    (s.accept connfd).Connected fd ↔ fd = connfd ∨ s.Connected fd := by
  obtain ⟨hi, hfree⟩ := lt_and_neg_of_freeSlot h
  constructor
  · rintro ⟨hfd, j, hj, hclient⟩
    rw [accept_client h] at hclient
    split_ifs at hclient with hji
    · exact .inl hclient.symm
    · exact .inr ⟨hfd, j, hj, hclient⟩
  · rintro (rfl | ⟨hfd, j, hj, hclient⟩)
    · exact ⟨h0, i, hi, by rw [accept_client h, if_pos rfl]⟩
    · have hji : j ≠ i := by
        rintro rfl
        omega
      exact ⟨hfd, j, hj, by rw [accept_client h, if_neg hji, hclient]⟩

end FreeSlot

/-- There are fewer descriptors than slots: the new one and the clients are all below
`FD_SETSIZE`. -/
theorem Invariant.exists_freeSlot (h : Invariant listenfd s) (h0 : 0 ≤ connfd)
    (hlt : connfd < fdSetSize) (hnew : connfd ∉ s.opened) : ∃ i, s.freeSlot = some i := by
  by_contra hnone
  rw [← Option.isSome_iff_exists, Option.not_isSome_iff_eq_none] at hnone
  have hfull : ∀ i < fdSetSize, 0 ≤ s.client i := by
    intro i hi
    have hno := List.find?_eq_none.mp hnone i (List.mem_range.mpr hi)
    simpa using hno
  have hcard : (Finset.range fdSetSize).card ≤
      ((Finset.range fdSetSize).erase connfd.toNat).card := by
    refine Finset.card_le_card_of_injOn (fun i => (s.client i).toNat) ?_ ?_
    · intro i hi
      have hi : i < fdSetSize := by simpa using hi
      have hclient := h.client_lt i hi
      have hpos := hfull i hi
      have hne : s.client i ≠ connfd := by
        intro he
        refine hnew ?_
        rw [h.opened, h.allset]
        exact .inr ⟨h0, i, hi, he⟩
      simp only [Finset.coe_erase, Finset.coe_range, Set.mem_sdiff, Set.mem_Iio,
        Set.mem_singleton_iff]
      omega
    · intro i hi j hj he
      have hi : i < fdSetSize := by simpa using hi
      have hj : j < fdSetSize := by simpa using hj
      have hposi := hfull i hi
      have hposj := hfull j hj
      refine h.distinct i hi j hj hposi ?_
      have he : (s.client i).toNat = (s.client j).toNat := he
      omega
  rw [Finset.card_erase_of_mem (by rw [Finset.mem_range]; omega), Finset.card_range] at hcard
  unfold fdSetSize at hcard
  omega

/-- A new connection keeps the invariant. -/
theorem Invariant.accept (h : Invariant listenfd s) (h0 : 0 ≤ connfd) (hlt : connfd < fdSetSize)
    (hnew : connfd ∉ s.opened) : Invariant listenfd (s.accept connfd) := by
  obtain ⟨i, hslot⟩ := h.exists_freeSlot h0 hlt hnew
  obtain ⟨hi, hfree⟩ := lt_and_neg_of_freeSlot hslot
  have haccept := accept_of_freeSlot hslot connfd
  have hclient := accept_client hslot connfd
  have hnew' : connfd ∉ s.allset := h.opened ▸ hnew
  -- No client has the new descriptor.
  have hfresh : ∀ j < fdSetSize, s.client j ≠ connfd := fun j hj he =>
    hnew' ((h.allset connfd).mpr (.inr ⟨h0, j, hj, he⟩))
  refine ⟨⟨fun fd => ?_, fun j hj k hk hpos he => ?_, fun j hj hpos => ?_, fun j hj hpos => ?_⟩,
    ?_, ?_, fun j hj => ?_, fun j hj => ?_, ?_, ?_⟩
  · rw [connected_accept_iff hslot h0, haccept, Finset.mem_insert, h.allset]
    exact or_left_comm
  · rw [hclient] at hpos
    rw [hclient, hclient] at he
    split_ifs at hpos he with hji hki hki
    · rw [hji, hki]
    · exact absurd he.symm (hfresh k hk)
    · exact absurd he (hfresh j hj)
    · exact h.distinct j hj k hk hpos he
  · rw [hclient] at hpos
    rw [haccept]
    split_ifs at hpos with hji
    · rw [hji]
      exact le_max_right ..
    · exact (h.le_maxi j hj hpos).trans (le_max_left ..)
  · rw [hclient] at hpos ⊢
    rw [haccept]
    split_ifs at hpos ⊢ with hji
    · exact le_max_right ..
    · exact (h.le_maxfd j hj hpos).trans (le_max_left ..)
  · rw [haccept, h.opened]
  · rw [haccept]
    exact h.listenfd_le.trans (le_max_left ..)
  · rw [hclient]
    split_ifs with hji
    · exact fun he => hnew' (he ▸ (h.allset listenfd).mpr (.inl rfl))
    · exact h.client_ne j hj
  · rw [hclient]
    split_ifs with hji
    · exact hlt
    · exact h.client_lt j hj
  · rw [haccept]
    exact max_lt h.maxi_lt (by exact_mod_cast hi)
  · rw [haccept]
    exact h.running

theorem Invariant.allset_subset_accept (h : Invariant listenfd s) (h0 : 0 ≤ connfd)
    (hlt : connfd < fdSetSize) (hnew : connfd ∉ s.opened) :
    s.allset ⊆ (s.accept connfd).allset := by
  obtain ⟨i, hslot⟩ := h.exists_freeSlot h0 hlt hnew
  rw [accept_of_freeSlot hslot]
  exact Finset.subset_insert ..

theorem accept_reads (s : Server) (connfd : ℤ) : (s.accept connfd).reads = [] := by
  unfold accept
  split <;> rfl

theorem Invariant.lt_of_mem_slots (h : Invariant listenfd s) {i : ℕ} (hi : i ∈ s.slots) :
    i < fdSetSize := by
  have hlt := h.maxi_lt
  have hi := List.mem_range.mp hi
  omega

theorem Invariant.mem_due (h : Invariant listenfd s) (hsub : rset ⊆ s.allset) (fd : ℤ) :
    fd ∈ (s.slots.filter fun i => s.Due rset i).map s.client ↔ fd ∈ rset.erase listenfd := by
  simp only [List.mem_map, List.mem_filter, decide_eq_true_iff, Finset.mem_erase]
  constructor
  · rintro ⟨i, ⟨hi, -, hmem⟩, rfl⟩
    exact ⟨h.client_ne i (h.lt_of_mem_slots hi), hmem⟩
  · rintro ⟨hne, hmem⟩
    rcases (h.allset fd).mp (hsub hmem) with rfl | ⟨hfd, i, hi, rfl⟩
    · exact absurd rfl hne
    · have hle := h.le_maxi i hi hfd
      exact ⟨i, ⟨List.mem_range.mpr (by omega), hfd, hmem⟩, rfl⟩

theorem Invariant.nodup_due (h : Invariant listenfd s) (rset : Finset ℤ) :
    ((s.slots.filter fun i => s.Due rset i).map s.client).Nodup := by
  refine List.Nodup.map_on ?_ (List.nodup_range.filter _)
  intro i hi j hj he
  obtain ⟨his, hdue⟩ := List.mem_filter.mp hi
  obtain ⟨hjs, -⟩ := List.mem_filter.mp hj
  exact h.distinct i (h.lt_of_mem_slots his) j (h.lt_of_mem_slots hjs)
    (of_decide_eq_true hdue).1 he

theorem Invariant.card_due (h : Invariant listenfd s) (hsub : rset ⊆ s.allset) :
    (rset.erase listenfd).card = (s.slots.filter fun i => s.Due rset i).length := by
  have hfinset : rset.erase (listenfd : ℤ) =
      ((s.slots.filter fun i => s.Due rset i).map s.client).toFinset := by
    ext fd
    rw [List.mem_toFinset, h.mem_due hsub]
  rw [hfinset, List.toFinset_card_of_nodup (h.nodup_due rset), List.length_map]

/-- The loop over the slots keeps the table and the set in step: what it takes out of one it
takes out of the other. -/
theorem Invariant.served (h : Invariant listenfd s) (ht : Served rset eof s.slots s t) :
    Invariant listenfd t := by
  have hkept : ∀ j, 0 ≤ t.client j →
      t.client j = s.client j ∧ ¬ (j ∈ s.slots ∧ s.Due rset j ∧ eof j = true) := by
    intro j hpos
    have hclient := ht.client j
    split_ifs at hclient with hj
    · omega
    · exact ⟨hclient, hj⟩
  refine ⟨⟨fun fd => ?_, fun i hi j hj hpos he => ?_, fun i hi hpos => ?_, fun i hi hpos => ?_⟩,
    ?_, ?_, fun i hi => ?_, fun i hi => ?_, ?_, ?_⟩
  · rw [ht.allset, h.allset]
    constructor
    · rintro ⟨rfl | ⟨hfd, i, hi, rfl⟩, hopen⟩
      · exact .inl rfl
      · refine .inr ⟨hfd, i, hi, ?_⟩
        rw [ht.client, if_neg]
        rintro ⟨his, hdue, heof⟩
        exact hopen i his hdue heof rfl
    · rintro (rfl | ⟨hfd, i, hi, rfl⟩)
      · exact ⟨.inl rfl, fun j hj _ _ => h.client_ne j (h.lt_of_mem_slots hj)⟩
      · obtain ⟨hsame, hopen⟩ := hkept i hfd
        rw [hsame] at hfd ⊢
        refine ⟨.inr ⟨hfd, i, hi, rfl⟩, fun j hj hdue heof he => hopen ?_⟩
        obtain rfl := h.distinct j (h.lt_of_mem_slots hj) i hi hdue.1 he
        exact ⟨hj, hdue, heof⟩
  · obtain ⟨hi', -⟩ := hkept i hpos
    obtain ⟨hj', -⟩ := hkept j (he ▸ hpos)
    rw [hi'] at he hpos
    rw [hj'] at he
    exact h.distinct i hi j hj hpos he
  · obtain ⟨hi', -⟩ := hkept i hpos
    rw [hi'] at hpos
    rw [ht.maxi]
    exact h.le_maxi i hi hpos
  · obtain ⟨hi', -⟩ := hkept i hpos
    rw [hi'] at hpos ⊢
    rw [ht.maxfd]
    exact h.le_maxfd i hi hpos
  · ext fd
    rw [ht.opened, ht.allset, h.opened]
  · rw [ht.maxfd]
    exact h.listenfd_le
  · have hne := h.client_ne i hi
    rw [ht.client]
    split_ifs <;> omega
  · have hlt := h.client_lt i hi
    rw [ht.client]
    split_ifs <;> omega
  · rw [ht.maxi]
    exact h.maxi_lt
  · rw [ht.exited]
    exact h.running

theorem Invariant.reads_of_served (h : Invariant listenfd s) (hsub : rset ⊆ s.allset)
    (ht : Served rset eof s.slots s t) (hreads : s.reads = []) :
    t.reads.Nodup ∧ ∀ fd, fd ∈ t.reads ↔ fd ∈ rset.erase listenfd := by
  rw [ht.reads, hreads, List.nil_append]
  exact ⟨h.nodup_due rset, h.mem_due hsub⟩

theorem Invariant.connected_iff (h : Invariant listenfd s) (hsub : rset ⊆ s.allset) (fd : ℤ) :
    fd ∈ rset.erase listenfd ↔ s.Connected fd ∧ fd ∈ rset := by
  rw [Finset.mem_erase]
  refine and_congr_left fun hmem => ⟨fun hne => ?_, ?_⟩
  · exact ((h.allset fd).mp (hsub hmem)).resolve_left hne
  · rintro ⟨-, i, hi, rfl⟩
    exact h.client_ne i hi

theorem select_subset (s : Server) (ready : Finset ℤ) : s.select ready ⊆ s.allset :=
  Finset.filter_subset _ _

/-- The step lemma: an iteration keeps the invariant and serves the reported clients. -/
theorem Invariant.iterate {r : Round} (h : Invariant listenfd s) (ht : iterate listenfd s r = some t) :
    Invariant listenfd t ∧ ServesReported s r t := by
  have hsub := select_subset s r.ready
  unfold Server.iterate at ht
  dsimp only at ht
  split_ifs at ht with hblocked hlisten hnew hend
  · -- Only the listening socket was ready.
    obtain rfl : s.accept r.connfd = t := Option.some.inj ht
    have haccept := h.accept hnew.1 hnew.2.1 hnew.2.2
    have hreads := accept_reads s r.connfd
    refine ⟨haccept, by simp [hreads], fun fd => ?_⟩
    have hone := hend.resolve_left (by simp [haccept.running])
    have hcard := Finset.card_erase_of_mem hlisten
    have hnil : (s.select r.ready).erase (listenfd : ℤ) = ∅ := by
      rw [← Finset.card_eq_zero]
      omega
    rw [← h.connected_iff hsub, hnil, hreads]
    simp
  · have haccept := h.accept hnew.1 hnew.2.1 hnew.2.2
    have hreads := accept_reads s r.connfd
    have hsub' := hsub.trans (h.allset_subset_accept hnew.1 hnew.2.1 hnew.2.2)
    have hready : ((s.select r.ready).card : ℤ) - 1 =
        ((s.accept r.connfd).slots.filter fun i => (s.accept r.connfd).Due (s.select r.ready) i).length := by
      have hpos := Finset.card_pos.mpr ⟨_, hlisten⟩
      have hcard := Finset.card_erase_of_mem hlisten
      rw [← haccept.card_due hsub']
      omega
    have hserved : Served (s.select r.ready) r.eof (s.accept r.connfd).slots (s.accept r.connfd) _ :=
      served_serve List.nodup_range hready
    obtain rfl := Option.some.inj ht
    obtain ⟨hnodup, hmem⟩ := haccept.reads_of_served hsub' hserved hreads
    exact ⟨haccept.served hserved, hnodup, fun fd => (hmem fd).trans (h.connected_iff hsub fd)⟩
  · -- No new connection.
    have hclear : Invariant listenfd { s with reads := [] } :=
      ⟨⟨h.allset, h.distinct, h.le_maxi, h.le_maxfd⟩, h.opened, h.listenfd_le, h.client_ne,
        h.client_lt, h.maxi_lt, h.running⟩
    have hready : ((s.select r.ready).card : ℤ) =
        (s.slots.filter fun i => s.Due (s.select r.ready) i).length := by
      rw [← h.card_due hsub, Finset.erase_eq_of_notMem hlisten]
    have hserved : Served (s.select r.ready) r.eof s.slots { s with reads := [] } _ :=
      served_serve List.nodup_range hready
    obtain rfl := Option.some.inj ht
    obtain ⟨hnodup, hmem⟩ := hclear.reads_of_served hsub hserved rfl
    exact ⟨hclear.served hserved, hnodup, fun fd => (hmem fd).trans (h.connected_iff hsub fd)⟩

end Invariant

/-- At the top of every iteration the table, the set and the bounds agree, nothing is open that is
not in the set, and every iteration reads once from each client that `select` has reported, and
from no other. -/
theorem consistent_and_servesReported {listenfd : ℕ} {s : Server}
    (hs : Reachable (iterate listenfd) (start listenfd) s) :
    Consistent listenfd s ∧ s.opened = s.allset ∧
      ∀ r t, iterate listenfd s r = some t → ServesReported s r t := by
  have h : Invariant listenfd s :=
    hs.invariant (invariant_start listenfd) fun _ _ _ h ht => (h.iterate ht).1
  exact ⟨h.toConsistent, h.opened, fun r t ht => (h.iterate ht).2⟩

theorem iterate_first :
    iterate 3 (start 3) ⟨{3}, 4, fun _ => false⟩ = some ((start 3).accept 4) := by
  have hselect : (start 3).select {3} = {3} := by decide
  unfold iterate
  dsimp only
  rw [hselect, if_neg (by decide), if_pos (by decide), if_pos (by decide), if_pos (.inr (by decide))]

/-- The client sends something, and closes the connection. -/
def lastRounds : Round × Round := (⟨{4}, 0, fun _ => false⟩, ⟨{4}, 0, fun _ => true⟩)

theorem iterate_last : ((iterate 3 ((start 3).accept 4) lastRounds.1).bind fun t =>
    (iterate 3 t lastRounds.2).map fun u => (t.reads, u.reads, u.allset)) =
      some ([4], [4], {3}) := by decide +kernel

theorem consistent_and_servesReported_close :
    ∃ t u, iterate 3 ((start 3).accept 4) lastRounds.1 = some t ∧ iterate 3 t lastRounds.2 = some u ∧
      t.reads = [4] ∧ u.allset = {3} ∧ ServesReported ((start 3).accept 4) lastRounds.1 t ∧
      ServesReported t lastRounds.2 u ∧ Consistent 3 u ∧ u.opened = u.allset := by
  obtain ⟨t, ht, hrest⟩ := Option.bind_eq_some_iff.mp iterate_last
  obtain ⟨u, hu, hreads⟩ := Option.map_eq_some_iff.mp hrest
  obtain ⟨htreads, -, hallset⟩ : t.reads = [4] ∧ u.reads = [4] ∧ u.allset = {3} := by
    simpa using hreads
  have hs := (Reachable.refl (start 3)).concat iterate_first
  have hlast := consistent_and_servesReported ((hs.concat ht).concat hu)
  exact ⟨t, u, ht, hu, htreads, hallset, (consistent_and_servesReported hs).2.2 _ _ ht,
    (consistent_and_servesReported (hs.concat ht)).2.2 _ _ hu, hlast.1, hlast.2.1⟩

end Server
end CLib.Echo.Select
