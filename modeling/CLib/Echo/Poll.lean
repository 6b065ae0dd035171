import CLib.Base.Runs
import Mathlib.Data.List.Count
import Mathlib.Data.List.Range
import Mathlib.Logic.Function.Basic

namespace CLib.Echo.Poll
open CLib.Base

def openMax : ℕ := 1024

/-- The bits of `events` and `revents`. -/
def pollErr : BitVec 16 := 0x008
def pollHup : BitVec 16 := 0x010
def pollNval : BitVec 16 := 0x020
def pollRdNorm : BitVec 16 := 0x040

structure PollFd where
  fd : ℤ
  events : BitVec 16
  revents : BitVec 16

/-- The server of `poll` at the top of its loop; `reads` are the descriptors that the last
iteration has called `Read` for. -/
structure Server where
  client : ℕ → PollFd
  maxi : ℕ
  reads : List ℤ
  exited : Bool

/-- What `Read` returns: bytes, 0, or an error that is `ECONNRESET` or another one. -/
inductive Answer
  | data
  | closed
  | reset
  | failed
  deriving DecidableEq

/-- What the system does in an iteration: whether `poll` fails, and what it has for the `revents`
of each slot; the descriptor that `Accept` returns if it is called; the answers to `Read`. -/
structure Round where
  fails : Bool
  revents : ℕ → BitVec 16
  connfd : ℤ
  answer : ℕ → Answer

/-- The slot has been reported as readable. -/
def PollFd.Readable (c : PollFd) : Prop := c.revents &&& (pollRdNorm ||| pollErr) ≠ 0

def PollFd.Due (c : PollFd) : Prop := 0 ≤ c.fd ∧ c.Readable

/-- What `poll` writes to a slot. A slot without a descriptor is cleared. -/
def PollFd.poll (c : PollFd) (answer : BitVec 16) : PollFd :=
  if c.fd < 0 then { c with revents := 0 }
  else { c with revents := answer &&& (c.events ||| pollErr ||| pollHup ||| pollNval) }

instance : DecidablePred PollFd.Readable := fun c =>
  inferInstanceAs (Decidable (c.revents &&& (pollRdNorm ||| pollErr) ≠ 0))

instance : DecidablePred PollFd.Due := fun c =>
  inferInstanceAs (Decidable (0 ≤ c.fd ∧ c.Readable))

theorem PollFd.Readable.revents_ne_zero {c : PollFd} (h : c.Readable) : c.revents ≠ 0 := by
  intro he
  apply h
  rw [he]
  rfl

namespace Server

/-- The table before the loop: nothing is written to `revents`. -/
def start (listenfd : ℕ) (events revents : ℕ → BitVec 16) : Server :=
  ⟨fun i => if i = 0 then ⟨listenfd, pollRdNorm, revents 0⟩ else ⟨-1, events i, revents i⟩,
    0, [], false⟩

/-- `poll(client, maxi+1, -1)`. If it fails, any `revents` may be left in the slots passed to it. -/
def poll (s : Server) (r : Round) : Server :=
  { s with
    client := fun i =>
      if i ≤ s.maxi then
        if r.fails then { s.client i with revents := r.revents i }
        else (s.client i).poll (r.revents i)
      else s.client i
    reads := [] }

/-- The slots of the clients, `for (i = 1; i <= maxi; i++)`. -/
def slots (s : Server) : List ℕ := List.range' 1 s.maxi

/-- What `poll` returns, when it has left the table `s`. -/
def nready (s : Server) (r : Round) : ℤ :=
  if r.fails then -1 else (0 :: s.slots).countP fun i => (s.client i).revents ≠ 0

def freeSlot (s : Server) : Option ℕ :=
  (List.range' 1 (openMax - 1)).find? fun i => (s.client i).fd < 0

/-- A new connection. Its slot keeps its `revents`; without a slot for it the server exits. -/
def accept (s : Server) (connfd : ℤ) : Server :=
  match s.freeSlot with
  | none => { s with exited := true }
  | some i =>
    { s with
      client := Function.update s.client i ⟨connfd, pollRdNorm, (s.client i).revents⟩
      maxi := max s.maxi i }

def read (s : Server) (i : ℕ) : Answer → Server
  | .data => { s with reads := s.reads ++ [(s.client i).fd] }
  | .closed | .reset =>
    { s with
      client := Function.update s.client i { s.client i with fd := -1 }
      reads := s.reads ++ [(s.client i).fd] }
  | .failed => { s with reads := s.reads ++ [(s.client i).fd], exited := true }

/-- The loop over the slots, with `nready` counting down. -/
def serve (answer : ℕ → Answer) : List ℕ → ℤ → Server → Server
  | [], _, s => s
  | i :: is, nready, s =>
    if (s.client i).fd < 0 then serve answer is nready s
    else if (s.client i).Readable then
      if answer i = .failed ∨ nready - 1 ≤ 0 then s.read i (answer i)
      else serve answer is (nready - 1) (s.read i (answer i))
    else serve answer is nready s

/-- `Accept` returns a descriptor that is not in use. -/
def Fresh (s : Server) (connfd : ℤ) : Prop :=
  0 ≤ connfd ∧ ∀ i < openMax, (s.client i).fd ≠ connfd

instance (s : Server) (connfd : ℤ) : Decidable (s.Fresh connfd) :=
  inferInstanceAs (Decidable (0 ≤ connfd ∧ ∀ i < openMax, (s.client i).fd ≠ connfd))

/-- There is a connection to be taken. -/
def Listens (s : Server) : Prop := (s.client 0).revents &&& pollRdNorm ≠ 0

instance : DecidablePred Listens := fun s =>
  inferInstanceAs (Decidable ((s.client 0).revents &&& pollRdNorm ≠ 0))

/-- An iteration of the server: without a time limit `poll` waits until it has something to
report, or fails. -/
def iterate (s : Server) (r : Round) : Option Server :=
  let t := s.poll r
  let nready := t.nready r
  if s.exited ∨ nready = 0 then none
  else if t.Listens then
    if s.Fresh r.connfd then
      let t := t.accept r.connfd
      if t.exited ∨ nready - 1 ≤ 0 then some t else some (serve r.answer t.slots (nready - 1) t)
    else none
  else some (serve r.answer t.slots nready t)

/-- The descriptor was passed to the `poll` of the round, which has reported it as readable. -/
def Reported (s : Server) (r : Round) (fd : ℤ) : Prop :=
  r.fails = false ∧ ∃ i ≤ s.maxi, (s.client i).fd = fd ∧ ((s.poll r).client i).Readable

/-- The iteration from `s` to `t` has read only from descriptors that its `poll` has reported. -/
def ReadsReported (s : Server) (r : Round) (t : Server) : Prop := ∀ fd ∈ t.reads, s.Reported r fd

/-- What stands in the table after `poll` does no harm. Where it has failed, that is when no
client's slot says that it is readable, or the listening socket's slot does. Where it has
reported a connection for which there is no slot among those passed to it, each client that it has
reported is readable, or the next slot says that it is not, or there is no such slot, or a
client before it is read from with an error that ends the server. -/
def Harmless (s : Server) (r : Round) : Prop :=
  let t := s.poll r
  if r.fails then t.Listens ∨ ∀ i ∈ s.slots, ¬ (t.client i).Due
  else t.Listens → (∀ i ∈ s.slots, 0 ≤ (s.client i).fd) →
    (∀ i ∈ s.slots, (t.client i).revents ≠ 0 → (t.client i).Readable) ∨
      ¬ (s.client (s.maxi + 1)).Readable ∨ s.maxi + 1 = openMax ∨
      ∃ i ∈ s.slots, (t.client i).Readable ∧ r.answer i = .failed

section Poll
variable {s : Server} {r : Round} {i : ℕ}

theorem poll_fd (s : Server) (r : Round) (i : ℕ) : ((s.poll r).client i).fd = (s.client i).fd := by
  simp only [poll, PollFd.poll]
  split_ifs <;> rfl

theorem poll_client_of_lt (hi : s.maxi < i) : (s.poll r).client i = s.client i :=
  if_neg (Nat.not_le.mpr hi)

/-- A free slot that was passed to `poll`. -/
theorem not_readable_poll_of_fd_neg (hr : r.fails = false) (hi : i ≤ s.maxi)
    (hfd : (s.client i).fd < 0) : ¬ ((s.poll r).client i).Readable := by
  simp [poll, PollFd.poll, hr, hi, hfd, PollFd.Readable]

theorem mem_slots : i ∈ s.slots ↔ 1 ≤ i ∧ i ≤ s.maxi := by
  rw [slots, List.mem_range'_1]
  omega

theorem nodup_slots (s : Server) : s.slots.Nodup := List.nodup_range' ..

theorem nready_of_fails (hr : r.fails = true) : s.nready r = -1 := if_pos hr

theorem nready_of_listens (hr : r.fails = false) (hs : s.Listens) :
    s.nready r = s.slots.countP (fun i => (s.client i).revents ≠ 0) + 1 := by
  have hzero : (s.client 0).revents ≠ 0 := fun he => hs (by rw [he]; rfl)
  rw [nready, if_neg (by simp [hr]), List.countP_cons_of_pos (by simpa using hzero)]
  push_cast
  rfl

end Poll

section Serve
variable {answer : ℕ → Answer} {i j : ℕ} {is js : List ℕ} {nready : ℤ} {s : Server} {fd : ℤ}

theorem read_client_of_ne (hj : j ≠ i) (a : Answer) : (s.read i a).client j = s.client j := by
  cases a
  · rfl
  · exact Function.update_of_ne hj ..
  · exact Function.update_of_ne hj ..
  · rfl

theorem read_reads (s : Server) (i : ℕ) (a : Answer) :
    (s.read i a).reads = s.reads ++ [(s.client i).fd] := by
  cases a <;> rfl

theorem read_maxi (s : Server) (i : ℕ) (a : Answer) : (s.read i a).maxi = s.maxi := by
  cases a <;> rfl

theorem read_fd_neg (hj : (s.client j).fd < 0) (a : Answer) : ((s.read i a).client j).fd < 0 := by
  by_cases hji : j = i
  · subst hji
    cases a <;> simp [read, hj]
  · rwa [read_client_of_ne hji]

theorem serve_cons_of_due (h : (s.client i).Due) :
    serve answer (i :: is) nready s =
      if answer i = .failed ∨ nready - 1 ≤ 0 then s.read i (answer i)
      else serve answer is (nready - 1) (s.read i (answer i)) := by
  rw [serve, if_neg (Int.not_lt.mpr h.1), if_pos h.2]

theorem serve_cons_of_not_due (h : ¬ (s.client i).Due) :
    serve answer (i :: is) nready s = serve answer is nready s := by
  rw [serve]
  split_ifs with hneg hreadable
  · rfl
  · exact absurd ⟨Int.not_lt.mp hneg, hreadable⟩ h
  · exact absurd ⟨Int.not_lt.mp hneg, hreadable⟩ h
  · rfl

theorem serve_maxi : (serve answer is nready s).maxi = s.maxi := by
  induction is generalizing nready s with
  | nil => rfl
  | cons i is ih =>
    by_cases hdue : (s.client i).Due
    · rw [serve_cons_of_due hdue]
      split_ifs
      · exact read_maxi ..
      · rw [ih, read_maxi]
    · rw [serve_cons_of_not_due hdue, ih]

theorem serve_fd_neg (hj : (s.client j).fd < 0) :
    ((serve answer is nready s).client j).fd < 0 := by
  induction is generalizing nready s with
  | nil => exact hj
  | cons i is ih =>
    by_cases hdue : (s.client i).Due
    · rw [serve_cons_of_due hdue]
      split_ifs
      · exact read_fd_neg hj _
      · exact ih (read_fd_neg hj _)
    · rw [serve_cons_of_not_due hdue]
      exact ih hj

theorem mem_serve_reads (h : fd ∈ s.reads) : fd ∈ (serve answer is nready s).reads := by
  induction is generalizing nready s with
  | nil => exact h
  | cons i is ih =>
    have hread : fd ∈ (s.read i (answer i)).reads := by
      rw [read_reads]
      exact List.mem_append_left _ h
    by_cases hdue : (s.client i).Due
    · rw [serve_cons_of_due hdue]
      split_ifs
      · exact hread
      · exact ih hread
    · rw [serve_cons_of_not_due hdue]
      exact ih h

/-- The loop reads only from clients whose slots said, before it, that they are readable. -/
theorem due_of_mem_serve_reads (hnodup : is.Nodup) (h : fd ∈ (serve answer is nready s).reads) :
    fd ∈ s.reads ∨ ∃ i ∈ is, (s.client i).Due ∧ (s.client i).fd = fd := by
  induction is generalizing nready s with
  | nil => exact .inl h
  | cons i is ih =>
    obtain ⟨hmem, hnodup⟩ := List.nodup_cons.mp hnodup
    by_cases hdue : (s.client i).Due
    · have hself : fd ∈ (s.read i (answer i)).reads → fd ∈ s.reads ∨
          ∃ j ∈ i :: is, (s.client j).Due ∧ (s.client j).fd = fd := by
        intro hfd
        rw [read_reads, List.mem_append, List.mem_singleton] at hfd
        exact hfd.imp_right fun he => ⟨i, List.mem_cons_self, hdue, he.symm⟩
      rw [serve_cons_of_due hdue] at h
      split_ifs at h
      · exact hself h
      · rcases ih hnodup h with hfd | ⟨j, hj, hjdue⟩
        · exact hself hfd
        · have hne : j ≠ i := fun he => hmem (he ▸ hj)
          rw [read_client_of_ne hne] at hjdue
          exact .inr ⟨j, List.mem_cons_of_mem i hj, hjdue⟩
    · rw [serve_cons_of_not_due hdue] at h
      apply (ih hnodup h).imp_right
      rintro ⟨j, hj, hjdue⟩
      exact ⟨j, List.mem_cons_of_mem i hj, hjdue⟩

theorem exists_mem_serve_reads (answer : ℕ → Answer) (nready : ℤ) (hi : i ∈ is)
    (hdue : (s.client i).Due) : ∃ fd, fd ∈ (serve answer is nready s).reads := by
  induction is with
  | nil => cases hi
  | cons j is ih =>
    by_cases hj : (s.client j).Due
    · refine ⟨(s.client j).fd, ?_⟩
      have hread : (s.client j).fd ∈ (s.read j (answer j)).reads := by simp [read_reads]
      rw [serve_cons_of_due hj]
      split_ifs
      · exact hread
      · exact mem_serve_reads hread
    · rw [serve_cons_of_not_due hj]
      refine ih ((List.mem_cons.mp hi).resolve_left ?_)
      rintro rfl
      exact hj hdue

theorem countP_due_read (hmem : i ∉ is) (a : Answer) :
    (is.countP fun j => ((s.read i a).client j).Due) = is.countP fun j => (s.client j).Due := by
  refine List.countP_congr fun j hj => ?_
  have hne : j ≠ i := fun he => hmem (he ▸ hj)
  rw [read_client_of_ne hne]

theorem serve_append (js : List ℕ) (hnodup : is.Nodup)
    (hready : is.countP (fun j => (s.client j).Due) < nready)
    (hanswer : ∀ j ∈ is, (s.client j).Due → answer j ≠ .failed) :
    ∃ t, serve answer (is ++ js) nready s =
        serve answer js (nready - is.countP fun j => (s.client j).Due) t ∧
      ∀ j ∉ is, t.client j = s.client j := by
  induction is generalizing nready s with
  | nil => exact ⟨s, by simp, fun j _ => rfl⟩
  | cons i is ih =>
    obtain ⟨hmem, hnodup⟩ := List.nodup_cons.mp hnodup
    by_cases hdue : (s.client i).Due
    · rw [List.countP_cons_of_pos (by simpa using hdue)] at hready ⊢
      have hcount := countP_due_read (s := s) hmem (answer i)
      have hrest : ∀ j ∈ is, ((s.read i (answer i)).client j).Due → answer j ≠ .failed := by
        intro j hj hjdue
        have hne : j ≠ i := fun he => hmem (he ▸ hj)
        rw [read_client_of_ne hne] at hjdue
        exact hanswer j (List.mem_cons_of_mem i hj) hjdue
      have hready' : is.countP (fun j => ((s.read i (answer i)).client j).Due) < nready - 1 := by
        rw [hcount]
        omega
      obtain ⟨t, ht, hclient⟩ := ih hnodup hready' hrest
      refine ⟨t, ?_, fun j hj => ?_⟩
      · rw [List.cons_append, serve_cons_of_due hdue, if_neg, ht, hcount]
        · congr 1
          omega
        · rintro (hfailed | hend)
          · exact hanswer i List.mem_cons_self hdue hfailed
          · omega
      · rw [List.mem_cons, not_or] at hj
        rw [hclient j hj.2, read_client_of_ne hj.1]
    · rw [List.countP_cons_of_neg (by simpa using hdue)] at hready ⊢
      obtain ⟨t, ht, hclient⟩ := ih hnodup hready fun j hj => hanswer j (List.mem_cons_of_mem i hj)
      refine ⟨t, ?_, fun j hj => hclient j fun hjs => hj (List.mem_cons_of_mem i hjs)⟩
      rw [List.cons_append, serve_cons_of_not_due hdue, ht]

/-- The loop ends where no more events are left, or one of the clients ends the server. -/
theorem serve_append_of_ends (hnodup : is.Nodup) (hpos : 0 < nready)
    (hends : nready ≤ is.countP (fun j => (s.client j).Due) ∨
      ∃ j ∈ is, (s.client j).Due ∧ answer j = .failed) :
    serve answer (is ++ js) nready s = serve answer is nready s := by
  induction is generalizing nready s with
  | nil =>
    rcases hends with hle | ⟨j, hj, -⟩
    · rw [List.countP_nil] at hle
      omega
    · cases hj
  | cons i is ih =>
    obtain ⟨hmem, hnodup⟩ := List.nodup_cons.mp hnodup
    by_cases hdue : (s.client i).Due
    · rw [List.cons_append, serve_cons_of_due hdue, serve_cons_of_due hdue]
      split_ifs with hend
      · rfl
      · rw [not_or] at hend
        rw [List.countP_cons_of_pos (by simpa using hdue)] at hends
        apply ih hnodup (by omega)
        rw [countP_due_read hmem]
        rcases hends with hle | ⟨j, hj, hjdue, hfailed⟩
        · exact .inl (by omega)
        · have hne : j ≠ i := by
            rintro rfl
            exact hend.1 hfailed
          refine .inr ⟨j, (List.mem_cons.mp hj).resolve_left hne, ?_, hfailed⟩
          rwa [read_client_of_ne hne]
    · rw [List.cons_append, serve_cons_of_not_due hdue, serve_cons_of_not_due hdue]
      rw [List.countP_cons_of_neg (by simpa using hdue)] at hends
      refine ih hnodup hpos (hends.imp_right ?_)
      rintro ⟨j, hj, hjdue, hfailed⟩
      refine ⟨j, (List.mem_cons.mp hj).resolve_left ?_, hjdue, hfailed⟩
      rintro rfl
      exact hdue hjdue

end Serve

/-- At the top of the loop the slots beyond `maxi` are free. -/
structure Invariant (s : Server) : Prop where
  free : ∀ i, s.maxi < i → (s.client i).fd < 0
  maxi_lt : s.maxi < openMax

section Accept
variable {s : Server} {r : Round} {connfd : ℤ} {i : ℕ}

theorem freeSlot_eq_some_iff : s.freeSlot = some i ↔
    (s.client i).fd < 0 ∧ (1 ≤ i ∧ i < openMax) ∧ ∀ j, 1 ≤ j → j < i → 0 ≤ (s.client j).fd := by
  rw [freeSlot, List.find?_range'_eq_some]
  simp only [decide_eq_true_eq, List.mem_range'_1, Bool.not_eq_eq_eq_not, Bool.not_true,
    decide_eq_false_iff_not, Int.not_lt]
  unfold openMax
  refine and_congr_right fun _ => and_congr_left fun _ => ?_
  omega

theorem freeSlot_eq_none_iff :
    s.freeSlot = none ↔ ∀ j, 1 ≤ j → j < openMax → 0 ≤ (s.client j).fd := by
  rw [freeSlot, List.find?_eq_none]
  simp only [decide_eq_true_eq, List.mem_range'_1, Int.not_lt, and_imp]
  unfold openMax
  refine forall₂_congr fun j _ => ?_
  rw [show j < 1 + (1024 - 1) ↔ j < 1024 by omega]

theorem accept_of_none (h : s.freeSlot = none) : s.accept connfd = { s with exited := true } := by
  rw [accept, h]

theorem accept_of_some (h : s.freeSlot = some i) (connfd : ℤ) :
    s.accept connfd =
      { s with
        client := Function.update s.client i ⟨connfd, pollRdNorm, (s.client i).revents⟩
        maxi := max s.maxi i } := by
  rw [accept, h]

theorem Invariant.poll (h : Invariant s) (r : Round) : Invariant (s.poll r) where
  free := fun i hi => by
    rw [poll_fd]
    exact h.free i hi
  maxi_lt := h.maxi_lt

theorem Invariant.accept (h : Invariant s) (connfd : ℤ) : Invariant (s.accept connfd) := by
  cases hslot : s.freeSlot with
  | none =>
    rw [accept_of_none hslot]
    exact ⟨h.free, h.maxi_lt⟩
  | some i =>
    obtain ⟨-, hi, -⟩ := freeSlot_eq_some_iff.mp hslot
    rw [accept_of_some hslot]
    refine ⟨fun j hj => ?_, Nat.max_lt.mpr ⟨h.maxi_lt, hi.2⟩⟩
    obtain ⟨hmaxi, hij⟩ := Nat.max_lt.mp hj
    show (Function.update s.client i _ j).fd < 0
    rw [Function.update_of_ne (Nat.ne_of_gt hij)]
    exact h.free j hmaxi

theorem Invariant.serve (h : Invariant s) (answer : ℕ → Answer) (is : List ℕ) (nready : ℤ) :
    Invariant (serve answer is nready s) where
  free := fun i hi => by
    rw [serve_maxi] at hi
    exact serve_fd_neg (h.free i hi)
  maxi_lt := by
    rw [serve_maxi]
    exact h.maxi_lt

theorem invariant_start (listenfd : ℕ) (events revents : ℕ → BitVec 16) :
    Invariant (start listenfd events revents) where
  free := fun i (hi : 0 < i) => by
    simp [start, Nat.ne_of_gt hi]
  maxi_lt := by
    show 0 < openMax
    decide

end Accept

theorem countP_lt_countP {α : Type*} {p q : α → Bool} {l : List α} (h : ∀ x ∈ l, p x → q x)
    (hx : ∃ x ∈ l, q x ∧ p x = false) : l.countP p < l.countP q := by
  have hfilter : (l.filter q).countP p = l.countP p := by
    rw [List.countP_filter]
    refine List.countP_congr fun x hxl => ?_
    simpa using h x hxl
  rw [← hfilter, List.countP_eq_length_filter (p := q), List.countP_lt_length_iff]
  obtain ⟨x, hxl, hqx, hpx⟩ := hx
  exact ⟨x, List.mem_filter.mpr ⟨hxl, hqx⟩, hpx⟩

section Iterate
variable {s t : Server} {r : Round} {i : ℕ}

/-- The step lemma. -/
theorem Invariant.iterate (h : Invariant s) (ht : iterate s r = some t) : Invariant t := by
  have hpoll := h.poll r
  unfold Server.iterate at ht
  dsimp only at ht
  split_ifs at ht
  · obtain rfl := Option.some.inj ht
    exact hpoll.accept _
  · obtain rfl := Option.some.inj ht
    exact (hpoll.accept _).serve ..
  · obtain rfl := Option.some.inj ht
    exact hpoll.serve ..

theorem reported_of_due (hr : r.fails = false) (hi : i ∈ s.slots)
    (hdue : ((s.poll r).client i).Due) : s.Reported r ((s.poll r).client i).fd :=
  ⟨hr, i, (mem_slots.mp hi).2, (poll_fd s r i).symm, hdue.2⟩

theorem iterate_of_listens (hlistens : (s.poll r).Listens) (ht : iterate s r = some t) :
    s.exited = false ∧ s.Fresh r.connfd ∧
      t = if ((s.poll r).accept r.connfd).exited ∨ (s.poll r).nready r - 1 ≤ 0 then
          (s.poll r).accept r.connfd
        else serve r.answer ((s.poll r).accept r.connfd).slots ((s.poll r).nready r - 1)
          ((s.poll r).accept r.connfd) := by
  unfold Server.iterate at ht
  dsimp only at ht
  rw [if_pos hlistens] at ht
  split_ifs at ht with hblocked hfresh hend
  · rw [if_pos hend]
    exact ⟨by simpa using (not_or.mp hblocked).1, hfresh, (Option.some.inj ht).symm⟩
  · rw [if_neg hend]
    exact ⟨by simpa using (not_or.mp hblocked).1, hfresh, (Option.some.inj ht).symm⟩

theorem iterate_of_not_listens (hlistens : ¬ (s.poll r).Listens) (ht : iterate s r = some t) :
    t = serve r.answer s.slots ((s.poll r).nready r) (s.poll r) := by
  unfold Server.iterate at ht
  dsimp only at ht
  rw [if_neg hlistens] at ht
  split_ifs at ht
  exact (Option.some.inj ht).symm

theorem accept_reads (s : Server) (connfd : ℤ) : (s.accept connfd).reads = s.reads := by
  unfold accept
  split <;> rfl

theorem readsReported_iff_of_fails (hr : r.fails = true) (ht : iterate s r = some t) :
    ReadsReported s r t ↔ Harmless s r := by
  have hreads : ReadsReported s r t ↔ t.reads = [] := by
    rw [List.eq_nil_iff_forall_not_mem]
    refine forall_congr' fun fd => imp_congr_right fun _ => ?_
    simp [Reported, hr]
  rw [hreads, Harmless, if_pos hr]
  by_cases hlistens : (s.poll r).Listens
  · obtain ⟨-, -, rfl⟩ := iterate_of_listens hlistens ht
    rw [nready_of_fails hr, if_pos (.inr (by omega)), accept_reads]
    exact iff_of_true rfl (.inl hlistens)
  · obtain rfl := iterate_of_not_listens hlistens ht
    constructor
    · refine fun hnil => .inr fun i hi hdue => ?_
      obtain ⟨fd, hfd⟩ := exists_mem_serve_reads r.answer ((s.poll r).nready r) hi hdue
      exact List.not_mem_nil (hnil ▸ hfd)
    · intro hharmless
      have hnone := hharmless.resolve_left hlistens
      rw [List.eq_nil_iff_forall_not_mem]
      intro fd hfd
      rcases due_of_mem_serve_reads (nodup_slots s) hfd with hfd | ⟨i, hi, hdue, -⟩
      · cases hfd
      · exact hnone i hi hdue

theorem reported_of_mem_serve_reads (hr : r.fails = false) {u : Server} {nready : ℤ} {fd : ℤ}
    (hreads : u.reads = [])
    (hclient : ∀ i ∈ s.slots, (u.client i).Due → u.client i = (s.poll r).client i)
    (h : fd ∈ (serve r.answer s.slots nready u).reads) : s.Reported r fd := by
  rcases due_of_mem_serve_reads (nodup_slots s) h with hfd | ⟨i, hi, hdue, rfl⟩
  · rw [hreads] at hfd
    cases hfd
  · have hsame := hclient i hi hdue
    exact ⟨hr, i, (mem_slots.mp hi).2, by rw [hsame, poll_fd], hsame ▸ hdue.2⟩

theorem readsReported_of_not_listens (hr : r.fails = false) (hlistens : ¬ (s.poll r).Listens)
    (ht : iterate s r = some t) : ReadsReported s r t := by
  obtain rfl := iterate_of_not_listens hlistens ht
  exact fun fd hfd => reported_of_mem_serve_reads hr rfl (fun _ _ _ => rfl) hfd

/-- A connection that goes into a slot passed to `poll` does no harm: the slot has been
cleared. -/
theorem readsReported_of_freeSlot_le (hr : r.fails = false) (hlistens : (s.poll r).Listens)
    (hslot : (s.poll r).freeSlot = some i) (hi : i ≤ s.maxi) (ht : iterate s r = some t) :
    ReadsReported s r t := by
  obtain ⟨-, -, rfl⟩ := iterate_of_listens hlistens ht
  obtain ⟨hfree, -, -⟩ := freeSlot_eq_some_iff.mp hslot
  have haccept := accept_of_some hslot r.connfd
  have hclear : ¬ ((s.poll r).client i).Readable :=
    not_readable_poll_of_fd_neg hr hi (by rwa [poll_fd] at hfree)
  have hslots : ((s.poll r).accept r.connfd).slots = s.slots := by
    rw [haccept]
    show List.range' 1 (max s.maxi i) = List.range' 1 s.maxi
    rw [Nat.max_eq_left hi]
  have hclient : ∀ j ∈ s.slots, (((s.poll r).accept r.connfd).client j).Due →
      ((s.poll r).accept r.connfd).client j = (s.poll r).client j := by
    intro j _ hdue
    rw [haccept] at hdue ⊢
    dsimp only at hdue ⊢
    by_cases hji : j = i
    · rw [hji, Function.update_self] at hdue
      exact absurd hdue.2 hclear
    · exact Function.update_of_ne hji ..
  intro fd hfd
  split_ifs at hfd
  · rw [accept_reads] at hfd
    cases hfd
  · rw [hslots] at hfd
    exact reported_of_mem_serve_reads hr (accept_reads ..) hclient hfd

/-- The loop comes to the new slot if `poll` has reported a client that is not readable. -/
theorem countP_due_lt (h : ¬ ∀ i ∈ s.slots, (s.client i).revents ≠ 0 → (s.client i).Readable) :
    s.slots.countP (fun i => (s.client i).Due) < s.slots.countP fun i => (s.client i).revents ≠ 0 := by
  push Not at h
  obtain ⟨i, hi, hrevents, hreadable⟩ := h
  refine countP_lt_countP (fun j hj hdue => ?_) ⟨i, hi, ?_, ?_⟩
  · exact decide_eq_true (of_decide_eq_true hdue).2.revents_ne_zero
  · exact decide_eq_true hrevents
  · exact decide_eq_false fun hdue => hreadable hdue.2

/-- If all slots passed to `poll` are taken, the connection goes into the next one, which still
has what stood in its `revents`. -/
theorem Invariant.accept_of_full (h : Invariant s) (hfull : ∀ i ∈ s.slots, 0 ≤ (s.client i).fd)
    (hroom : s.maxi + 1 ≠ openMax) (connfd : ℤ) :
    (s.accept connfd).slots = s.slots ++ [s.maxi + 1] ∧
      (s.accept connfd).client (s.maxi + 1) =
        ⟨connfd, pollRdNorm, (s.client (s.maxi + 1)).revents⟩ ∧
      (∀ i ∈ s.slots, (s.accept connfd).client i = s.client i) ∧
      (s.accept connfd).exited = s.exited := by
  have hlt := h.maxi_lt
  have hslot : s.freeSlot = some (s.maxi + 1) := by
    refine freeSlot_eq_some_iff.mpr ⟨h.free _ (by omega), ⟨by omega, by omega⟩, ?_⟩
    exact fun j hj hjlt => hfull j (mem_slots.mpr ⟨hj, by omega⟩)
  rw [accept_of_some hslot]
  refine ⟨?_, Function.update_self .., fun i hi => ?_, rfl⟩
  · show List.range' 1 (max s.maxi (s.maxi + 1)) = List.range' 1 s.maxi ++ [s.maxi + 1]
    rw [Nat.max_eq_right (by omega), List.range'_1_concat, Nat.add_comm 1]
  · have hle := (mem_slots.mp hi).2
    exact Function.update_of_ne (by omega) ..

theorem accept_exited (hfull : ∀ i ∈ s.slots, 0 ≤ (s.client i).fd)
    (hroom : s.maxi + 1 = openMax) (connfd : ℤ) : (s.accept connfd).exited = true := by
  have hslot : s.freeSlot = none := by
    refine freeSlot_eq_none_iff.mpr fun j hj hjlt => ?_
    exact hfull j (mem_slots.mpr ⟨hj, by omega⟩)
  rw [accept_of_none hslot]

/-- The connection has been put into the slot behind those passed to `poll`. -/
structure Extended (s : Server) (r : Round) (u : Server) : Prop where
  slots : u.slots = s.slots ++ [s.maxi + 1]
  fd : (u.client (s.maxi + 1)).fd = r.connfd
  due : (u.client (s.maxi + 1)).Due ↔ (s.client (s.maxi + 1)).Readable
  same : ∀ i ∈ s.slots, u.client i = (s.poll r).client i
  reads : u.reads = []
  exited : u.exited = s.exited

theorem Invariant.extended (h : Invariant s) (hfull : ∀ i ∈ s.slots, 0 ≤ (s.client i).fd)
    (hroom : s.maxi + 1 ≠ openMax) (hconnfd : 0 ≤ r.connfd) :
    Extended s r ((s.poll r).accept r.connfd) := by
  have hfull' : ∀ i ∈ (s.poll r).slots, 0 ≤ ((s.poll r).client i).fd := fun i hi => by
    rw [poll_fd]
    exact hfull i hi
  obtain ⟨hslots, hnew, hsame, hexited⟩ := (h.poll r).accept_of_full hfull' hroom r.connfd
  have hold : (s.poll r).client (s.maxi + 1) = s.client (s.maxi + 1) :=
    poll_client_of_lt (Nat.lt_succ_self _)
  refine ⟨hslots, congrArg PollFd.fd hnew, ?_, hsame, accept_reads .., hexited⟩
  have hdue := congrArg PollFd.Due hnew
  apply (iff_of_eq hdue).trans
  show 0 ≤ r.connfd ∧ ((s.poll r).client (s.maxi + 1)).Readable ↔ _
  rw [hold]
  exact and_iff_right hconnfd

namespace Extended
variable {u : Server} {nready : ℤ}

theorem due_iff (hu : Extended s r u) (hfull : ∀ i ∈ s.slots, 0 ≤ (s.client i).fd) (hi : i ∈ s.slots) :
    (u.client i).Due ↔ ((s.poll r).client i).Readable := by
  rw [hu.same i hi]
  apply and_iff_right
  rw [poll_fd]
  exact hfull i hi

theorem connfd_mem_reads (hu : Extended s r u) (hstale : (s.client (s.maxi + 1)).Readable)
    (hmore : s.slots.countP (fun i => (u.client i).Due) < nready)
    (hanswer : ∀ i ∈ s.slots, (u.client i).Due → r.answer i ≠ .failed) :
    r.connfd ∈ (serve r.answer u.slots nready u).reads := by
  have hnotin : s.maxi + 1 ∉ s.slots := by
    rw [mem_slots]
    omega
  obtain ⟨v, hv, hclient⟩ := serve_append [s.maxi + 1] (nodup_slots s) hmore hanswer
  have hnew := hclient _ hnotin
  have hmem : r.connfd ∈ (v.read (s.maxi + 1) (r.answer (s.maxi + 1))).reads := by
    rw [read_reads, hnew, hu.fd]
    simp
  rw [hu.slots, hv, serve_cons_of_due (hnew ▸ hu.due.mpr hstale)]
  split_ifs
  · exact hmem
  · exact mem_serve_reads hmem

theorem reported (hu : Extended s r u) (hr : r.fails = false) (hpos : 0 < nready)
    (h : ¬ (s.client (s.maxi + 1)).Readable ∨
      nready ≤ s.slots.countP (fun i => (u.client i).Due) ∨
        ∃ i ∈ s.slots, (u.client i).Due ∧ r.answer i = .failed) {fd : ℤ}
    (hfd : fd ∈ (serve r.answer u.slots nready u).reads) : s.Reported r fd := by
  by_cases hstale : (s.client (s.maxi + 1)).Readable
  · have hends := h.resolve_left (not_not.mpr hstale)
    rw [hu.slots, serve_append_of_ends (nodup_slots s) hpos hends] at hfd
    exact reported_of_mem_serve_reads hr hu.reads (fun i hi _ => hu.same i hi) hfd
  · rcases due_of_mem_serve_reads (nodup_slots u) hfd with hfd | ⟨i, hi, hdue, rfl⟩
    · rw [hu.reads] at hfd
      cases hfd
    · rw [hu.slots] at hi
      rcases List.mem_append.mp hi with hi | hi
      · rw [hu.same i hi] at hdue ⊢
        exact reported_of_due hr hi hdue
      · obtain rfl := List.mem_singleton.mp hi
        exact absurd (hu.due.mp hdue) hstale

end Extended

theorem readsReported_iff_of_full (h : Invariant s) (hr : r.fails = false)
    (hlistens : (s.poll r).Listens) (hfull : ∀ i ∈ s.slots, 0 ≤ (s.client i).fd)
    (hroom : s.maxi + 1 ≠ openMax) (ht : iterate s r = some t) :
    ReadsReported s r t ↔
      (∀ i ∈ s.slots, ((s.poll r).client i).revents ≠ 0 → ((s.poll r).client i).Readable) ∨
        ¬ (s.client (s.maxi + 1)).Readable ∨
        ∃ i ∈ s.slots, ((s.poll r).client i).Readable ∧ r.answer i = .failed := by
  obtain ⟨hrunning, hfresh, ht⟩ := iterate_of_listens hlistens ht
  have hu := h.extended hfull hroom hfresh.1
  generalize (s.poll r).accept r.connfd = u at ht hu
  have hready : (s.poll r).nready r - 1 =
      s.slots.countP fun i => ((s.poll r).client i).revents ≠ 0 := by
    rw [nready_of_listens hr hlistens, Int.add_sub_cancel]
    rfl
  have hcount : s.slots.countP (fun i => (u.client i).Due) =
      s.slots.countP fun i => ((s.poll r).client i).Due :=
    List.countP_congr fun i hi => by rw [hu.same i hi]
  have hdue := fun i => hu.due_iff hfull (i := i)
  replace ht : t = if (s.poll r).nready r - 1 ≤ 0 then u
      else serve r.answer u.slots ((s.poll r).nready r - 1) u := by
    rw [ht, hu.exited, hrunning]
    exact if_congr (or_iff_right Bool.false_ne_true) rfl rfl
  constructor
  · intro hreported
    by_contra hnot
    rw [not_or, not_or, not_not, not_exists] at hnot
    obtain ⟨hunreadable, hstale, hanswer⟩ := hnot
    have hmore : (s.slots.countP fun i => (u.client i).Due : ℤ) < (s.poll r).nready r - 1 := by
      rw [hready, hcount, Int.ofNat_lt]
      exact countP_due_lt (s := s.poll r) hunreadable
    have hread : r.connfd ∈ t.reads := by
      rw [ht, if_neg (by omega)]
      exact hu.connfd_mem_reads hstale hmore
        fun i hi hidue hfailed => hanswer i ⟨hi, (hdue i hi).mp hidue, hfailed⟩
    have hlt := h.maxi_lt
    obtain ⟨-, i, hi, hfd, -⟩ := hreported _ hread
    exact hfresh.2 i (by omega) hfd
  · intro hcond fd hfd
    rw [ht] at hfd
    split_ifs at hfd with hend
    · rw [hu.reads] at hfd
      cases hfd
    · refine hu.reported hr (by omega) ?_ hfd
      rcases hcond with hall | hnew | ⟨i, hi, hreadable, hfailed⟩
      · -- All events are those of clients to be read from.
        refine .inr (.inl ?_)
        rw [hready, hcount, Int.ofNat_le]
        refine List.countP_mono_left fun i hi hrevents => ?_
        have hreadable := (hdue i hi).mpr (hall i hi (of_decide_eq_true hrevents))
        rw [hu.same i hi] at hreadable
        exact decide_eq_true hreadable
      · exact .inl hnew
      · exact .inr (.inr ⟨i, hi, (hdue i hi).mpr hreadable, hfailed⟩)

/-- In every iteration from a state that can be reached, what is read has been reported
exactly if what is left over in the table does no harm. -/
theorem Invariant.readsReported_iff (h : Invariant s) (ht : Server.iterate s r = some t) :
    ReadsReported s r t ↔ Harmless s r := by
  cases hr : r.fails with
  | true => exact readsReported_iff_of_fails hr ht
  | false =>
    rw [Harmless, if_neg (by simp [hr])]
    by_cases hlistens : (s.poll r).Listens
    · by_cases hfull : ∀ i ∈ s.slots, 0 ≤ (s.client i).fd
      · by_cases hroom : s.maxi + 1 = openMax
        · refine iff_of_true ?_ fun _ _ => .inr (.inr (.inl hroom))
          have hexited := accept_exited (s := s.poll r)
            (fun i hi => (poll_fd s r i).symm ▸ hfull i hi) hroom r.connfd
          obtain ⟨-, -, rfl⟩ := iterate_of_listens hlistens ht
          intro fd hfd
          rw [if_pos (.inl hexited), accept_reads] at hfd
          cases hfd
        · rw [readsReported_iff_of_full h hr hlistens hfull hroom ht,
            forall_prop_of_true hlistens, forall_prop_of_true hfull]
          simp only [hroom, false_or]
      · refine iff_of_true ?_ fun _ hall => absurd hall hfull
        push Not at hfull
        obtain ⟨i, hi, hfree⟩ := hfull
        rw [← poll_fd s r i] at hfree
        cases hslot : (s.poll r).freeSlot with
        | none =>
          have hlt := h.maxi_lt
          have hle := mem_slots.mp hi
          have htaken := freeSlot_eq_none_iff.mp hslot i (by omega) (by omega)
          omega
        | some j =>
          obtain ⟨-, -, htaken⟩ := freeSlot_eq_some_iff.mp hslot
          obtain ⟨hpos, hle⟩ := mem_slots.mp hi
          refine readsReported_of_freeSlot_le hr hlistens hslot ?_ ht
          by_contra hlt
          have htaken := htaken i hpos (by omega)
          omega
    · exact iff_of_true (readsReported_of_not_listens hr hlistens ht) fun hl => absurd hl hlistens

end Iterate

/-- Whatever stands in the `revents` of the table at first, in a run each iteration reads only
from descriptors that its own `poll` has reported, exactly if what is left over in the table
does no harm in any of them. -/
theorem readsReported_iff_along (listenfd : ℕ) (events revents : ℕ → BitVec 16) (ls : List Round) :
    (∀ s r t, Takes iterate (start listenfd events revents) ls s r → iterate s r = some t →
        ReadsReported s r t) ↔
      Along iterate Harmless (start listenfd events revents) ls := by
  refine forall₂_congr fun s r => ?_
  have hinvariant : ∀ {s r}, Takes iterate (start listenfd events revents) ls s r → Invariant s :=
    fun htakes => htakes.visits.reachable.invariant (invariant_start ..) fun _ _ _ h ht =>
      h.iterate ht
  constructor
  · intro h htakes
    obtain ⟨-, -, -, hstep⟩ := id htakes
    obtain ⟨t, ht⟩ := Option.isSome_iff_exists.mp hstep
    exact ((hinvariant htakes).readsReported_iff ht).mp (h t htakes ht)
  · intro h t htakes ht
    exact ((hinvariant htakes).readsReported_iff ht).mpr (h htakes)

/-- What `poll` has for the slots when a client connects, and when it sends something. -/
def listens (i : ℕ) : BitVec 16 := if i = 0 then pollRdNorm else 0

def sends (i : ℕ) : BitVec 16 := if i = 1 then pollRdNorm else 0

/-- A client connects and sends something; then `poll` fails and leaves the table as it was. -/
def pollFails : List Round :=
  [⟨false, listens, 4, fun _ => .data⟩, ⟨false, sends, 0, fun _ => .data⟩,
    ⟨true, sends, 0, fun _ => .data⟩]

/-- The server goes by the report of the `poll` before. -/
theorem not_readsReported_pollFails : ¬ ∀ s r t,
    Takes iterate (start 3 (fun _ => 0) fun _ => 0) pollFails s r →
      iterate s r = some t → ReadsReported s r t := by
  intro h
  have hrun : ((runFrom iterate (start 3 (fun _ => 0) fun _ => 0) (pollFails.take 2)).bind fun s =>
      (iterate s ⟨true, sends, 0, fun _ => .data⟩).map Server.reads) = some [4] := by
    decide +kernel
  obtain ⟨s, hs, hmap⟩ := Option.bind_eq_some_iff.mp hrun
  obtain ⟨t, ht, hreads⟩ := Option.map_eq_some_iff.mp hmap
  have htakes : Takes iterate (start 3 (fun _ => 0) fun _ => 0) pollFails s
      ⟨true, sends, 0, fun _ => .data⟩ := ⟨_, List.prefix_rfl, hs, by rw [ht]; rfl⟩
  have hreported := (h s _ t htakes ht 4 (hreads ▸ List.mem_singleton_self 4)).1
  cases hreported

end Server
end CLib.Echo.Poll
