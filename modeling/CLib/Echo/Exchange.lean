import CLib.Base.Runs
import CLib.Echo.Service
import Mathlib.Algebra.Ring.Int.Defs
import Mathlib.Algebra.Ring.Nat
import Mathlib.Data.List.Range
import Mathlib.Logic.Function.Basic

namespace CLib.Echo
open CLib.Base

def maxline : ℕ := 80

/-- The conversion of an `ssize_t` or an `int` to `size_t`. -/
def sizeT (n : ℤ) : ℕ := (n % 2 ^ 64).toNat

/-- The memory from `buf` on, after `Read` has put `bs` there. -/
def fill (buf : ℕ → Byte) (bs : List Byte) : ℕ → Byte := fun j => bs.getD j (buf j)

/-- The loop `for (j = 0; j < n; j++) buf[j] = toupper(buf[j])`. -/
def upperLoop (n : ℤ) (buf : ℕ → Byte) : ℕ → Byte :=
  (List.range n.toNat).foldl (fun buf j => Function.update buf j (toupper (buf j))) buf

/-- The `k` bytes at `buf + ptr`. -/
def window (buf : ℕ → Byte) (ptr k : ℕ) : List Byte := (List.range k).map fun i => buf (ptr + i)

theorem upperLoop_apply (n : ℕ) (buf : ℕ → Byte) (j : ℕ) :
    upperLoop n buf j = if j < n then toupper (buf j) else buf j := by
  show (List.range n).foldl _ buf j = _
  induction n generalizing j with
  | zero => rfl
  | succ n ih =>
    rw [List.range_succ, List.foldl_append, List.foldl_cons, List.foldl_nil]
    by_cases hj : j = n
    · subst hj
      rw [Function.update_self, ih, if_neg (Nat.lt_irrefl j), if_pos (Nat.lt_succ_self j)]
    · rw [Function.update_of_ne hj, ih]
      have hlt : j < n + 1 ↔ j < n := by omega
      simp only [hlt]

@[simp] theorem length_window (buf : ℕ → Byte) (ptr k : ℕ) : (window buf ptr k).length = k := by
  simp [window]

@[simp] theorem window_zero (buf : ℕ → Byte) (ptr : ℕ) : window buf ptr 0 = [] := rfl

theorem window_append (buf : ℕ → Byte) (ptr k m : ℕ) :
    window buf ptr k ++ window buf (ptr + k) m = window buf ptr (k + m) := by
  simp only [window, List.range_add, List.map_append, List.map_map]
  congr 1
  apply List.map_congr_left
  intro i _
  show buf (ptr + k + i) = buf (ptr + (k + i))
  rw [Nat.add_assoc]

theorem window_upperLoop (buf : ℕ → Byte) (bs : List Byte) :
    window (upperLoop bs.length (fill buf bs)) 0 bs.length = bs.map toupper := by
  apply List.ext_getElem
  · simp
  · intro i hi _
    have hlt : i < bs.length := by simpa using hi
    simp [window, upperLoop_apply, fill, hlt]

theorem sizeT_natCast {n : ℕ} (h : n < 2 ^ 64) : sizeT n = n := by
  unfold sizeT
  omega

/-- What a server does with the value of `Read`. -/
inductive Reaction
  | close
  | exit
  | write
  | writen
  deriving DecidableEq

/-- The result of one call of `write`. -/
inductive WriteAnswer
  | interrupted
  | error
  | accepted (k : ℕ)
  deriving DecidableEq

/-- A call of `Write`, or of `Writen` if it is to send the `whole` of it, that has not
returned yet: `left` bytes at `buf + ptr` are to be sent. -/
structure Job (κ : Type) where
  round : Round κ
  ptr : ℕ
  left : ℕ
  whole : Bool

def Job.accept {κ : Type} (buf : ℕ → Byte) (j : Job κ) (k : ℕ) : Round κ :=
  ⟨j.round.sock, j.round.result, j.round.accepted ++ window buf j.ptr k, j.round.failed⟩

def Job.fail {κ : Type} (j : Job κ) : Round κ :=
  ⟨j.round.sock, j.round.result, j.round.accepted, true⟩

/-- A thread that handles read results one after the other. -/
structure Exchange (κ : Type) where
  buf : ℕ → Byte
  done : List (Round κ)
  job : Option (Job κ)
  exited : Bool

/-- What the system calls answer. -/
inductive Event (κ : Type)
  | read (c : κ) (r : ReadResult)
  | write (a : WriteAnswer)

variable {κ : Type}

namespace Exchange

def start (buf : ℕ → Byte) : Exchange κ := ⟨buf, [], none, false⟩

def finish (x : Exchange κ) (r : Round κ) : Exchange κ := { x with done := x.done ++ [r], job := none }

/-- `Read` has returned, and the server begins to handle the result. -/
def read (react : ReadResult → Reaction) (x : Exchange κ) (c : κ) (r : ReadResult) :
    Option (Exchange κ) :=
  if x.exited ∨ x.job.isSome ∨ maxline < r.data.length then none
  else
    let buf := fill x.buf r.data
    let round : Round κ := ⟨c, r, [], false⟩
    match react r with
    | .close => some ({ x with buf := buf }.finish round)
    | .exit => some ({ x with buf := buf, exited := true }.finish round)
    | .write =>
      some { x with buf := upperLoop r.count buf, job := some ⟨round, 0, sizeT r.count, false⟩ }
    | .writen =>
      some { x with buf := upperLoop r.count buf, job := some ⟨round, 0, sizeT r.count, true⟩ }

/-- One call of `write` in the loop of `Write` or `Writen`. `Write` returns what the call has
accepted; `Writen` goes on until nothing is left, and takes a result 0 for an error. -/
def write (x : Exchange κ) (a : WriteAnswer) : Option (Exchange κ) :=
  x.job.bind fun j =>
    match a with
    | .interrupted => some x
    | .error => some (x.finish j.fail)
    | .accepted k =>
      if j.left < k then none
      else if j.whole = false then some (x.finish (j.accept x.buf k))
      else if k = 0 then some (x.finish j.fail)
      else if k = j.left then some (x.finish (j.accept x.buf k))
      else some { x with job := some ⟨j.accept x.buf k, j.ptr + k, j.left - k, true⟩ }

def step (react : ReadResult → Reaction) (x : Exchange κ) : Event κ → Option (Exchange κ)
  | .read c r => x.read react c r
  | .write a => x.write a

def current (x : Exchange κ) : Option (Round κ) := x.job.map Job.round

/-- No byte is accepted by a write that follows a failed `Read`. -/
def SilentAfterFailure (x : Exchange κ) : Event κ → Prop
  | .write (.accepted k) => ∀ j, x.job = some j → j.round.result.isFailed → k = 0
  | _ => True

/-- `Write` is not cut short when it sends what has been read. -/
def WholeWrite (x : Exchange κ) : Event κ → Prop
  | .write (.accepted k) =>
    ∀ j, x.job = some j → j.round.result.isFailed = false → j.whole = false → k = j.left
  | _ => True

/-- No byte is accepted for a client after a write error has cost it some. -/
def NoneAfterLoss (x : Exchange κ) : Event κ → Prop
  | .write (.accepted k) =>
    ∀ j, x.job = some j → (∃ r ∈ x.done, r.sock = j.round.sock ∧ r.lost) → k = 0
  | _ => True

end Exchange

/-- The server replies to data, closes at the end of a stream, and may do anything after a
failed `Read`. -/
structure Echoes (react : ReadResult → Reaction) : Prop where
  eof : react (.bytes []) = .close
  data : ∀ b bs, react (.bytes (b :: bs)) = .write ∨ react (.bytes (b :: bs)) = .writen

/-- A write that is going on: what is left is the rest of the reply. -/
structure Job.Ok (buf : ℕ → Byte) (j : Job κ) : Prop where
  unfailed : j.round.failed = false
  silent : j.round.result.isFailed → j.round.accepted = []
  rest : j.round.result.isFailed = false → 0 < j.left ∧
    j.round.accepted ++ window buf j.ptr j.left = j.round.result.reply

/-- Some bytes of the client have been lost. -/
def Gap (done : List (Round κ)) (c : κ) : Prop := ∃ r ∈ done, r.sock = c ∧ r.lost

theorem Job.Ok.inOrder {buf : ℕ → Byte} {j : Job κ} (h : j.Ok buf) :
    j.round.accepted <+: j.round.result.reply := by
  cases hf : j.round.result.isFailed with
  | true =>
    rw [h.silent hf]
    exact List.nil_prefix
  | false =>
    rw [← (h.rest hf).2]
    exact List.prefix_append _ _

theorem Round.sound_of_nil {c : κ} {r : ReadResult} (hr : r.reply = []) :
    Round.Sound ⟨c, r, [], false⟩ :=
  ⟨List.nil_prefix, fun _ => hr.symm⟩

namespace Exchange
variable {react : ReadResult → Reaction} {x y : Exchange κ} {c : κ} {r : ReadResult}
  {a : WriteAnswer} {e : Event κ}

theorem read_cases (h : x.read react c r = some y) :
    x.job = none ∧ r.data.length ≤ maxline ∧
      ((∃ buf exited, (react r = .close ∨ react r = .exit) ∧
          y = { x with buf := buf, exited := exited }.finish ⟨c, r, [], false⟩) ∨
        ∃ whole, react r = (if whole then .writen else .write) ∧
          y = { x with buf := upperLoop r.count (fill x.buf r.data),
                       job := some ⟨⟨c, r, [], false⟩, 0, sizeT r.count, whole⟩ }) := by
  unfold Exchange.read at h
  split_ifs at h with hguard
  obtain ⟨-, hguard⟩ := not_or.mp hguard
  obtain ⟨hjob, hlen⟩ := not_or.mp hguard
  refine ⟨Option.not_isSome_iff_eq_none.mp hjob, Nat.le_of_not_lt hlen, ?_⟩
  cases hr : react r with
  | close =>
    rw [hr] at h
    exact .inl ⟨_, _, .inl rfl, (Option.some.inj h).symm⟩
  | exit =>
    rw [hr] at h
    exact .inl ⟨_, _, .inr rfl, (Option.some.inj h).symm⟩
  | write =>
    rw [hr] at h
    exact .inr ⟨false, rfl, (Option.some.inj h).symm⟩
  | writen =>
    rw [hr] at h
    exact .inr ⟨true, rfl, (Option.some.inj h).symm⟩

theorem write_cases (h : x.write a = some y) :
    ∃ j, x.job = some j ∧
      (a = .interrupted ∧ y = x ∨
        (a = .error ∨ a = .accepted 0 ∧ j.whole) ∧ y = x.finish j.fail ∨
        ∃ k, a = .accepted k ∧ k ≤ j.left ∧
          ((j.whole = false ∨ k = j.left) ∧ y = x.finish (j.accept x.buf k) ∨
            j.whole ∧ k < j.left ∧
              y = { x with job := some ⟨j.accept x.buf k, j.ptr + k, j.left - k, true⟩ })) := by
  obtain ⟨j, hj, h⟩ := Option.bind_eq_some_iff.mp h
  refine ⟨j, hj, ?_⟩
  cases a with
  | interrupted => exact .inl ⟨rfl, (Option.some.inj h).symm⟩
  | error => exact .inr (.inl ⟨.inl rfl, (Option.some.inj h).symm⟩)
  | accepted k =>
    dsimp only at h
    split_ifs at h with hlt hwhole hzero hall
    · exact .inr (.inr ⟨k, rfl, by omega, .inl ⟨.inl hwhole, (Option.some.inj h).symm⟩⟩)
    · rw [hzero]
      exact .inr (.inl ⟨.inr ⟨rfl, by simpa using hwhole⟩, (Option.some.inj h).symm⟩)
    · exact .inr (.inr ⟨k, rfl, by omega, .inl ⟨.inr hall, (Option.some.inj h).symm⟩⟩)
    · exact .inr (.inr ⟨k, rfl, by omega, .inr ⟨by simpa using hwhole, by omega,
        (Option.some.inj h).symm⟩⟩)

/-- The write that goes on sends the rest of a reply. -/
def Sending (x : Exchange κ) : Prop := ∀ j, x.job = some j → j.Ok x.buf

theorem sending_finish (x : Exchange κ) (r : Round κ) : (x.finish r).Sending := by
  intro j hj
  cases hj

theorem Sending.read (hreact : Echoes react) (hy : x.read react c r = some y) : y.Sending := by
  obtain ⟨-, hlen, ⟨buf, exited, -, rfl⟩ | ⟨whole, hr, rfl⟩⟩ := read_cases hy
  · exact sending_finish _ _
  · intro j hj
    rw [← Option.some.inj hj]
    refine ⟨rfl, fun _ => rfl, fun hf => ?_⟩
    cases r with
    | failed reset => cases hf
    | bytes bs =>
      have hsize : sizeT (ReadResult.bytes bs).count = bs.length := by
        apply sizeT_natCast
        exact Nat.lt_of_le_of_lt hlen (by decide)
      dsimp only
      rw [hsize]
      refine ⟨?_, window_upperLoop x.buf bs⟩
      apply List.length_pos_of_ne_nil
      rintro rfl
      rw [hreact.eof] at hr
      cases whole <;> cases hr

theorem Sending.write (h : x.Sending) (hsilent : x.SilentAfterFailure (.write a))
    (hy : x.write a = some y) : y.Sending := by
  obtain ⟨j, hj, ⟨-, rfl⟩ | ⟨-, rfl⟩ | ⟨k, rfl, hle, ⟨-, rfl⟩ | ⟨-, hlt, rfl⟩⟩⟩ := write_cases hy
  · exact h
  · exact sending_finish _ _
  · exact sending_finish _ _
  · have hok := h j hj
    intro j' hj'
    rw [← Option.some.inj hj']
    refine ⟨hok.unfailed, fun hf => ?_, fun hf => ⟨Nat.sub_pos_of_lt hlt, ?_⟩⟩
    · show j.round.accepted ++ window x.buf j.ptr k = []
      rw [hsilent j hj hf, hok.silent hf]
      rfl
    · show (j.round.accepted ++ window x.buf j.ptr k) ++ window x.buf (j.ptr + k) (j.left - k) = _
      rw [List.append_assoc, window_append, Nat.add_sub_cancel' hle]
      exact (hok.rest hf).2

theorem Sending.step (hreact : Echoes react) (h : x.Sending) (hsilent : x.SilentAfterFailure e)
    (hy : x.step react e = some y) : y.Sending := by
  cases e with
  | read c r => exact Sending.read hreact hy
  | write a => exact h.write hsilent hy

/-- The write that goes on is the one that the server makes for this result. -/
def Fits (react : ReadResult → Reaction) (x : Exchange κ) : Prop :=
  ∀ j, x.job = some j → react j.round.result = if j.whole then .writen else .write

theorem Fits.step (h : x.Fits react) (hy : x.step react e = some y) : y.Fits react := by
  intro j' hj'
  cases e with
  | read c r =>
    obtain ⟨-, -, ⟨buf, exited, -, rfl⟩ | ⟨whole, hr, rfl⟩⟩ := read_cases hy
    · cases hj'
    · rw [← Option.some.inj hj']
      exact hr
  | write a =>
    obtain ⟨j, hj, ⟨-, rfl⟩ | ⟨-, rfl⟩ | ⟨k, -, -, ⟨-, rfl⟩ | ⟨hwhole, -, rfl⟩⟩⟩ := write_cases hy
    · exact h j' hj'
    · cases hj'
    · cases hj'
    · rw [← Option.some.inj hj']
      have hr := h j hj
      rw [hwhole] at hr
      exact hr

theorem Fits.wholeWrite (h : x.Fits react) (hreact : ∀ r, react r ≠ .write) (e : Event κ) :
    x.WholeWrite e := by
  cases e with
  | read c r => trivial
  | write a =>
    cases a with
    | interrupted | error => trivial
    | accepted k =>
      intro j hj _ hw
      have hr := h j hj
      rw [hw] at hr
      exact absurd hr (hreact _)

theorem Fits.silentAfterFailure (h : x.Fits react)
    (hreact : ∀ r : ReadResult, r.isFailed → react r ≠ .write ∧ react r ≠ .writen) (e : Event κ) :
    x.SilentAfterFailure e := by
  cases e with
  | read c r => trivial
  | write a =>
    cases a with
    | interrupted | error => trivial
    | accepted k =>
      intro j hj hf
      obtain ⟨hwrite, hwriten⟩ := hreact _ hf
      have hr := h j hj
      cases hw : j.whole with
      | true => exact absurd (by rw [hr, hw]; rfl) hwriten
      | false => exact absurd (by rw [hr, hw]; rfl) hwrite

section Service
variable [DecidableEq κ]

/-- No client has a gap, and the write that goes on sends the rest of its reply. -/
structure Inv (x : Exchange κ) : Prop where
  sound : Sound x.done
  sending : x.Sending
  gap : ∀ j, x.job = some j → Gap x.done j.round.sock → j.round.accepted = []

theorem inv_start (buf : ℕ → Byte) : Inv (start buf : Exchange κ) where
  sound := sound_nil
  sending := fun j hj => by cases hj
  gap := fun j hj => by cases hj

theorem Inv.serves (h : x.Inv) : Serves x.done x.current := by
  unfold current
  cases hj : x.job with
  | none => exact h.sound.serves
  | some j => exact h.sound.serves_current (h.sending j hj).inOrder (h.gap j hj)

theorem Inv.finish (h : x.Inv) {buf : ℕ → Byte} {exited : Bool} {r : Round κ} (hr : r.Sound)
    (hgap : Gap x.done r.sock → r.accepted = []) :
    Inv ({ x with buf := buf, exited := exited }.finish r) where
  sound := h.sound.concat hr hgap
  sending := sending_finish _ _
  gap := fun j hj => by cases hj

theorem Inv.read (hreact : Echoes react) (h : x.Inv) (hy : x.read react c r = some y) : y.Inv := by
  have hsending := Sending.read hreact hy
  obtain ⟨-, -, ⟨buf, exited, hr, rfl⟩ | ⟨whole, -, rfl⟩⟩ := read_cases hy
  · apply h.finish _ fun _ => rfl
    apply Round.sound_of_nil
    cases r with
    | failed reset => rfl
    | bytes bs =>
      cases bs with
      | nil => rfl
      | cons b bs =>
        rcases hreact.data b bs with hdata | hdata <;> rw [hdata] at hr <;> simp at hr
  · refine ⟨h.sound, hsending, fun j hj _ => ?_⟩
    rw [← Option.some.inj hj]

/-- What the answers have to be like for the service to go on. -/
structure Kept (x : Exchange κ) (e : Event κ) : Prop where
  silent : x.SilentAfterFailure e
  whole : x.WholeWrite e
  gap : x.NoneAfterLoss e

theorem Inv.write (h : x.Inv) (hk : x.Kept (.write a)) (hy : x.write a = some y) : y.Inv := by
  have hsending := h.sending.write hk.silent hy
  obtain ⟨j, hj, ⟨-, rfl⟩ | ⟨-, rfl⟩ | ⟨k, rfl, -, hy⟩⟩ := write_cases hy
  · exact h
  · have hok := h.sending j hj
    apply h.finish (r := j.fail) _ (h.gap j hj)
    refine ⟨hok.inOrder, fun hlost => ?_⟩
    have hf : j.round.result.isFailed = true := by simpa [Round.lost, Job.fail] using hlost
    show j.round.accepted = j.round.result.reply
    rw [hok.silent hf, ReadResult.reply_of_isFailed hf]
  · have hok := h.sending j hj
    have hgap : Gap x.done j.round.sock → (j.accept x.buf k).accepted = [] := by
      intro hg
      show j.round.accepted ++ window x.buf j.ptr k = []
      rw [hk.gap j hj hg, h.gap j hj hg]
      rfl
    obtain ⟨hend, rfl⟩ | ⟨-, -, rfl⟩ := hy
    · apply h.finish _ hgap
      have hreply : (j.accept x.buf k).accepted = j.round.result.reply := by
        show j.round.accepted ++ window x.buf j.ptr k = j.round.result.reply
        cases hf : j.round.result.isFailed with
        | true =>
          rw [hk.silent j hj hf, hok.silent hf, ReadResult.reply_of_isFailed hf]
          rfl
        | false =>
          have hkl : k = j.left := by
            rcases hend with hend | hend
            · exact hk.whole j hj hf hend
            · exact hend
          rw [hkl]
          exact (hok.rest hf).2
      exact ⟨by rw [hreply]; exact List.prefix_rfl, fun _ => hreply⟩
    · refine ⟨h.sound, hsending, fun j' hj' => ?_⟩
      rw [← Option.some.inj hj']
      exact hgap

theorem Inv.step (hreact : Echoes react) (h : x.Inv) (hk : x.Kept e) (hy : x.step react e = some y) :
    y.Inv := by
  cases e with
  | read c r => exact h.read hreact hy
  | write a => exact h.write hk hy

/-- If the service goes on, the call was not cut short, and sent nothing after a failed `Read`. -/
theorem Sending.kept_of_accepted (h : x.Sending) {k : ℕ} (hy : x.write (.accepted k) = some y)
    (hserves : Serves y.done y.current) :
    x.SilentAfterFailure (.write (.accepted k)) ∧ x.WholeWrite (.write (.accepted k)) := by
  obtain ⟨j, hj, ⟨hevent, -⟩ | ⟨hevent, -⟩ | ⟨k', hevent, -, hy⟩⟩ := write_cases hy
  · cases hevent
  · obtain hevent | ⟨hevent, hwhole⟩ := hevent
    · cases hevent
    obtain rfl := WriteAnswer.accepted.inj hevent
    refine ⟨fun _ _ _ => rfl, fun j' hj' _ hw => ?_⟩
    obtain rfl : j = j' := Option.some.inj (hj.symm.trans hj')
    rw [hwhole] at hw
    cases hw
  obtain rfl := WriteAnswer.accepted.inj hevent
  have hzero : (j.accept x.buf k).accepted = [] → k = 0 := by
    intro hnil
    have hlen := congrArg List.length hnil
    simp only [Job.accept, List.length_append, length_window, List.length_nil] at hlen
    omega
  obtain ⟨-, rfl⟩ | ⟨hwhole, -, rfl⟩ := hy
  · have hmem : j.accept x.buf k ∈ (x.finish (j.accept x.buf k)).done := by simp [Exchange.finish]
    refine ⟨fun j' hj' hf => ?_, fun j' hj' hf _ => ?_⟩
    all_goals obtain rfl : j = j' := Option.some.inj (hj.symm.trans hj')
    · exact hzero (hserves.silent _ (List.mem_append_left _ hmem) hf)
    · have hok := h j hj
      have hfailed : ¬ (j.accept x.buf k).failed = true := by
        show ¬ j.round.failed = true
        rw [hok.unfailed]
        exact Bool.false_ne_true
      have hreply := (hserves.complete _ hmem).resolve_left hfailed
      have hlen := congrArg List.length (hreply.trans (hok.rest hf).2.symm)
      simpa [Job.accept] using hlen
  · refine ⟨fun j' hj' hf => ?_, fun j' hj' _ hw => ?_⟩
    all_goals obtain rfl : j = j' := Option.some.inj (hj.symm.trans hj')
    · exact hzero (hserves.silent _ (by simp [current]) hf)
    · rw [hwhole] at hw
      cases hw

theorem Sending.kept_of_serves (h : x.Sending) (hy : x.step react e = some y)
    (hserves : Serves y.done y.current) : x.SilentAfterFailure e ∧ x.WholeWrite e := by
  cases e with
  | read c r => exact ⟨trivial, trivial⟩
  | write a =>
    cases a with
    | interrupted => exact ⟨trivial, trivial⟩
    | error => exact ⟨trivial, trivial⟩
    | accepted k => exact h.kept_of_accepted hy hserves

end Service

end Exchange
end CLib.Echo
