import CLib.Printer.Daemon
import Mathlib.Data.List.Nodup

namespace CLib.Printer
open CLib.Base

section JobNumbers
variable {n : ℕ}

theorem jobFile_head_drop (k : ℕ) : ∀ c, (jobFile.drop k).head? = some c → c.isDigit = false := by
  intro c hc
  have hall : jobFile.all (fun c => !c.isDigit) = true := by decide
  have hnot := List.all_eq_true.mp hall c (List.mem_of_mem_drop (List.mem_of_head? hc))
  rwa [Bool.not_eq_true'] at hnot

theorem initRequest_percentU (h : n < 2 ^ 63) : initRequest (percentU n) = n := by
  have hne : percentU n ≠ [] := Nat.toDigits_ne_nil
  rw [initRequest, if_neg hne, atol_percentU_append h (jobFile_head_drop _),
    Int.toNat_natCast]

theorem updateJobno_nil (n : ℕ) : updateJobno [] n = percentU n := by
  rw [updateJobno, pwrite]
  simp

theorem updateJobno_percentU {m : ℕ} (h : m ≤ n) : updateJobno (percentU m) n = percentU n :=
  pwrite_percentU h

end JobNumbers

def ClientPc.jobid : ClientPc → Option ℕ
  | .free | .header | .newJob _ => none
  | .creatData _ jobid | .reading _ _ jobid _ | .creatReq _ jobid _ | .writeReq _ jobid _
  | .respond _ jobid _ | .addJob _ jobid _ | .unlinkReq jobid | .unlinkData jobid => some jobid

/-- The job that the printer thread has taken from the list. -/
def PrinterPc.job : PrinterPc → Option Job
  | .waiting => none
  | .update jp | .opening jp | .connecting jp | .sending jp _ _ | .status jp _ | .answer jp
  | .unlinkData jp | .unlinkReq jp | .defer jp => some jp

/-- The job whose data file a client thread changes in its next step. -/
def ClientPc.writes : ClientPc → Option ℕ
  | .creatData _ jobid | .reading _ _ jobid _ | .unlinkData jobid => some jobid
  | _ => none

/-- What the printer gets of a job that is sent to its end. -/
def sheet (x : Job × Text) : Job × Text := (x.1, x.1.req.extra ++ x.2)

/-- No client has sent a job with this number. -/
def Fresh (accepted : List (Job × Text)) (jobid : ℕ) : Prop := ∀ x ∈ accepted, x.1.jobid ≠ jobid

/-- What a client thread has done to its files. -/
def ClientPc.Spools (spool : Spool) (accepted : List (Job × Text)) : ClientPc → Prop
  | .free | .header | .newJob _ => True
  | .creatData _ jobid => spool.reqs jobid = none ∧ Fresh accepted jobid
  | .unlinkData jobid => (∀ req, spool.reqs jobid ≠ some (some req)) ∧ Fresh accepted jobid
  | .reading _ _ jobid got | .creatReq _ jobid got =>
      spool.reqs jobid = none ∧ spool.data jobid = some got ∧ Fresh accepted jobid
  | .writeReq _ jobid got =>
      spool.reqs jobid = some none ∧ spool.data jobid = some got ∧ Fresh accepted jobid
  | .unlinkReq jobid => spool.reqs jobid = some none ∧ Fresh accepted jobid
  | .respond req jobid got | .addJob req jobid got =>
      spool.reqs jobid = some (some req) ∧ (⟨jobid, req⟩, got) ∈ accepted

/-- What the printer thread finds of its job. -/
def PrinterPc.Spools (spool : Spool) (printed : List (Job × Text)) : PrinterPc → Prop
  | .waiting => True
  | .update jp | .defer jp => spool.reqs jp.jobid = some (some jp.req)
  | .opening jp => spool.reqs jp.jobid = some (some jp.req) ∧ jp.jobid < initRequest spool.jobno
  | .connecting jp => spool.reqs jp.jobid = some (some jp.req) ∧
      jp.jobid < initRequest spool.jobno ∧ ∃ c, spool.data jp.jobid = some c
  | .sending jp off sent => spool.reqs jp.jobid = some (some jp.req) ∧
      jp.jobid < initRequest spool.jobno ∧
      ∃ c, spool.data jp.jobid = some c ∧ sent = jp.req.extra ++ c.take off
  | .status jp sent => spool.reqs jp.jobid = some (some jp.req) ∧
      jp.jobid < initRequest spool.jobno ∧ ∃ c, spool.data jp.jobid = some c ∧ sent = jp.req.extra ++ c
  | .answer jp | .unlinkData jp | .unlinkReq jp => spool.reqs jp.jobid = some (some jp.req) ∧
      ∃ c, sheet (jp, c) ∈ printed

/-- What is on the disk, whether or not the daemon runs. -/
structure Stored (spool : Spool) (accepted printed : List (Job × Text)) (acked : List ℕ) : Prop where
  jobno : spool.jobno = [] ∨ ∃ n < 2 ^ 31, 1 ≤ n ∧ spool.jobno = percentU n
  complete : ∀ jobid req, spool.reqs jobid = some (some req) → ∃ c, (⟨jobid, req⟩, c) ∈ accepted ∧
    (spool.data jobid = some c ∨ spool.data jobid = none ∧ sheet (⟨jobid, req⟩, c) ∈ printed)
  kept : ∀ x ∈ accepted, sheet x ∈ printed ∨
    spool.data x.1.jobid = some x.2 ∧ spool.reqs x.1.jobid = some (some x.1.req)
  genuine : ∀ y ∈ printed, ∃ x ∈ accepted, sheet x = y
  nodup : (accepted.map fun x => x.1.jobid).Nodup
  acked : ∀ jobid ∈ acked, ∃ x ∈ accepted, x.1.jobid = jobid
  below : ∀ y ∈ printed, y.1.jobid < initRequest spool.jobno

variable {ι : Type}

def ClientPc.uses (jobid : ℕ) (pc : ClientPc) : ℕ := if pc.jobid = some jobid then 1 else 0

/-- Where a job number is in use in the daemon: in the list, with the printer thread, in the part
of the directory that has not been read, with a client. -/
def Daemon.uses [Fintype ι] (d : Daemon ι) (jobid : ℕ) : ℕ :=
  (d.jobs.map Job.jobid).count jobid + (if d.printer.job.map Job.jobid = some jobid then 1 else 0) +
    d.entries.count jobid + tally (ClientPc.uses jobid) d.clients

/-- What holds between the daemon and the disk. -/
structure Serving [Fintype ι] (spool : Spool) (accepted printed : List (Job × Text)) (d : Daemon ι) :
    Prop where
  next : initRequest spool.jobno ≤ d.nextjob ∧ d.nextjob < 2 ^ 31
  uses_le : ∀ jobid, d.uses jobid ≤ 1
  uses_lt : ∀ jobid, 0 < d.uses jobid → jobid < d.nextjob
  reqs_lt : ∀ jobid, spool.reqs jobid ≠ none → jobid < d.nextjob
  accepted_lt : ∀ x ∈ accepted, x.1.jobid < d.nextjob
  clients : ∀ i, (d.clients i).Spools spool accepted
  jobs : ∀ jp ∈ d.jobs, spool.reqs jp.jobid = some (some jp.req)
  printer : d.printer.Spools spool printed
  building : d.build ≠ .readReq → ∀ jobid entries, d.entries = jobid :: entries →
    ∀ req, spool.reqs jobid ≠ some (some req)
  pending : ∀ x ∈ accepted, sheet x ∈ printed ∨ 0 < d.uses x.1.jobid ∨ x.1.jobid ∈ d.canceled

section Frames
variable {spool spool' : Spool} {accepted accepted' printed printed' : List (Job × Text)}
  {acked : List ℕ} {pc : ClientPc} {jobid : ℕ} {x y : Job × Text}

theorem ClientPc.Spools.congr (h : pc.Spools spool accepted)
    (hdata : ∀ jobid, pc.jobid = some jobid → spool'.data jobid = spool.data jobid)
    (hreqs : ∀ jobid, pc.jobid = some jobid → spool'.reqs jobid = spool.reqs jobid)
    (hsub : accepted ⊆ accepted')
    (hfresh : ∀ jobid, pc.jobid = some jobid → Fresh accepted jobid → Fresh accepted' jobid) :
    pc.Spools spool' accepted' := by
  cases pc with
  | free | header | newJob req => trivial
  | creatData req jobid | unlinkReq jobid =>
    obtain ⟨hr, hf⟩ := h
    exact ⟨(hreqs jobid rfl).trans hr, hfresh jobid rfl hf⟩
  | unlinkData jobid =>
    obtain ⟨hr, hf⟩ := h
    refine ⟨fun req => ?_, hfresh jobid rfl hf⟩
    rw [hreqs jobid rfl]
    exact hr req
  | reading first req jobid got | creatReq req jobid got | writeReq req jobid got =>
    obtain ⟨hr, hd, hf⟩ := h
    exact ⟨(hreqs jobid rfl).trans hr, (hdata jobid rfl).trans hd, hfresh jobid rfl hf⟩
  | respond req jobid got | addJob req jobid got =>
    obtain ⟨hr, hm⟩ := h
    exact ⟨(hreqs jobid rfl).trans hr, hsub hm⟩

theorem PrinterPc.Spools.congr {pc : PrinterPc} (h : pc.Spools spool printed)
    (hdata : ∀ jp, pc.job = some jp → spool'.data jp.jobid = spool.data jp.jobid)
    (hreqs : ∀ jp, pc.job = some jp → spool'.reqs jp.jobid = spool.reqs jp.jobid)
    (hjobno : spool'.jobno = spool.jobno) (hsub : printed ⊆ printed') : pc.Spools spool' printed' := by
  cases pc with
  | waiting => trivial
  | update jp | defer jp => exact (hreqs jp rfl).trans h
  | opening jp =>
    obtain ⟨hr, hlt⟩ := h
    exact ⟨(hreqs jp rfl).trans hr, hjobno ▸ hlt⟩
  | connecting jp =>
    obtain ⟨hr, hlt, c, hc⟩ := h
    exact ⟨(hreqs jp rfl).trans hr, hjobno ▸ hlt, c, (hdata jp rfl).trans hc⟩
  | sending jp off sent | status jp sent =>
    obtain ⟨hr, hlt, c, hc, hsent⟩ := h
    exact ⟨(hreqs jp rfl).trans hr, hjobno ▸ hlt, c, (hdata jp rfl).trans hc, hsent⟩
  | answer jp | unlinkData jp | unlinkReq jp =>
    obtain ⟨hr, c, hc⟩ := h
    exact ⟨(hreqs jp rfl).trans hr, c, hsub hc⟩

theorem Stored.eq_of_jobid (h : Stored spool accepted printed acked) (hx : x ∈ accepted)
    (hy : y ∈ accepted) (heq : x.1.jobid = y.1.jobid) : x = y :=
  List.inj_on_of_nodup_map h.nodup hx hy heq

theorem Stored.sheet_mem (h : Stored spool accepted printed acked) (hx : x ∈ accepted)
    (hy : y ∈ printed) (hid : x.1.jobid = y.1.jobid) : sheet x ∈ printed := by
  obtain ⟨x', hx', rfl⟩ := h.genuine y hy
  rw [h.eq_of_jobid hx hx' hid]
  exact hy

/-- A job without a complete request is not one that has been accepted and not printed. -/
theorem Stored.printed_of_reqs (h : Stored spool accepted printed acked) (hx : x ∈ accepted)
    (hreqs : spool.reqs x.1.jobid ≠ some (some x.1.req)) : sheet x ∈ printed :=
  (h.kept x hx).resolve_right fun hk => hreqs hk.2

theorem Stored.congr (h : Stored spool accepted printed acked) (hjobno : spool'.jobno = spool.jobno)
    (hdata : ∀ id, id ≠ jobid → spool'.data id = spool.data id)
    (hreqs : ∀ id, id ≠ jobid → spool'.reqs id = spool.reqs id)
    (hold : ∀ req, spool.reqs jobid ≠ some (some req)) (hnew : ∀ req, spool'.reqs jobid ≠ some (some req)) :
    Stored spool' accepted printed acked := by
  refine ⟨by rw [hjobno]; exact h.jobno, fun id req hid => ?_, fun x hx => ?_, h.genuine, h.nodup,
    h.acked, by rw [hjobno]; exact h.below⟩
  · have hne : id ≠ jobid := by
      rintro rfl
      exact hnew req hid
    rw [hreqs id hne] at hid
    rw [hdata id hne]
    exact h.complete id req hid
  · by_cases hxid : x.1.jobid = jobid
    · left
      apply h.printed_of_reqs hx
      rw [hxid]
      exact hold _
    · rw [hdata _ hxid, hreqs _ hxid]
      exact h.kept x hx

end Frames
end CLib.Printer
