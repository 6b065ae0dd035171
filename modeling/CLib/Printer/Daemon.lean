import CLib.Base.Disk
import CLib.Base.Runs
import CLib.Base.Tally

namespace CLib.Printer
open CLib.Base

structure PrintReq where
  size : ℕ
  flags : ℕ
  usernm : Text
  jobnm : Text
  deriving DecidableEq

structure Job where
  jobid : ℕ
  req : PrintReq
  deriving DecidableEq

/-- What is on the disk: the files of `data` and `reqs` and the job ID file. A request file
that is not completely written is `some none`. -/
structure Spool where
  data : ℕ → Option Text
  reqs : ℕ → Option (Option PrintReq)
  jobno : Text

/-- Program points of `client_thread`, each named after what is done next; `got` is a history
variable, all that has been read from the client. The last two come after an error. -/
inductive ClientPc
  | free
  | header
  | newJob (req : PrintReq)
  | creatData (req : PrintReq) (jobid : ℕ)
  | reading (first : Bool) (req : PrintReq) (jobid : ℕ) (got : Text)
  | creatReq (req : PrintReq) (jobid : ℕ) (got : Text)
  | writeReq (req : PrintReq) (jobid : ℕ) (got : Text)
  | respond (req : PrintReq) (jobid : ℕ) (got : Text)
  | addJob (req : PrintReq) (jobid : ℕ) (got : Text)
  | unlinkReq (jobid : ℕ)
  | unlinkData (jobid : ℕ)
  deriving DecidableEq

/-- Program points of `printer_thread`; `off` is how far the file has been read, `sent` what has
gone to the printer after the headers. From `status` on the printer has all of it. -/
inductive PrinterPc
  | waiting
  | update (jp : Job)
  | opening (jp : Job)
  | connecting (jp : Job)
  | sending (jp : Job) (off : ℕ) (sent : Text)
  | status (jp : Job) (sent : Text)
  | answer (jp : Job)
  | unlinkData (jp : Job)
  | unlinkReq (jp : Job)
  | defer (jp : Job)
  deriving DecidableEq

/-- What `build_qonstart` does next with the first of its `entries`. -/
inductive BuildPc
  | readReq
  | unlinkReq
  | unlinkData
  deriving DecidableEq

/-- The memory of the daemon. `entries` is what `build_qonstart` has not yet done of the
directory; the history variable `canceled` tells the jobs whose files could not be opened, or
whose names could not be read from the directory. -/
structure Daemon (ι : Type) where
  nextjob : ℕ
  jobs : List Job
  printer : PrinterPc
  build : BuildPc
  entries : List ℕ
  clients : ι → ClientPc
  canceled : List ℕ

/-- The disk, the daemon if it runs, and three history variables: the jobs whose request has come
completely on the disk, with what was read from their clients, those that the printer has printed,
with what it got, and the job numbers that clients have been given. -/
structure State (ι : Type) where
  spool : Spool
  daemon : Option (Daemon ι)
  accepted : List (Job × Text)
  printed : List (Job × Text)
  acked : List ℕ

/-- What the call or loop of a program point meets. What is read from a client comes with the
bytes that the buffer still holds after it. -/
inductive Event
  | go
  | fail
  | header (req : PrintReq)
  | chunk (buf stale : Text)
  | shortWrite (buf : Text) (nw : ℕ)
  | copy (n : ℕ)
  | badRead
  | lastEntry

inductive Label (ι : Type)
  | restart (entries : List ℕ)
  | crash
  | build (e : Event)
  | client (i : ι) (e : Event)
  | printer (e : Event)

/-- `SPOOLDIR "/" JOBFILE`, which is in the buffer that `init_request` reads the number to. -/
def jobFile : Text := "/var/spool/printer/jobno".toList

def initRequest (jobno : Text) : ℕ :=
  if jobno = [] then 1 else (atol (jobno ++ jobFile.drop jobno.length)).toNat

def getNewjobno (nextjob : ℕ) : ℕ := if nextjob + 1 < 2 ^ 31 then nextjob + 1 else 1

def updateJobno (jobno : Text) (nextjob : ℕ) : Text := pwrite jobno 0 (percentU nextjob)

/-- A file whose first bytes are not "%!PS" is text (`PR_TEXT`). -/
def detect (first : Bool) (req : PrintReq) (buf : Text) : PrintReq :=
  if first ∧ buf.take 4 ≠ "%!PS".toList then { req with flags := req.flags ||| 1 } else req

/-- "Hack: allow PostScript to be printed as plain text." -/
def PrintReq.extra (req : PrintReq) : Text := if req.flags &&& 1 ≠ 0 then ['\x08'] else []

/-- The job that has been printed and whose data file is not yet unlinked. -/
def PrinterPc.finishing : PrinterPc → Option Job
  | .answer jp | .unlinkData jp => some jp
  | _ => none

namespace Spool

def setData (s : Spool) (jobid : ℕ) (v : Option Text) : Spool :=
  { s with data := Function.update s.data jobid v }

def setReq (s : Spool) (jobid : ℕ) (v : Option (Option PrintReq)) : Spool :=
  { s with reqs := Function.update s.reqs jobid v }

@[grind =] theorem setData_data (s : Spool) (jobid : ℕ) (v : Option Text) (id : ℕ) :
    (s.setData jobid v).data id = if id = jobid then v else s.data id :=
  Function.update_apply ..

@[grind =] theorem setReq_data (s : Spool) (jobid : ℕ) (v : Option (Option PrintReq)) :
    (s.setReq jobid v).data = s.data := rfl

@[grind =] theorem setReq_reqs (s : Spool) (jobid : ℕ) (v : Option (Option PrintReq)) (id : ℕ) :
    (s.setReq jobid v).reqs id = if id = jobid then v else s.reqs id :=
  Function.update_apply ..

end Spool

variable {ι : Type} [DecidableEq ι]

/-- The daemon goes on, and with it a client, the printer thread or the start. -/
def State.goClient (s : State ι) (d : Daemon ι) (i : ι) (pc : ClientPc) : State ι :=
  { s with daemon := some { d with clients := Function.update d.clients i pc } }

def State.goPrinter (s : State ι) (d : Daemon ι) (pc : PrinterPc) : State ι :=
  { s with daemon := some { d with printer := pc } }

/-- `client_thread`. -/
def State.client (s : State ι) (d : Daemon ι) (i : ι) (e : Event) : Option (State ι) :=
  match d.clients i, e with
  | .free, .go => if d.entries = [] then some (s.goClient d i .header) else none
  | .header, .header req => some (s.goClient d i (.newJob req))
  | .header, .fail => some (s.goClient d i .free)
  | .newJob req, .go =>
      some (s.goClient { d with nextjob := getNewjobno d.nextjob } i (.creatData req d.nextjob))
  | .creatData req jobid, .go =>
      some ({ s with spool := s.spool.setData jobid (some []) }.goClient d i (.reading true req jobid []))
  | .creatData _ _, .fail => some (s.goClient d i .free)
  | .reading first req jobid got, .chunk buf stale =>
      if buf = [] then none
      else
        some ({ s with spool := s.spool.setData jobid ((s.spool.data jobid).map (· ++ buf)) }.goClient d i
          (.reading false (detect first req (buf ++ stale)) jobid (got ++ buf)))
  | .reading _ _ jobid _, .shortWrite buf nw =>
      if nw < buf.length then
        some ({ s with spool := s.spool.setData jobid ((s.spool.data jobid).map (· ++ buf.take nw)) }.goClient
          d i (.unlinkData jobid))
      else none
  | .reading _ req jobid got, .go => some (s.goClient d i (.creatReq req jobid got))
  | .creatReq req jobid got, .go =>
      some ({ s with spool := s.spool.setReq jobid (some none) }.goClient d i (.writeReq req jobid got))
  | .creatReq _ jobid _, .fail => some (s.goClient d i (.unlinkData jobid))
  | .writeReq req jobid got, .go =>
      some ({ s with
        spool := s.spool.setReq jobid (some (some req))
        accepted := s.accepted ++ [((⟨jobid, req⟩ : Job), got)] }.goClient d i (.respond req jobid got))
  | .writeReq _ jobid _, .fail => some (s.goClient d i (.unlinkReq jobid))
  | .respond req jobid got, .go =>
      some ({ s with acked := s.acked ++ [jobid] }.goClient d i (.addJob req jobid got))
  | .respond req jobid got, .fail => some (s.goClient d i (.addJob req jobid got))
  | .addJob req jobid _, .go =>
      some (s.goClient { d with jobs := d.jobs ++ [⟨jobid, req⟩] } i .free)
  | .unlinkReq jobid, .go =>
      some ({ s with spool := s.spool.setReq jobid none }.goClient d i (.unlinkData jobid))
  | .unlinkReq jobid, .fail => some (s.goClient d i (.unlinkData jobid))
  | .unlinkData jobid, .go =>
      some ({ s with spool := s.spool.setData jobid none }.goClient d i .free)
  | .unlinkData _, .fail => some (s.goClient d i .free)
  | _, _ => none

/-- `printer_thread`. A job whose answer does not come is printed all the same, so printing is a
step of its own. -/
def State.printer (s : State ι) (d : Daemon ι) (e : Event) : Option (State ι) :=
  match d.printer, e with
  | .waiting, .go =>
      match d.jobs with
      | [] => none
      | jp :: jobs => some (s.goPrinter { d with jobs := jobs } (.update jp))
  | .update jp, .go =>
      some ({ s with spool := { s.spool with jobno := updateJobno s.spool.jobno d.nextjob } }.goPrinter d
        (.opening jp))
  | .update jp, .copy nw =>
      if nw < (percentU d.nextjob).length then
        some ({ s with
          spool := { s.spool with jobno := pwrite s.spool.jobno 0 ((percentU d.nextjob).take nw) } }.goPrinter d
          (.opening jp))
      else none
  | .opening jp, .go =>
      if s.spool.data jp.jobid ≠ none then some (s.goPrinter d (.connecting jp)) else none
  | .opening jp, .fail =>
      some (s.goPrinter { d with canceled := d.canceled ++ [jp.jobid] } .waiting)
  | .connecting jp, .go => some (s.goPrinter d (.sending jp 0 jp.req.extra))
  | .connecting jp, .fail => some (s.goPrinter d (.defer jp))
  | .sending jp off sent, .copy nr =>
      match s.spool.data jp.jobid with
      | none => none
      | some c =>
        let buf := (c.drop off).take nr
        if buf = [] then none else some (s.goPrinter d (.sending jp (off + buf.length) (sent ++ buf)))
  | .sending jp off sent, .go =>
      match s.spool.data jp.jobid with
      | none => none
      | some c => if c.length ≤ off then some (s.goPrinter d (.status jp sent)) else none
  | .sending jp _ _, .fail => some (s.goPrinter d (.defer jp))
  | .status jp sent, .go =>
      some ({ s with printed := s.printed ++ [(jp, sent)] }.goPrinter d (.answer jp))
  | .status jp _, .fail => some (s.goPrinter d (.defer jp))
  | .answer jp, .go => some (s.goPrinter d (.unlinkData jp))
  | .answer jp, .fail => some (s.goPrinter d (.defer jp))
  | .unlinkData jp, .go =>
      some ({ s with spool := s.spool.setData jp.jobid none }.goPrinter d (.unlinkReq jp))
  | .unlinkData jp, .fail => some (s.goPrinter d (.unlinkReq jp))
  | .unlinkReq jp, .go => some ({ s with spool := s.spool.setReq jp.jobid none }.goPrinter d .waiting)
  | .unlinkReq _, .fail => some (s.goPrinter d .waiting)
  | .defer jp, .go => some (s.goPrinter { d with jobs := jp :: d.jobs } .waiting)
  | _, _ => none

/-- `build_qonstart`. -/
def State.build (s : State ι) (d : Daemon ι) (e : Event) : Option (State ι) :=
  match d.build, d.entries, e with
  | .readReq, jobid :: entries, .go =>
      match s.spool.reqs jobid with
      | none => none
      | some none => some { s with daemon := some { d with build := .unlinkReq } }
      | some (some req) =>
        some { s with daemon := some { d with entries := entries, jobs := d.jobs ++ [⟨jobid, req⟩] } }
  | .readReq, jobid :: entries, .fail =>
      some { s with daemon := some { d with entries := entries, canceled := d.canceled ++ [jobid] } }
  | .readReq, jobid :: _, .badRead =>
      if s.spool.reqs jobid ≠ none then some { s with daemon := some { d with build := .unlinkReq } }
      else none
  | .readReq, entries, .lastEntry =>
      some { s with daemon := some { d with entries := [], canceled := d.canceled ++ entries } }
  | .unlinkReq, jobid :: _, .go =>
      some { s with
        spool := s.spool.setReq jobid none
        daemon := some { d with build := .unlinkData } }
  | .unlinkReq, _ :: _, .fail => some { s with daemon := some { d with build := .unlinkData } }
  | .unlinkData, jobid :: entries, .go =>
      some { s with
        spool := s.spool.setData jobid none
        daemon := some { d with build := .readReq, entries := entries } }
  | .unlinkData, _ :: entries, .fail =>
      some { s with daemon := some { d with build := .readReq, entries := entries } }
  | _, _, _ => none

/-- A daemon that has just been started. -/
def Daemon.started (jobno : Text) (entries : List ℕ) : Daemon ι where
  nextjob := initRequest jobno
  jobs := []
  printer := .waiting
  build := .readReq
  entries := entries
  clients := fun _ => .free
  canceled := []

def State.step (s : State ι) : Label ι → Option (State ι)
  | .restart entries =>
    if s.daemon.isNone then some { s with daemon := some (.started s.spool.jobno entries) } else none
  | .crash => if s.daemon.isSome then some { s with daemon := none } else none
  | .build e => s.daemon.bind fun d => s.build d e
  | .client i e => s.daemon.bind fun d => s.client d i e
  | .printer e => s.daemon.bind fun d => s.printer d e

/-- An empty spool directory. -/
def State.start : State ι where
  spool := ⟨fun _ => none, fun _ => none, []⟩
  daemon := none
  accepted := []
  printed := []
  acked := []

/-- A start reads the names in the directory, each once, finds them below the number in the job ID
file, and reads the requests that are complete without an error; the number is written whole, and
job numbers do not wrap around. -/
def State.Regular (s : State ι) : Label ι → Prop
  | .restart entries => entries.Nodup ∧ (∀ jobid, jobid ∈ entries ↔ s.spool.reqs jobid ≠ none) ∧
      ∀ jobid ∈ entries, jobid < initRequest s.spool.jobno
  | .build .badRead => ∀ d jobid entries, s.daemon = some d → d.entries = jobid :: entries →
      ∀ req, s.spool.reqs jobid ≠ some (some req)
  | .client _ .go => ∀ d, s.daemon = some d → d.nextjob + 1 < 2 ^ 31
  | .printer (.copy _) => ∀ d jp, s.daemon = some d → d.printer ≠ .update jp
  | _ => True

/-- From the printing of a job to the unlink of its data file the daemon does not die, the answer
of the printer comes, and the unlink does not fail. -/
def State.Finishes (s : State ι) : Label ι → Prop
  | .crash | .printer .fail => ∀ d, s.daemon = some d → d.printer.finishing = none
  | _ => True

end CLib.Printer
