import CLib.Server.Assembly
import CLib.Base.Runs
import CLib.Mysql.LogRec
import CLib.Queue.Chains

namespace CLib.Server
open CLib.Base CLib.Mysql CLib.Queue

def davinciBufferSize : ℕ := 81920

def maxQueueSize : ℕ := 1000000

/-- The blanks that a string literal continued on the next source line takes up. -/
def indent : Text := List.replicate 36 ' '

/-- The fragments by which `dispatch_func` knows some normal statements. -/
def normalSqlFragments : List Text :=
  ["OR (plat='s' AND productLine='s') ".toList ++ indent ++
      "OR (plat='s' AND productLine='s')".toList,
    " OR namespace='s' OR namespace='s' OR ".toList,
    "update poms_superfile99_part_tmp__tablet_99 ".toList ++ indent ++
      "set upload_id = unhex (?) where ".toList,
    "type from que_all_9 where que_id".toList,
    "from coupon_base where activity_id".toList,
    "update express_order set owner = ? ".toList ++ indent ++
      "where ? and owner = ? and cuid".toList]

/-- `"%s %s %[^/*##]/*## %s %s"`. -/
def recordFormat : List Directive :=
  [.string, .blank, .string, .blank, .excluding "/*##".toList, .literal '/', .literal '*',
    .literal '#', .literal '#', .blank, .string, .blank, .string]

/-- The fields of `davinci_log_rec_t` that `dispatch_func` reads from a record. -/
structure DavinciLogRec where
  dbname : Text
  tbname : Text
  queryType : Text
  reserved : Text
  dbhost : Text

/-- The words of the header in the order of the record. -/
def headerWords (record : Text) : List Text := sscanf recordFormat record

/-- The members of `log_rec_head` after the parse. -/
def parseRecord (record : Text) : DavinciLogRec :=
  let head := storeWords (headerWords record)
  { dbname := member head .dbname
    tbname := member head .tbname
    queryType := member head .queryType
    reserved := member head .reserved
    dbhost := member head .dbhost }

/-- The record has both marks, and the parse of its header writes past `log_rec_head`. -/
def HeaderOverruns (record : Text) : Prop :=
  "##*/".toList <:+: record ∧ recordMark <:+: record ∧ ¬ WordsFit (headerWords record)

instance (record : Text) : Decidable (HeaderOverruns record) :=
  inferInstanceAs (Decidable (_ ∧ _ ∧ ¬ _))

/-- The same of the parse in `sql_check_sql`. -/
def LogRecOverruns (record : Text) : Prop := ¬ WordsFit (sscanf logRecFormat record)

instance (record : Text) : Decidable (LogRecOverruns record) := inferInstanceAs (Decidable (¬ _))

/-- The four ways of `dispatch_func` through the handling of a record. -/
inductive DispatchBranch
  | noSql | noHeader | skipped | checked
  deriving DecidableEq

def syntaxError : Text := "SYNTAX_ERROR".toList

def dispatchBranch (record : Text) : DispatchBranch :=
  match strstr record "##*/".toList with
  | none => .noSql
  | some rest =>
    let sql := rest.drop 4
    if (strstr record recordMark).isNone then .noHeader
    else if (decide (sql.length < davinciBufferSize) ||
          normalSqlFragments.any fun f => (strstr sql f).isNone) &&
        !strncmpZero (parseRecord record).queryType syntaxError syntaxError.length &&
        decide (sql.length < davinciBufferSize * 10) then .checked
    else .skipped

/-- The threads that take `s_queue_mutex`; `other` stands for `main` and `talk_to_client`,
whose sections do not touch the queue. -/
inductive Thread (ι : Type)
  | enqueuer (i : ι)
  | dispatcher
  | other
  deriving DecidableEq

inductive EnqueuerPc
  | idle
  | reading
  | entered
  | ready (p : Ptr)
  | locked (p : Ptr)
  | queued
  | counted
  | gone
  | goneLocked
  deriving DecidableEq

/-- The thread is between a lock and an unlock; for good, where it left without one. -/
def EnqueuerPc.inSection : EnqueuerPc → Bool
  | .reading | .locked _ | .queued | .counted | .goneLocked => true
  | .idle | .entered | .ready _ | .gone => false

/-- The record that the thread has made and not yet enqueued. -/
def EnqueuerPc.held : EnqueuerPc → Option Ptr
  | .ready p | .locked p => some p
  | _ => none

/-- By how much `g_queue_node_count` is ahead of the list at this point of the section. -/
def EnqueuerPc.ahead : EnqueuerPc → ℤ
  | .queued => -1
  | _ => 0

/-- Program points of `dispatch_func`, with the value of `sql_ptr`. -/
inductive DispatcherPc
  | testing
  | wanting
  | locked
  | nonEmpty
  | popped (p : Option Ptr)
  | counted (p : Ptr)
  | settled (p : Ptr) (b : DispatchBranch)
  /-- A write past `log_rec_head` has taken the thread out of its course. -/
  | smashed (p : Ptr)
  | finished
  deriving DecidableEq

def DispatcherPc.inSection : DispatcherPc → Bool
  | .testing | .wanting => false
  | _ => true

/-- The record that the thread has popped and not yet freed. -/
def DispatcherPc.held : DispatcherPc → Option Ptr
  | .popped p => p
  | .counted p | .settled p _ | .smashed p => some p
  | _ => none

def DispatcherPc.ahead : DispatcherPc → ℤ
  | .popped _ => 1
  | _ => 0

/-- A record buffer and what it holds at a moment, `none` if it is not allocated. -/
abbrev Entry := Ptr × Option Text

/-- The queue, the record buffers and the threads, with the history of the
calls of `enqueue`, `front_and_dequeue` and `free`. -/
structure Pipeline (ι : Type) where
  queue : Node Ptr
  count : ℤ
  owner : Option (Thread ι)
  enqueuers : ι → EnqueuerPc
  dispatcher : DispatcherPc
  buffers : Ptr → Option Text
  pushed : List Entry
  popped : List Entry
  freed : List Entry
  /-- A pointer was followed, or a buffer read or freed, that was not allocated. -/
  fault : Bool

inductive EnqueuerEvent
  | lockFile | unlockFile | leave
  | enter
  | keep
  | build (p : Ptr) (record : Text)
  | lock
  | enqueue (node : Ptr)
  | count
  | unlock

/-- `stores` says that the rule engine has the record stored, for which `sql_check_sql`
parses the header once more. -/
inductive Event (ι : Type)
  | enqueuer (i : ι) (e : EnqueuerEvent)
  | dispatcher (stores : Bool)
  | otherLock
  | otherUnlock

namespace Pipeline

section State
variable {ι : Type}

/-- `main` has called `create_queue`, whose `malloc` returned `p` for the node. -/
def initial (p : Ptr) : Pipeline ι where
  queue := Node.createQueue p
  count := 0
  owner := none
  enqueuers _ := .idle
  dispatcher := .testing
  buffers _ := none
  pushed := []
  popped := []
  freed := []
  fault := false

def entry (s : Pipeline ι) (p : Ptr) : Entry := (p, s.buffers p)

/-- What has been taken from the queue and not yet freed. -/
def inHand (s : Pipeline ι) : List Entry := (s.dispatcher.held.map s.entry).toList

/-- By how much the counter is ahead of the list inside the section that is open. -/
def ahead (s : Pipeline ι) : ℤ :=
  match s.owner with
  | some (.enqueuer i) => (s.enqueuers i).ahead
  | some .dispatcher => s.dispatcher.ahead
  | _ => 0

end State

variable {ι : Type} [DecidableEq ι]

def moveTo (s : Pipeline ι) (i : ι) (pc : EnqueuerPc) (owner : Option (Thread ι)) : Pipeline ι :=
  { s with enqueuers := Function.update s.enqueuers i pc, owner := owner }

/-- The steps of `enqueue_func` around the queue. The addresses are what `malloc`
returns, so they are not in use; the test against the limit takes no lock. -/
def stepEnqueuer (s : Pipeline ι) (i : ι) (e : EnqueuerEvent) : Option (Pipeline ι) :=
  match s.enqueuers i, e with
  | .idle, .lockFile => if s.owner = none then some (s.moveTo i .reading (some (.enqueuer i))) else none
  | .reading, .unlockFile => some (s.moveTo i .idle none)
  | .idle, .leave => some (s.moveTo i .gone s.owner)
  | .reading, .leave => some (s.moveTo i .goneLocked s.owner)
  | .idle, .enter => if s.count < maxQueueSize then some (s.moveTo i .entered s.owner) else none
  | .entered, .keep => some (s.moveTo i .idle s.owner)
  | .entered, .build p record =>
    if s.buffers p = none then
      some { s with
        enqueuers := Function.update s.enqueuers i (.ready p)
        buffers := Function.update s.buffers p (some record) }
    else none
  | .ready p, .lock =>
    if s.owner = none then some (s.moveTo i (.locked p) (some (.enqueuer i))) else none
  | .locked p, .enqueue node =>
    if s.queue.cells node = none then
      match s.queue.enqueue node p with
      | none => some { s with fault := true }
      | some q =>
        some { s with
          enqueuers := Function.update s.enqueuers i .queued
          queue := q
          pushed := s.pushed ++ [s.entry p] }
    else none
  | .queued, .count =>
    some { s with enqueuers := Function.update s.enqueuers i .counted, count := s.count + 1 }
  | .counted, .unlock => some (s.moveTo i .idle none)
  | _, _ => none

/-- The next step of `dispatch_func`. -/
def stepDispatcher (s : Pipeline ι) (stores : Bool) : Option (Pipeline ι) :=
  match s.dispatcher with
  | .testing => some { s with dispatcher := if 0 < s.count then .wanting else .testing }
  | .wanting =>
    if s.owner = none then some { s with dispatcher := .locked, owner := some .dispatcher } else none
  | .locked => some { s with dispatcher := if s.queue.isEmpty then .finished else .nonEmpty }
  | .nonEmpty =>
    match s.queue.frontAndDequeue with
    | none => some { s with fault := true }
    | some (p, q) =>
      some { s with
        queue := q
        dispatcher := .popped p
        popped := s.popped ++ (p.map s.entry).toList }
  | .popped p =>
    some { s with
      count := s.count - 1
      dispatcher := match p with | some p => .counted p | none => .finished }
  | .counted p =>
    match s.buffers p with
    | none => some { s with fault := true }
    | some record =>
      if HeaderOverruns record then some { s with dispatcher := .smashed p }
      else some { s with dispatcher := .settled p (dispatchBranch record) }
  | .settled p b =>
    -- Every branch ends in `free(sql_ptr)`, after the rule engine where it is called.
    match s.buffers p with
    | none => some { s with fault := true }
    | some record =>
      if b = .checked ∧ stores ∧ LogRecOverruns record then
        some { s with dispatcher := .smashed p }
      else
        some { s with
          buffers := Function.update s.buffers p none
          dispatcher := .finished
          freed := s.freed ++ [s.entry p] }
  | .smashed _ => none
  | .finished => some { s with dispatcher := .testing, owner := none }

def step (s : Pipeline ι) : Event ι → Option (Pipeline ι)
  | .enqueuer i e => s.stepEnqueuer i e
  | .dispatcher stores => s.stepDispatcher stores
  | .otherLock => if s.owner = none then some { s with owner := some .other } else none
  | .otherUnlock => if s.owner = some .other then some { s with owner := none } else none

/-- What a step of `enqueue_func` can be. -/
inductive Enqueues (s : Pipeline ι) (i : ι) : EnqueuerEvent → Pipeline ι → Prop
  | lockFile (hi : s.enqueuers i = .idle) (ho : s.owner = none) :
      s.Enqueues i .lockFile (s.moveTo i .reading (some (.enqueuer i)))
  | unlockFile (hi : s.enqueuers i = .reading) : s.Enqueues i .unlockFile (s.moveTo i .idle none)
  | leave (hi : s.enqueuers i = .idle) : s.Enqueues i .leave (s.moveTo i .gone s.owner)
  | leaveLocked (hi : s.enqueuers i = .reading) :
      s.Enqueues i .leave (s.moveTo i .goneLocked s.owner)
  | enter (hi : s.enqueuers i = .idle) (hbelow : s.count < maxQueueSize) :
      s.Enqueues i .enter (s.moveTo i .entered s.owner)
  | keep (hi : s.enqueuers i = .entered) : s.Enqueues i .keep (s.moveTo i .idle s.owner)
  | build (p record) (hi : s.enqueuers i = .entered) (hp : s.buffers p = none) :
      s.Enqueues i (.build p record) { s with
        enqueuers := Function.update s.enqueuers i (.ready p)
        buffers := Function.update s.buffers p (some record) }
  | lock (p) (hi : s.enqueuers i = .ready p) (ho : s.owner = none) :
      s.Enqueues i .lock (s.moveTo i (.locked p) (some (.enqueuer i)))
  | enqueue (p node q) (hi : s.enqueuers i = .locked p) (hnode : s.queue.cells node = none)
      (hq : s.queue.enqueue node p = some q) :
      s.Enqueues i (.enqueue node) { s with
        enqueuers := Function.update s.enqueuers i .queued
        queue := q
        pushed := s.pushed ++ [s.entry p] }
  | enqueueFault (p node) (hi : s.enqueuers i = .locked p) (hnode : s.queue.cells node = none)
      (hq : s.queue.enqueue node p = none) : s.Enqueues i (.enqueue node) { s with fault := true }
  | count (hi : s.enqueuers i = .queued) :
      s.Enqueues i .count
        { s with enqueuers := Function.update s.enqueuers i .counted, count := s.count + 1 }
  | unlock (hi : s.enqueuers i = .counted) : s.Enqueues i .unlock (s.moveTo i .idle none)

theorem enqueues_of_step {s t : Pipeline ι} {i : ι} {e : EnqueuerEvent}
    (ht : s.stepEnqueuer i e = some t) : s.Enqueues i e t := by
  unfold stepEnqueuer at ht
  split at ht
  · next hi =>
    obtain ⟨ho, ht⟩ := Option.ite_none_right_eq_some.mp ht
    exact Option.some.inj ht ▸ .lockFile hi ho
  · next hi => exact Option.some.inj ht ▸ .unlockFile hi
  · next hi => exact Option.some.inj ht ▸ .leave hi
  · next hi => exact Option.some.inj ht ▸ .leaveLocked hi
  · next hi =>
    obtain ⟨hbelow, ht⟩ := Option.ite_none_right_eq_some.mp ht
    exact Option.some.inj ht ▸ .enter hi hbelow
  · next hi => exact Option.some.inj ht ▸ .keep hi
  · next p record hi =>
    obtain ⟨hp, ht⟩ := Option.ite_none_right_eq_some.mp ht
    exact Option.some.inj ht ▸ .build p record hi hp
  · next p hi =>
    obtain ⟨ho, ht⟩ := Option.ite_none_right_eq_some.mp ht
    exact Option.some.inj ht ▸ .lock p hi ho
  · next p node hi =>
    obtain ⟨hnode, ht⟩ := Option.ite_none_right_eq_some.mp ht
    cases hq : s.queue.enqueue node p with
    | none =>
      rw [hq] at ht
      exact Option.some.inj ht ▸ .enqueueFault p node hi hnode hq
    | some q =>
      rw [hq] at ht
      exact Option.some.inj ht ▸ .enqueue p node q hi hnode hq
  · next hi => exact Option.some.inj ht ▸ .count hi
  · next hi => exact Option.some.inj ht ▸ .unlock hi
  · cases ht

/-- What a step of `dispatch_func` can be. -/
inductive Dispatches (s : Pipeline ι) (stores : Bool) : Pipeline ι → Prop
  | testing (hd : s.dispatcher = .testing) :
      s.Dispatches stores { s with dispatcher := if 0 < s.count then .wanting else .testing }
  | wanting (hd : s.dispatcher = .wanting) (ho : s.owner = none) :
      s.Dispatches stores { s with dispatcher := .locked, owner := some .dispatcher }
  | locked (hd : s.dispatcher = .locked) :
      s.Dispatches stores { s with dispatcher := if s.queue.isEmpty then .finished else .nonEmpty }
  | pop (p q) (hd : s.dispatcher = .nonEmpty) (hq : s.queue.frontAndDequeue = some (p, q)) :
      s.Dispatches stores { s with
        queue := q
        dispatcher := .popped p
        popped := s.popped ++ (p.map s.entry).toList }
  | popFault (hd : s.dispatcher = .nonEmpty) (hq : s.queue.frontAndDequeue = none) :
      s.Dispatches stores { s with fault := true }
  | countDown (p) (hd : s.dispatcher = .popped (some p)) :
      s.Dispatches stores { s with count := s.count - 1, dispatcher := .counted p }
  | countDownNull (hd : s.dispatcher = .popped none) :
      s.Dispatches stores { s with count := s.count - 1, dispatcher := .finished }
  | settle (p record) (hd : s.dispatcher = .counted p) (hrecord : s.buffers p = some record)
      (hfits : ¬ HeaderOverruns record) :
      s.Dispatches stores { s with dispatcher := .settled p (dispatchBranch record) }
  | settleSmash (p record) (hd : s.dispatcher = .counted p) (hrecord : s.buffers p = some record)
      (hover : HeaderOverruns record) : s.Dispatches stores { s with dispatcher := .smashed p }
  | settleFault (p) (hd : s.dispatcher = .counted p) (hp : s.buffers p = none) :
      s.Dispatches stores { s with fault := true }
  | free (p b record) (hd : s.dispatcher = .settled p b) (hrecord : s.buffers p = some record)
      (hfits : b = .checked → stores → ¬ LogRecOverruns record) :
      s.Dispatches stores { s with
        buffers := Function.update s.buffers p none
        dispatcher := .finished
        freed := s.freed ++ [s.entry p] }
  | checkSmash (p record) (hd : s.dispatcher = .settled p .checked)
      (hrecord : s.buffers p = some record) (hstores : stores) (hover : LogRecOverruns record) :
      s.Dispatches stores { s with dispatcher := .smashed p }
  | freeFault (p b) (hd : s.dispatcher = .settled p b) (hp : s.buffers p = none) :
      s.Dispatches stores { s with fault := true }
  | finished (hd : s.dispatcher = .finished) :
      s.Dispatches stores { s with dispatcher := .testing, owner := none }

omit [DecidableEq ι] in
theorem dispatches_of_step {s t : Pipeline ι} {stores : Bool} (ht : s.stepDispatcher stores = some t) :
    s.Dispatches stores t := by
  unfold stepDispatcher at ht
  split at ht
  · next hd => exact Option.some.inj ht ▸ .testing hd
  · next hd =>
    obtain ⟨ho, ht⟩ := Option.ite_none_right_eq_some.mp ht
    exact Option.some.inj ht ▸ .wanting hd ho
  · next hd => exact Option.some.inj ht ▸ .locked hd
  · next hd =>
    cases hq : s.queue.frontAndDequeue with
    | none =>
      rw [hq] at ht
      exact Option.some.inj ht ▸ .popFault hd hq
    | some r =>
      rw [hq] at ht
      exact Option.some.inj ht ▸ .pop r.1 r.2 hd hq
  · next p hd =>
    cases p with
    | none => exact Option.some.inj ht ▸ .countDownNull hd
    | some p => exact Option.some.inj ht ▸ .countDown p hd
  · next p hd =>
    cases hp : s.buffers p with
    | none =>
      rw [hp] at ht
      exact Option.some.inj ht ▸ .settleFault p hd hp
    | some record =>
      rw [hp] at ht
      dsimp only at ht
      split_ifs at ht with hover
      · exact Option.some.inj ht ▸ .settleSmash p record hd hp hover
      · exact Option.some.inj ht ▸ .settle p record hd hp hover
  · next p b hd =>
    cases hp : s.buffers p with
    | none =>
      rw [hp] at ht
      exact Option.some.inj ht ▸ .freeFault p b hd hp
    | some record =>
      rw [hp] at ht
      dsimp only at ht
      split_ifs at ht with hover
      · obtain ⟨rfl, hstores, hover⟩ := hover
        exact Option.some.inj ht ▸ .checkSmash p record hd hp hstores hover
      · exact Option.some.inj ht ▸ .free p b record hd hp fun hb hs ho => hover ⟨hb, hs, ho⟩
  · cases ht
  · next hd => exact Option.some.inj ht ▸ .finished hd

end Pipeline
end CLib.Server
