import CLib.Echo.Exchange

namespace CLib.Echo
open CLib.Base

/-- `select`: data and a failed `Read` are handled alike. -/
def selectReaction (r : ReadResult) : Reaction := if r.count = 0 then .close else .write

def pollReaction (r : ReadResult) : Reaction :=
  if r.count < 0 then if r.reset then .close else .exit
  else if r.count = 0 then .close
  else .writen

def epollReaction (r : ReadResult) : Reaction := if r.count = 0 then .close else .writen

def doWorkReaction (r : ReadResult) : Reaction := if r.count = 0 then .close else .write

theorem echoes_selectReaction : Echoes selectReaction where
  eof := rfl
  data b bs := .inl (if_neg (by simp [ReadResult.count]; omega))

theorem echoes_epollReaction : Echoes epollReaction where
  eof := rfl
  data b bs := .inr (if_neg (by simp [ReadResult.count]; omega))

theorem echoes_doWorkReaction : Echoes doWorkReaction := echoes_selectReaction

theorem echoes_pollReaction : Echoes pollReaction where
  eof := rfl
  data b bs := by
    right
    rw [pollReaction, if_neg (by simp [ReadResult.count]; omega),
      if_neg (by simp [ReadResult.count]; omega)]

/-- The loop over `client[]` of `select` or `poll`: where it begins, when it ends early, and
what it does with a read result. -/
structure Loop where
  first : ℕ
  handled : ℤ → Bool
  react : ReadResult → Reaction

def selectLoop : Loop := ⟨0, fun nready => nready = 0, selectReaction⟩

def pollLoop : Loop := ⟨1, fun nready => nready ≤ 0, pollReaction⟩

/-- The loop at the slot `i`. -/
structure Scan where
  i : ℕ
  ready : ℕ → Bool
  nready : ℤ

/-- The server of `select` or `poll`. -/
structure Table (κ : Type) where
  client : ℕ → Option κ
  maxi : ℤ
  scan : Option Scan
  exchange : Exchange κ

/-- A new connection `c` has got the free slot `i`; `select` or `poll` has returned; the loop
goes past a slot; `Read` has returned; `write` has returned. -/
inductive TableStep (κ : Type)
  | accept (i : ℕ) (c : κ)
  | wait (ready : ℕ → Bool) (nready : ℤ)
  | next
  | read (r : ReadResult)
  | write (a : WriteAnswer)

variable {κ : Type}

namespace Table

def start (L : Loop) (buf : ℕ → Byte) : Table κ := ⟨fun _ => none, L.first - 1, none, .start buf⟩

def due (t : Table κ) : Option κ :=
  t.scan.bind fun s => if s.i ≤ t.maxi ∧ s.ready s.i then t.client s.i else none

/-- `if (--nready == 0) break;` once the slot has been handled. -/
def settle (L : Loop) (t : Table κ) : Table κ :=
  if t.exchange.job.isSome then t
  else
    { t with
      scan := t.scan.bind fun s =>
        if L.handled (s.nready - 1) then none else some ⟨s.i + 1, s.ready, s.nready - 1⟩ }

@[simp] theorem settle_exchange (L : Loop) (t : Table κ) : (t.settle L).exchange = t.exchange := by
  unfold settle
  split_ifs <;> rfl

def clear (t : Table κ) : Table κ :=
  { t with client := fun i => if t.scan.any fun s => s.i = i then none else t.client i }

def step (L : Loop) (t : Table κ) : TableStep κ → Option (Table κ)
  | .accept i c =>
    if t.exchange.exited ∨ t.scan.isSome ∨ i < L.first ∨ (t.client i).isSome then none
    else some { t with client := Function.update t.client i (some c), maxi := max t.maxi i }
  | .wait ready nready =>
    if t.exchange.exited ∨ t.scan.isSome then none
    else some { t with scan := some ⟨L.first, ready, nready⟩ }
  | .next =>
    if t.exchange.exited ∨ t.exchange.job.isSome ∨ t.due.isSome then none
    else t.scan.map fun s => { t with scan := if t.maxi < s.i then none else some { s with i := s.i + 1 } }
  | .read r =>
    t.due.bind fun c => (t.exchange.read L.react c r).map fun x =>
      settle L { (if L.react r = Reaction.close then t.clear else t) with exchange := x }
  | .write a => (t.exchange.write a).map fun x => settle L { t with exchange := x }

/-- What a step of the server is for the handling of its clients. -/
def event (t : Table κ) : TableStep κ → Option (Event κ)
  | .read r => t.due.map fun c => .read c r
  | .write a => some (.write a)
  | _ => none

end Table

/-- The server of `epoll`; the events that have still to be handled, each with the flag
`EPOLLIN` and its connection, or none for the listening socket. -/
structure Epoll (κ : Type) where
  client : ℕ → Option κ
  maxi : ℤ
  todo : List (Bool × Option κ)
  exited : Bool
  exchange : Exchange κ

/-- `epoll_wait` has returned; an event without `EPOLLIN` is passed over; a connection is
accepted; `Read` has returned, and `epoll_ctl` if the connection is to be closed; `write` has
returned. -/
inductive EpollStep (κ : Type)
  | wait (events : List (Bool × Option κ))
  | skip
  | accept (i : ℕ) (c : κ)
  | read (r : ReadResult) (ctlFails : Bool)
  | write (a : WriteAnswer)

namespace Epoll

def start (buf : ℕ → Byte) : Epoll κ := ⟨fun _ => none, -1, [], false, .start buf⟩

def due (t : Epoll κ) : Option κ :=
  match t.todo with
  | (true, some c) :: _ => some c
  | _ => none

/-- The next event, once this one has been handled. -/
def settle (t : Epoll κ) : Epoll κ :=
  if t.exchange.job.isSome then t else { t with todo := t.todo.tail }

@[simp] theorem settle_exchange (t : Epoll κ) : t.settle.exchange = t.exchange := by
  unfold settle
  split_ifs <;> rfl

variable [DecidableEq κ]

/-- The search for `sockfd` in `client[]`, and `client[j] = -1`. -/
def clear (t : Epoll κ) (c : κ) : Epoll κ :=
  match (List.range (t.maxi + 1).toNat).find? fun j => t.client j = some c with
  | none => t
  | some j => { t with client := Function.update t.client j none }

def step (t : Epoll κ) : EpollStep κ → Option (Epoll κ)
  | .wait events => if t.exited ∨ t.todo ≠ [] then none else some { t with todo := events }
  | .skip =>
    match t.todo with
    | (false, _) :: rest => if t.exited then none else some { t with todo := rest }
    | _ => none
  | .accept i c =>
    match t.todo with
    | (true, none) :: rest =>
      if t.exited ∨ (t.client i).isSome then none
      else
        some { t with client := Function.update t.client i (some c), maxi := max t.maxi i, todo := rest }
    | _ => none
  | .read r ctlFails =>
    if t.exited then none
    else
      t.due.bind fun c => (t.exchange.read epollReaction c r).map fun x =>
        settle { (if epollReaction r = Reaction.close then t.clear c else t) with
          exchange := x, exited := epollReaction r = Reaction.close && ctlFails }
  | .write a => (t.exchange.write a).map fun x => settle { t with exchange := x }

def event (t : Epoll κ) : EpollStep κ → Option (Event κ)
  | .read r _ => t.due.map fun c => .read c r
  | .write a => some (.write a)
  | _ => none

end Epoll

/-- A thread of the multi-thread server. -/
inductive Worker (κ : Type)
  | unborn
  | serving (c : κ)
  | ended

/-- The multi-thread server: `do_work` in each of its threads. -/
structure Threads (τ κ : Type) where
  worker : τ → Worker κ
  exchange : τ → Exchange κ

/-- A thread is created for a new connection, or `Read` or `write` has returned in a thread. -/
inductive ThreadStep (τ κ : Type)
  | create (i : τ) (c : κ)
  | read (i : τ) (r : ReadResult)
  | write (i : τ) (a : WriteAnswer)

namespace Threads
variable {τ : Type}

/-- Each thread has a buffer of its own on its stack. -/
def start (buf : τ → ℕ → Byte) : Threads τ κ := ⟨fun _ => .unborn, fun i => .start (buf i)⟩

variable [DecidableEq τ]

def step (t : Threads τ κ) : ThreadStep τ κ → Option (Threads τ κ)
  | .create i c =>
    match t.worker i with
    | .unborn => some { t with worker := Function.update t.worker i (.serving c) }
    | _ => none
  | .read i r =>
    match t.worker i with
    | .serving c =>
      ((t.exchange i).read doWorkReaction c r).map fun x =>
        { worker := if doWorkReaction r = .close then Function.update t.worker i .ended else t.worker
          exchange := Function.update t.exchange i x }
    | _ => none
  | .write i a =>
    ((t.exchange i).write a).map fun x => { t with exchange := Function.update t.exchange i x }

/-- What a step is for the thread `i`. -/
def event (i : τ) (t : Threads τ κ) : ThreadStep τ κ → Option (Event κ)
  | .read j r =>
    if j = i then
      match t.worker i with
      | .serving c => some (.read c r)
      | _ => none
    else none
  | .write j a => if j = i then some (.write a) else none
  | .create _ _ => none

end Threads

/-- A server each of whose steps is a step of the handling of its clients, or leaves it alone. -/
structure Serving {σ ℓ : Type} (react : ReadResult → Reaction) (step : σ → ℓ → Option σ)
    (view : σ → Exchange κ) (event : σ → ℓ → Option (Event κ)) : Prop where
  echoes : Echoes react
  none : ∀ s l t, step s l = some t → event s l = Option.none → view t = view s
  some : ∀ s l t e, step s l = Option.some t → event s l = Option.some e →
    (view s).step react e = Option.some (view t)

/-- A condition on the events of the handling as one on the steps of the server. -/
def Lift {σ ℓ : Type} (view : σ → Exchange κ) (event : σ → ℓ → Option (Event κ))
    (G : Exchange κ → Event κ → Prop) (s : σ) (l : ℓ) : Prop :=
  ∀ e, event s l = some e → G (view s) e

namespace Serving
variable {σ ℓ : Type} {react : ReadResult → Reaction} {step : σ → ℓ → Option σ}
  {view : σ → Exchange κ} {event : σ → ℓ → Option (Event κ)} {s : σ} {ls : List ℓ} {buf : ℕ → Byte}

/-- An invariant of the handling is one of the server. -/
theorem invariant (h : Serving react step view event) {I : Exchange κ → Prop}
    {G : Exchange κ → Event κ → Prop}
    (hI : ∀ x e y, I x → G x e → x.step react e = Option.some y → I y) {t : σ} {l : ℓ} {u : σ}
    (ht : I (view t)) (hG : Lift view event G t l) (hu : step t l = Option.some u) : I (view u) := by
  cases he : event t l with
  | none =>
    rw [h.none t l u hu he]
    exact ht
  | some e => exact hI _ e _ ht (hG e he) (h.some t l u e hu he)

variable [DecidableEq κ]

theorem serves (h : Serving react step view event) (h0 : view s = .start buf)
    (hG : Along step (Lift view event Exchange.Kept) s ls) :
    ∀ t, Visits step s ls t → Serves (view t).done (view t).current := by
  intro t ht
  apply Exchange.Inv.serves
  refine hG.invariant (I := fun t => (view t).Inv) (by rw [h0]; exact Exchange.inv_start buf) ?_ t ht
  intro t l u hinv hl hu
  exact h.invariant (I := Exchange.Inv) (fun x e y hx he hy => hx.step h.echoes he hy) hinv hl hu

theorem along_of_serves (h : Serving react step view event) (h0 : view s = .start buf)
    (hserves : ∀ t, Visits step s ls t → Serves (view t).done (view t).current) :
    Along step (Lift view event fun x e => x.SilentAfterFailure e ∧ x.WholeWrite e) s ls := by
  refine along_of_forall_visits (I := fun t => (view t).Sending) ?_ ?_ ?_ hserves
  · rw [h0]
    intro j hj
    cases hj
  · intro t l u hsending hl hu
    refine h.invariant (I := Exchange.Sending) (fun x e y hx he hy => ?_) hsending hl hu
    exact hx.step h.echoes he.1 hy
  · intro t l u hsending hu hserves e he
    exact hsending.kept_of_serves (h.some t l u e hu he) hserves

omit [DecidableEq κ] in
theorem along_iff (h : Serving react step view event) (h0 : view s = .start buf)
    {G H : Exchange κ → Event κ → Prop} (hGH : ∀ x e, x.Fits react → (G x e ↔ H x e)) :
    Along step (Lift view event G) s ls ↔ Along step (Lift view event H) s ls := by
  apply along_congr (I := fun t => (view t).Fits react)
  · rw [h0]
    intro j hj
    cases hj
  · intro t l u hfits hu
    refine h.invariant (I := Exchange.Fits react) (G := fun _ _ => True)
      (fun x e y hx _ hy => hx.step hy) hfits (fun _ _ => trivial) hu
  · intro t l hfits
    exact forall_congr' fun e => forall_congr' fun _ => hGH _ _ hfits

end Serving

theorem Table.serving {L : Loop} (hL : Echoes L.react) :
    Serving L.react (Table.step L : Table κ → TableStep κ → _) Table.exchange Table.event where
  echoes := hL
  none t l u hu he := by
    cases l with
    | accept i c =>
      unfold Table.step at hu
      dsimp only at hu
      split_ifs at hu
      rw [← Option.some.inj hu]
    | wait ready nready =>
      unfold Table.step at hu
      dsimp only at hu
      split_ifs at hu
      rw [← Option.some.inj hu]
    | next =>
      unfold Table.step at hu
      dsimp only at hu
      split_ifs at hu
      obtain ⟨_, -, rfl⟩ := Option.map_eq_some_iff.mp hu
      rfl
    | read r =>
      obtain ⟨c, hc, -⟩ := Option.bind_eq_some_iff.mp hu
      simp [Table.event, hc] at he
    | write a => cases he
  some t l u e hu he := by
    cases l with
    | accept i c => cases he
    | wait ready nready => cases he
    | next => cases he
    | read r =>
      obtain ⟨c, hc, hu⟩ := Option.bind_eq_some_iff.mp hu
      obtain ⟨x, hx, rfl⟩ := Option.map_eq_some_iff.mp hu
      obtain rfl : Event.read c r = e := by simpa [Table.event, hc] using he
      rw [Table.settle_exchange]
      exact hx
    | write a =>
      obtain ⟨x, hx, rfl⟩ := Option.map_eq_some_iff.mp hu
      obtain rfl := Option.some.inj he
      rw [Table.settle_exchange]
      exact hx

theorem Epoll.serving [DecidableEq κ] :
    Serving epollReaction (Epoll.step : Epoll κ → EpollStep κ → _) Epoll.exchange Epoll.event where
  echoes := echoes_epollReaction
  none t l u hu he := by
    cases l with
    | wait events =>
      unfold Epoll.step at hu
      dsimp only at hu
      split_ifs at hu
      rw [← Option.some.inj hu]
    | skip =>
      unfold Epoll.step at hu
      dsimp only at hu
      split at hu
      · split_ifs at hu
        rw [← Option.some.inj hu]
      · cases hu
    | accept i c =>
      unfold Epoll.step at hu
      dsimp only at hu
      split at hu
      · split_ifs at hu
        rw [← Option.some.inj hu]
      · cases hu
    | read r ctlFails =>
      obtain ⟨-, hu⟩ := Option.ite_none_left_eq_some.mp hu
      obtain ⟨c, hc, -⟩ := Option.bind_eq_some_iff.mp hu
      simp [Epoll.event, hc] at he
    | write a => cases he
  some t l u e hu he := by
    cases l with
    | wait events => cases he
    | skip => cases he
    | accept i c => cases he
    | read r ctlFails =>
      obtain ⟨-, hu⟩ := Option.ite_none_left_eq_some.mp hu
      obtain ⟨c, hc, hu⟩ := Option.bind_eq_some_iff.mp hu
      obtain ⟨x, hx, rfl⟩ := Option.map_eq_some_iff.mp hu
      obtain rfl : Event.read c r = e := by simpa [Epoll.event, hc] using he
      rw [Epoll.settle_exchange]
      exact hx
    | write a =>
      obtain ⟨x, hx, rfl⟩ := Option.map_eq_some_iff.mp hu
      obtain rfl := Option.some.inj he
      rw [Epoll.settle_exchange]
      exact hx

theorem Threads.serving {τ : Type} [DecidableEq τ] (i : τ) :
    Serving doWorkReaction (Threads.step : Threads τ κ → ThreadStep τ κ → _) (fun t => t.exchange i)
      (Threads.event i) where
  echoes := echoes_doWorkReaction
  none t l u hu he := by
    cases l with
    | create j c =>
      unfold Threads.step at hu
      dsimp only at hu
      split at hu
      · rw [← Option.some.inj hu]
      · cases hu
    | read j r =>
      unfold Threads.step at hu
      dsimp only at hu
      cases hw : t.worker j with
      | serving c =>
        rw [hw] at hu
        obtain ⟨x, -, rfl⟩ := Option.map_eq_some_iff.mp hu
        apply Function.update_of_ne
        rintro rfl
        simp [Threads.event, hw] at he
      | unborn | ended =>
        rw [hw] at hu
        cases hu
    | write j a =>
      obtain ⟨x, -, rfl⟩ := Option.map_eq_some_iff.mp hu
      apply Function.update_of_ne
      rintro rfl
      simp [Threads.event] at he
  some t l u e hu he := by
    cases l with
    | create j c => cases he
    | read j r =>
      unfold Threads.step at hu
      dsimp only at hu
      cases hw : t.worker j with
      | serving c =>
        rw [hw] at hu
        obtain ⟨x, hx, rfl⟩ := Option.map_eq_some_iff.mp hu
        by_cases hji : j = i
        · subst hji
          obtain rfl : Event.read c r = e := by simpa [Threads.event, hw] using he
          show _ = some (Function.update t.exchange j x j)
          rw [Function.update_self]
          exact hx
        · simp [Threads.event, hji] at he
      | unborn | ended =>
        rw [hw] at hu
        cases hu
    | write j a =>
      obtain ⟨x, hx, rfl⟩ := Option.map_eq_some_iff.mp hu
      by_cases hji : j = i
      · subst hji
        obtain rfl : Event.write a = e := by simpa [Threads.event] using he
        show _ = some (Function.update t.exchange j x j)
        rw [Function.update_self]
        exact hx
      · simp [Threads.event, hji] at he

/-- The service is kept up in the whole run. -/
def Served [DecidableEq κ] {σ ℓ : Type} (step : σ → ℓ → Option σ) (view : σ → Exchange κ) (s : σ)
    (ls : List ℓ) : Prop :=
  ∀ t, Visits step s ls t → Serves (view t).done (view t).current

section Service
variable [DecidableEq κ]

theorem pollReaction_ne_write (r : ReadResult) : pollReaction r ≠ .write := by
  unfold pollReaction
  split_ifs <;> simp

theorem epollReaction_ne_write (r : ReadResult) : epollReaction r ≠ .write := by
  unfold epollReaction
  split_ifs <;> simp

theorem pollReaction_of_isFailed {r : ReadResult} (hr : r.isFailed) :
    pollReaction r ≠ .write ∧ pollReaction r ≠ .writen := by
  cases r with
  | failed reset => cases reset <;> decide
  | bytes bs => cases hr

omit [DecidableEq κ] in
theorem pollKept_iff (x : Exchange κ) (e : Event κ) (hx : x.Fits pollReaction) :
    x.Kept e ↔ x.NoneAfterLoss e :=
  ⟨fun h => h.gap, fun h => ⟨hx.silentAfterFailure (fun _ => pollReaction_of_isFailed) e,
    hx.wholeWrite pollReaction_ne_write e, h⟩⟩

omit [DecidableEq κ] in
theorem epollKept_iff (x : Exchange κ) (e : Event κ) (hx : x.Fits epollReaction) :
    x.Kept e ↔ x.SilentAfterFailure e ∧ x.NoneAfterLoss e :=
  ⟨fun h => ⟨h.silent, h.gap⟩, fun h => ⟨h.1, hx.wholeWrite epollReaction_ne_write e, h.2⟩⟩

/-- The echo servers. Each returns the upper-cased input, without a gap and with nothing after
a failed `Read`, in the runs in which no write that follows a failed `Read` is accepted, no
`Write` is cut short and no byte is accepted after a write error has cost the client some. The
servers that use `Writen` need not fear the short writes, and `poll` does not write after a
failed `Read`. The first two conditions are also necessary. -/
theorem echo_served {τ : Type} [DecidableEq τ] (buf : ℕ → Byte) (bufs : τ → ℕ → Byte) :
    (∀ ls : List (TableStep κ),
      (Along (Table.step selectLoop) (Lift Table.exchange Table.event Exchange.Kept)
          (.start selectLoop buf) ls →
        Served (Table.step selectLoop) Table.exchange (.start selectLoop buf) ls) ∧
      (Served (Table.step selectLoop) Table.exchange (.start selectLoop buf) ls →
        Along (Table.step selectLoop)
          (Lift Table.exchange Table.event fun x e => x.SilentAfterFailure e ∧ x.WholeWrite e)
          (.start selectLoop buf) ls)) ∧
    (∀ ls : List (TableStep κ),
      Along (Table.step pollLoop) (Lift Table.exchange Table.event Exchange.NoneAfterLoss)
          (.start pollLoop buf) ls →
        Served (Table.step pollLoop) Table.exchange (.start pollLoop buf) ls) ∧
    (∀ ls : List (EpollStep κ),
      (Along Epoll.step
          (Lift Epoll.exchange Epoll.event fun x e => x.SilentAfterFailure e ∧ x.NoneAfterLoss e)
          (.start buf) ls →
        Served Epoll.step Epoll.exchange (.start buf) ls) ∧
      (Served Epoll.step Epoll.exchange (.start buf) ls →
        Along Epoll.step (Lift Epoll.exchange Epoll.event Exchange.SilentAfterFailure)
          (.start buf) ls)) ∧
    ∀ (i : τ) (ls : List (ThreadStep τ κ)),
      (Along Threads.step (Lift (fun t => t.exchange i) (Threads.event i) Exchange.Kept)
          (.start bufs) ls →
        Served Threads.step (fun t => t.exchange i) (.start bufs) ls) ∧
      (Served Threads.step (fun t => t.exchange i) (.start bufs) ls →
        Along Threads.step
          (Lift (fun t => t.exchange i) (Threads.event i) fun x e =>
            x.SilentAfterFailure e ∧ x.WholeWrite e)
          (.start bufs) ls) := by
  have hselect : Serving _ (Table.step selectLoop : Table κ → _ → _) _ _ :=
    Table.serving echoes_selectReaction
  have hpoll : Serving _ (Table.step pollLoop : Table κ → _ → _) _ _ :=
    Table.serving echoes_pollReaction
  refine ⟨fun ls => ⟨hselect.serves rfl, hselect.along_of_serves rfl⟩, fun ls h => ?_,
    fun ls => ⟨fun h => ?_, fun h => ?_⟩,
    fun i ls => ⟨(Threads.serving i).serves rfl, (Threads.serving i).along_of_serves rfl⟩⟩
  · exact hpoll.serves rfl ((hpoll.along_iff rfl pollKept_iff).mpr h)
  · exact Epoll.serving.serves rfl ((Epoll.serving.along_iff rfl epollKept_iff).mpr h)
  · intro t l htakes e he
    exact (Epoll.serving.along_of_serves rfl h t l htakes e he).1

/-- The socket takes one of the two bytes that `select` has read. -/
def shortWrite : List (TableStep Unit) :=
  [.accept 0 (), .wait (fun _ => true) 1, .read (.bytes [97, 98]), .write (.accepted 1)]

theorem not_echo_served_shortWrite :
    ¬ Served (Table.step selectLoop) Table.exchange (.start selectLoop fun _ => 0) shortWrite := by
  intro h
  have hrun : (runFrom (Table.step selectLoop) (.start selectLoop fun _ => 0) shortWrite).isSome := by
    decide
  obtain ⟨t, ht⟩ := Option.isSome_iff_exists.mp hrun
  have hdone : ∀ t ∈ runFrom (Table.step selectLoop) (.start selectLoop fun _ => 0) shortWrite,
      t.exchange.done = [⟨(), .bytes [97, 98], [65], false⟩] := by decide
  have hcomplete := (h t ⟨shortWrite, List.prefix_rfl, ht⟩).complete
  rw [hdone t ht] at hcomplete
  exact absurd (hcomplete _ List.mem_cons_self) (by decide)

end Service
end CLib.Echo
