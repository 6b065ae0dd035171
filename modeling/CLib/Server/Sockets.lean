import CLib.Base.Holders
import CLib.Server.Sessions

namespace CLib.Server
open CLib.Base

/-- The descriptor that a session thread is in charge of: the one that it was started
for, until it has copied the one in its work area, and none once it has closed it. -/
def Talk.socket (x : Talk) : Option ℕ :=
  match x.pc with
  | .created | .indexed => some x.accepted.socket
  | .closed | .released => none
  | _ => x.newServerSocket.map Conn.socket

/-- The thread has not closed its socket yet. -/
def TalkPc.holdsSocket : TalkPc → Bool
  | .closed | .released => false
  | _ => true

namespace State

/-- The descriptor that is in the charge of `main`, which holds a connection from its
acceptance to the creation of the thread (`none`), or of a session thread. -/
def holder (s : State) : Option ℕ → Option ℕ
  | none => s.main.session.map fun x => x.2.2.socket
  | some t => (s.talks t).bind Talk.socket

/-- The open accepted sockets are those of the live sessions. -/
def SocketsConserved (s : State) : Prop := Conserved (· ∈ s.openSockets) s.holder

/-- No connection is refused, no creation of a session thread fails, no console session ends,
and a session thread finds its own connection in its work area. -/
def LeavesNoneOpen (servers : List Text) (s : State) : Label → Prop
  | .accept c => (s.admits servers c).isSome
  | .spawnTalkFails => False
  | .talk t .next => ∀ x, s.talks t = some x →
    x.pc ≠ .inConsole ∧ (x.pc = .indexed →
      (s.workAreas x.slot).newSocket.map Conn.socket = some x.accepted.socket)
  | _ => True

/-- Every open socket has one holder, and the session threads hold the sockets that they
were started for. -/
structure SocketsHeld (s : State) : Prop where
  held : Held (· ∈ s.openSockets) s.holder
  carried : ∀ t x, s.talks t = some x → x.pc.holdsSocket → x.socket = some x.accepted.socket

theorem socketsHeld_initial (d : Day) : SocketsHeld (initial d) where
  held := by
    have hnone : ∀ i, (initial d).holder i = none := by rintro (_ | t) <;> rfl
    refine ⟨fun k => ?_, fun i j k hi => ?_⟩
    · simp only [hnone]
      exact iff_of_false nofun fun ⟨_, h⟩ => by cases h
    · rw [hnone] at hi
      cases hi
  carried := nofun

section Effect
variable {s u : State} {t : ℕ} {x : Talk}

theorem holder_some_of_talks {y : Option Talk} (h : u.talks = Function.update s.talks t y) (t' : ℕ) :
    u.holder (some t') = Function.update s.holder (some t) (y.bind Talk.socket) (some t') := by
  rw [holder, h]
  by_cases ht : t' = t
  · rw [ht, Function.update_self, Function.update_self]
  · rw [Function.update_of_ne ht, Function.update_of_ne (by simpa using ht)]
    rfl

theorem holder_of_talks (hmain : u.main = s.main) {y : Option Talk}
    (h : u.talks = Function.update s.talks t y) :
    u.holder = Function.update s.holder (some t) (y.bind Talk.socket) := by
  funext i
  cases i with
  | none =>
    rw [Function.update_of_ne (by simp), holder, hmain]
    rfl
  | some t' => exact holder_some_of_talks h t'

theorem holder_of_some (hx : s.talks t = some x) : s.holder (some t) = x.socket := by
  rw [holder, hx, Option.bind_some]

/-- What a step of `talk_to_client` does to the sockets. -/
inductive SocketEffect (s : State) (t : ℕ) (x : Talk) (e : TalkEvent) (u : State) : Prop
  | keep (y : Talk) (talks : u.talks = Function.update s.talks t (some y))
      (sockets : u.openSockets = s.openSockets) (socket : y.socket = x.socket)
      (accepted : y.accepted = x.accepted) (holds : y.pc.holdsSocket = x.pc.holdsSocket)
  | load (event : e = .next) (pc : x.pc = .indexed)
      (talks : u.talks = Function.update s.talks t
        (some { x with newServerSocket := (s.workAreas x.slot).newSocket, pc := .loaded }))
      (sockets : u.openSockets = s.openSockets)
  | close (pc : x.pc = .leaving)
      (talks : u.talks = Function.update s.talks t (some { x with pc := .closed }))
      (sockets : u.openSockets =
        s.openSockets.filter fun k => x.newServerSocket.all fun c => c.socket ≠ k)
  | abandon (event : e = .next) (pc : x.pc = .inConsole)
      (talks : u.talks = Function.update s.talks t none) (sockets : u.openSockets = s.openSockets)
  | exit (pc : x.pc = .released) (talks : u.talks = Function.update s.talks t none)
      (sockets : u.openSockets = s.openSockets)

theorem stepTalk_socketEffect {e : TalkEvent} (hx : s.talks t = some x)
    (h : s.stepTalk t x e = some u) : SocketEffect s t x e u := by
  have hsame : SocketEffect s t x e s :=
    .keep x (by rw [← hx, Function.update_eq_self]) rfl rfl rfl rfl
  unfold stepTalk at h
  cases e with
  | next =>
    cases hpc : x.pc with
    | created =>
      rw [hpc] at h
      obtain rfl := Option.some.inj h
      exact .keep _ rfl rfl (by simp [Talk.socket, hpc]) rfl (by rw [hpc]; rfl)
    | indexed =>
      rw [hpc] at h
      obtain rfl := Option.some.inj h
      exact .load rfl hpc rfl rfl
    | loaded =>
      rw [hpc] at h
      obtain rfl := Option.some.inj h
      exact .keep _ rfl rfl (by simp [Talk.socket, hpc]) rfl (by rw [hpc]; rfl)
    | marked =>
      simp only [hpc] at h
      split_ifs at h
      · obtain rfl := Option.some.inj h
        exact .keep _ rfl rfl (by simp [Talk.socket, hpc]) rfl (by rw [hpc]; rfl)
      · obtain rfl := Option.some.inj h
        exact .keep _ rfl rfl (by simp [Talk.socket, hpc]) rfl (by rw [hpc]; rfl)
    | inConsole =>
      rw [hpc] at h
      obtain rfl := Option.some.inj h
      exact .abandon rfl hpc rfl rfl
    | named d =>
      rw [hpc] at h
      obtain rfl := Option.some.inj h
      exact .keep _ rfl rfl (by simp [Talk.socket, hpc]) rfl (by rw [hpc]; rfl)
    | receiving d =>
      rw [hpc] at h
      cases h
    | leaving =>
      rw [hpc] at h
      obtain rfl := Option.some.inj h
      exact .close hpc rfl rfl
    | closed =>
      rw [hpc] at h
      obtain rfl := Option.some.inj h
      exact .keep _ rfl rfl (by simp [Talk.socket, hpc]) rfl (by rw [hpc]; rfl)
    | released =>
      rw [hpc] at h
      obtain rfl := Option.some.inj h
      exact .exit hpc rfl rfl
  | receive =>
    dsimp only at h
    split at h <;> cases h
    exact hsame
  | timeout =>
    dsimp only at h
    split at h <;> cases h
    case h_1 hpc =>
      unfold rotate
      split_ifs
      · exact .keep _ rfl rfl (by simp [Talk.socket, hpc]) rfl (by rw [hpc]; rfl)
      · exact .keep _ rfl rfl (by simp [Talk.socket, hpc]) rfl (by rw [hpc]; rfl)
      · exact hsame
  | fail =>
    dsimp only at h
    split at h <;> cases h
    case h_1 hpc => exact .keep _ rfl rfl (by simp [Talk.socket, hpc]) rfl (by rw [hpc]; rfl)

end Effect

section Step
variable {servers : List Text} {s u : State} {t : ℕ} {x : Talk}

theorem accept_of_step {c : Conn} (h : s.step servers (.accept c) = some u) :
    s.main = .waiting ∧ c.socket ∉ s.openSockets ∧ u = s.accept servers c := by
  obtain ⟨⟨hmain, hfree, -⟩, hu⟩ := Option.ite_none_right_eq_some.mp h
  exact ⟨hmain, hfree, (Option.some.inj hu).symm⟩

theorem stepEnqueue_openSockets {r : ℕ} {y : Enqueue} {e : EnqueueEvent}
    (h : s.stepEnqueue r y e = some u) : u.openSockets = s.openSockets := by
  unfold stepEnqueue at h
  split at h <;> split at h <;> (try split_ifs at h) <;> cases h <;> rfl

theorem SocketsHeld.of_same (h : s.SocketsHeld) (hopen : u.openSockets = s.openSockets)
    (hmain : u.main.session = s.main.session) (htalks : u.talks = s.talks) : u.SocketsHeld where
  held := by
    have hholder : u.holder = s.holder := by
      funext i
      cases i with
      | none => rw [holder, hmain]; rfl
      | some t => rw [holder, htalks]; rfl
    rw [hopen, hholder]
    exact h.held
  carried := by rw [htalks]; exact h.carried

theorem SocketsHeld.accept (h : s.SocketsHeld) {c : Conn} (hmain : s.main = .waiting)
    (hfree : c.socket ∉ s.openSockets) (hadmits : (s.admits servers c).isSome) :
    (s.accept servers c).SocketsHeld := by
  obtain ⟨⟨slot, agent⟩, hslot⟩ := Option.isSome_iff_exists.mp hadmits
  have hnone : s.holder none = none := by rw [holder, hmain]; rfl
  have hholder : (s.accept servers c).holder = Function.update s.holder none (some c.socket) := by
    funext i
    cases i with
    | none =>
      rw [Function.update_self, holder, State.accept, hslot]
      rfl
    | some t => rfl
  refine ⟨?_, h.carried⟩
  rw [hholder]
  exact (h.held.acquire hnone hfree).congr fun k => List.mem_cons

theorem SocketsHeld.spawnTalk (h : s.SocketsHeld) {slot : ℕ} {agent : Bool} {c : Conn}
    (hm : s.main = .stored slot agent c) (hfree : s.talks t = none) :
    SocketsHeld { s.setTalk t (some ⟨slot, c, 0, none, .created⟩) with
      main := if agent then .talking slot else .waiting } := by
  have hmain : s.holder none = some c.socket := by rw [holder, hm]; rfl
  have hnone : s.holder (some t) = none := by rw [holder, hfree]; rfl
  have hnew : ∀ z, some (⟨slot, c, 0, none, .created⟩ : Talk) = some z →
      z.pc.holdsSocket → z.socket = some z.accepted.socket := by
    rintro z ⟨⟩ -
    rfl
  have hholder : State.holder { s.setTalk t (some ⟨slot, c, 0, none, .created⟩) with
      main := if agent then .talking slot else .waiting } =
      Function.update (Function.update s.holder none none) (some t) (some c.socket) := by
    funext i
    cases i with
    | none =>
      rw [Function.update_of_ne (by simp), Function.update_self]
      cases agent <;> rfl
    | some t' =>
      apply (holder_some_of_talks rfl t').trans
      simp only [Function.update_apply, reduceCtorEq, if_false]
      rfl
  refine ⟨?_, forall_update h.carried hnew⟩
  rw [hholder]
  exact h.held.transfer hmain hnone

theorem SocketsHeld.talk (h : s.SocketsHeld) {e : TalkEvent} (hx : s.talks t = some x)
    (hu : s.stepTalk t x e = some u) (hG : LeavesNoneOpen servers s (.talk t e)) : u.SocketsHeld := by
  have hmain := (stepTalk_frame hu).1
  have hcarried := h.carried t x hx
  have hholder := holder_of_some hx
  cases stepTalk_socketEffect hx hu with
  | keep y talks sockets socket accepted holds =>
    have hsame : u.holder = s.holder := by
      rw [holder_of_talks hmain talks, Option.bind_some, socket, ← hholder, Function.update_eq_self]
    refine ⟨by rw [sockets, hsame]; exact h.held, talks ▸ forall_update h.carried fun z hz hpc => ?_⟩
    obtain rfl := Option.some.inj hz
    rw [holds] at hpc
    rw [socket, accepted]
    exact hcarried hpc
  | load event pc talks sockets =>
    rw [event] at hG
    have hown := (hG x hx).2 pc
    have hsame : u.holder = s.holder := by
      have hsocket : x.socket = some x.accepted.socket := hcarried (by rw [pc]; rfl)
      rw [holder_of_talks hmain talks, Option.bind_some, Talk.socket, hown, ← hsocket, ← hholder,
        Function.update_eq_self]
    refine ⟨by rw [sockets, hsame]; exact h.held, talks ▸ forall_update h.carried fun z hz _ => ?_⟩
    obtain rfl := Option.some.inj hz
    exact hown
  | close pc talks sockets =>
    have hsocket : x.newServerSocket.map Conn.socket = some x.accepted.socket := by
      have hsocket := hcarried (by rw [pc]; rfl)
      rwa [Talk.socket, pc] at hsocket
    obtain ⟨c, hc, hcs⟩ := Option.map_eq_some_iff.mp hsocket
    have hheld : s.holder (some t) = some c.socket := by
      rw [hholder, Talk.socket, pc]
      exact hsocket.trans (congrArg some hcs.symm)
    refine ⟨?_, talks ▸ forall_update h.carried fun z hz hpc => ?_⟩
    · rw [holder_of_talks hmain talks, sockets, hc]
      apply (h.held.release hheld).congr
      intro k
      rw [List.mem_filter, Option.all_some, decide_eq_true_iff]
      exact and_comm.trans (and_congr_left' ne_comm)
    · obtain rfl := Option.some.inj hz
      cases hpc
  | abandon event pc =>
    rw [event] at hG
    exact absurd pc (hG x hx).1
  | exit pc talks sockets =>
    have hnone : s.holder (some t) = none := by rw [hholder, Talk.socket, pc]
    have hsame : u.holder = s.holder := by
      rw [holder_of_talks hmain talks, Option.bind_none, ← hnone, Function.update_eq_self]
    exact ⟨by rw [sockets, hsame]; exact h.held, talks ▸ forall_update h.carried nofun⟩

theorem SocketsHeld.step (h : s.SocketsHeld) {l : Label} (hG : LeavesNoneOpen servers s l)
    (hu : s.step servers l = some u) : u.SocketsHeld := by
  cases steps_of_step hu with
  | newDay d => exact h.of_same rfl rfl rfl
  | accept c =>
    obtain ⟨hmain, hfree, -⟩ := accept_of_step hu
    exact h.accept hmain hfree hG
  | count hm => exact h.of_same rfl (by rw [hm]; rfl) rfl
  | store hm => exact h.of_same rfl (by rw [hm]; rfl) rfl
  | spawnTalk hm hfree => exact h.spawnTalk hm hfree
  | spawnEnqueue hm | spawnEnqueueFails hm => exact h.of_same rfl (by rw [hm]; rfl) rfl
  | spawnTalkFails => exact hG.elim
  | talk hx hu => exact h.talk hx hu hG
  | enqueue hy hu =>
    obtain ⟨hmain, -, htalks, -, -⟩ := stepEnqueue_frame hu
    exact h.of_same (stepEnqueue_openSockets hu) (by rw [hmain]) htalks

theorem SocketsHeld.socket_of_conserved (h : s.SocketsHeld) (hx : s.talks t = some x)
    (hholds : x.pc.holdsSocket) (hmain : u.main = s.main) {y : Option Talk}
    (htalks : u.talks = Function.update s.talks t y) (hopen : u.openSockets = s.openSockets)
    (hconserved : u.SocketsConserved) : y.bind Talk.socket = some x.accepted.socket := by
  rw [SocketsConserved, holder_of_talks hmain htalks, hopen] at hconserved
  exact h.held.eq_of_conserved_update ((holder_of_some hx).trans (h.carried t x hx hholds)) hconserved

theorem leavesNoneOpen_of_conserved (h : s.SocketsHeld) {l : Label} (hu : s.step servers l = some u)
    (hconserved : u.SocketsConserved) : LeavesNoneOpen servers s l := by
  cases l with
  | accept c =>
    obtain ⟨hmain, hfree, rfl⟩ := accept_of_step hu
    change (s.admits servers c).isSome
    by_contra hrefused
    have hnone := Option.not_isSome_iff_eq_none.mp hrefused
    have hholder : (s.accept servers c).holder = s.holder := by
      funext i
      cases i with
      | none => rw [holder, State.accept, hnone, holder, hmain]
      | some t => rfl
    apply h.held.not_conserved_of_opened hfree
    rw [SocketsConserved, hholder] at hconserved
    exact fun k => List.mem_cons.symm.trans (hconserved k)
  | talk t e =>
    cases e with
    | next =>
      intro x hx
      rw [State.step, hx, Option.bind_some, stepTalk] at hu
      constructor
      · intro hpc
        rw [hpc] at hu
        have hu : u = (s.setActive x.index false).setTalk t none := (Option.some.inj hu).symm
        have hkept := h.socket_of_conserved hx (by rw [hpc]; rfl) (by rw [hu]; rfl) (by rw [hu]; rfl)
          (by rw [hu]; rfl) hconserved
        cases hkept
      · intro hpc
        rw [hpc] at hu
        have hu : u = s.setTalk t (some { x with
            newServerSocket := (s.workAreas x.slot).newSocket
            pc := .loaded }) := (Option.some.inj hu).symm
        exact h.socket_of_conserved hx (by rw [hpc]; rfl) (by rw [hu]; rfl) (by rw [hu]; rfl)
          (by rw [hu]; rfl) hconserved
    | receive => trivial
    | timeout => trivial
    | fail => trivial
  | newDay d => trivial
  | main => trivial
  | spawnTalk t => trivial
  | spawnEnqueue r => trivial
  | spawnTalkFails =>
    cases steps_of_step hu with
    | @spawnTalkFails slot agent c hm =>
      have hsession : ({ s with main := if agent then .talking slot else .waiting } : State).main.session =
          none := by cases agent <;> rfl
      have hholder : State.holder { s with main := if agent then .talking slot else .waiting } =
          Function.update s.holder none none := by
        funext i
        cases i with
        | none => rw [Function.update_self, holder, hsession, Option.map_none]
        | some t => rfl
      rw [SocketsConserved, hholder] at hconserved
      have hmain : s.holder none = some c.socket := by rw [holder, hm]; rfl
      cases h.held.eq_of_conserved_update hmain hconserved
  | spawnEnqueueFails => trivial
  | enqueue r e => trivial

end Step
end State

/-- In every run the open accepted sockets are those of the live sessions, exactly if every
step of it leaves none open. -/
theorem socketsConserved_iff (servers : List Text) (d : Day) (ls : List Label) :
    (∀ s, Visits (State.step servers) (State.initial d) ls s → s.SocketsConserved) ↔
      Along (State.step servers) (State.LeavesNoneOpen servers) (State.initial d) ls := by
  apply along_iff_forall_visits_of_invariant (I := State.SocketsHeld)
  · exact fun s hs => hs.held.conserved
  · exact State.socketsHeld_initial d
  · exact fun s l u hs hG hu => hs.step hG hu
  · exact fun s l u hs hu => State.leavesNoneOpen_of_conserved hs hu

section Examples

/-- A connection from an address that no server is configured for stays open. -/
theorem not_socketsConserved_refused :
    ¬ ∀ (servers : List Text) (d : Day) (ls : List Label) (s : State),
      Visits (State.step servers) (State.initial d) ls s → s.SocketsConserved := by
  intro h
  let d : Day := ⟨List.replicate 8 '0', rfl⟩
  let s : State := (State.initial d).accept [] ⟨5, ⟨10, 0, 0, 1⟩, none⟩
  have hrun : runFrom (State.step []) (State.initial d) [.accept ⟨5, ⟨10, 0, 0, 1⟩, none⟩] = some s := rfl
  obtain ⟨i, hi⟩ := (h [] d _ s ⟨_, List.prefix_rfl, hrun⟩ 5).mp List.mem_cons_self
  cases i with
  | none =>
    have hnone : s.holder none = none := by decide +kernel
    rw [hnone] at hi
    cases hi
  | some t => cases hi

end Examples
end CLib.Server
