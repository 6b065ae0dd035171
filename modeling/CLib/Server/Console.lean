import CLib.Server.Sessions

namespace CLib.Server
open CLib.Base

/-- A session thread works on its own slot, and its connection has an address that
`main` gives this slot. -/
structure Talk.Placed (servers : List Text) (areas : ℕ → WorkArea) (x : Talk) : Prop where
  worker : (areas x.slot).workerId = x.slot
  index : x.pc ≠ .created → x.index = x.slot
  console : x.pc = .inConsole → x.index = consoleSlot
  peer : ∀ c, x.newServerSocket = some c → ∃ a, slotFor servers c.clientAddr = some (x.slot, a)

namespace State

/-- Every connection is where its address leads. -/
structure Placed (servers : List Text) (s : State) : Prop where
  talks : ∀ t x, s.talks t = some x → x.Placed servers s.workAreas
  session : ∀ i a c, s.main.session = some (i, a, c) → slotFor servers c.clientAddr = some (i, a)
  stored : ∀ i a c, s.main = .stored i a c → s.workAreas i = ⟨some c, i⟩
  area : ∀ i c, (s.workAreas i).newSocket = some c → ∃ a, slotFor servers c.clientAddr = some (i, a)

theorem placed_initial (servers : List Text) (d : Day) : Placed servers (initial d) where
  talks := nofun
  session := nofun
  stored := nofun
  area := nofun

theorem admits_eq_some {servers : List Text} {s : State} {c : Conn} {i : ℕ} {a : Bool}
    (h : s.admits servers c = some (i, a)) :
    slotFor servers c.clientAddr = some (i, a) ∧ s.socketActive i = false := by
  obtain ⟨hslot, hactive⟩ := Option.filter_eq_some_iff.mp h
  exact ⟨hslot, by simpa using hactive⟩

section Step
variable {servers : List Text} {s u : State}

theorem Placed.accept (h : Placed servers s) (c : Conn) : Placed servers (s.accept servers c) := by
  unfold State.accept
  cases hadm : s.admits servers c with
  | none => exact { h with session := nofun, stored := nofun }
  | some p =>
    exact { h with
      session := fun i a c' hs => by
        obtain ⟨rfl, rfl, rfl⟩ : p.1 = i ∧ p.2 = a ∧ c = c' := by simpa [MainPc.session] using hs
        exact (admits_eq_some hadm).1
      stored := nofun }

theorem Placed.store (h : Placed servers s) {slot : ℕ} {agent : Bool} {c : Conn}
    (hm : s.main = .counted slot agent c) :
    Placed servers { s with
      main := .stored slot agent c
      workAreas := Function.update s.workAreas slot ⟨some c, slot⟩ } where
  talks t x hx := { h.talks t x hx with
    worker := by
      by_cases hi : x.slot = slot
      · simp [hi]
      · simpa [hi] using (h.talks t x hx).worker }
  session i a c' hs := h.session i a c' (by rw [hm]; exact hs)
  stored i a c' hs := by
    obtain ⟨rfl, rfl, rfl⟩ : slot = i ∧ agent = a ∧ c = c' := by simpa using hs
    simp
  area i c' hc' := by
    by_cases hi : i = slot
    · obtain rfl : c = c' := by simpa [hi] using hc'
      exact ⟨agent, hi ▸ h.session slot agent c (by rw [hm]; rfl)⟩
    · exact h.area i c' (by simpa [hi] using hc')

theorem Placed.spawnTalk (h : Placed servers s) {t slot : ℕ} {agent : Bool} {c : Conn}
    (hm : s.main = .stored slot agent c) :
    Placed servers { s.setTalk t (some ⟨slot, c, 0, none, .created⟩) with
      main := if agent then .talking slot else .waiting } := by
  have hnew : ∀ z, some (⟨slot, c, 0, none, .created⟩ : Talk) = some z →
      z.Placed servers s.workAreas := by
    rintro z ⟨⟩
    exact ⟨by rw [h.stored slot agent c hm], by simp, nofun, nofun⟩
  exact { h with
    talks := forall_update h.talks hnew
    session := by cases agent <;> nofun
    stored := by cases agent <;> nofun }

theorem Placed.talk (h : Placed servers s) {t : ℕ} {x : Talk} {e : TalkEvent}
    (hx : s.talks t = some x) (hu : s.stepTalk t x e = some u) : Placed servers u := by
  obtain ⟨hmain, hareas, -, -⟩ := stepTalk_frame hu
  have hok := h.talks t x hx
  have hkeep : (∀ t x, u.talks t = some x → x.Placed servers s.workAreas) → Placed servers u :=
    fun htalks => ⟨by rw [hareas]; exact htalks, by rw [hmain]; exact h.session,
      by rw [hmain, hareas]; exact h.stored, by rw [hareas]; exact h.area⟩
  have hset : ∀ {y : Talk}, u.talks = Function.update s.talks t (some y) →
      y.Placed servers s.workAreas → Placed servers u := fun htalks hy =>
    hkeep (htalks ▸ forall_update h.talks fun z hz => Option.some.inj hz ▸ hy)
  have hend : u.talks = Function.update s.talks t none → Placed servers u := fun htalks =>
    hkeep (htalks ▸ forall_update h.talks nofun)
  cases stepTalk_effect hu with
  | idle htalks => exact hkeep (htalks ▸ h.talks)
  | index hpc htalks => exact hset htalks ⟨hok.worker, fun _ => hok.worker, nofun, hok.peer⟩
  | load hpc htalks =>
    exact hset htalks ⟨hok.worker, fun _ => hok.index (by simp [hpc]), nofun, fun c => h.area x.slot c⟩
  | mark hpc htalks =>
    exact hset htalks ⟨hok.worker, fun _ => hok.index (by simp [hpc]), nofun, hok.peer⟩
  | move pc hbefore hafter hconsole hday htalks =>
    have hpc : x.pc ≠ .created := fun hpc => by simp [hpc, TalkPc.working] at hbefore
    exact hset htalks ⟨hok.worker, fun _ => hok.index hpc, hconsole, hok.peer⟩
  | rotate d he hpc hold htalks =>
    exact hset htalks ⟨hok.worker, fun _ => hok.index (by simp [hpc]), nofun, hok.peer⟩
  | release hpc htalks =>
    exact hset htalks ⟨hok.worker, fun _ => hok.index (by simp [hpc]), nofun, hok.peer⟩
  | consoleEnd hpc htalks => exact hend htalks
  | exit hpc htalks => exact hend htalks

theorem Placed.step (h : Placed servers s) {l : Label} (hu : s.step servers l = some u) :
    Placed servers u := by
  cases steps_of_step hu with
  | newDay d => exact { h with }
  | accept c => exact h.accept c
  | count hm =>
    exact { h with
      session := fun i a c' hs => h.session i a c' (by rw [hm]; exact hs)
      stored := nofun }
  | store hm => exact h.store hm
  | spawnTalk hm => exact h.spawnTalk hm
  | spawnEnqueue hm | spawnEnqueueFails hm => exact { h with session := nofun, stored := nofun }
  | @spawnTalkFails slot agent c hm =>
    exact { h with
      session := by cases agent <;> nofun
      stored := by cases agent <;> nofun }
  | talk hx hu => exact h.talk hx hu
  | enqueue hy hu =>
    obtain ⟨hmain, hareas, htalks, -, -⟩ := stepEnqueue_frame hu
    exact ⟨by rw [htalks, hareas]; exact h.talks, by rw [hmain]; exact h.session,
      by rw [hmain, hareas]; exact h.stored, by rw [hareas]; exact h.area⟩

end Step

theorem placed_of_reachable {servers : List Text} {d : Day} {s : State}
    (h : Reachable (step servers) (initial d) s) : Placed servers s :=
  h.invariant (placed_initial servers d) fun _ _ _ hinv hstep => hinv.step hstep

end State

/-- Some run of the server takes a connection from this peer to `process_cmd`. -/
def ReachesProcessCmd (servers : List Text) (peer : Ip) (stale : Option Ip) : Prop :=
  ∃ (d : Day) (s : State) (t : ℕ) (x : Talk) (c : Conn),
    Reachable (State.step servers) (State.initial d) s ∧ s.talks t = some x ∧
      x.pc = .inConsole ∧ x.newServerSocket = some c ∧ c.peer = peer ∧ c.stale = stale

theorem ReachesProcessCmd.slot {servers : List Text} {peer : Ip} {stale : Option Ip}
    (h : ReachesProcessCmd servers peer stale) :
    ∃ a, slotFor servers (stale.getD peer) = some (consoleSlot, a) := by
  obtain ⟨d, s, t, x, c, hreach, hx, hpc, hc, rfl, rfl⟩ := h
  have hok := (State.placed_of_reachable hreach).talks t x hx
  obtain ⟨a, ha⟩ := hok.peer c hc
  have hslot : x.slot = consoleSlot :=
    (hok.index (by simp [hpc])).symm.trans (hok.console hpc)
  exact ⟨a, hslot ▸ ha⟩

/-- The steps of `main` and of the new thread from the admission of a connection
to the branch on the slot. -/
def sessionStart : List Label := [.main, .main, .spawnTalk 0] ++ List.replicate 4 (.talk 0 .next)

theorem reachesProcessCmd_of_slot {servers : List Text} {peer : Ip} {stale : Option Ip} (agent : Bool)
    (h : slotFor servers (stale.getD peer) = some (consoleSlot, agent)) :
    ReachesProcessCmd servers peer stale := by
  let d : Day := ⟨List.replicate 8 '0', rfl⟩
  let c : Conn := ⟨0, peer, stale⟩
  let s : State := { State.initial d with
    openSockets := [0]
    clientAddr := some c.clientAddr
    main := .accepted consoleSlot agent c }
  have hadmits : (State.initial d).admits servers c = some (consoleSlot, agent) := by
    rw [State.admits, Conn.clientAddr, h]
    rfl
  have haccept : (State.initial d).step servers (.accept c) = some s := by
    rw [State.step, if_pos ⟨rfl, List.not_mem_nil, by cases stale <;> rfl⟩, State.accept, hadmits]
    rfl
  obtain ⟨u, hu, hx⟩ : ∃ u, runFrom (State.step servers) s sessionStart = some u ∧
      u.talks 0 = some ⟨consoleSlot, c, consoleSlot, some c, .inConsole⟩ := by
    cases agent <;> exact ⟨_, rfl, rfl⟩
  exact ⟨d, u, 0, _, c, ⟨_, (runFrom_cons_of_step haccept _).trans hu⟩, hx, rfl, rfl, rfl, rfl⟩

/-- Whatever settings are loaded, a peer other than 127.0.0.1 is kept away from
`process_cmd` exactly if the address that `main` goes by is not 127.0.0.1 and the eleventh
server is not the first one to name it. -/
theorem not_reachesProcessCmd_iff (settings : List (Text × Text)) (peer : Ip) (stale : Option Ip)
    (hpeer : peer ≠ .loopback) :
    ¬ ReachesProcessCmd (loadSettings settings).davinciServers peer stale ↔
      (∀ a, stale = some a → a ≠ .loopback) ∧
        ¬ NamedEleventh (loadSettings settings).davinciServers (stale.getD peer) := by
  have hstale : (∀ a, stale = some a → a ≠ .loopback) ↔ stale.getD peer ≠ .loopback := by
    cases stale with
    | none => simp [hpeer]
    | some a => simp
  rw [hstale, ← getIndexOfAgentIpTables_eq_consoleSlot_iff]
  constructor
  · intro h
    refine ⟨fun hloop => h ?_, fun hindex => h ?_⟩
    · exact reachesProcessCmd_of_slot false
        (if_pos ((loopback_test_iff (stale.getD peer)).mpr hloop))
    · by_cases hloop : stale.getD peer = .loopback
      · exact reachesProcessCmd_of_slot false
          (if_pos ((loopback_test_iff (stale.getD peer)).mpr hloop))
      · exact reachesProcessCmd_of_slot true (by rw [slotFor_of_ne hloop, hindex]; rfl)
  · rintro ⟨hloop, hindex⟩ h
    obtain ⟨a, ha⟩ := h.slot
    rw [slotFor_of_ne hloop, Option.map_eq_some_iff] at ha
    obtain ⟨i, hi, hia⟩ := ha
    exact hindex (by rw [hi, (Prod.mk.inj hia).1])

section Examples

/-- A configuration of eleven agents, `10.0.0.0` to `10.0.0.10`. -/
def elevenAgents : List (Text × Text) :=
  (List.range 11).map fun n => ("davinci_server".toList, "10.0.0.".toList ++ percentU n)

theorem not_reachesProcessCmd_first :
    ¬ ReachesProcessCmd (loadSettings elevenAgents).davinciServers ⟨10, 0, 0, 0⟩ none := by
  refine (not_reachesProcessCmd_iff elevenAgents ⟨10, 0, 0, 0⟩ none (by decide)).mpr ⟨nofun, fun h => ?_⟩
  exact h.2 0 (by decide) _ rfl (by decide)

/-- The agent in the eleventh line is given the slot of the console. -/
theorem reachesProcessCmd_elevenAgents :
    ¬ ∀ (settings : List (Text × Text)) (peer : Ip) (stale : Option Ip), peer ≠ .loopback →
      ¬ ReachesProcessCmd (loadSettings settings).davinciServers peer stale := by
  intro h
  exact h elevenAgents ⟨10, 0, 0, 10⟩ none (by decide)
    (reachesProcessCmd_of_slot true (by decide))

end Examples
end CLib.Server
