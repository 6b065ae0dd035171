import CLib.Server.Slots

namespace CLib.Server
open CLib.Base

namespace State

/-- The step is the end-of-day branch of a reader, while a session of the same
index is still in its receive loop on the same file. -/
def RetiresLive (s : State) (l : Label) : Prop :=
  ∃ r y d n, l = .enqueue r .next ∧ s.enqueues r = some y ∧ y.pc = .atEof d n ∧
    differs (agentFileName d y.index) (agentFileName s.fileName y.index) ∧
    ∃ t x, s.talks t = some x ∧ x.index = y.index ∧ x.pc = .receiving d

/-- A session and a reader have named the same file, of day `d`. -/
def SharesFile (s : State) (t r : ℕ) (d : Day) : Prop :=
  ∃ x y, s.talks t = some x ∧ s.enqueues r = some y ∧ x.index = y.index ∧
    x.pc.day = some d ∧ y.pc.day = some d

/-- A timeout that changes `g_file_name` finds no other session that shares its
file with a reader. -/
def RotatesAlone (s : State) (l : Label) : Prop :=
  ∀ t x d, l = .talk t .timeout → s.talks t = some x → x.pc = .receiving d → d ≠ s.today →
    s.fileName ≠ s.today → ∀ t' r d', t' ≠ t → ¬ SharesFile s t' r d'

/-- The files that a session and a reader share are those of `g_file_name`. -/
def SharedCurrent (s : State) : Prop := ∀ t r d, SharesFile s t r d → d = s.fileName

theorem sharedCurrent_initial (d : Day) : SharedCurrent (initial d) := by
  rintro t r d' ⟨x, y, hx, -⟩
  cases hx

section Step
variable {servers : List Text} {s u : State} {l : Label}

theorem SharedCurrent.enqueue (h : SharedCurrent s) {r : ℕ} {y : Enqueue} {e : EnqueueEvent}
    (hy : s.enqueues r = some y) (hu : s.stepEnqueue r y e = some u) : SharedCurrent u := by
  obtain ⟨-, -, htalks, -, hname⟩ := stepEnqueue_frame hu
  obtain ⟨y', henqueues, hy'⟩ := stepEnqueue_enqueues hu
  rintro t r' d ⟨x, z, hx, hz, hindex, hxd, hzd⟩
  rw [htalks] at hx
  rw [henqueues] at hz
  rw [hname]
  rcases update_eq_some hz with ⟨-, hz⟩ | ⟨-, hz⟩
  · obtain ⟨hzy, hday⟩ := hy' z hz
    rcases hday d hzd with hyd | hd
    · exact h t r d ⟨x, y, hx, hy, hindex.trans hzy, hxd, hyd⟩
    · exact hd
  · exact h t r' d ⟨x, z, hx, hz, hindex, hxd, hzd⟩

theorem SharedCurrent.talk (h : SharedCurrent s) {t : ℕ} {x : Talk} {e : TalkEvent}
    (hG : RotatesAlone s (.talk t e)) (hx : s.talks t = some x) (hu : s.stepTalk t x e = some u) :
    SharedCurrent u := by
  obtain ⟨-, -, henqueues, -⟩ := stepTalk_frame hu
  -- Only a thread that names its file now can come to share one.
  have hset : ∀ {y : Option Talk}, u.talks = Function.update s.talks t y →
      u.fileName = s.fileName → (∀ z d, y = some z → z.pc.day = some d →
        z.index = x.index ∧ (x.pc.day = some d ∨ d = s.fileName)) → SharedCurrent u := by
    rintro y htalks hname hy t' r d ⟨z, w, hz, hw, hindex, hzd, hwd⟩
    rw [htalks] at hz
    rw [henqueues] at hw
    rw [hname]
    rcases update_eq_some hz with ⟨-, hz⟩ | ⟨-, hz⟩
    · obtain ⟨hzx, hday⟩ := hy z d hz hzd
      rcases hday with hxd | hd
      · exact h t r d ⟨x, w, hx, hw, hzx.symm.trans hindex, hxd, hwd⟩
      · exact hd
    · exact h t' r d ⟨z, w, hz, hw, hindex, hzd, hwd⟩
  cases stepTalk_effect hu with
  | idle htalks hactive hname =>
    rintro t' r d ⟨z, w, hz, hw, hrest⟩
    rw [htalks] at hz
    rw [henqueues] at hw
    rw [hname]
    exact h t' r d ⟨z, w, hz, hw, hrest⟩
  | index hpc htalks hactive hname | load hpc htalks hactive hname | mark hpc htalks hactive hname
  | release hpc htalks hactive hname =>
    apply hset htalks hname
    rintro z d ⟨⟩ hd
    cases hd
  | consoleEnd hpc htalks hactive hname | exit hpc htalks hactive hname =>
    exact hset htalks hname nofun
  | move pc hbefore hafter hconsole hday htalks hactive hname =>
    apply hset htalks hname
    rintro z d ⟨⟩ hd
    exact ⟨rfl, hday d hd⟩
  | rotate d he hpc hold htalks hactive hname =>
    subst he
    by_cases hsame : s.fileName = s.today
    · apply hset htalks (hname.trans hsame.symm)
      rintro z d' ⟨⟩ hd
      cases hd
    · rintro t' r d' ⟨z, w, hz, hw, hrest⟩
      rw [htalks] at hz
      rw [henqueues] at hw
      rcases update_eq_some hz with ⟨-, hz⟩ | ⟨hne, hz⟩
      · obtain rfl := Option.some.inj hz
        cases hrest.2.1
      · exact absurd ⟨z, w, hz, hw, hrest⟩ (hG t x d rfl hx hpc hold hsame t' r d' hne)

theorem SharedCurrent.step (h : SharedCurrent s) (hG : RotatesAlone s l)
    (hu : s.step servers l = some u) : SharedCurrent u := by
  cases steps_of_step hu with
  | newDay | accept | count | store | spawnTalkFails | spawnEnqueueFails => exact h
  | spawnTalk hm =>
    rintro t' r d ⟨z, w, hz, hw, hindex, hzd, hwd⟩
    rcases update_eq_some hz with ⟨-, hz⟩ | ⟨-, hz⟩
    · obtain rfl := Option.some.inj hz
      cases hzd
    · exact h t' r d ⟨z, w, hz, hw, hindex, hzd, hwd⟩
  | spawnEnqueue hm =>
    rintro t r' d ⟨z, w, hz, hw, hindex, hzd, hwd⟩
    rcases update_eq_some hw with ⟨-, hw⟩ | ⟨-, hw⟩
    · obtain rfl := Option.some.inj hw
      cases hwd
    · exact h t r' d ⟨z, w, hz, hw, hindex, hzd, hwd⟩
  | talk hx hu => exact h.talk hG hx hu
  | enqueue hy hu => exact h.enqueue hy hu

theorem SharedCurrent.retires_none (h : SharedCurrent s) : ¬ RetiresLive s l := by
  rintro ⟨r, y, d, n, rfl, hy, hpc, hdiffers, t, x, hx, hindex, hxpc⟩
  rw [differs_agentFileName, decide_eq_true_iff] at hdiffers
  exact hdiffers (h t r d ⟨x, y, hx, hy, hindex, by rw [hxpc]; rfl, by rw [hpc]; rfl⟩)

end Step

/-- No file is retired while it is being written, in any run in which a change of
`g_file_name` finds no other session with a file that a reader reads. -/
theorem not_retiresLive_of_rotatesAlone (servers : List Text) (d : Day) (ls : List Label)
    (h : Along (step servers) RotatesAlone (initial d) ls) :
    Along (step servers) (fun s l => ¬ RetiresLive s l) (initial d) ls := by
  intro s l htakes
  have hcurrent := h.invariant (sharedCurrent_initial d) (fun _ _ _ hs hG hu => hs.step hG hu)
  exact (hcurrent s htakes.visits).retires_none

section Examples

/-- Thread `t` and reader `r` of a new connection come to read and write the file. -/
def connect (c : Conn) (t r : ℕ) : List Label :=
  [.accept c, .main, .main, .spawnTalk t, .spawnEnqueue r] ++ List.replicate 5 (.talk t .next) ++
    [.enqueue r .next, .enqueue r .next, .enqueue r .line]

def newYearsEve : Day := ⟨"20161231".toList, by decide⟩

def twoServers : List Text := ["10.0.0.1".toList, "10.0.0.2".toList]

def otherConn (socket : ℕ) : Conn := ⟨socket, ⟨10, 0, 0, 2⟩, none⟩

/-- A single agent is connected at midnight. -/
def quietMidnight : List Label := connect (agentConn 0) 0 0 ++ [.newDay newYear]

/-- The agent rotates the log, and its reader retires the file of the day. -/
def quietRotation : List Label := [.talk 0 .timeout, .enqueue 0 .eof, .enqueue 0 .next]

theorem rotatesAlone_of_ne {l : Label} (h : ∀ t, l ≠ .talk t .timeout) (s : State) :
    RotatesAlone s l := fun t _ _ hl => absurd hl (h t)

theorem quietMidnight_not_retiresLive : Along (step oneServer) (fun s l => ¬ RetiresLive s l)
    (initial newYearsEve) (quietMidnight ++ quietRotation) := by
  apply not_retiresLive_of_rotatesAlone oneServer newYearsEve
  obtain ⟨s, u, hs, hu, hnone⟩ : ∃ s u,
      runFrom (step oneServer) (initial newYearsEve) quietMidnight = some s ∧
        s.step oneServer (.talk 0 .timeout) = some u ∧ ∀ t, s.talks (t + 1) = none :=
    ⟨_, _, rfl, rfl, fun _ => rfl⟩
  have hquiet : ∀ l ∈ quietMidnight, ∀ t, l ≠ .talk t .timeout := by
    simp [quietMidnight, connect, List.replicate]
  refine along_append hs (along_of_forall_mem (fun l hl => rotatesAlone_of_ne (hquiet l hl)) _)
    (along_cons hu ?_ (along_of_forall_mem (fun l hl => rotatesAlone_of_ne ?_) u))
  · rintro t x d ⟨⟩ - - - - t' r d' hne ⟨x', -, hx', -⟩
    obtain ⟨k, rfl⟩ := Nat.exists_eq_succ_of_ne_zero hne
    rw [hnone] at hx'
    cases hx'
  · rintro t rfl
    simp at hl

/-- Two agents are connected at midnight, and the second one rotates the log. -/
def busyMidnight : List Label :=
  connect (agentConn 0) 0 0 ++ connect (otherConn 1) 1 1 ++
    [.newDay newYear, .talk 1 .timeout, .enqueue 0 .eof]

/-- The first reader then retires its file, which the first agent still fills. -/
theorem not_retiresLive :
    ¬ ∀ (servers : List Text) (d : Day) (ls : List Label),
      Along (step servers) (fun s l => ¬ RetiresLive s l) (initial d) ls := by
  intro h
  obtain ⟨s, hs, hname, hy, hx, hstep⟩ : ∃ s,
      runFrom (step twoServers) (initial newYearsEve) busyMidnight = some s ∧
        s.fileName = newYear ∧ s.enqueues 0 = some ⟨0, .atEof newYearsEve 1⟩ ∧
        s.talks 0 = some ⟨0, agentConn 0, 0, some (agentConn 0), .receiving newYearsEve⟩ ∧
        (s.step twoServers (.enqueue 0 .next)).isSome := ⟨_, rfl, rfl, rfl, rfl, rfl⟩
  refine h twoServers newYearsEve (busyMidnight ++ [.enqueue 0 .next]) s _
    ⟨busyMidnight, List.prefix_rfl, hs, hstep⟩
    ⟨0, _, newYearsEve, 1, rfl, hy, rfl, ?_, 0, _, hx, rfl, rfl⟩
  rw [hname]
  decide

end Examples

end State
end CLib.Server
