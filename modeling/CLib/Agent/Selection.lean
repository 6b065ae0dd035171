import CLib.Agent.Config
import CLib.Base.Runs

namespace CLib.Agent
open CLib.Base

def maxRetryCount : ℕ := 30

def maxPreferredRetryCount : ℕ := 10

/-- The ways out of the connect loop; `served` stands for those behind a connection. -/
inductive ConnectExit
  | usage | socketFailed | bindFailed | remainderByZero | addressError | noConnection | served
  deriving DecidableEq

/-- The server that an iteration tries to connect to. -/
inductive Choice
  | commandLine (i : ℕ)
  | preferred
  | listed (i : ℕ)
  deriving DecidableEq

/-- What the operating system and `rand` answer in one iteration, and whether the loop
goes on behind a connection that succeeds. -/
structure Turn where
  socketOk : Bool
  bindOk : Bool
  rand : ℕ
  connects : Bool
  goesOn : Bool
  deriving DecidableEq

/-- The variables of `main` that the choice of a server depends on. -/
structure Connector where
  inputNum : ℕ
  inputFlag : Bool
  retryCount : ℕ
  exit : Option ConnectExit
  deriving DecidableEq

namespace Connector

def leave (s : Connector) (e : ConnectExit) : Connector := { s with exit := some e }

/-- `main` up to the loop, with the argument of the command line, if there is one. -/
def start : Option Text → Connector
  | none => ⟨0, false, 0, none⟩
  | some a =>
    let inputNum := atoiUnsigned a
    if inputNum ≠ 1 ∧ inputNum ≠ 2 ∧ inputNum ≠ 3 then ⟨inputNum, false, 0, some .usage⟩
    else ⟨inputNum - 1, true, 0, none⟩

variable (cfg : Config) (inetAton : Text → Bool)

/-- The choice of an iteration; `none` is `rand() % 0`. -/
def choose (s : Connector) (rand : ℕ) : Option Choice :=
  if s.inputFlag then some (.commandLine s.inputNum)
  else if cfg.preferredIdsServer ≠ [] ∧ s.retryCount < maxPreferredRetryCount then some .preferred
  else if cfg.idsServers.length = 0 then none
  else some (.listed (rand % cfg.idsServers.length))

/-- `ip_addr`; an entry of `g_ids_servers` that has not been set is empty. -/
def address : Choice → Text
  | .commandLine i => cfg.idsServers.getD i []
  | .preferred => cfg.preferredIdsServer
  | .listed i => cfg.idsServers.getD i []

/-- `connect` on a socket with the address of the choice, and what follows. -/
def connect (s : Connector) (e : Turn) : Connector :=
  if e.connects = false then
    let s' : Connector := ⟨s.inputNum, s.inputFlag, s.retryCount + 1, s.exit⟩
    if s.retryCount < maxRetryCount then s' else s'.leave .noConnection
  else
    let s' : Connector := ⟨s.inputNum, s.inputFlag, 0, s.exit⟩
    if e.goesOn then s' else s'.leave .served

def iterate (s : Connector) (e : Turn) : Connector :=
  if e.socketOk = false then s.leave .socketFailed
  else if e.bindOk = false then s.leave .bindFailed
  else match s.choose cfg e.rand with
    | none => s.leave .remainderByZero
    | some choice =>
      let s' : Connector := ⟨s.inputNum, false, s.retryCount, s.exit⟩
      if inetAton (address cfg choice) = false then s'.leave .addressError else s'.connect e

/-- The loop as a step function: it goes on until it has been left. -/
def turn (s : Connector) (e : Turn) : Option Connector :=
  if s.exit.isSome then none else some (s.iterate cfg inetAton e)

end Connector

/-- How many connections have failed since the last that succeeded. -/
def consecutiveFailures (es : List Turn) : ℕ :=
  (es.reverse.takeWhile fun e => !e.connects).length

theorem consecutiveFailures_concat (es : List Turn) (e : Turn) :
    consecutiveFailures (es ++ [e]) = if e.connects then 0 else consecutiveFailures es + 1 := by
  rw [consecutiveFailures, List.reverse_concat]
  cases h : e.connects with
  | true =>
    rw [List.takeWhile_cons_of_neg (by rw [h]; decide)]
    rfl
  | false =>
    rw [List.takeWhile_cons_of_pos (by rw [h]; decide)]
    rfl

/-- The choices that the iteration after `pre` may make. -/
def ChoiceAllowed (cfg : Config) (argument : Option Text) (pre : List Turn) : Choice → Prop
  | .commandLine i => pre = [] ∧ ∃ a, argument = some a ∧ i + 1 = atoiUnsigned a
  | .preferred => consecutiveFailures pre < maxPreferredRetryCount
  | .listed i => i < cfg.idsServers.length

/-- The iteration after `pre`, from `s` to `s'`, is as it should be. -/
structure SelectsWell (cfg : Config) (argument : Option Text) (pre : List Turn) (s : Connector)
    (e : Turn) (s' : Connector) : Prop where
  no_remainder_by_zero : s'.exit ≠ some .remainderByZero
  chosen : ∀ choice, s.choose cfg e.rand = some choice → ChoiceAllowed cfg argument pre choice
  gives_up : s'.exit = some .noConnection →
    consecutiveFailures (pre ++ [e]) = maxRetryCount + 1

/-- The selection is total: every iteration of the run is as it should be. -/
def SelectionTotal (cfg : Config) (inetAton : Text → Bool) (argument : Option Text)
    (es : List Turn) : Prop :=
  ∀ pre e s s', pre ++ [e] <+: es →
    runFrom (Connector.turn cfg inetAton) (.start argument) pre = some s →
    s.turn cfg inetAton e = some s' → SelectsWell cfg argument pre s e s'

/-- An iteration that comes to the list of servers finds one in it. -/
def ListedIfNeeded (cfg : Config) (s : Connector) (e : Turn) : Prop :=
  e.socketOk = true → e.bindOk = true → s.inputFlag = false →
    (cfg.preferredIdsServer = [] ∨ maxPreferredRetryCount ≤ s.retryCount) →
      0 < cfg.idsServers.length

namespace Connector
variable {cfg : Config} {inetAton : Text → Bool} {s s' : Connector} {e : Turn}

theorem choose_eq_none_iff {rand : ℕ} :
    s.choose cfg rand = none ↔ s.inputFlag = false ∧
      (cfg.preferredIdsServer = [] ∨ maxPreferredRetryCount ≤ s.retryCount) ∧
        cfg.idsServers.length = 0 := by
  rw [choose]
  split_ifs with hflag hpreferred hcount
  · simp [hflag]
  · have hno : ¬ (cfg.preferredIdsServer = [] ∨ maxPreferredRetryCount ≤ s.retryCount) :=
      not_or.mpr ⟨hpreferred.1, not_le.mpr hpreferred.2⟩
    simp [hno]
  · have hyes : cfg.preferredIdsServer = [] ∨ maxPreferredRetryCount ≤ s.retryCount := by
      rcases not_and_or.mp hpreferred with h | h
      · exact .inl (not_ne_iff.mp h)
      · exact .inr (not_lt.mp h)
    simp [hflag, hyes, hcount]
  · simp [hcount]

/-- The ways through an iteration. -/
inductive Iterated (cfg : Config) (s : Connector) (e : Turn) : Connector → Prop
  | unconnected (x : ConnectExit) (hx : x = .socketFailed ∨ x = .bindFailed)
      (answer : ¬ (e.socketOk = true ∧ e.bindOk = true)) : Iterated cfg s e (s.leave x)
  | remainderByZero (answer : e.socketOk = true ∧ e.bindOk = true)
      (choice : s.choose cfg e.rand = none) : Iterated cfg s e (s.leave .remainderByZero)
  | addressError : Iterated cfg s e ⟨s.inputNum, false, s.retryCount, some .addressError⟩
  | failed (answer : e.connects = false) (count : s.retryCount < maxRetryCount) :
      Iterated cfg s e ⟨s.inputNum, false, s.retryCount + 1, s.exit⟩
  | noConnection (answer : e.connects = false) (count : maxRetryCount ≤ s.retryCount) :
      Iterated cfg s e ⟨s.inputNum, false, s.retryCount + 1, some .noConnection⟩
  | connected (answer : e.connects = true) : Iterated cfg s e ⟨s.inputNum, false, 0, s.exit⟩
  | served (answer : e.connects = true) :
      Iterated cfg s e ⟨s.inputNum, false, 0, some .served⟩

theorem iterated (cfg : Config) (inetAton : Text → Bool) (s : Connector) (e : Turn) :
    Iterated cfg s e (s.iterate cfg inetAton e) := by
  unfold iterate
  split_ifs with hsocket hbind
  · exact .unconnected _ (.inl rfl) (by simp [hsocket])
  · exact .unconnected _ (.inr rfl) (by simp [hbind])
  · cases hchoose : s.choose cfg e.rand with
    | none => exact .remainderByZero (by simp [hsocket, hbind]) hchoose
    | some choice =>
      unfold connect
      dsimp only
      split_ifs with haddress hconnects hcount hon
      · exact .addressError
      · exact .failed hconnects hcount
      · exact .noConnection hconnects (not_lt.mp hcount)
      · exact .connected (by simpa using hconnects)
      · exact .served (by simpa using hconnects)

section
variable (h : Iterated cfg s e s') (hrun : s.exit = none)
include h hrun

theorem Iterated.answers (hx : s'.exit = some .remainderByZero) :
    e.socketOk = true ∧ e.bindOk = true ∧ s.choose cfg e.rand = none := by
  cases h with
  | unconnected x hx' _ => rcases hx' with rfl | rfl <;> cases hx
  | remainderByZero answer choice => exact ⟨answer.1, answer.2, choice⟩
  | failed => rw [hrun] at hx; cases hx
  | connected => rw [hrun] at hx; cases hx
  | addressError => cases hx
  | noConnection => cases hx
  | served => cases hx

theorem Iterated.fails (hx : s'.exit = some .noConnection) :
    e.connects = false ∧ maxRetryCount ≤ s.retryCount := by
  cases h with
  | unconnected x hx' _ => rcases hx' with rfl | rfl <;> cases hx
  | noConnection answer count => exact ⟨answer, count⟩
  | failed => rw [hrun] at hx; cases hx
  | connected => rw [hrun] at hx; cases hx
  | remainderByZero => cases hx
  | addressError => cases hx
  | served => cases hx

end

/-- Where the loop goes on, the flag is used up, and the counter has counted one failure
or starts anew. -/
theorem Iterated.counts (h : Iterated cfg s e s') (hgo : s'.exit = none) :
    s'.inputFlag = false ∧ s'.retryCount = (if e.connects then 0 else s.retryCount + 1) ∧
      s'.retryCount ≤ maxRetryCount := by
  cases h with
  | failed answer count => exact ⟨rfl, by simp [answer], count⟩
  | connected answer => exact ⟨rfl, by simp [answer], Nat.zero_le _⟩
  | unconnected => cases hgo
  | remainderByZero => cases hgo
  | addressError => cases hgo
  | noConnection => cases hgo
  | served => cases hgo

theorem turn_eq_some (h : s.turn cfg inetAton e = some s') :
    s.exit = none ∧ Iterated cfg s e s' := by
  rw [turn] at h
  split_ifs at h with hexit
  obtain rfl : s.iterate cfg inetAton e = s' := Option.some.inj h
  exact ⟨by simpa using hexit, iterated cfg inetAton s e⟩

/-- The run invariant: the counter is the number of failures in a row, and the flag is
set only before the first iteration. -/
structure Tracks (argument : Option Text) (pre : List Turn) (s : Connector) : Prop where
  count : s.retryCount = consecutiveFailures pre
  le : s.retryCount ≤ maxRetryCount
  first : s.inputFlag = true → pre = [] ∧ ∃ a, argument = some a ∧ s.inputNum + 1 = atoiUnsigned a

theorem tracks_start (argument : Option Text) : Tracks argument [] (.start argument) := by
  cases argument with
  | none => exact ⟨rfl, Nat.zero_le _, by simp [start]⟩
  | some a =>
    unfold start
    dsimp only
    split_ifs with husage
    · exact ⟨rfl, Nat.zero_le _, by simp⟩
    · exact ⟨rfl, Nat.zero_le _, fun _ => ⟨rfl, a, rfl, by dsimp only; omega⟩⟩

theorem tracks_of_run {argument : Option Text} {pre : List Turn}
    (h : runFrom (turn cfg inetAton) (.start argument) pre = some s) (hrun : s.exit = none) :
    Tracks argument pre s := by
  induction pre using List.reverseRecOn generalizing s with
  | nil =>
    obtain rfl : start argument = s := Option.some.inj h
    exact tracks_start argument
  | append_singleton pre e ih =>
    rw [runFrom_append, Option.bind_eq_some_iff] at h
    obtain ⟨r, hr, h⟩ := h
    rw [runFrom_cons, Option.bind_eq_some_iff] at h
    obtain ⟨t, ht, h⟩ := h
    obtain rfl : t = s := Option.some.inj h
    obtain ⟨hexit, hi⟩ := turn_eq_some ht
    -- The loop goes on, so the last iteration has used up the flag and counted.
    obtain ⟨hflag, hcount, hle⟩ := hi.counts hrun
    refine ⟨?_, hle, fun hset => ?_⟩
    · rw [hcount, consecutiveFailures_concat, (ih hr hexit).count]
    · rw [hflag] at hset
      cases hset

theorem Tracks.choiceAllowed {argument : Option Text} {pre : List Turn}
    (h : Tracks argument pre s) {rand : ℕ} {choice : Choice}
    (hchoose : s.choose cfg rand = some choice) : ChoiceAllowed cfg argument pre choice := by
  rw [choose] at hchoose
  split_ifs at hchoose with hflag hpreferred hcount
  · obtain rfl := Option.some.inj hchoose
    exact h.first hflag
  · obtain rfl := Option.some.inj hchoose
    show consecutiveFailures pre < maxPreferredRetryCount
    rw [← h.count]
    exact hpreferred.2
  · obtain rfl := Option.some.inj hchoose
    exact Nat.mod_lt _ (Nat.pos_of_ne_zero hcount)

end Connector

/-- For any configuration and any answers, the selection is total if and only if no
iteration comes to the list of servers while it is empty. -/
theorem selectionTotal_iff (cfg : Config) (inetAton : Text → Bool) (argument : Option Text)
    (es : List Turn) :
    SelectionTotal cfg inetAton argument es ↔
      Along (Connector.turn cfg inetAton) (ListedIfNeeded cfg) (.start argument) es := by
  constructor
  · rintro h s e ⟨pre, hpre, hrun, hsome⟩ hsocket hbind hflag hneed
    obtain ⟨s', hs'⟩ := Option.isSome_iff_exists.mp hsome
    have hwell := h pre e s s' hpre hrun hs'
    -- With an empty list the iteration is the one that computes `rand() % 0`.
    by_contra hcount
    have hchoose : s.choose cfg e.rand = none :=
      Connector.choose_eq_none_iff.mpr ⟨hflag, hneed, by omega⟩
    have hexit : s'.exit = some .remainderByZero := by
      obtain ⟨hrun', -⟩ := Connector.turn_eq_some hs'
      have hturn : s.turn cfg inetAton e = some (s.leave .remainderByZero) := by
        simp [Connector.turn, Connector.iterate, hrun', hsocket, hbind, hchoose]
      rw [← Option.some.inj (hturn.symm.trans hs')]
      rfl
    exact hwell.no_remainder_by_zero hexit
  · intro h pre e s s' hpre hrun hs'
    obtain ⟨hexit, hi⟩ := Connector.turn_eq_some hs'
    have htracks := Connector.tracks_of_run hrun hexit
    have hlisted : ListedIfNeeded cfg s e := h s e ⟨pre, hpre, hrun, by rw [hs']; rfl⟩
    refine ⟨fun hx => ?_, fun choice hchoose => htracks.choiceAllowed hchoose, fun hx => ?_⟩
    · obtain ⟨hsocket, hbind, hchoose⟩ := hi.answers hexit hx
      obtain ⟨hflag, hneed, hcount⟩ := Connector.choose_eq_none_iff.mp hchoose
      have hpos := hlisted hsocket hbind hflag hneed
      omega
    · obtain ⟨hconnects, hcount⟩ := hi.fails hexit hx
      have hle := htracks.le
      rw [consecutiveFailures_concat, hconnects, ← htracks.count]
      show s.retryCount + 1 = maxRetryCount + 1
      omega

/-- A preferred server and no other one. -/
def preferredOnly : Text := "preferred_ids_server=10.0.0.1\n".toList

def preferredOnlyConfig : Config := { Config.zero with preferredIdsServer := "10.0.0.1".toList }

/-- After ten failures with such a configuration the agent computes `rand() % 0`. -/
theorem not_selectionTotal_preferredOnly :
    loadConnectConfig (some preferredOnly) = some preferredOnlyConfig ∧
      ¬ ∀ file cfg inetAton argument es, loadConnectConfig file = some cfg →
        SelectionTotal cfg inetAton argument es := by
  have hload : loadConnectConfig (some preferredOnly) = some preferredOnlyConfig := by
    decide +kernel
  refine ⟨hload, fun h => ?_⟩
  have htotal := h _ _ (fun t => t ≠ []) none (List.replicate 11 ⟨true, true, 0, false, true⟩) hload
  have hwell := htotal (List.replicate 10 ⟨true, true, 0, false, true⟩) ⟨true, true, 0, false, true⟩
    ⟨0, false, 10, none⟩ ⟨0, false, 10, some .remainderByZero⟩ (by decide +kernel)
    (by decide +kernel) (by decide +kernel)
  exact hwell.no_remainder_by_zero rfl

end CLib.Agent
