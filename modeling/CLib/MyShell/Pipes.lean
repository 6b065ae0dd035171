import CLib.MyShell.Redirection

namespace CLib.MyShell
open CLib.Base

def errorPipe : ℕ := 12

def errorPipeMissParameter : ℕ := 13

/-- What the system answers while a stage of a pipeline is handled: whether `pipe` and the
`vfork` behind it succeed, and its answers to the stage itself. -/
structure PipeAnswers where
  pipes : Bool
  forks : Bool
  stage : StageAnswers

/-- The words in front of the first pipe, `[left, pipeIdx)`. -/
def stageOf (ts : List Text) : List Text := ts.takeWhile fun t => t ≠ commandPipe

/-- The words from the first pipe on. -/
def fromPipe (ts : List Text) : List Text := ts.dropWhile fun t => t ≠ commandPipe

/-- `callCommandWithPipe` on the words `[left, right)`; the stages take the answers in turn. -/
def callCommandWithPipe (ts : List Text) (a : ℕ → PipeAnswers) : Called :=
  if ts = [] then ⟨resultNormal, []⟩
  else match _ : fromPipe ts with
    | [] => callCommandWithRedi (ts.headD []) (stageOf ts) (a 0).stage
    | _ :: rest =>
      if rest = [] then ⟨errorPipeMissParameter, []⟩
      else if (a 0).pipes = false then ⟨errorPipe, []⟩
      else if (a 0).forks = false then ⟨errorFork, []⟩
      else
        -- The stage is done with before the words behind the pipe are looked at.
        let child := callCommandWithRedi (ts.headD []) (stageOf ts) (a 0).stage
        if child.result ≠ resultNormal then child
        else
          let behind := callCommandWithPipe rest fun k => a (k + 1)
          ⟨behind.result, child.executed ++ behind.executed⟩
termination_by ts.length
decreasing_by
  have hlen := congrArg List.length ‹fromPipe ts = _ :: rest›
  have hle := (List.dropWhile_suffix (fun t => decide (t ≠ commandPipe)) (l := ts)).length_le
  rw [← fromPipe, hlen, List.length_cons] at hle
  omega

/-- Some stage of the line is empty, or its last word is a redirection. -/
def Malformed (ts : List Text) : Prop :=
  ts ≠ [] ∧ ∃ stage ∈ ts.splitOn commandPipe, stage = [] ∨ EndsInRedirection stage

/-- The command of the first stage is executed. -/
def FirstStageRuns (ts : List Text) (a : ℕ → PipeAnswers) : Prop :=
  StageRuns (ts.headD []) (stageOf ts) (a 0).stage ∧
    (commandPipe ∈ ts → (a 0).pipes = true ∧ (a 0).forks = true)

section Lines
variable {ts stage rest : List Text} {a : ℕ → PipeAnswers}

theorem stageOf_of_not_mem (h : commandPipe ∉ ts) : stageOf ts = ts :=
  List.takeWhile_eq_self_iff.mpr (forall_ne_of_not_mem h)

theorem fromPipe_of_not_mem (h : commandPipe ∉ ts) : fromPipe ts = [] :=
  List.dropWhile_eq_nil_iff.mpr (forall_ne_of_not_mem h)

theorem stageOf_append (h : commandPipe ∉ stage) (rest : List Text) :
    stageOf (stage ++ commandPipe :: rest) = stage := by
  rw [stageOf, List.takeWhile_append_of_pos (forall_ne_of_not_mem h),
    List.takeWhile_cons_of_neg (by simp), List.append_nil]

theorem fromPipe_append (h : commandPipe ∉ stage) (rest : List Text) :
    fromPipe (stage ++ commandPipe :: rest) = commandPipe :: rest := by
  rw [fromPipe, List.dropWhile_append_of_pos (forall_ne_of_not_mem h),
    List.dropWhile_cons_of_neg (by simp)]

theorem callCommandWithPipe_single (hts : ts ≠ []) (h : commandPipe ∉ ts) :
    callCommandWithPipe ts a = callCommandWithRedi (ts.headD []) ts (a 0).stage := by
  rw [callCommandWithPipe, if_neg hts]
  split
  · rw [stageOf_of_not_mem h]
  · next heq =>
    rw [fromPipe_of_not_mem h] at heq
    cases heq

theorem callCommandWithPipe_append (h : commandPipe ∉ stage) (rest : List Text) :
    callCommandWithPipe (stage ++ commandPipe :: rest) a =
      if rest = [] then ⟨errorPipeMissParameter, []⟩
      else if (a 0).pipes = false then ⟨errorPipe, []⟩
      else if (a 0).forks = false then ⟨errorFork, []⟩
      else
        let child := callCommandWithRedi ((stage ++ commandPipe :: rest).headD []) stage (a 0).stage
        if child.result ≠ resultNormal then child
        else
          let behind := callCommandWithPipe rest fun k => a (k + 1)
          ⟨behind.result, child.executed ++ behind.executed⟩ := by
  rw [callCommandWithPipe, if_neg (by simp)]
  split
  · next heq =>
    rw [fromPipe_append h] at heq
    cases heq
  · next heq =>
    rw [fromPipe_append h] at heq
    cases heq
    rw [stageOf_append h]

theorem malformed_single (h : commandPipe ∉ ts) : Malformed ts ↔ ts ≠ [] ∧ EndsInRedirection ts := by
  rw [Malformed, List.splitOn_eq_singleton h]
  constructor
  · rintro ⟨hts, stage, hstage, hwrong⟩
    rw [List.mem_singleton.mp hstage] at hwrong
    exact ⟨hts, hwrong.resolve_left hts⟩
  · rintro ⟨hts, hends⟩
    exact ⟨hts, ts, List.mem_singleton_self ts, .inr hends⟩

/-- At a pipe nothing is executed without an error if and only if the pipe is the last word
or the first stage is refused. -/
theorem runs_nothing_append (h : commandPipe ∉ stage) (rest : List Text) :
    ((callCommandWithPipe (stage ++ commandPipe :: rest) a).result ≠ resultNormal ∧
        (callCommandWithPipe (stage ++ commandPipe :: rest) a).executed = []) ↔
      rest = [] ∨ ¬ FirstStageRuns (stage ++ commandPipe :: rest) a := by
  have hruns : FirstStageRuns (stage ++ commandPipe :: rest) a ↔
      StageRuns ((stage ++ commandPipe :: rest).headD []) stage (a 0).stage ∧
        (a 0).pipes = true ∧ (a 0).forks = true := by
    rw [FirstStageRuns, stageOf_append h]
    simp
  rw [hruns, callCommandWithPipe_append h]
  by_cases hrest : rest = []
  · rw [if_pos hrest]
    exact ⟨fun _ => .inl hrest, fun _ => ⟨by decide, rfl⟩⟩
  rw [if_neg hrest]
  by_cases hpipes : (a 0).pipes = false
  · rw [if_pos hpipes, hpipes]
    exact ⟨fun _ => .inr (by simp), fun _ => ⟨by decide, rfl⟩⟩
  rw [if_neg hpipes]
  by_cases hforks : (a 0).forks = false
  · rw [if_pos hforks, hforks]
    exact ⟨fun _ => .inr (by simp), fun _ => ⟨by decide, rfl⟩⟩
  rw [if_neg hforks]
  by_cases hstage : StageRuns ((stage ++ commandPipe :: rest).headD []) stage (a 0).stage
  · rw [callCommandWithRedi_runs hstage]
    constructor
    · rintro ⟨-, hexecuted⟩
      cases hexecuted
    · rintro (hnil | hnot)
      · exact absurd hnil hrest
      · exact absurd ⟨hstage, by simpa using hpipes, by simpa using hforks⟩ hnot
  · obtain ⟨hresult, hexecuted⟩ := callCommandWithRedi_refuses hstage
    dsimp only
    rw [if_pos hresult]
    exact ⟨fun _ => .inr fun hall => hstage hall.1, fun _ => ⟨hresult, hexecuted⟩⟩

theorem callCommandWithPipe_reports (h : Malformed ts)
    (hpipe : ∀ k, (ts.splitOn commandPipe)[k]? = some [] → (a k).stage.isCommandExist = false) :
    (callCommandWithPipe ts a).result ≠ resultNormal := by
  induction hlen : ts.length using Nat.strong_induction_on generalizing ts a with
  | _ n ih =>
    by_cases hmem : commandPipe ∈ ts
    · obtain ⟨stage, rest, rfl, hstage⟩ := List.eq_append_cons_of_mem hmem
      rw [callCommandWithPipe_append hstage]
      rw [List.splitOn_append_cons_self_of_not_mem hstage] at hpipe
      split_ifs with hrest
      · decide
      · decide
      · decide
      dsimp only
      split_ifs with hresult
      · exact hresult
      · have hruns : StageRuns ((stage ++ commandPipe :: rest).headD []) stage (a 0).stage := by
          by_contra hnot
          exact hresult (callCommandWithRedi_refuses hnot).1
        refine ih rest.length ?_ ⟨hrest, ?_⟩ (fun k hk => hpipe (k + 1) hk) rfl
        · rw [← hlen, List.length_append, List.length_cons]
          omega
        · -- the first stage is in order, so the wrong one is behind it
          obtain ⟨-, wrong, hwrong, hbad⟩ := h
          rw [List.splitOn_append_cons_self_of_not_mem hstage, List.mem_cons] at hwrong
          rcases hwrong with rfl | hwrong
          · rcases hbad with rfl | hends
            · have hexist := hruns.isCommandExist
              rw [hpipe 0 rfl] at hexist
              cases hexist
            · exact absurd hends hruns.operand
          · exact ⟨wrong, hwrong, hbad⟩
    · obtain ⟨hts, hends⟩ := (malformed_single hmem).mp h
      rw [callCommandWithPipe_single hts hmem]
      exact (callCommandWithRedi_refuses fun hruns => hruns.operand hends).1

end Lines

/-- A malformed line runs nothing and is an error if and only if its only pipe is its last
word or its first stage is refused: the stages are looked at one by one, each after the
command of the one before it has been executed. -/
theorem malformed_runs_nothing_iff (ts : List Text) (a : ℕ → PipeAnswers) (h : Malformed ts) :
    ((callCommandWithPipe ts a).result ≠ resultNormal ∧ (callCommandWithPipe ts a).executed = []) ↔
      ts = stageOf ts ++ [commandPipe] ∨ ¬ FirstStageRuns ts a := by
  by_cases hmem : commandPipe ∈ ts
  · obtain ⟨stage, rest, rfl, hstage⟩ := List.eq_append_cons_of_mem hmem
    rw [runs_nothing_append hstage, stageOf_append hstage, List.append_cancel_left_eq,
      List.cons_inj_right]
  · obtain ⟨hts, hends⟩ := (malformed_single hmem).mp h
    have hrefused : ¬ StageRuns (ts.headD []) ts (a 0).stage := fun hruns => hruns.operand hends
    rw [callCommandWithPipe_single hts hmem]
    refine ⟨fun _ => .inr fun hruns => ?_, fun _ => callCommandWithRedi_refuses hrefused⟩
    rw [FirstStageRuns, stageOf_of_not_mem hmem] at hruns
    exact hrefused hruns.1

/-- `ls | | wc` -/
def emptyStage : List Text := ["ls".toList, "|".toList, "|".toList, "wc".toList]

theorem emptyStage_malformed : Malformed emptyStage := by
  refine ⟨by decide, [], ?_, .inl rfl⟩
  decide

/-- The answers when `ls` exists and `|` does not. -/
def lsExists (k : ℕ) : PipeAnswers := ⟨true, true, ⟨k = 0, true, true, true, true⟩⟩

theorem malformed_runs_nothing_emptyStage :
    ¬ ((callCommandWithPipe emptyStage lsExists).result ≠ resultNormal ∧
      (callCommandWithPipe emptyStage lsExists).executed = []) := by
  rw [malformed_runs_nothing_iff emptyStage lsExists emptyStage_malformed]
  rintro (hlast | hrefused)
  · revert hlast
    decide
  · refine hrefused ⟨⟨by decide, rfl, ?_, fun _ => rfl, by decide, by decide, rfl⟩, fun _ => ⟨rfl, rfl⟩⟩
    show ¬ EndsInRedirection ["ls".toList]
    rw [endsInRedirection_singleton]
    decide

/-- `ls` is executed before the empty stage behind it is found. -/
theorem not_malformed_runs_nothing :
    callCommandWithPipe emptyStage lsExists = ⟨errorCommand, [⟨["ls".toList], .inherited, .inherited⟩]⟩ ∧
      ¬ ∀ (ts : List Text) (a : ℕ → PipeAnswers), Malformed ts →
        (callCommandWithPipe ts a).result ≠ resultNormal ∧ (callCommandWithPipe ts a).executed = [] := by
  have hrun : callCommandWithPipe emptyStage lsExists =
      ⟨errorCommand, [⟨["ls".toList], .inherited, .inherited⟩]⟩ := by decide +kernel
  refine ⟨hrun, fun h => ?_⟩
  obtain ⟨-, hexecuted⟩ := h emptyStage lsExists emptyStage_malformed
  rw [hrun] at hexecuted
  cases hexecuted

end CLib.MyShell
