import CLib.MyShell.MainLoop
import Mathlib.Data.List.Basic

namespace CLib.MyShell
open CLib.Base

def commandIn : Text := "<".toList

def commandOut : Text := ">".toList

def errorCommand : ℕ := 2

def errorManyIn : ℕ := 9

def errorManyOut : ℕ := 10

def errorFileNotExist : ℕ := 11

/-- The words that `callCommandWithRedi` takes for redirections. -/
def isRedirection (t : Text) : Bool := t = commandIn || t = commandOut

/-- The local variables of the loop of `callCommandWithRedi`; indices count from `left`. -/
@[ext]
structure Redirections where
  inNum : ℕ
  outNum : ℕ
  inFile : Option Text
  outFile : Option Text
  endIdx : ℕ

/-- The loop over the words from `i` on; `none` is the way out with a missing file name. -/
def rediLoop (right : ℕ) : ℕ → Redirections → List Text → Option Redirections
  | _, r, [] => some r
  | i, r, t :: ts =>
    -- The vector ends in front of the first redirection of either kind.
    let endIdx := if r.endIdx = right then i else r.endIdx
    if t = commandIn then
      if ts = [] then none
      else rediLoop right (i + 1) ⟨r.inNum + 1, r.outNum, ts.head?, r.outFile, endIdx⟩ ts
    else if t = commandOut then
      if ts = [] then none
      else rediLoop right (i + 1) ⟨r.inNum, r.outNum + 1, r.inFile, ts.head?, endIdx⟩ ts
    else rediLoop right (i + 1) r ts

/-- What the system answers to a stage: whether the command exists, whether `fopen` opens the
input file, whether `vfork` succeeds, and in the child whether `freopen` opens each of the files. -/
structure StageAnswers where
  isCommandExist : Bool
  opens : Bool
  forks : Bool
  reopensIn : Bool
  reopensOut : Bool

/-- What a command finds as its `stdin` or `stdout`. -/
inductive Descriptor
  | inherited
  | file (name : Text)
  | closed
  deriving DecidableEq

/-- `freopen`, whose result is not looked at: the stream is closed first, and stays closed if the
file cannot be opened. -/
def freopen (opens : Bool) : Option Text → Descriptor
  | none => .inherited
  | some name => if opens then .file name else .closed

/-- A call of `execvp`: the vector, and `stdin` and `stdout`. -/
structure Exec where
  argv : List Text
  stdin : Descriptor
  stdout : Descriptor
  deriving DecidableEq

/-- The result of a call, and the commands that it has executed. -/
structure Called where
  result : ℕ
  executed : List Exec
  deriving DecidableEq

/-- `callCommandWithRedi` on the words of a stage. `commands[left]`, which is what is looked
up, is behind an empty stage and the first word of any other one. -/
def callCommandWithRedi (left : Text) (stage : List Text) (a : StageAnswers) : Called :=
  if left = [] ∨ a.isCommandExist = false then ⟨errorCommand, []⟩
  else match rediLoop stage.length 0 ⟨0, 0, none, none, stage.length⟩ stage with
    | none => ⟨errorMissParameter, []⟩
    | some r =>
      -- The input file is tried before the numbers of the operators are.
      if r.inNum = 1 ∧ a.opens = false then ⟨errorFileNotExist, []⟩
      else if 1 < r.inNum then ⟨errorManyIn, []⟩
      else if 1 < r.outNum then ⟨errorManyOut, []⟩
      else if a.forks = false then ⟨errorFork, []⟩
      else
        ⟨resultNormal, [⟨stage.take r.endIdx,
          freopen a.reopensIn (if r.inNum = 1 then r.inFile else none),
          freopen a.reopensOut (if r.outNum = 1 then r.outFile else none)⟩]⟩

/-- The last word of the stage is a redirection, and its file name is missing. -/
def EndsInRedirection (stage : List Text) : Prop := ∃ t ∈ stage.getLast?, isRedirection t = true

def lastFile (op : Text) : List Text → Option Text
  | [] => none
  | t :: ts => (lastFile op ts).or (if t = op then ts.head? else none)

def beforeRedirection (stage : List Text) : List Text := stage.takeWhile fun t => !isRedirection t

/-- What the loop makes of the words `ts`, if it gets to their end. -/
def Redirections.over (r : Redirections) (right i : ℕ) (ts : List Text) : Redirections :=
  ⟨r.inNum + ts.count commandIn, r.outNum + ts.count commandOut,
    (lastFile commandIn ts).or r.inFile, (lastFile commandOut ts).or r.outFile,
    if r.endIdx = right then i + (beforeRedirection ts).length else r.endIdx⟩

section Loop
variable {right i : ℕ} {r : Redirections} {t : Text} {ts : List Text}

theorem endsInRedirection_cons (hts : ts ≠ []) :
    EndsInRedirection (t :: ts) ↔ EndsInRedirection ts := by
  obtain ⟨u, us, rfl⟩ := List.exists_cons_of_ne_nil hts
  rw [EndsInRedirection, EndsInRedirection, List.getLast?_cons_cons]

theorem endsInRedirection_singleton : EndsInRedirection [t] ↔ isRedirection t = true := by
  simp [EndsInRedirection]

/-- The loop fails if the last word is a redirection, and only then. -/
theorem rediLoop_eq_none (h : EndsInRedirection ts) : rediLoop right i r ts = none := by
  induction ts generalizing i r with
  | nil =>
    obtain ⟨t, ht, -⟩ := h
    cases ht
  | cons t ts ih =>
    by_cases hts : ts = []
    · subst hts
      have ht := endsInRedirection_singleton.mp h
      rw [isRedirection, Bool.or_eq_true, decide_eq_true_eq, decide_eq_true_eq] at ht
      rw [rediLoop]
      rcases ht with rfl | rfl
      · rw [if_pos rfl, if_pos rfl]
      · rw [if_neg (by decide), if_pos rfl, if_pos rfl]
    · have hrest := (endsInRedirection_cons hts).mp h
      rw [rediLoop]
      simp only [if_neg hts, ih hrest, ite_self]

theorem beforeRedirection_cons_of_redirection (ht : isRedirection t = true) :
    beforeRedirection (t :: ts) = [] :=
  List.takeWhile_cons_of_neg (by rw [ht]; decide)

theorem beforeRedirection_cons (ht : isRedirection t = false) :
    beforeRedirection (t :: ts) = t :: beforeRedirection ts :=
  List.takeWhile_cons_of_pos (by rw [ht]; decide)

theorem lastFile_cons_or {op : Text} (hts : ts ≠ []) (file : Option Text) :
    (lastFile op (op :: ts)).or file = (lastFile op ts).or ts.head? := by
  obtain ⟨u, us, rfl⟩ := List.exists_cons_of_ne_nil hts
  rw [lastFile, if_pos rfl, List.head?_cons, Option.or_assoc, Option.some_or]

theorem lastFile_cons_of_ne {op : Text} (ht : t ≠ op) : lastFile op (t :: ts) = lastFile op ts := by
  rw [lastFile, if_neg ht, Option.or_none]

theorem endIdx_over (hright : i < right) (ht : isRedirection t = true) :
    (if (if r.endIdx = right then i else r.endIdx) = right then i + 1 + (beforeRedirection ts).length
      else if r.endIdx = right then i else r.endIdx) =
      if r.endIdx = right then i + (beforeRedirection (t :: ts)).length else r.endIdx := by
  rw [beforeRedirection_cons_of_redirection ht, List.length_nil]
  split_ifs <;> omega

theorem over_nil (hright : i = right) : r.over right i [] = r := by
  ext1
  · exact Nat.add_zero _
  · exact Nat.add_zero _
  · rfl
  · rfl
  · show (if r.endIdx = right then i + 0 else r.endIdx) = r.endIdx
    split_ifs <;> omega

theorem over_commandIn (hright : i < right) (hts : ts ≠ []) :
    Redirections.over ⟨r.inNum + 1, r.outNum, ts.head?, r.outFile,
      if r.endIdx = right then i else r.endIdx⟩ right (i + 1) ts =
        r.over right i (commandIn :: ts) := by
  ext1
  · show r.inNum + 1 + ts.count commandIn = r.inNum + (commandIn :: ts).count commandIn
    rw [List.count_cons_self]
    omega
  · show r.outNum + ts.count commandOut = r.outNum + (commandIn :: ts).count commandOut
    rw [List.count_cons_of_ne (by decide)]
  · exact (lastFile_cons_or hts r.inFile).symm
  · show (lastFile commandOut ts).or r.outFile = (lastFile commandOut (commandIn :: ts)).or r.outFile
    rw [lastFile_cons_of_ne (by decide)]
  · exact endIdx_over hright (by decide)

theorem over_commandOut (hright : i < right) (hts : ts ≠ []) :
    Redirections.over ⟨r.inNum, r.outNum + 1, r.inFile, ts.head?,
      if r.endIdx = right then i else r.endIdx⟩ right (i + 1) ts =
        r.over right i (commandOut :: ts) := by
  ext1
  · show r.inNum + ts.count commandIn = r.inNum + (commandOut :: ts).count commandIn
    rw [List.count_cons_of_ne (by decide)]
  · show r.outNum + 1 + ts.count commandOut = r.outNum + (commandOut :: ts).count commandOut
    rw [List.count_cons_self]
    omega
  · show (lastFile commandIn ts).or r.inFile = (lastFile commandIn (commandOut :: ts)).or r.inFile
    rw [lastFile_cons_of_ne (by decide)]
  · exact (lastFile_cons_or hts r.outFile).symm
  · exact endIdx_over hright (by decide)

theorem over_word (hin : t ≠ commandIn) (hout : t ≠ commandOut) :
    r.over right (i + 1) ts = r.over right i (t :: ts) := by
  have ht : isRedirection t = false := by simp [isRedirection, hin, hout]
  ext1
  · show r.inNum + ts.count commandIn = r.inNum + (t :: ts).count commandIn
    rw [List.count_cons_of_ne hin]
  · show r.outNum + ts.count commandOut = r.outNum + (t :: ts).count commandOut
    rw [List.count_cons_of_ne hout]
  · show (lastFile commandIn ts).or r.inFile = (lastFile commandIn (t :: ts)).or r.inFile
    rw [lastFile_cons_of_ne hin]
  · show (lastFile commandOut ts).or r.outFile = (lastFile commandOut (t :: ts)).or r.outFile
    rw [lastFile_cons_of_ne hout]
  · show (if r.endIdx = right then i + 1 + (beforeRedirection ts).length else r.endIdx) =
      if r.endIdx = right then i + (beforeRedirection (t :: ts)).length else r.endIdx
    rw [beforeRedirection_cons ht, List.length_cons]
    split_ifs <;> omega

/-- The loop invariant: what the loop makes of the remaining words. -/
theorem rediLoop_eq_some (hright : i + ts.length = right) (h : ¬ EndsInRedirection ts) :
    rediLoop right i r ts = some (r.over right i ts) := by
  induction ts generalizing i r with
  | nil => rw [rediLoop, over_nil (show i = right from hright)]
  | cons t ts ih =>
    have hi : i < right := by
      rw [List.length_cons] at hright
      omega
    have hnext : i + 1 + ts.length = right := by
      rw [← hright, List.length_cons]
      omega
    have hrest : ¬ EndsInRedirection ts := fun hts => by
      have hne : ts ≠ [] := by
        rintro rfl
        obtain ⟨u, hu, -⟩ := hts
        cases hu
      exact h ((endsInRedirection_cons hne).mpr hts)
    -- A redirection always finds a file name behind it.
    have hlast : isRedirection t = true → ts ≠ [] := by
      rintro ht rfl
      exact h (endsInRedirection_singleton.mpr ht)
    by_cases hin : t = commandIn
    · subst hin
      have hts := hlast (by decide)
      rw [rediLoop, if_pos rfl, if_neg hts, ih hnext hrest, over_commandIn hi hts]
    · by_cases hout : t = commandOut
      · subst hout
        have hts := hlast (by decide)
        rw [rediLoop, if_neg (by decide), if_pos rfl, if_neg hts, ih hnext hrest,
          over_commandOut hi hts]
      · rw [rediLoop, if_neg hin, if_neg hout, ih hnext hrest, over_word hin hout]

end Loop

def fileAfter (op : Text) (stage : List Text) : Option Text :=
  (stage.dropWhile fun t => t ≠ op).tail.head?

theorem forall_ne_of_not_mem {op : Text} {ts : List Text} (h : op ∉ ts) :
    ∀ t ∈ ts, decide (t ≠ op) = true := by
  intro t ht
  simpa using fun heq : t = op => h (heq ▸ ht)

theorem lastFile_of_not_mem {op : Text} {ts : List Text} (h : op ∉ ts) : lastFile op ts = none := by
  induction ts with
  | nil => rfl
  | cons t ts ih =>
    obtain ⟨ht, hts⟩ := not_or.mp (List.mem_cons.not.mp h)
    rw [lastFile_cons_of_ne (Ne.symm ht), ih hts]

theorem fileAfter_of_not_mem {op : Text} {ts : List Text} (h : op ∉ ts) : fileAfter op ts = none := by
  rw [fileAfter, List.dropWhile_eq_nil_iff.mpr (forall_ne_of_not_mem h)]
  rfl

theorem lastFile_eq_fileAfter {op : Text} {ts : List Text} (h : ts.count op ≤ 1) :
    lastFile op ts = fileAfter op ts := by
  induction ts with
  | nil => rfl
  | cons t ts ih =>
    by_cases ht : t = op
    · subst ht
      rw [List.count_cons_self] at h
      have hts : t ∉ ts := List.count_eq_zero.mp (by omega)
      rw [lastFile, if_pos rfl, lastFile_of_not_mem hts, Option.none_or, fileAfter,
        List.dropWhile_cons_of_neg (by simp)]
      rfl
    · rw [List.count_cons_of_ne ht] at h
      rw [lastFile_cons_of_ne ht, ih h, fileAfter, fileAfter,
        List.dropWhile_cons_of_pos (by simpa using ht)]

theorem file_of_count {op : Text} {ts : List Text} (h : ts.count op ≤ 1) :
    (if ts.count op = 1 then lastFile op ts else none) = fileAfter op ts := by
  split_ifs with hone
  · exact lastFile_eq_fileAfter h
  · exact (fileAfter_of_not_mem (List.count_eq_zero.mp (by omega))).symm

/-- What has to be right for the command of a stage to be executed. -/
structure StageRuns (left : Text) (stage : List Text) (a : StageAnswers) : Prop where
  left : left ≠ []
  isCommandExist : a.isCommandExist = true
  operand : ¬ EndsInRedirection stage
  opens : stage.count commandIn = 1 → a.opens = true
  inNum : stage.count commandIn ≤ 1
  outNum : stage.count commandOut ≤ 1
  forks : a.forks = true

section Stages
variable {left : Text} {stage : List Text} {a : StageAnswers}

theorem rediLoop_stage (h : ¬ EndsInRedirection stage) :
    rediLoop stage.length 0 ⟨0, 0, none, none, stage.length⟩ stage =
      some ⟨stage.count commandIn, stage.count commandOut, lastFile commandIn stage,
        lastFile commandOut stage, (beforeRedirection stage).length⟩ := by
  rw [rediLoop_eq_some (Nat.zero_add _) h]
  simp [Redirections.over]

theorem take_beforeRedirection (stage : List Text) :
    stage.take (beforeRedirection stage).length = beforeRedirection stage :=
  (List.prefix_iff_eq_take.mp (List.takeWhile_prefix _)).symm

theorem callCommandWithRedi_runs (h : StageRuns left stage a) :
    callCommandWithRedi left stage a =
      ⟨resultNormal, [⟨beforeRedirection stage, freopen a.reopensIn (fileAfter commandIn stage),
        freopen a.reopensOut (fileAfter commandOut stage)⟩]⟩ := by
  have hopens : ¬ (stage.count commandIn = 1 ∧ a.opens = false) := fun hc => by
    rw [h.opens hc.1] at hc
    cases hc.2
  have hin := h.inNum
  have hout := h.outNum
  rw [callCommandWithRedi, if_neg (by simp [h.left, h.isCommandExist]), rediLoop_stage h.operand]
  dsimp only
  rw [if_neg hopens, if_neg (by omega), if_neg (by omega), if_neg (by simp [h.forks]),
    take_beforeRedirection, file_of_count hin, file_of_count hout]

theorem callCommandWithRedi_refuses (h : ¬ StageRuns left stage a) :
    (callCommandWithRedi left stage a).result ≠ resultNormal ∧
      (callCommandWithRedi left stage a).executed = [] := by
  rw [callCommandWithRedi]
  by_cases hexist : left = [] ∨ a.isCommandExist = false
  · rw [if_pos hexist]
    exact ⟨by decide, rfl⟩
  rw [if_neg hexist]
  by_cases hoperand : EndsInRedirection stage
  · rw [rediLoop_eq_none hoperand]
    exact ⟨by show errorMissParameter ≠ resultNormal; decide, rfl⟩
  rw [rediLoop_stage hoperand]
  dsimp only
  by_cases hopens : stage.count commandIn = 1 ∧ a.opens = false
  · rw [if_pos hopens]
    exact ⟨by decide, rfl⟩
  rw [if_neg hopens]
  by_cases hin : 1 < stage.count commandIn
  · rw [if_pos hin]
    exact ⟨by decide, rfl⟩
  rw [if_neg hin]
  by_cases hout : 1 < stage.count commandOut
  · rw [if_pos hout]
    exact ⟨by decide, rfl⟩
  rw [if_neg hout]
  by_cases hforks : a.forks = false
  · rw [if_pos hforks]
    exact ⟨by decide, rfl⟩
  -- with every test passed the stage is in order
  obtain ⟨hleft, hexist⟩ := not_or.mp hexist
  refine absurd ⟨hleft, by simpa using hexist, hoperand, fun hone => ?_, by omega, by omega,
    by simpa using hforks⟩ h
  by_contra hclosed
  exact hopens ⟨hone, by simpa using hclosed⟩

end Stages

def commandPipe : Text := "|".toList

namespace Stage
variable (s : Stage)

end Stage

end CLib.MyShell
