import CLib.Mysql.Checker

namespace CLib.Server
open CLib.Base CLib.Mysql

def commandMark : Text := "COMMAND:-".toList

theorem commandMark_eq : commandMark = ['C', 'O', 'M', 'M', 'A', 'N', 'D', ':', '-'] := by decide

/-- What `process_cmd` calls for a command. -/
inductive CommandCall
  | exceptionInsert (option : Option Text)
  | updateConfig
  deriving DecidableEq

/-- The text that `process_exception_insert` passes on, if the command has an option. -/
def optionText (cmdBuffer : Text) : Option Text :=
  (strstr cmdBuffer optionMark).map fun optionPtr => snprintf bufferSize (optionPtr.drop 7)

/-- `insert_exception` ends the process when the text has no separator. -/
def CommandCall.exits : CommandCall → Bool
  | .exceptionInsert (some option) => (strstr option separator).isNone
  | .exceptionInsert none => false
  | .updateConfig => false

/-- The `switch` of `process_cmd`. -/
def switchCmd (cmd : Char) (cmdBuffer : Text) : Option CommandCall :=
  match cmd with
  | 'I' => some (.exceptionInsert (optionText cmdBuffer))
  | 'U' => some .updateConfig
  | _ => none

/-- `cmd_ptr[9]`, the byte behind the first mark. The buffer is zero behind what was received. -/
def cmdLetter (received : Text) : Option Char :=
  (strstr (cstr received) commandMark).map fun cmdPtr => cmdPtr.getD 9 nul

/-- The calls of `process_cmd`, and whether the server is still alive. -/
structure Served where
  calls : List CommandCall
  alive : Bool
  deriving DecidableEq

/-- `process_cmd` on what its `recv` returns, until the console has closed the connection. -/
def processCmd : List Text → Served
  | [] => ⟨[], true⟩
  | received :: rest =>
    match cmdLetter received with
    | none => ⟨[], true⟩
    | some cmd =>
      match switchCmd cmd (cstr received) with
      | none => processCmd rest
      | some call =>
        if call.exits then ⟨[call], false⟩
        else { processCmd rest with calls := call :: (processCmd rest).calls }

/-- The commands `I` and `U` in what is received, up to the first piece without a mark. -/
def commandsRead : List Text → List Char
  | [] => []
  | received :: rest =>
    match cmdLetter received with
    | none => []
    | some cmd => if cmd = 'I' ∨ cmd = 'U' then cmd :: commandsRead rest else commandsRead rest

section Process
variable {received : Text} {rest : List Text} {cmd : Char} {cmdBuffer : Text}

theorem insertException_eq_none_iff (normalize : Text → UInt32) (c : Caches) (option : Text)
    (executes : Bool) :
    insertException normalize c option executes = none ↔
      (CommandCall.exceptionInsert (some option)).exits := by
  unfold insertException CommandCall.exits
  cases h : strstr option separator with
  | none => simp only [h, Option.isNone_none]
  | some ptr =>
    dsimp only
    split_ifs <;> simp [h]

theorem processExceptionInsert_eq_none_iff (normalize : Text → UInt32) (c : Caches)
    (cmdBuffer : Text) (executes : Bool) :
    processExceptionInsert normalize c cmdBuffer executes = none ↔
      (CommandCall.exceptionInsert (optionText cmdBuffer)).exits := by
  unfold processExceptionInsert optionText
  cases strstr cmdBuffer optionMark with
  | none => simp [CommandCall.exits]
  | some ptr => exact insertException_eq_none_iff normalize c _ executes

theorem switchCmd_eq_none_iff : switchCmd cmd cmdBuffer = none ↔ ¬ (cmd = 'I' ∨ cmd = 'U') := by
  unfold switchCmd
  split <;> simp_all

theorem processCmd_of_unmarked (h : cmdLetter received = none) :
    processCmd (received :: rest) = ⟨[], true⟩ := by
  simp only [processCmd, h]

theorem processCmd_of_other (h : cmdLetter received = some cmd) (hno : ¬ (cmd = 'I' ∨ cmd = 'U')) :
    processCmd (received :: rest) = processCmd rest := by
  simp only [processCmd, h, switchCmd_eq_none_iff.mpr hno]

theorem processCmd_of_call {call : CommandCall} (h : cmdLetter received = some cmd)
    (hcall : switchCmd cmd (cstr received) = some call) :
    processCmd (received :: rest) =
      if call.exits then ⟨[call], false⟩
      else { processCmd rest with calls := call :: (processCmd rest).calls } := by
  simp only [processCmd, h, hcall]

theorem commandsRead_of_unmarked (h : cmdLetter received = none) :
    commandsRead (received :: rest) = [] := by
  simp only [commandsRead, h]

theorem commandsRead_of_other (h : cmdLetter received = some cmd)
    (hno : ¬ (cmd = 'I' ∨ cmd = 'U')) : commandsRead (received :: rest) = commandsRead rest := by
  simp only [commandsRead, h, if_neg hno]

theorem commandsRead_of_command (h : cmdLetter received = some cmd) (hcmd : cmd = 'I' ∨ cmd = 'U') :
    commandsRead (received :: rest) = cmd :: commandsRead rest := by
  simp only [commandsRead, h, if_pos hcmd]

theorem exists_call (cmdBuffer : Text) (hcmd : cmd = 'I' ∨ cmd = 'U') :
    ∃ call, switchCmd cmd cmdBuffer = some call := by
  rw [← Option.ne_none_iff_exists']
  exact fun hnone => switchCmd_eq_none_iff.mp hnone hcmd

theorem calls_of_call (rest : List Text) {call : CommandCall} (h : cmdLetter received = some cmd)
    (hcall : switchCmd cmd (cstr received) = some call) :
    (processCmd (received :: rest)).calls =
      call :: if call.exits then [] else (processCmd rest).calls := by
  rw [processCmd_of_call h hcall]
  split_ifs <;> rfl

theorem processCmd_singleton {call : CommandCall} (h : cmdLetter received = some cmd)
    (hcall : switchCmd cmd (cstr received) = some call) :
    processCmd [received] = ⟨[call], !call.exits⟩ := by
  rw [processCmd_of_call h hcall]
  cases call.exits <;> rfl

theorem optionText_of_processCmd {option : Option Text} {alive : Bool}
    (h : cmdLetter received = some 'I')
    (hserved : processCmd (received :: rest) = ⟨[.exceptionInsert option], alive⟩) :
    optionText (cstr received) = option := by
  have hcalls := calls_of_call rest h rfl
  rw [hserved, List.cons.injEq] at hcalls
  exact (CommandCall.exceptionInsert.inj hcalls.1).symm

theorem exists_mem_of_exceptionInsert {option : Option Text} {pieces : List Text}
    (h : .exceptionInsert option ∈ (processCmd pieces).calls) :
    ∃ p ∈ pieces, option = optionText (cstr p) := by
  induction pieces with
  | nil => cases h
  | cons received rest ih =>
    have hrest (hlater : .exceptionInsert option ∈ (processCmd rest).calls) :
        ∃ p ∈ received :: rest, option = optionText (cstr p) := by
      obtain ⟨p, hp, hoption⟩ := ih hlater
      exact ⟨p, List.mem_cons_of_mem _ hp, hoption⟩
    cases hl : cmdLetter received with
    | none =>
      rw [processCmd_of_unmarked hl] at h
      cases h
    | some cmd =>
      cases hcall : switchCmd cmd (cstr received) with
      | none =>
        rw [processCmd_of_other hl (switchCmd_eq_none_iff.mp hcall)] at h
        exact hrest h
      | some call =>
        rw [calls_of_call rest hl hcall, List.mem_cons] at h
        rcases h with rfl | h
        · refine ⟨received, List.mem_cons_self, ?_⟩
          unfold switchCmd at hcall
          split at hcall <;> cases hcall
          rfl
        · split_ifs at h
          · cases h
          · exact hrest h

theorem processCmd_eq_idle_iff {pieces : List Text} :
    processCmd pieces = ⟨[], true⟩ ↔ commandsRead pieces = [] := by
  induction pieces with
  | nil => exact iff_of_true rfl rfl
  | cons received rest ih =>
    cases hl : cmdLetter received with
    | none => exact iff_of_true (processCmd_of_unmarked hl) (commandsRead_of_unmarked hl)
    | some cmd =>
      by_cases hcmd : cmd = 'I' ∨ cmd = 'U'
      · obtain ⟨call, hcall⟩ := exists_call (cstr received) hcmd
        rw [commandsRead_of_command hl hcmd]
        apply iff_of_false _ (List.cons_ne_nil _ _)
        intro h
        have hcalls := calls_of_call rest hl hcall
        rw [h] at hcalls
        cases hcalls
      · rw [processCmd_of_other hl hcmd, commandsRead_of_other hl hcmd]
        exact ih

/-- A single update of the configuration, and nothing else. -/
theorem processCmd_eq_update_iff {pieces : List Text} :
    processCmd pieces = ⟨[.updateConfig], true⟩ ↔ commandsRead pieces = ['U'] := by
  induction pieces with
  | nil => exact iff_of_false nofun nofun
  | cons received rest ih =>
    cases hl : cmdLetter received with
    | none =>
      rw [processCmd_of_unmarked hl, commandsRead_of_unmarked hl]
      exact iff_of_false nofun nofun
    | some cmd =>
      by_cases hI : cmd = 'I'
      · subst hI
        rw [commandsRead_of_command hl (.inl rfl)]
        apply iff_of_false _ (by simp)
        intro h
        have hcalls := calls_of_call rest hl rfl
        rw [h] at hcalls
        cases hcalls
      by_cases hU : cmd = 'U'
      · subst hU
        -- The update does not end the process, so the rest is served as well.
        rw [processCmd_of_call hl rfl, commandsRead_of_command hl (.inr rfl), List.cons.injEq,
          and_iff_right rfl, ← processCmd_eq_idle_iff]
        simp only [CommandCall.exits, Bool.false_eq_true, if_false, Served.mk.injEq, List.cons.injEq,
          true_and]
        rw [Served.mk.injEq]
      · have hno : ¬ (cmd = 'I' ∨ cmd = 'U') := not_or.mpr ⟨hI, hU⟩
        rw [processCmd_of_other hl hno, commandsRead_of_other hl hno]
        exact ih

end Process

/-- `;OPTION:text`, or nothing. -/
def optionPart : Option Text → Text
  | some t => ';' :: (optionMark ++ t)
  | none => []

/-- The bytes that the console sends for a letter and the text of an option. -/
def encode (letter : Char) (option : Option Text) : Text :=
  commandMark ++ letter :: optionPart option

section Letters
variable {p tail : Text} {c : Char}

theorem cmdLetter_of_free (h : nul ∉ p) :
    cmdLetter p = (strstr p commandMark).map fun cmdPtr => cmdPtr.getD 9 nul := by
  rw [cmdLetter, cstr_of_not_mem h]

theorem length_of_cmdLetter (h : cmdLetter p = some c) : commandMark.length ≤ p.length := by
  obtain ⟨ptr, hptr, -⟩ := Option.map_eq_some_iff.mp h
  obtain ⟨hpre, hsuf⟩ := strstr_eq_some hptr
  exact hpre.length_le.trans (hsuf.length_le.trans (List.takeWhile_prefix _).length_le)

theorem cmdLetter_of_short (h : p.length < commandMark.length) : cmdLetter p = none := by
  rw [← Option.not_isSome_iff_eq_none]
  intro hsome
  obtain ⟨c, hc⟩ := Option.isSome_iff_exists.mp hsome
  exact absurd (length_of_cmdLetter hc) (Nat.not_le.mpr h)

theorem cmdLetter_commandMark : cmdLetter commandMark = some nul := by decide

theorem cmdLetter_command (h : nul ∉ commandMark ++ c :: tail) :
    cmdLetter (commandMark ++ c :: tail) = some c := by
  rw [cmdLetter_of_free h, strstr_append_self, Option.map_some]
  rfl

theorem infix_of_cmdLetter (h : cmdLetter p = some c) (hc : c ≠ nul) : commandMark ++ [c] <:+: p := by
  obtain ⟨ptr, hptr, hget⟩ := Option.map_eq_some_iff.mp h
  obtain ⟨⟨rest, rfl⟩, hsuf⟩ := strstr_eq_some hptr
  cases rest with
  | nil => exact absurd hget.symm hc
  | cons d rest =>
    obtain rfl : d = c := hget
    have hpre : commandMark ++ [d] <+: commandMark ++ d :: rest :=
      (List.prefix_append_right_inj _).mpr ⟨rest, rfl⟩
    exact (hpre.isInfix.trans hsuf.isInfix).trans (List.takeWhile_prefix _).isInfix

theorem length_of_optionText {o : Text} (h : optionText p = some o) :
    o.length + optionMark.length ≤ p.length := by
  obtain ⟨ptr, hptr, rfl⟩ := Option.map_eq_some_iff.mp h
  obtain ⟨hpre, hsuf⟩ := strstr_eq_some hptr
  have hlong := hpre.length_le
  have hshort := hsuf.length_le
  have htake : (snprintf bufferSize (ptr.drop 7)).length ≤ ptr.length - 7 := by
    rw [snprintf, List.length_take, List.length_drop]
    exact Nat.min_le_right _ _
  have hmark : optionMark.length = 7 := rfl
  omega

end Letters

section Options
variable {pre tail r t : Text}

theorem strstr_optionMark (h : ¬ optionMark <:+: pre ++ (';' :: optionMark).dropLast) (t : Text) :
    strstr (pre ++ optionPart (some t)) optionMark = some (optionMark ++ t) := by
  have hno : ¬ optionMark <:+: (pre ++ [';']) ++ optionMark.dropLast := by
    rw [List.append_assoc]
    exact h
  have hstr := strstr_append_of_not_infix hno t
  rwa [List.append_assoc] at hstr

theorem optionText_optionPart (h : ¬ optionMark <:+: pre ++ (';' :: optionMark).dropLast) (t : Text) :
    optionText (pre ++ optionPart (some t)) = some (snprintf bufferSize t) := by
  rw [optionText, strstr_optionMark h]
  rfl

theorem optionText_cut (h : ¬ optionMark <:+: pre ++ (';' :: optionMark).dropLast)
    (hcut : tail ++ r = optionPart (some t)) (hr : r ≠ []) : optionText (pre ++ tail) ≠ some t := by
  have hpre : tail <+: (';' :: optionMark) ++ t := ⟨r, hcut⟩
  by_cases hlen : tail.length ≤ optionMark.length
  · have htail : tail <+: (';' :: optionMark).dropLast :=
      List.prefix_of_prefix_length_le hpre
        ((List.dropLast_prefix _).trans (List.prefix_append _ t)) hlen
    have hnone : strstr (pre ++ tail) optionMark = none := by
      rw [← Option.isNone_iff_eq_none, strstr_isNone_iff]
      exact fun hin => h (hin.trans ((List.prefix_append_right_inj pre).mpr htail).isInfix)
    rw [optionText, hnone]
    nofun
  · obtain ⟨w, rfl⟩ : ';' :: optionMark <+: tail :=
      List.prefix_of_prefix_length_le (List.prefix_append _ t) hpre (Nat.not_le.mp hlen)
    obtain rfl : w ++ r = t := by
      rw [List.append_assoc] at hcut
      exact List.append_cancel_left hcut
    intro hoption
    have heq : snprintf bufferSize w = w ++ r :=
      Option.some.inj ((optionText_optionPart h w).symm.trans hoption)
    have hlength := congrArg List.length heq
    rw [snprintf, List.length_take, List.length_append] at hlength
    have hpos := List.length_pos_of_ne_nil hr
    omega

end Options

end CLib.Server
