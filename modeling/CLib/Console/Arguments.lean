import CLib.Base.Getopt
import CLib.Server.Command

namespace CLib.Console
open CLib.Base CLib.Server CLib.Mysql

/-- `optString` of the console. -/
def optString : Text := "I:Uvh?".toList

inductive CmdType
  | insertException
  | updateConfig
  deriving DecidableEq

/-- `global_args`, which is zero before `main` writes to it. -/
structure GlobalArgs where
  cmdId : CmdType
  sql : Option Text
  deriving DecidableEq

/-- The `switch` of the option loop. Other letters lead to `display_usage`, which exits. -/
def recordOpt (g : GlobalArgs) (o : Opt) : Option GlobalArgs :=
  match o.letter with
  | 'I' => some ⟨.insertException, o.arg⟩
  | 'U' => some { g with cmdId := .updateConfig }
  | _ => none

def recordOpts (opts : List Opt) : Option GlobalArgs :=
  opts.foldlM recordOpt ⟨.insertException, none⟩

def commandLabel : Text := "COMMAND:".toList

def optionLabel : Text := ";OPTION:".toList

/-- The text that is printed into the buffer from `argv[1]` and `argv[2]`. -/
def message : List Text → Text
  | [a] => commandLabel ++ a
  | [a, b] => commandLabel ++ (a ++ (optionLabel ++ b))
  | _ => []

/-- An invocation of the console that gets as far as `send`. -/
structure Sent where
  scanned : Scanned
  globalArgs : GlobalArgs
  deriving DecidableEq

/-- The text that is to be sent, and the part of it that is in the buffer. -/
def Sent.text (t : Sent) : Text := message t.scanned.argv

def Sent.buffer (t : Sent) : Text := snprintf bufferSize t.text

/-- `main` of the console up to `send`, where it does not exit before. -/
def main (permute : Bool) (args : List Text) : Option Sent :=
  (getopt optString permute args).bind fun scanned =>
    (recordOpts scanned.opts).bind fun globalArgs =>
      if args.length ≠ 1 ∧ args.length ≠ 2 then none
      else if globalArgs.cmdId = .insertException ∧ globalArgs.sql = none then none
      else some ⟨scanned, globalArgs⟩

/-- What the server has to call for the command that is recorded. -/
def GlobalArgs.call (g : GlobalArgs) : CommandCall :=
  match g.cmdId with
  | .insertException => .exceptionInsert g.sql
  | .updateConfig => .updateConfig

/-- The server calls what the console has recorded, and nothing else. -/
def Agrees (t : Sent) : Prop := (processCmd [t.buffer]).calls = [t.globalArgs.call]

instance : DecidablePred Agrees := fun t =>
  inferInstanceAs (Decidable ((processCmd [t.buffer]).calls = [t.globalArgs.call]))

def updateOpt : Opt := ⟨'U', none⟩

def insertOpt (sql : Text) : Opt := ⟨'I', some sql⟩

/-- The options that the first argument and the text behind the first `OPTION:` speak for:
updates first and last, or one insertion whose text the server reads there. -/
def Legible (s : Scanned) : Prop :=
  (s.opts.head? = some updateOpt ∧ s.opts.getLast? = some updateOpt) ∨
    ∃ sql, s.opts = [insertOpt sql] ∧
      (s.argv = [['-', 'I'], sql] ∨
        ∃ b, s.argv = ['-' :: 'I' :: sql, b] ∧
          ∃ ptr, strstr (sql ++ optionPart (some b)) optionMark = some ptr ∧ ptr.drop 7 = sql)

section Options
variable {opts : List Opt} {o : Opt} {g g' : GlobalArgs}

theorem recordOpt_eq_some (h : recordOpt g o = some g') :
    (o.letter = 'I' ∧ g' = ⟨.insertException, o.arg⟩) ∨
      (o.letter = 'U' ∧ g' = { g with cmdId := .updateConfig }) := by
  unfold recordOpt at h
  split at h
  case h_1 hI => exact .inl ⟨hI, (Option.some.inj h).symm⟩
  case h_2 hU => exact .inr ⟨hU, (Option.some.inj h).symm⟩
  case h_3 => cases h

/-- The console goes on only with the two options that it knows. -/
theorem letter_of_foldlM (h : opts.foldlM recordOpt g = some g') :
    ∀ o ∈ opts, o.letter = 'I' ∨ o.letter = 'U' := by
  induction opts generalizing g with
  | nil => nofun
  | cons o opts ih =>
    obtain ⟨g₁, ho, hopts⟩ := Option.bind_eq_some_iff.mp h
    exact List.forall_mem_cons.mpr ⟨(recordOpt_eq_some ho).imp And.left And.left, ih hopts⟩

theorem recordOpts_concat (h : recordOpts (opts ++ [o]) = some g) :
    (o.letter = 'I' ∧ g = ⟨.insertException, o.arg⟩) ∨
      (o.letter = 'U' ∧ g.cmdId = .updateConfig) := by
  rw [recordOpts, List.foldlM_append] at h
  obtain ⟨g₁, -, hlast⟩ := Option.bind_eq_some_iff.mp h
  obtain ⟨g₂, ho, hnil⟩ := Option.bind_eq_some_iff.mp hlast
  obtain rfl : g₂ = g := Option.some.inj hnil
  rcases recordOpt_eq_some ho with hI | ⟨hU, rfl⟩
  · exact .inl hI
  · exact .inr ⟨hU, rfl⟩

theorem optKind_insert : optKind optString 'I' = some .argument := by decide

theorem optKind_update : optKind optString 'U' = some .flag := by decide

theorem eq_updateOpt_or_insertOpt (hfits : o.Fits optString) (h : o.letter = 'I' ∨ o.letter = 'U') :
    o = updateOpt ∨ ∃ sql, o = insertOpt sql := by
  obtain ⟨letter, arg⟩ := o
  rcases h with hI | hU
  · obtain rfl : letter = 'I' := hI
    rcases hfits with ⟨hkind, -⟩ | ⟨-, hsome⟩
    · rw [optKind_insert] at hkind
      cases hkind
    · obtain ⟨sql, rfl⟩ := Option.isSome_iff_exists.mp hsome
      exact .inr ⟨sql, rfl⟩
  · obtain rfl : letter = 'U' := hU
    rcases hfits with ⟨-, rfl⟩ | ⟨hkind, -⟩
    · exact .inl rfl
    · rw [optKind_update] at hkind
      cases hkind

theorem cmdId_eq_updateConfig_iff (hfits : ∀ o ∈ opts, o.Fits optString)
    (h : recordOpts opts = some g) (hne : opts ≠ []) :
    g.cmdId = .updateConfig ↔ opts.getLast? = some updateOpt := by
  obtain ⟨os, o, rfl⟩ := (List.eq_nil_or_concat' opts).resolve_left hne
  have ho : o ∈ os ++ [o] := by simp
  rw [List.getLast?_concat, Option.some.injEq]
  rcases eq_updateOpt_or_insertOpt (hfits o ho) (letter_of_foldlM h o ho) with rfl | ⟨sql, rfl⟩
  · rcases recordOpts_concat h with ⟨hI, -⟩ | ⟨-, hupdate⟩
    · exact absurd hI (by decide)
    · exact iff_of_true hupdate rfl
  · rcases recordOpts_concat h with ⟨-, rfl⟩ | ⟨hU, -⟩
    · exact iff_of_false nofun nofun
    · cases hU

end Options

section First
variable {x w : Text} {tl args : List Text} {s : Scanned} {g : GlobalArgs}

/-- The first argument as `getopt` leaves it: options that begin with `U`, an `I` with its
text behind it, or an `I` with its text attached. -/
inductive First (s : Scanned) : Text → List Text → Prop
  | update {cs : Text} {tl : List Text} (hfirst : s.opts.head? = some updateOpt) :
      First s ('-' :: 'U' :: cs) tl
  | separate {sql : Text} {tl : List Text} {s' : Scanned} (hrest : Scan optString false tl s')
      (hopts : s.opts = insertOpt sql :: s'.opts) : First s ['-', 'I'] (sql :: tl)
  | attached {sql : Text} {tl : List Text} {s' : Scanned} (hsql : sql ≠ [])
      (hrest : Scan optString false tl s') (hopts : s.opts = insertOpt sql :: s'.opts) :
      First s ('-' :: 'I' :: sql) tl

theorem first_of_scan (hscan : Scan optString false (x :: tl) s) (hrecord : recordOpts s.opts = some g)
    (hne : s.opts ≠ []) : First s x tl := by
  have hknown (o : Opt) (ho : o ∈ s.opts) : o = updateOpt ∨ ∃ sql, o = insertOpt sql :=
    eq_updateOpt_or_insertOpt (hscan.fits o ho) (letter_of_foldlM hrecord o ho)
  cases hscan with
  | dashes | stopped => exact absurd rfl hne
  | moved hpermute => cases hpermute
  | @element _ _ opts s' hdash hx hopts hrest =>
    obtain ⟨c, cs, rfl⟩ := exists_of_isOptElement hx
    rcases elementOpts_cons hopts with ⟨-, more, rfl, -⟩ | ⟨-, ⟨-, -, hlack⟩ | ⟨hcs, rfl, -⟩⟩
    · rcases hknown ⟨c, none⟩ List.mem_cons_self with heq | ⟨sql, heq⟩
      · obtain ⟨rfl, -⟩ := Opt.mk.inj heq
        exact .update rfl
      · cases (Opt.mk.inj heq).2
    · cases hlack
    · rcases hknown ⟨c, some cs⟩ List.mem_cons_self with heq | ⟨sql, heq⟩
      · cases (Opt.mk.inj heq).2
      · obtain ⟨rfl, -⟩ := Opt.mk.inj heq
        exact .attached hcs hrest rfl
  | @argument _ arg rest opts d s' hdash hx hopts hrest =>
    obtain ⟨c, cs, rfl⟩ := exists_of_isOptElement hx
    rcases elementOpts_cons hopts with ⟨-, more, rfl, -⟩ | ⟨-, ⟨rfl, rfl, hlack⟩ | ⟨-, -, hlack⟩⟩
    · rcases hknown ⟨c, none⟩ List.mem_cons_self with heq | ⟨sql, heq⟩
      · obtain ⟨rfl, -⟩ := Opt.mk.inj heq
        exact .update rfl
      · cases (Opt.mk.inj heq).2
    · obtain rfl : d = c := Option.some.inj hlack
      rcases hknown ⟨d, some arg⟩ List.mem_cons_self with heq | ⟨sql, heq⟩
      · cases (Opt.mk.inj heq).2
      · obtain ⟨rfl, -⟩ := Opt.mk.inj heq
        exact .separate hrest rfl
    · cases hlack

end First

theorem commandMark_eq_append : commandMark = commandLabel ++ ['-'] := by decide

theorem optionLabel_eq : optionLabel = ';' :: optionMark := by decide

theorem message_cons (r : Text) {tl : List Text} (h : tl.length ≤ 1) :
    message (('-' :: r) :: tl) = commandMark ++ (r ++ optionPart tl.head?) := by
  rw [commandMark_eq_append, List.append_assoc]
  match tl, h with
  | [], _ => simp [message, optionPart]
  | [b], _ => simp [message, optionPart, optionLabel_eq]

theorem strstr_command (r : Text) :
    strstr (commandMark ++ 'I' :: r) optionMark = strstr r optionMark := by
  have hmark : optionMark = ['O', 'P', 'T', 'I', 'O', 'N', ':'] := by decide
  rw [commandMark_eq, hmark]
  simp [strstr]

section Message
variable {permute : Bool} {args tl : List Text} {x r : Text} {t : Sent}

theorem main_eq_some (h : main permute args = some t) :
    getopt optString permute args = some t.scanned ∧
      recordOpts t.scanned.opts = some t.globalArgs ∧ (args.length = 1 ∨ args.length = 2) ∧
        ¬ (t.globalArgs.cmdId = .insertException ∧ t.globalArgs.sql = none) := by
  obtain ⟨s, hs, h⟩ := Option.bind_eq_some_iff.mp h
  obtain ⟨g, hg, h⟩ := Option.bind_eq_some_iff.mp h
  split_ifs at h with hargc hsql
  obtain rfl := Option.some.inj h
  refine ⟨hs, hg, ?_, hsql⟩
  rw [← not_ne_iff (a := args.length), ← not_ne_iff (a := args.length), ← not_and_or]
  exact hargc

theorem opts_ne_nil (h : main permute args = some t) : t.scanned.opts ≠ [] := by
  obtain ⟨-, hrecord, -, hsql⟩ := main_eq_some h
  intro hnil
  rw [hnil] at hrecord
  rw [← Option.some.inj hrecord] at hsql
  exact hsql ⟨rfl, rfl⟩

theorem exists_argv (h : main permute args = some t) :
    ∃ x tl, t.scanned.argv = x :: tl ∧ tl.length ≤ 1 ∧ Scan optString false (x :: tl) t.scanned ∧
      First t.scanned x tl := by
  obtain ⟨hgetopt, hrecord, hargc, -⟩ := main_eq_some h
  have hscan := scan_of_getopt hgetopt
  have hlen := hscan.argv_perm.length_eq
  have hargv := hscan.argv
  cases hx : t.scanned.argv with
  | nil =>
    rw [hx, List.length_nil] at hlen
    omega
  | cons x tl =>
    rw [hx] at hargv hlen
    rw [List.length_cons] at hlen
    exact ⟨x, tl, rfl, by omega, hargv, first_of_scan hargv hrecord (opts_ne_nil h)⟩

theorem nul_not_mem_text (h : main permute args = some t) (hfree : ∀ a ∈ args, nul ∉ a) :
    nul ∉ t.text := by
  obtain ⟨x, tl, hargv, hlen, -, -⟩ := exists_argv h
  have hmem (a : Text) (ha : a ∈ x :: tl) : nul ∉ a := by
    rw [← hargv] at ha
    exact hfree a ((scan_of_getopt (main_eq_some h).1).argv_perm.subset ha)
  rw [Sent.text, hargv]
  have hcommand : nul ∉ commandLabel := by decide
  have hoption : nul ∉ optionLabel := by decide
  match tl, hlen with
  | [], _ => simp [message, hcommand, hmem x]
  | [b], _ => simp [message, hcommand, hoption, hmem x, hmem b]

theorem agrees_iff_call {call : CommandCall} (hfit : t.text.length < bufferSize)
    (hcalls : (processCmd [t.text]).calls = [call]) : Agrees t ↔ t.globalArgs.call = call := by
  rw [Agrees, Sent.buffer, snprintf_of_lt hfit, hcalls, List.cons.injEq, and_iff_left rfl, eq_comm]

theorem calls_update (hfree : nul ∉ commandMark ++ 'U' :: r) :
    (processCmd [commandMark ++ 'U' :: r]).calls = [.updateConfig] := by
  rw [processCmd_singleton (cmdLetter_command hfree) rfl]

theorem calls_insert (hfree : nul ∉ commandMark ++ 'I' :: r) :
    (processCmd [commandMark ++ 'I' :: r]).calls =
      [.exceptionInsert (optionText (commandMark ++ 'I' :: r))] := by
  rw [processCmd_singleton (cmdLetter_command hfree) rfl, cstr_of_not_mem hfree]

theorem call_eq_updateConfig_iff {g : GlobalArgs} :
    g.call = .updateConfig ↔ g.cmdId = .updateConfig := by
  unfold GlobalArgs.call
  cases g.cmdId <;> simp

theorem call_eq_exceptionInsert_iff {g : GlobalArgs} {o : Option Text} :
    g.call = .exceptionInsert o ↔ g.cmdId = .insertException ∧ g.sql = o := by
  unfold GlobalArgs.call
  cases g.cmdId <;> simp

theorem optionText_command (hfit : (commandMark ++ 'I' :: r).length < bufferSize) :
    optionText (commandMark ++ 'I' :: r) = (strstr r optionMark).map fun ptr => ptr.drop 7 := by
  rw [optionText, strstr_command]
  apply Option.map_congr
  intro ptr hptr
  apply snprintf_of_lt
  have hsuf := (strstr_eq_some hptr).2.length_le
  rw [List.length_append, List.length_cons] at hfit
  rw [List.length_drop]
  omega

theorem agrees_update {cs : Text} (h : main permute args = some t) (hfree : nul ∉ t.text)
    (hfit : t.text.length < bufferSize) (hlen : tl.length ≤ 1)
    (hargv : t.scanned.argv = ('-' :: 'U' :: cs) :: tl)
    (hfirst : t.scanned.opts.head? = some updateOpt) : Agrees t ↔ Legible t.scanned := by
  obtain ⟨hgetopt, hrecord, -, -⟩ := main_eq_some h
  have htext : t.text = commandMark ++ 'U' :: (cs ++ optionPart tl.head?) := by
    rw [Sent.text, hargv, message_cons _ hlen, List.cons_append]
  have hcalls : (processCmd [t.text]).calls = [.updateConfig] := by
    rw [htext] at hfree ⊢
    exact calls_update hfree
  rw [agrees_iff_call hfit hcalls, call_eq_updateConfig_iff,
    cmdId_eq_updateConfig_iff (scan_of_getopt hgetopt).fits hrecord (opts_ne_nil h), Legible,
    and_iff_right hfirst]
  refine (or_iff_left ?_).symm
  rintro ⟨sql, hopts, -⟩
  rw [hopts] at hfirst
  cases hfirst

theorem agrees_separate {sql : Text} (h : main permute args = some t) (hfree : nul ∉ t.text)
    (hfit : t.text.length < bufferSize) (hargv : t.scanned.argv = [['-', 'I'], sql])
    (hopts : t.scanned.opts = [insertOpt sql]) : Agrees t ↔ Legible t.scanned := by
  obtain ⟨-, hrecord, -, -⟩ := main_eq_some h
  have htext : t.text = commandMark ++ 'I' :: optionPart (some sql) := by
    rw [Sent.text, hargv, message_cons _ le_rfl]
    rfl
  rw [hopts] at hrecord
  refine iff_of_true ?_ (.inr ⟨sql, hopts, .inl hargv⟩)
  rw [htext] at hfree hfit
  have hoption : optionText (commandMark ++ 'I' :: optionPart (some sql)) = some sql := by
    rw [optionText_command hfit]
    rfl
  have hcalls := calls_insert hfree
  rw [hoption, ← htext] at hcalls
  rw [← htext] at hfit
  rw [agrees_iff_call hfit hcalls, ← Option.some.inj hrecord]
  rfl

/-- Where one attached text is all that is recorded, the server has to read it again behind
the first `OPTION:`. -/
theorem passed_iff {sql : Text} {s : Scanned} (hlen : tl.length ≤ 1)
    (hargv : s.argv = ('-' :: 'I' :: sql) :: tl) (hsql : sql ≠ []) (hopts : s.opts = [insertOpt sql]) :
    some sql = ((strstr (sql ++ optionPart tl.head?) optionMark).map fun ptr => ptr.drop 7) ↔
      ∃ sql', s.opts = [insertOpt sql'] ∧
        (s.argv = [['-', 'I'], sql'] ∨
          ∃ b, s.argv = ['-' :: 'I' :: sql', b] ∧
            ∃ ptr, strstr (sql' ++ optionPart (some b)) optionMark = some ptr ∧ ptr.drop 7 = sql') := by
  constructor
  · intro h
    obtain ⟨ptr, hptr, hdrop⟩ := Option.map_eq_some_iff.mp h.symm
    match tl, hlen with
    | [], _ =>
      -- The text behind a mark in `sql` is shorter than `sql`.
      obtain ⟨hpre, hsuf⟩ := strstr_eq_some hptr
      have hlong := hpre.length_le
      have hshort := hsuf.length_le
      have hseven : optionMark.length = 7 := rfl
      have hdropped := congrArg List.length hdrop
      rw [List.head?_nil, optionPart, List.append_nil] at hshort
      rw [List.length_drop] at hdropped
      omega
    | [b], _ => exact ⟨sql, hopts, .inr ⟨b, hargv, ptr, hptr, hdrop⟩⟩
  · rintro ⟨sql', hsingle, hread⟩
    obtain rfl : sql = sql' := by
      rw [hopts] at hsingle
      exact Option.some.inj (Opt.mk.inj (List.cons.inj hsingle).1).2
    rw [hargv] at hread
    rcases hread with hseparate | ⟨b, hattached, ptr, hptr, hdrop⟩
    · exact absurd (List.cons.inj (List.cons.inj (List.cons.inj hseparate).1).2).2 hsql
    · obtain rfl : tl = [b] := (List.cons.inj hattached).2
      rw [List.head?_cons, hptr, Option.map_some, hdrop]

/-- An attached text that is not the last option is not what the server reads. -/
theorem not_passed {sql : Text} {s : Scanned} {g : GlobalArgs} (hlen : tl.length ≤ 1)
    (hrest : Scan optString false tl s) (hs : s.opts ≠ [])
    (hrecord : recordOpts (insertOpt sql :: s.opts) = some g) :
    ¬ (g.cmdId = .insertException ∧
      g.sql = ((strstr (sql ++ optionPart tl.head?) optionMark).map fun ptr => ptr.drop 7)) := by
  rintro ⟨hinsert, hpassed⟩
  match tl, hlen with
  | [], _ =>
    cases hrest
    exact hs rfl
  | [b], _ =>
    obtain ⟨os, o, hconcat⟩ := (List.eq_nil_or_concat' s.opts).resolve_left hs
    rw [hconcat, ← List.cons_append] at hrecord
    rcases recordOpts_concat hrecord with ⟨-, rfl⟩ | ⟨-, hupdate⟩
    · obtain ⟨ptr, hptr, hsuf⟩ := exists_strstr_append (sql ++ [';']) optionMark b
      rw [List.append_assoc] at hptr
      have hread : strstr (sql ++ optionPart (some b)) optionMark = some ptr := hptr
      rw [List.head?_cons, hread] at hpassed
      have hlast : o ∈ s.opts := hconcat ▸ List.mem_append_right os List.mem_cons_self
      have hshort := hrest.arg_length_lt hlast hpassed
      have hlong := hsuf.length_le
      have hseven : optionMark.length = 7 := rfl
      rw [List.length_append] at hlong
      rw [List.length_drop] at hshort
      omega
    · rw [hinsert] at hupdate
      cases hupdate

theorem agrees_attached {sql : Text} {s : Scanned} (h : main permute args = some t)
    (hfree : nul ∉ t.text) (hfit : t.text.length < bufferSize) (hlen : tl.length ≤ 1)
    (hargv : t.scanned.argv = ('-' :: 'I' :: sql) :: tl) (hsql : sql ≠ [])
    (hrest : Scan optString false tl s) (hopts : t.scanned.opts = insertOpt sql :: s.opts) :
    Agrees t ↔ Legible t.scanned := by
  obtain ⟨-, hrecord, -, -⟩ := main_eq_some h
  have htext : t.text = commandMark ++ 'I' :: (sql ++ optionPart tl.head?) := by
    rw [Sent.text, hargv, message_cons _ hlen, List.cons_append]
  have hcalls : (processCmd [t.text]).calls = [.exceptionInsert
      ((strstr (sql ++ optionPart tl.head?) optionMark).map fun ptr => ptr.drop 7)] := by
    rw [htext] at hfree hfit ⊢
    rw [calls_insert hfree, optionText_command hfit]
  have hupdate : t.scanned.opts.head? ≠ some updateOpt := by
    rw [hopts]
    nofun
  rw [agrees_iff_call hfit hcalls, call_eq_exceptionInsert_iff, Legible,
    or_iff_right fun hfirst => hupdate hfirst.1]
  rw [hopts] at hrecord
  by_cases hs : s.opts = []
  · rw [hs] at hopts hrecord
    rw [← passed_iff hlen hargv hsql hopts, ← Option.some.inj hrecord]
    exact and_iff_right rfl
  · apply iff_of_false (not_passed hlen hrest hs hrecord)
    rintro ⟨sql', hsingle, -⟩
    rw [hopts] at hsingle
    exact hs (List.cons.inj hsingle).2

/-- The server calls what the console has recorded exactly if the first argument and the text
behind the first `OPTION:` say the same as the options. -/
theorem agrees_iff_legible (h : main permute args = some t) (hfree : ∀ a ∈ args, nul ∉ a)
    (hfit : t.text.length < bufferSize) : Agrees t ↔ Legible t.scanned := by
  have htextfree := nul_not_mem_text h hfree
  obtain ⟨x, tl, hargv, hlen, -, hfirst⟩ := exists_argv h
  cases hfirst with
  | update hhead => exact agrees_update h htextfree hfit hlen hargv hhead
  | @separate sql tl s' hrest hopts =>
    obtain rfl : tl = [] := List.length_eq_zero_iff.mp (by rw [List.length_cons] at hlen; omega)
    cases hrest
    exact agrees_separate h htextfree hfit hargv hopts
  | attached hsql hrest hopts =>
    exact agrees_attached h htextfree hfit hlen hargv hsql hrest hopts

end Message

/-- The console called with `-U`. -/
def updateSent : Sent where
  scanned := ⟨[updateOpt], ["-U".toList], []⟩
  globalArgs := ⟨.updateConfig, none⟩

theorem agrees_updateSent : Agrees updateSent ↔ Legible updateSent.scanned := by
  have hmain : main true ["-U".toList] = some updateSent := by decide
  exact agrees_iff_legible hmain (by decide) (by decide)

/-- The console called with the text `5###a` attached to `-I`. -/
def attachedSent : Sent where
  scanned := ⟨[insertOpt "5###a".toList], ["-I5###a".toList], []⟩
  globalArgs := ⟨.insertException, some "5###a".toList⟩

/-- The message `COMMAND:-I5###a` has no `OPTION:`, so that nothing is inserted. -/
theorem not_agrees_attachedSent :
    ¬ ∀ (permute : Bool) (args : List Text) (t : Sent), main permute args = some t →
      (∀ a ∈ args, nul ∉ a) → t.text.length < bufferSize → Agrees t := by
  intro h
  have hmain : main true ["-I5###a".toList] = some attachedSent := by decide
  exact absurd (h true _ attachedSent hmain (by decide) (by decide)) (by decide +kernel)

end CLib.Console
