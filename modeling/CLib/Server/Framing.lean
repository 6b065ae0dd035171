import CLib.Base.Cuts
import CLib.Server.Command

namespace CLib.Server
open CLib.Base CLib.Mysql

/-- A command that fits the buffer of the server. -/
structure Command where
  letter : Char
  option : Option Text
  free : nul ∉ encode letter option
  short : (encode letter option).length < bufferSize

def Command.text (m : Command) : Text := encode m.letter m.option

theorem Command.nul_not_mem (m : Command) : nul ∉ m.text := m.free

theorem Command.text_ne_nil (m : Command) : m.text ≠ [] := by
  simp [Command.text, encode]

/-- When a cut does not show in what the server does. For `I` the second of two pieces must
be taken for the command that it is the rest of. -/
def Kept (letter : Char) : List Text → Prop
  | [] => True
  | first :: rest =>
    rest = [] ∨
      if letter = 'I' then first = commandMark ∧ ∃ r, rest = [r] ∧ cmdLetter r = some 'I'
      else if letter = 'U' then
        (first = commandMark ∧ commandsRead rest = ['U']) ∨
          (commandMark.length < first.length ∧ commandsRead rest = [])
      else first.length < commandMark.length ∨ commandsRead rest = []

section Message
variable {m : Command} {rest : List Text} {first tail : Text}

theorem cmdLetter_text (m : Command) : cmdLetter m.text = some m.letter := cmdLetter_command m.free

theorem nul_not_mem_of_mem (cut : Cut m.text) {p : Text} (hp : p ∈ cut.pieces) : nul ∉ p :=
  fun hmem => m.nul_not_mem ((cut.infix_of_mem hp).subset hmem)

theorem first_cases (h : (first :: rest).flatten = m.text) :
    first.length < commandMark.length ∨
      (first = commandMark ∧ rest.flatten = m.letter :: optionPart m.option) ∨
        ∃ tail, first = commandMark ++ m.letter :: tail ∧
          tail ++ rest.flatten = optionPart m.option := by
  rw [List.flatten_cons, Command.text, encode, List.append_eq_append_iff] at h
  rcases h with ⟨w, hmark, hrest⟩ | ⟨w, hfirst, hrest⟩
  · cases w with
    | nil =>
      rw [List.append_nil] at hmark
      exact .inr (.inl ⟨hmark.symm, hrest⟩)
    | cons c w =>
      left
      rw [hmark, List.length_append, List.length_cons]
      omega
  · cases w with
    | nil =>
      rw [List.append_nil] at hfirst
      exact .inr (.inl ⟨hfirst, hrest.symm⟩)
    | cons c tail =>
      rw [List.cons_append, List.cons.injEq] at hrest
      obtain ⟨rfl, htail⟩ := hrest
      exact .inr (.inr ⟨tail, hfirst, htail.symm⟩)

theorem not_infix_command :
    ¬ optionMark <:+: (commandMark ++ ['I']) ++ (';' :: optionMark).dropLast := by decide

theorem not_infix_letter : ¬ optionMark <:+: ['I'] ++ (';' :: optionMark).dropLast := by decide

theorem Command.snprintf_option {t : Text} (h : m.option = some t) : snprintf bufferSize t = t := by
  apply snprintf_of_lt
  apply lt_of_le_of_lt _ m.short
  rw [h, encode, optionPart]
  simp only [List.length_append, List.length_cons]
  omega

theorem optionText_letter_append (h : m.option.isSome) :
    optionText ('I' :: optionPart m.option) = m.option := by
  obtain ⟨t, ht⟩ := Option.isSome_iff_exists.mp h
  have hoption := optionText_optionPart not_infix_letter t
  rw [m.snprintf_option ht] at hoption
  rw [ht]
  exact hoption

theorem optionText_text (hI : m.letter = 'I') : optionText m.text = m.option := by
  rw [Command.text, encode, hI]
  cases ht : m.option with
  | none => decide
  | some t =>
    have hoption := optionText_optionPart not_infix_command t
    rw [m.snprintf_option ht] at hoption
    exact hoption

theorem processCmd_text_of_other (h : ¬ (m.letter = 'I' ∨ m.letter = 'U')) :
    processCmd [m.text] = ⟨[], true⟩ := by
  rw [processCmd_of_other (cmdLetter_text m) h]
  rfl

theorem processCmd_text_of_update (hU : m.letter = 'U') :
    processCmd [m.text] = ⟨[.updateConfig], true⟩ := by
  have hletter : cmdLetter m.text = some 'U' := hU ▸ cmdLetter_text m
  exact processCmd_singleton hletter rfl

theorem processCmd_text_of_insert (hI : m.letter = 'I') :
    processCmd [m.text] =
      ⟨[.exceptionInsert m.option], !(CommandCall.exceptionInsert m.option).exits⟩ := by
  have hletter : cmdLetter m.text = some 'I' := hI ▸ cmdLetter_text m
  apply processCmd_singleton hletter
  rw [cstr_of_not_mem m.nul_not_mem, switchCmd, optionText_text hI]

theorem option_not_mem_calls {t : Text} (hfree : ∀ p ∈ rest, nul ∉ p)
    (hlen : rest.flatten.length < t.length + optionMark.length) :
    .exceptionInsert (some t) ∉ (processCmd rest).calls := by
  intro hmem
  obtain ⟨p, hp, hoption⟩ := exists_mem_of_exceptionInsert hmem
  rw [cstr_of_not_mem (hfree p hp)] at hoption
  have hshort := length_of_optionText hoption.symm
  have hpart : p.length ≤ rest.flatten.length := (List.sublist_flatten_of_mem hp).length_le
  omega

/-- A piece behind the mark that has a mark of its own belongs to a command with an option. -/
theorem option_isSome_of_cmdLetter {r : Text} {c : Char} (hr : r <+: 'I' :: optionPart m.option)
    (hc : cmdLetter r = some c) : m.option.isSome := by
  by_contra hnone
  rw [Option.not_isSome_iff_eq_none.mp hnone] at hr
  exact absurd ((length_of_cmdLetter hc).trans hr.length_le) (by decide)

/-- The rest of a command `I` behind its mark is served as the command only if its first
piece is taken for a command `I`. -/
theorem cmdLetter_of_processCmd {t : Text} {alive : Bool} (hfree : ∀ p ∈ rest, nul ∉ p)
    (htail : tail ++ rest.flatten = optionPart (some t))
    (hserved : processCmd (('I' :: tail) :: rest) = ⟨[.exceptionInsert (some t)], alive⟩) :
    cmdLetter ('I' :: tail) = some 'I' := by
  cases hl : cmdLetter ('I' :: tail) with
  | none =>
    rw [processCmd_of_unmarked hl] at hserved
    cases hserved
  | some c =>
    by_cases hI : c = 'I'
    · rw [hI]
    by_cases hU : c = 'U'
    · subst hU
      have hcalls := calls_of_call rest hl rfl
      rw [hserved] at hcalls
      cases hcalls
    -- The call would be made for a later piece, and these are too short.
    rw [processCmd_of_other hl (not_or.mpr ⟨hI, hU⟩)] at hserved
    have hlen := congrArg List.length htail
    have hmark := length_of_cmdLetter hl
    have hnine : commandMark.length = 9 := rfl
    simp only [optionPart, List.length_append, List.length_cons] at hlen hmark
    apply absurd _ (option_not_mem_calls hfree (t := t) (by omega))
    rw [hserved]
    exact List.mem_singleton_self _

/-- The rest of a command `I` behind its mark is served as the command exactly if it comes in
one piece that has a command `I` of its own. -/
theorem processCmd_rest_iff (hI : m.letter = 'I') (hfree : ∀ p ∈ rest, nul ∉ p) (hne : [] ∉ rest)
    (hflat : rest.flatten = 'I' :: optionPart m.option) :
    processCmd rest = processCmd [m.text] ↔ ∃ r, rest = [r] ∧ cmdLetter r = some 'I' := by
  rw [processCmd_text_of_insert hI]
  constructor
  · intro h
    obtain ⟨r, rs, rfl⟩ : ∃ r rs, rest = r :: rs :=
      List.exists_cons_of_ne_nil (by rintro rfl; cases hflat)
    obtain ⟨hr, hrs⟩ := List.forall_mem_cons.mp hfree
    obtain ⟨hrne, hrsne⟩ := not_or.mp (List.mem_cons.not.mp hne)
    obtain ⟨d, tail, rfl⟩ := List.exists_cons_of_ne_nil (Ne.symm hrne)
    rw [List.flatten_cons, List.cons_append, List.cons.injEq] at hflat
    obtain ⟨rfl, htail⟩ := hflat
    cases ht : m.option with
    | none =>
      rw [ht] at htail
      obtain rfl : tail = [] := (List.append_eq_nil_iff.mp htail).1
      rw [processCmd_of_unmarked (by decide)] at h
      cases h
    | some t =>
      rw [ht] at htail h
      have hl := cmdLetter_of_processCmd hrs htail h
      have hpassed := optionText_of_processCmd hl h
      rw [cstr_of_not_mem hr] at hpassed
      refine ⟨_, ?_, hl⟩
      by_contra hmore
      have hcut : rs ≠ [] := fun hnil => hmore (by rw [hnil])
      exact optionText_cut not_infix_letter htail (Cut.flatten_ne_nil hrsne hcut) hpassed
  · rintro ⟨r, rfl, hr⟩
    obtain rfl : r = 'I' :: optionPart m.option := by simpa using hflat
    have hsome := option_isSome_of_cmdLetter List.prefix_rfl hr
    apply processCmd_singleton hr
    rw [cstr_of_not_mem (hfree _ List.mem_cons_self), switchCmd, optionText_letter_append hsome]

/-- A first piece that ends behind the letter `I` does not pass on what the message does. -/
theorem processCmd_first_ne (hI : m.letter = 'I') (hfree : nul ∉ commandMark ++ 'I' :: tail)
    (htail : tail ++ rest.flatten = optionPart m.option) (hrest : rest.flatten ≠ []) :
    processCmd ((commandMark ++ 'I' :: tail) :: rest) ≠ processCmd [m.text] := by
  rw [processCmd_text_of_insert hI]
  intro h
  have hpassed := optionText_of_processCmd (cmdLetter_command hfree) h
  rw [cstr_of_not_mem hfree] at hpassed
  cases ht : m.option with
  | none =>
    rw [ht] at htail
    exact hrest (List.append_eq_nil_iff.mp htail).2
  | some t =>
    rw [ht] at htail hpassed
    have hcut := optionText_cut not_infix_command htail hrest
    rw [List.append_assoc] at hcut
    exact hcut hpassed

theorem commandsRead_commandMark : commandsRead (commandMark :: rest) = commandsRead rest :=
  commandsRead_of_other cmdLetter_commandMark (by decide)

theorem length_command (c : Char) (tail : Text) :
    commandMark.length < (commandMark ++ c :: tail).length := by
  rw [List.length_append, List.length_cons]
  omega

theorem command_ne_commandMark (c : Char) (tail : Text) : commandMark ++ c :: tail ≠ commandMark :=
  fun h => (length_command c tail).ne' (congrArg List.length h)

section First
variable {first : Text} (hfree : ∀ p ∈ first :: rest, nul ∉ p) (hne : [] ∉ rest) (hrest : rest ≠ [])
  (hflat : (first :: rest).flatten = m.text)
include hfree hflat

include hne hrest in
theorem kept_insert_iff (hI : m.letter = 'I') :
    processCmd (first :: rest) = processCmd [m.text] ↔
      first = commandMark ∧ ∃ r, rest = [r] ∧ cmdLetter r = some 'I' := by
  rcases first_cases hflat with hshort | ⟨rfl, hbehind⟩ | ⟨tail, rfl, htail⟩
  · rw [processCmd_of_unmarked (cmdLetter_of_short hshort), processCmd_text_of_insert hI]
    apply iff_of_false nofun
    rintro ⟨rfl, -⟩
    exact lt_irrefl _ hshort
  · rw [processCmd_of_other cmdLetter_commandMark (by decide), and_iff_right rfl]
    rw [hI] at hbehind
    exact processCmd_rest_iff hI (fun p hp => hfree p (List.mem_cons_of_mem _ hp)) hne hbehind
  · rw [hI] at hfree ⊢
    exact iff_of_false
      (processCmd_first_ne hI (hfree _ List.mem_cons_self) htail (Cut.flatten_ne_nil hne hrest))
      fun h => command_ne_commandMark _ _ h.1

theorem kept_update_iff (hU : m.letter = 'U') :
    processCmd (first :: rest) = processCmd [m.text] ↔
      (first = commandMark ∧ commandsRead rest = ['U']) ∨
        (commandMark.length < first.length ∧ commandsRead rest = []) := by
  rw [processCmd_text_of_update hU, processCmd_eq_update_iff]
  rcases first_cases hflat with hshort | ⟨rfl, -⟩ | ⟨tail, rfl, -⟩
  · rw [commandsRead_of_unmarked (cmdLetter_of_short hshort)]
    apply iff_of_false nofun
    rintro (⟨rfl, -⟩ | ⟨hlong, -⟩)
    · exact lt_irrefl _ hshort
    · exact lt_asymm hshort hlong
  · rw [commandsRead_commandMark]
    simp
  · have hl := cmdLetter_command (hfree _ List.mem_cons_self)
    rw [commandsRead_of_command hl (.inr hU), hU, List.cons.injEq,
      and_iff_right rfl]
    simp

theorem kept_other_iff (h : ¬ (m.letter = 'I' ∨ m.letter = 'U')) :
    processCmd (first :: rest) = processCmd [m.text] ↔
      first.length < commandMark.length ∨ commandsRead rest = [] := by
  rw [processCmd_text_of_other h, processCmd_eq_idle_iff]
  rcases first_cases hflat with hshort | ⟨rfl, -⟩ | ⟨tail, rfl, -⟩
  · rw [commandsRead_of_unmarked (cmdLetter_of_short hshort)]
    exact iff_of_true rfl (.inl hshort)
  · rw [commandsRead_commandMark, or_iff_right (lt_irrefl _)]
  · rw [commandsRead_of_other (cmdLetter_command (hfree _ List.mem_cons_self)) h,
      or_iff_right (lt_asymm (length_command _ _))]

end First

/-- The server does for the pieces of a message what it does for the message exactly if the
cut does not show. -/
theorem processCmd_pieces_iff (m : Command) (cut : Cut m.text) :
    processCmd cut.pieces = processCmd [m.text] ↔ Kept m.letter cut.pieces := by
  obtain ⟨first, rest, hpieces⟩ := cut.exists_cons m.text_ne_nil
  have hflat : (first :: rest).flatten = m.text := hpieces ▸ cut.flatten_eq
  have hfree (p : Text) (hp : p ∈ first :: rest) : nul ∉ p := nul_not_mem_of_mem cut (hpieces ▸ hp)
  have hne : [] ∉ rest := fun hmem => cut.ne_nil (hpieces ▸ List.mem_cons_of_mem _ hmem)
  rw [hpieces]
  by_cases hrest : rest = []
  · subst hrest
    rw [List.flatten_singleton] at hflat
    rw [hflat]
    exact iff_of_true rfl (.inl rfl)
  rw [Kept, or_iff_right hrest]
  split_ifs with hI hU
  · exact kept_insert_iff hfree hne hrest hflat hI
  · exact kept_update_iff hfree hflat hU
  · exact kept_other_iff hfree hflat (not_or.mpr ⟨hI, hU⟩)

theorem commandMark_length_le {a t : Text} (ha : a ≠ []) (h : a ++ commandMark <+: commandMark ++ t) :
    commandMark.length ≤ a.length := by
  by_contra hshort
  have hpre : a <+: commandMark :=
    List.prefix_of_prefix_length_le ((List.prefix_append a commandMark).trans h)
      (List.prefix_append _ t) (Nat.le_of_not_le hshort)
  obtain ⟨w, hw⟩ := hpre
  obtain ⟨x, hx⟩ := h
  have hsame : a ++ (commandMark ++ x) = a ++ (w ++ t) := by
    rw [← List.append_assoc, hx, ← List.append_assoc, hw]
  have hbehind := List.append_cancel_left hsame
  cases w with
  | nil =>
    rw [List.append_nil] at hw
    exact hshort (hw ▸ le_rfl)
  | cons c w =>
    obtain ⟨d, a, rfl⟩ := List.exists_cons_of_ne_nil ha
    have hc : 'C' = c := by
      rw [commandMark_eq] at hbehind
      exact (List.cons.inj hbehind).1
    have hmem : 'C' ∈ commandMark.tail := by
      rw [← hw, hc]
      simp
    exact absurd hmem (by decide)

theorem commandsRead_eq_nil {pieces : List Text}
    (h : ∀ p ∈ pieces, ∀ c, cmdLetter p = some c → ¬ (c = 'I' ∨ c = 'U')) :
    commandsRead pieces = [] := by
  induction pieces with
  | nil => rfl
  | cons p rest ih =>
    cases hl : cmdLetter p with
    | none => exact commandsRead_of_unmarked hl
    | some c =>
      rw [commandsRead_of_other hl (h p List.mem_cons_self c hl)]
      exact ih fun q hq => h q (List.mem_cons_of_mem _ hq)

theorem letter_of_every_cut
    (h : ∀ cut : Cut m.text, processCmd cut.pieces = processCmd [m.text]) :
    ¬ (m.letter = 'I' ∨ m.letter = 'U') := by
  have htext : ['C'] ++ (commandMark.tail ++ m.letter :: optionPart m.option) = m.text := by
    rw [Command.text, encode, commandMark_eq]
    rfl
  have hcut := (processCmd_pieces_iff m _).mp (h (Cut.two (by decide) (by simp) htext))
  have hfirst : ['C'] ≠ commandMark := by decide
  have hlen : ¬ commandMark.length < ['C'].length := by decide
  rintro (hI | hU)
  · simp only [Kept, Cut.two, hI, List.cons_ne_nil, false_or, if_true] at hcut
    exact hfirst hcut.1
  · simp only [Kept, Cut.two, hU, List.cons_ne_nil, false_or, if_neg (show 'U' ≠ 'I' by decide),
      if_true] at hcut
    exact hcut.elim (fun hmark => hfirst hmark.1) fun hlong => hlen hlong.1

/-- The messages that are served alike however they are cut are those without a command. -/
theorem processCmd_every_cut_iff (m : Command) :
    (∀ cut : Cut m.text, processCmd cut.pieces = processCmd [m.text]) ↔
      ∀ c, c = 'I' ∨ c = 'U' → ¬ commandMark ++ [c] <:+: m.text := by
  constructor
  · rintro h c hc ⟨a, b, hab⟩
    have hother := letter_of_every_cut h
    have hjoin : a ++ (commandMark ++ c :: b) = m.text := by rw [← hab]; simp
    have ha : a ≠ [] := by
      rintro rfl
      have hsame : commandMark ++ c :: b = commandMark ++ m.letter :: optionPart m.option := hjoin
      rw [List.append_cancel_left_eq, List.cons.injEq] at hsame
      exact hother (hsame.1 ▸ hc)
    have hpre : a ++ commandMark <+: commandMark ++ m.letter :: optionPart m.option :=
      ⟨c :: b, by rw [List.append_assoc, hjoin]; rfl⟩
    have hlen := commandMark_length_le ha hpre
    have hcut := (processCmd_pieces_iff m _).mp (h (Cut.two ha (by simp) hjoin))
    obtain ⟨hI, hU⟩ := not_or.mp hother
    simp only [Kept, Cut.two, List.cons_ne_nil, false_or, if_neg hI, if_neg hU] at hcut
    have hfree : nul ∉ commandMark ++ c :: b := fun hmem =>
      m.nul_not_mem (hjoin ▸ List.mem_append_right a hmem)
    rw [commandsRead_of_command (cmdLetter_command hfree) hc] at hcut
    exact hcut.elim (Nat.not_lt.mpr hlen) nofun
  · intro h
    have hidle (cut : Cut m.text) : processCmd cut.pieces = ⟨[], true⟩ := by
      refine processCmd_eq_idle_iff.mpr (commandsRead_eq_nil fun p hp c hl hc => h c hc ?_)
      refine (infix_of_cmdLetter hl ?_).trans (cut.infix_of_mem hp)
      rcases hc with rfl | rfl <;> decide
    exact fun cut => (hidle cut).trans (hidle (.whole m.text_ne_nil)).symm

/-- A message in pieces is served as the whole exactly if the cut does not show, and it is
served alike in whatever pieces exactly if no command is in it. -/
theorem servedAlike_iff (m : Command) :
    (∀ cut : Cut m.text, processCmd cut.pieces = processCmd [m.text] ↔ Kept m.letter cut.pieces) ∧
      ((∀ cut : Cut m.text, processCmd cut.pieces = processCmd [m.text]) ↔
        ∀ c, c = 'I' ∨ c = 'U' → ¬ commandMark ++ [c] <:+: m.text) :=
  ⟨processCmd_pieces_iff m, processCmd_every_cut_iff m⟩

/-- The console's command for the exception `5###a`. -/
def exceptionCommand : Command where
  letter := 'I'
  option := some "5###a".toList
  free := by decide
  short := by decide

/-- `recv` returns the command up to the first `#`, and the server exits for want of `###`. -/
def cutBeforeSeparator : Cut exceptionCommand.text where
  pieces := ["COMMAND:-I;OPTION:5#".toList, "##a".toList]
  ne_nil := by decide
  flatten_eq := by decide

theorem not_servedAlike :
    ¬ ∀ (m : Command) (cut : Cut m.text), processCmd cut.pieces = processCmd [m.text] :=
  fun h => absurd (h exceptionCommand cutBeforeSeparator) (by decide +kernel)

end Message

end CLib.Server
