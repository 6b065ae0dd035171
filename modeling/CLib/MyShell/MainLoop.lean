import CLib.Base.Stdio

namespace CLib.MyShell
open CLib.Base

def bufSz : ℕ := 256

def commandExit : Text := "exit".toList

def commandCd : Text := "cd".toList

def resultNormal : ℕ := 0

def errorFork : ℕ := 1

def errorWrongParameter : ℕ := 3

def errorMissParameter : ℕ := 4

def errorTooManyParameter : ℕ := 5

/-- The loop of `splitCommands` over the characters: the words in `commands` so far, and the
word that is being filled in. -/
def splitLoop : List Text × Text → Text → List Text × Text
  | r, [] => r
  | (words, word), c :: cs =>
    if c ≠ ' ' then splitLoop (words, word ++ [c]) cs
    else if word ≠ [] then splitLoop (words ++ [word], []) cs
    else splitLoop (words, word) cs

/-- `splitCommands`; the words that it leaves in `commands`. -/
def splitCommands (command : Text) : List Text :=
  let r := splitLoop ([], []) (cstr command)
  if r.2 ≠ [] then r.1 ++ [r.2] else r.1

/-- What the system answers while one command is handled: whether `kill` fails and whether
`SIGTERM` ends the process, whether `chdir` and `getcwd` succeed, and the result of
`callCommand`. -/
structure Outcome where
  killFails : Bool
  killed : Bool
  chdir : Bool
  getcwd : Bool
  callCommand : ℕ

def callCd (commandNum : ℕ) (o : Outcome) : ℕ :=
  if commandNum < 2 then errorMissParameter
  else if 2 < commandNum then errorTooManyParameter
  else if o.chdir then resultNormal
  else errorWrongParameter

/-- The handling of one command in `main`: whether the process goes on after it. -/
def goesOn (commands : List Text) (o : Outcome) : Bool :=
  match commands with
  | [] => true
  | command :: _ =>
    if command = commandExit then !(o.killFails || o.killed)
    else if command = commandCd then callCd commands.length o != resultNormal || o.getcwd
    else o.callCommand != errorFork

/-- `fgets(argv, BUF_SZ, stdin)`, which leaves the buffer as it is if there is nothing to read. -/
def fill (argv line : Text) : Text :=
  if line = [] then argv else line ++ nul :: argv.drop (line.length + 1)

/-- `if (len != BUF_SZ) argv[len-1] = '\0';` for `len = 0` the write goes to the byte before
the buffer. -/
def chop (argv : Text) : Text :=
  if (cstr argv).length ≠ bufSz ∧ cstr argv ≠ [] then argv.set ((cstr argv).length - 1) nul else argv

/-- `main` at the head of its loop: its `stdin`, the buffer `argv` and the memory behind it, the
strings that `splitCommands` has got, and whether the process has ended. -/
structure Main where
  stdin : InputStream
  argv : Text
  passed : List Text
  ended : Bool

namespace Main

def start (argv : Text) : Main := ⟨.opened, argv, [], false⟩

/-- One round of the loop. The file behind `stdin` is also the `stdin` of the commands: one that
reads it moves the offset, and so does `exit` in the process that `callCommand` forks, which
gives back what is left in its copy of the buffer. -/
def iterate (content : Text) (r : ℕ → ReadCall) (s : Main) (o : Outcome) : Main :=
  if s.ended then s
  else
    let read := s.stdin.fgets content r (bufSz - 1)
    let argv := chop (fill s.argv read.1)
    { stdin := read.2
      argv := argv
      passed := s.passed ++ [cstr argv]
      ended := !goesOn (splitCommands argv) o }

def after (content : Text) (r : ℕ → ReadCall) (s : Main) (o : ℕ → Outcome) : ℕ → Main
  | 0 => s
  | n + 1 => (after content r s o n).iterate content r (o n)

end Main

/-- The loop on a text of which nobody else takes anything. -/
structure MainLoop where
  stdin : Text
  argv : Text
  passed : List Text
  ended : Bool

namespace MainLoop

def start (argv stdin : Text) : MainLoop := ⟨stdin, argv, [], false⟩

def iterate (s : MainLoop) (o : Outcome) : MainLoop :=
  if s.ended then s
  else
    let line := (fgets s.stdin bufSz).1
    let argv := chop (fill s.argv line)
    { stdin := s.stdin.drop line.length
      argv := argv
      passed := s.passed ++ [cstr argv]
      ended := !goesOn (splitCommands argv) o }

/-- The loop after `n` rounds. -/
def after (s : MainLoop) (o : ℕ → Outcome) : ℕ → MainLoop
  | 0 => s
  | n + 1 => (s.after o n).iterate (o n)

end MainLoop

def inputLines (t : Text) : List Text :=
  (splitLines t).1.map List.dropLast ++ if (splitLines t).2 = [] then [] else [(splitLines t).2]

/-- `splitCommands` gets the lines of the input, and the process ends with the last of them. -/
def Executes (o : ℕ → Outcome) (argv t : Text) (r : ℕ → ReadCall) : Prop :=
  ∃ n, ((Main.start argv).after t r o n).ended ∧ ((Main.start argv).after t r o n).passed = inputLines t

/-- The same of the loop on the text. -/
def LoopExecutes (o : ℕ → Outcome) (argv t : Text) : Prop :=
  ∃ n, ((MainLoop.start argv t).after o n).ended ∧ ((MainLoop.start argv t).after o n).passed = inputLines t

/-- The process ends when it handles the last of the lines, and not before. -/
def EndsWithLast (o : ℕ → Outcome) (lines : List Text) : Prop :=
  lines ≠ [] ∧ ∀ k (hk : k < lines.length),
    goesOn (splitCommands lines[k]) (o k) = decide (k + 1 < lines.length)

namespace MainLoop
variable {s : MainLoop} {o : ℕ → Outcome} {outcome : Outcome} {w t argv : Text} {n k : ℕ}

theorem cstr_chop (hlen : (cstr argv).length ≠ bufSz) : cstr (chop argv) = (cstr argv).dropLast := by
  unfold chop
  by_cases hnil : cstr argv = []
  · rw [if_neg (fun h => h.2 hnil), hnil]
    rfl
  · obtain ⟨d, hd⟩ := cstr_isPrefix argv
    obtain ⟨v, c, hvc⟩ : ∃ v c, cstr argv = v ++ [c] :=
      ⟨_, _, (List.dropLast_append_getLast hnil).symm⟩
    have hv : nul ∉ v := by
      have hmem := nul_not_mem_cstr argv
      rw [hvc] at hmem
      exact fun hm => hmem (List.mem_append_left _ hm)
    have hset : argv.set ((cstr argv).length - 1) nul = v ++ nul :: d := by
      rw [hvc] at hd ⊢
      rw [← hd]
      simp
    rw [if_pos ⟨hlen, hnil⟩, hset, cstr_append_nul, cstr_of_not_mem hv, hvc, List.dropLast_concat]

theorem cstr_fill (hw : w ≠ []) (argv : Text) : cstr (fill argv w) = cstr w := by
  rw [fill, if_neg hw, cstr_append_nul]

theorem iterate_of_stdin_ne_nil (hs : s.ended = false) (ht : s.stdin ≠ []) (outcome : Outcome) :
    ∃ argv, cstr argv = (cstr (fgets s.stdin bufSz).1).dropLast ∧
      s.iterate outcome =
        ⟨s.stdin.drop (fgets s.stdin bufSz).1.length, argv, s.passed ++ [cstr argv],
          !goesOn (splitCommands argv) outcome⟩ := by
  have hne := fgets_ne_nil ht (n := bufSz) (by decide)
  have hle := fgets_length_le s.stdin bufSz
  have hcstr := (cstr_isPrefix (fgets s.stdin bufSz).1).length_le
  refine ⟨chop (fill s.argv (fgets s.stdin bufSz).1), ?_, ?_⟩
  · have hfill := cstr_fill hne s.argv
    rw [cstr_chop, hfill]
    rw [hfill]
    unfold bufSz at *
    omega
  · rw [iterate, if_neg (by simp [hs])]

theorem splitCommands_congr {a b : Text} (h : cstr a = b) (hb : nul ∉ b) :
    splitCommands a = splitCommands b := by
  unfold splitCommands
  rw [h, cstr_of_not_mem hb]

theorem iterate_line (hs : s.ended = false) (ht : s.stdin = w ++ '\n' :: t) (hw : '\n' ∉ w)
    (hnul : nul ∉ w) (hlen : w.length ≤ 254) (outcome : Outcome) :
    ∃ argv, s.iterate outcome =
      ⟨t, argv, s.passed ++ [w], !goesOn (splitCommands w) outcome⟩ := by
  have hne : s.stdin ≠ [] := by
    rw [ht]
    simp
  obtain ⟨argv, hargv, hit⟩ := iterate_of_stdin_ne_nil hs hne outcome
  have hread : (fgets s.stdin bufSz).1 = w ++ ['\n'] := by
    rw [ht, fgets_line hw (by unfold bufSz; omega)]
  have hfull : nul ∉ w ++ ['\n'] := by
    simp only [List.mem_append, List.mem_singleton, not_or]
    exact ⟨hnul, by decide⟩
  rw [hread, cstr_of_not_mem hfull, List.dropLast_concat] at hargv
  refine ⟨argv, ?_⟩
  rw [hit, hread, hargv, splitCommands_congr hargv hnul, ht]
  simp

theorem iterate_passed (hs : s.ended = false) (ht : s.stdin ≠ []) (outcome : Outcome) :
    ∃ p, (s.iterate outcome).passed = s.passed ++ [p] ∧ nul ∉ p ∧ p.length ≤ 254 ∧
      p.length < s.stdin.length := by
  obtain ⟨argv, hargv, hit⟩ := iterate_of_stdin_ne_nil hs ht outcome
  refine ⟨cstr argv, by rw [hit], nul_not_mem_cstr argv, ?_⟩
  have hpos := List.length_pos_iff.mpr ht
  have hread := (fgets_isPrefix s.stdin bufSz).length_le
  have hle := fgets_length_le s.stdin bufSz
  have hcstr := (cstr_isPrefix (fgets s.stdin bufSz).1).length_le
  rw [hargv, List.length_dropLast]
  unfold bufSz at *
  omega

theorem length_passed_iterate (hs : s.ended = false) (outcome : Outcome) :
    (s.iterate outcome).passed.length = s.passed.length + 1 := by
  rw [iterate, if_neg (by simp [hs])]
  simp

theorem iterate_of_ended (hs : s.ended) (outcome : Outcome) : s.iterate outcome = s := by
  rw [iterate, if_pos hs]

/-- A process that has not ended after a round had not ended before it. -/
theorem not_ended_of_succ (h : (s.after o (n + 1)).ended = false) : (s.after o n).ended = false := by
  rw [Bool.eq_false_iff]
  intro hended
  rw [after, iterate_of_ended hended, hended] at h
  cases h

theorem length_passed_after (h : (s.after o n).ended = false) :
    (s.after o n).passed.length = s.passed.length + n := by
  induction n with
  | zero => rfl
  | succ n ih =>
    have hn := not_ended_of_succ h
    rw [after, length_passed_iterate hn, ih hn]
    omega

/-- If the process has ended, then in one of the rounds, and nothing has happened since. -/
theorem exists_last_round (hs : s.ended = false) (h : (s.after o n).ended) :
    ∃ m, (s.after o m).ended = false ∧ s.after o n = s.after o (m + 1) := by
  induction n with
  | zero =>
    rw [after, hs] at h
    cases h
  | succ n ih =>
    cases hn : (s.after o n).ended with
    | false => exact ⟨n, hn, rfl⟩
    | true =>
      obtain ⟨m, hm, heq⟩ := ih hn
      refine ⟨m, hm, ?_⟩
      rw [after, iterate_of_ended hn, heq]

theorem ended_mono (hnk : n ≤ k) (h : (s.after o k).ended = false) : (s.after o n).ended = false := by
  induction k with
  | zero => rwa [Nat.le_zero.mp hnk]
  | succ k ih =>
    by_cases hk : n = k + 1
    · rwa [hk]
    · exact ih (by omega) (not_ended_of_succ h)

end MainLoop

theorem loopExecutes_iff_after {o : ℕ → Outcome} {argv t : Text} :
    LoopExecutes o argv t ↔ ∃ m, m + 1 = (inputLines t).length ∧
      ((MainLoop.start argv t).after o m).ended = false ∧
      ((MainLoop.start argv t).after o (m + 1)).ended ∧
      ((MainLoop.start argv t).after o (m + 1)).passed = inputLines t := by
  constructor
  · rintro ⟨n, hended, hpassed⟩
    obtain ⟨m, hm, heq⟩ := MainLoop.exists_last_round rfl hended
    rw [heq] at hended hpassed
    refine ⟨m, ?_, hm, hended, hpassed⟩
    rw [← hpassed, MainLoop.after, MainLoop.length_passed_iterate hm, MainLoop.length_passed_after hm]
    simp [MainLoop.start]
  · rintro ⟨m, -, -, hended, hpassed⟩
    exact ⟨m + 1, hended, hpassed⟩

/-- A line that the loop passes on as it is. -/
def Fits (w : Text) : Prop := nul ∉ w ∧ w.length ≤ 254

theorem getElem?_inputLines {t : Text} {k : ℕ} (hk : k < (splitLines t).1.length) :
    ∃ w, (inputLines t)[k]? = some w ∧ '\n' ∉ w ∧ (splitLines t).1[k] = w ++ ['\n'] := by
  obtain ⟨w, hw, hl⟩ := splitLines_isLine t _ (List.getElem_mem hk)
  refine ⟨w, ?_, hw, hl⟩
  rw [inputLines, List.getElem?_append_left (by simpa using hk), List.getElem?_map,
    List.getElem?_eq_getElem hk, hl]
  simp

namespace MainLoop
variable {s : MainLoop} {o : ℕ → Outcome} {argv t : Text} {n k : ℕ}

/-- The loop has handled the first `k` lines. -/
structure At (t : Text) (k : ℕ) (s : MainLoop) : Prop where
  stdin : s.stdin = ((splitLines t).1.drop k).flatten ++ (splitLines t).2
  passed : s.passed = (inputLines t).take k

theorem at_start (argv t : Text) : At t 0 (start argv t) := by
  refine ⟨?_, rfl⟩
  rw [List.drop_zero, splitLines_flatten]
  rfl

theorem At.iterate (h : At t k s) (hs : s.ended = false) (hk : k < (splitLines t).1.length)
    (hgood : ∀ w, (inputLines t)[k]? = some w → Fits w) (outcome : Outcome) :
    At t (k + 1) (s.iterate outcome) ∧ ∃ w, (inputLines t)[k]? = some w ∧
      (s.iterate outcome).ended = !goesOn (splitCommands w) outcome := by
  obtain ⟨w, hw, hnewline, hl⟩ := getElem?_inputLines hk
  obtain ⟨hnul, hlen⟩ := hgood w hw
  have hstdin : s.stdin = w ++ '\n' :: (((splitLines t).1.drop (k + 1)).flatten ++ (splitLines t).2) := by
    rw [h.stdin, List.drop_eq_getElem_cons hk, List.flatten_cons, hl]
    simp
  obtain ⟨argv, hit⟩ := iterate_line hs hstdin hnewline hnul hlen outcome
  have htake : (inputLines t).take (k + 1) = (inputLines t).take k ++ [w] := by
    rw [List.take_add_one, hw]
    rfl
  rw [hit]
  exact ⟨⟨rfl, by rw [htake, h.passed]⟩, w, hw, rfl⟩

theorem at_after (hk : k ≤ (splitLines t).1.length)
    (hgood : ∀ j < k, ∀ w, (inputLines t)[j]? = some w → Fits w)
    (hrun : ((start argv t).after o k).ended = false) : At t k ((start argv t).after o k) := by
  induction k with
  | zero => exact at_start argv t
  | succ k ih =>
    have hk' := ended_mono (Nat.le_succ k) hrun
    have hat := ih (by omega) (fun j hj => hgood j (by omega)) hk'
    exact (hat.iterate hk' (by omega) (hgood k (by omega)) (o k)).1

theorem passed_prefix (hnk : n ≤ k) : (s.after o n).passed <+: (s.after o k).passed := by
  induction k with
  | zero => rw [Nat.le_zero.mp hnk]
  | succ k ih =>
    by_cases hk : n = k + 1
    · rw [hk]
    · apply (ih (by omega)).trans
      rw [after, MainLoop.iterate]
      split_ifs
      · exact List.prefix_rfl
      · exact List.prefix_append _ _

end MainLoop

section Executes
variable {o : ℕ → Outcome} {argv t : Text} {m k : ℕ}

theorem passed_eq_line (hk : k ≤ m) (hrun : ((MainLoop.start argv t).after o m).ended = false)
    (hpassed : ((MainLoop.start argv t).after o (m + 1)).passed = inputLines t) {p : Text}
    (hp : ((MainLoop.start argv t).after o (k + 1)).passed =
      ((MainLoop.start argv t).after o k).passed ++ [p]) : (inputLines t)[k]? = some p := by
  have hlen := MainLoop.length_passed_after (MainLoop.ended_mono hk hrun)
  have hpre := MainLoop.passed_prefix (s := MainLoop.start argv t) (o := o) (Nat.succ_le_succ hk)
  rw [hpassed, hp] at hpre
  obtain ⟨d, hd⟩ := hpre
  have hlen' : ((MainLoop.start argv t).after o k).passed.length = k := by
    rw [hlen]
    simp [MainLoop.start]
  rw [← hd, List.append_assoc, List.getElem?_append_right (by omega), hlen']
  simp

theorem fits_of_passed (hm : m + 1 = (inputLines t).length)
    (hrun : ((MainLoop.start argv t).after o m).ended = false)
    (hpassed : ((MainLoop.start argv t).after o (m + 1)).passed = inputLines t)
    (hk : k ≤ (splitLines t).1.length) (hkm : k ≤ m + 1) :
    ∀ j < k, ∀ w, (inputLines t)[j]? = some w → Fits w := by
  induction k with
  | zero => exact fun j hj => absurd hj (Nat.not_lt_zero j)
  | succ k ih =>
    have hprev := ih (by omega) (by omega)
    have hrun' := MainLoop.ended_mono (n := k) (by omega) hrun
    have hat := MainLoop.at_after (by omega) hprev hrun'
    obtain ⟨v, -, -, hl⟩ := getElem?_inputLines (t := t) (k := k) (by omega)
    have hne : ((MainLoop.start argv t).after o k).stdin ≠ [] := by
      rw [hat.stdin, List.drop_eq_getElem_cons (by omega), hl]
      simp
    obtain ⟨p, hp, hnul, hlen, -⟩ := MainLoop.iterate_passed hrun' hne (o k)
    have hline := passed_eq_line (by omega) hrun hpassed hp
    intro j hj w hw
    by_cases hjk : j = k
    · subst hjk
      rw [← Option.some.inj (hline.symm.trans hw)]
      exact ⟨hnul, hlen⟩
    · exact hprev j (by omega) w hw

theorem length_inputLines (t : Text) : (inputLines t).length =
    (splitLines t).1.length + if (splitLines t).2 = [] then 0 else 1 := by
  rw [inputLines, List.length_append, List.length_map]
  split_ifs <;> rfl

/-- If the lines are passed on, then the last of them ends in a newline: without one, the
round for it takes a character away. -/
theorem rest_of_passed (hm : m + 1 = (inputLines t).length)
    (hrun : ((MainLoop.start argv t).after o m).ended = false)
    (hpassed : ((MainLoop.start argv t).after o (m + 1)).passed = inputLines t) :
    (splitLines t).2 = [] := by
  by_contra hrest
  have hcount := length_inputLines t
  rw [if_neg hrest] at hcount
  have hgood := fits_of_passed hm hrun hpassed (k := m) (by omega) (by omega)
  have hat := MainLoop.at_after (k := m) (by omega) hgood hrun
  have hstdin := hat.stdin
  rw [List.drop_eq_nil_of_le (by omega), List.flatten_nil, List.nil_append] at hstdin
  obtain ⟨p, hp, -, -, hlt⟩ := MainLoop.iterate_passed hrun (by rw [hstdin]; exact hrest) (o m)
  have hline := passed_eq_line le_rfl hrun hpassed hp
  have hlast : (inputLines t)[m]? = some (splitLines t).2 := by
    rw [inputLines, if_neg hrest, List.getElem?_append_right (by rw [List.length_map]; omega)]
    simp [show m = (splitLines t).1.length by omega]
  rw [hstdin, Option.some.inj (hline.symm.trans hlast)] at hlt
  exact Nat.lt_irrefl _ hlt

theorem all_fit_of_passed (hm : m + 1 = (inputLines t).length)
    (hrun : ((MainLoop.start argv t).after o m).ended = false)
    (hpassed : ((MainLoop.start argv t).after o (m + 1)).passed = inputLines t) :
    ∀ w ∈ inputLines t, Fits w := by
  have hcount := length_inputLines t
  rw [if_pos (rest_of_passed hm hrun hpassed)] at hcount
  intro w hw
  obtain ⟨j, hj, rfl⟩ := List.mem_iff_getElem.mp hw
  exact fits_of_passed hm hrun hpassed le_rfl (by omega) j (by omega) _ (List.getElem?_eq_getElem hj)

theorem ended_iff (hrest : (splitLines t).2 = []) (hfits : ∀ w ∈ inputLines t, Fits w)
    (hk : k < (inputLines t).length) (hrun : ((MainLoop.start argv t).after o k).ended = false) :
    ((MainLoop.start argv t).after o (k + 1)).passed = (inputLines t).take (k + 1) ∧
      ((MainLoop.start argv t).after o (k + 1)).ended =
        !goesOn (splitCommands (inputLines t)[k]) (o k) := by
  have hlen := length_inputLines t
  rw [if_pos hrest] at hlen
  have hgood : ∀ (j : ℕ) (w : Text), (inputLines t)[j]? = some w → Fits w := by
    intro j w hw
    exact hfits w (List.mem_of_getElem? hw)
  have hat := MainLoop.at_after (by omega) (fun j _ => hgood j) hrun
  obtain ⟨hnext, w, hw, hended⟩ := hat.iterate hrun (by omega) (hgood k) (o k)
  rw [List.getElem?_eq_getElem hk] at hw
  rw [Option.some.inj hw]
  exact ⟨hnext.passed, hended⟩

theorem loopExecutes_iff (o : ℕ → Outcome) (argv t : Text) :
    LoopExecutes o argv t ↔
      (splitLines t).2 = [] ∧ (∀ w ∈ inputLines t, Fits w) ∧ EndsWithLast o (inputLines t) := by
  rw [loopExecutes_iff_after]
  constructor
  · rintro ⟨m, hm, hrun, hended, hpassed⟩
    have hrest := rest_of_passed hm hrun hpassed
    have hfits := all_fit_of_passed hm hrun hpassed
    refine ⟨hrest, hfits, List.ne_nil_of_length_pos (by omega), fun k hk => ?_⟩
    obtain ⟨-, hk'⟩ := ended_iff hrest hfits hk (MainLoop.ended_mono (by omega) hrun)
    by_cases hlast : k + 1 < (inputLines t).length
    · rw [MainLoop.ended_mono (k := m) (by omega) hrun] at hk'
      simpa [hlast] using hk'.symm
    · obtain rfl : k = m := by omega
      rw [hended] at hk'
      simpa [hlast] using hk'.symm
  · rintro ⟨hrest, hfits, hne, hends⟩
    have hpos := List.length_pos_iff.mpr hne
    have hrun : ∀ k < (inputLines t).length, ((MainLoop.start argv t).after o k).ended = false := by
      intro k hk
      induction k with
      | zero => rfl
      | succ k ih =>
        obtain ⟨-, hended⟩ := ended_iff hrest hfits (by omega) (ih (by omega))
        rw [hended, hends k (by omega)]
        simpa using hk
    obtain ⟨m, hm⟩ : ∃ m, m + 1 = (inputLines t).length := ⟨_, Nat.sub_add_cancel hpos⟩
    obtain ⟨hpassed, hended⟩ := ended_iff hrest hfits (k := m) (by omega) (hrun m (by omega))
    refine ⟨m, hm, hrun m (by omega), ?_, ?_⟩
    · rw [hended, hends m (by omega)]
      simp [hm]
    · rw [hpassed, hm, List.take_length]

end Executes

namespace Main
variable {s : Main} {o : ℕ → Outcome} {content rest : Text} {r : ℕ → ReadCall}

/-- The loop on what `stdin` has still to deliver. -/
def onText (s : Main) (rest : Text) : MainLoop := ⟨rest, s.argv, s.passed, s.ended⟩

theorem onText_iterate (hr : Sequential content r) (h : s.stdin.Delivers content r rest)
    (outcome : Outcome) :
    ∃ rest', (s.iterate content r outcome).stdin.Delivers content r rest' ∧
      (s.iterate content r outcome).onText rest' = (s.onText rest).iterate outcome := by
  by_cases hended : s.ended = true
  · rw [iterate, if_pos hended, MainLoop.iterate_of_ended (s := s.onText rest) hended]
    exact ⟨rest, h, rfl⟩
  · obtain ⟨t, hread, ht⟩ := h.fgets hr (bufSz - 1)
    rw [iterate, if_neg hended, hread, MainLoop.iterate, if_neg (c := (s.onText rest).ended = true) hended]
    exact ⟨_, ht, rfl⟩

theorem onText_after (hr : Sequential content r) (argv : Text) (o : ℕ → Outcome) (n : ℕ) :
    ∃ rest, ((start argv).after content r o n).stdin.Delivers content r rest ∧
      ((start argv).after content r o n).onText rest = (MainLoop.start argv content).after o n := by
  induction n with
  | zero => exact ⟨content, InputStream.delivers_opened content r, rfl⟩
  | succ n ih =>
    obtain ⟨rest, hdelivers, heq⟩ := ih
    obtain ⟨rest', hdelivers', heq'⟩ := onText_iterate hr hdelivers (o n)
    exact ⟨rest', hdelivers', by rw [after, heq', heq, MainLoop.after]⟩

end Main

theorem executes_iff_loopExecutes {o : ℕ → Outcome} {argv t : Text} {r : ℕ → ReadCall}
    (hr : Sequential t r) : Executes o argv t r ↔ LoopExecutes o argv t := by
  apply exists_congr
  intro n
  obtain ⟨rest, -, heq⟩ := Main.onText_after hr argv o n
  rw [← heq]
  rfl

/-- While the reads of its `stdin` go on where they ended, `main` executes exactly the lines of
its input if each of them ends in a newline, holds no NUL and at most 254 characters, and the
process ends with the last of them: the loop does not notice the end of the file. -/
theorem executes_iff (o : ℕ → Outcome) (argv t : Text) {r : ℕ → ReadCall} (hr : Sequential t r) :
    Executes o argv t r ↔
      (splitLines t).2 = [] ∧ (∀ w ∈ inputLines t, Fits w) ∧ EndsWithLast o (inputLines t) := by
  rw [executes_iff_loopExecutes hr, loopExecutes_iff]

section Examples

/-- The reads of a file that fits in the buffer of the stream. -/
def oneBlock (size : ℕ) (j : ℕ) : ReadCall := ⟨if j = 0 then 0 else size, 4096, by decide⟩

theorem sequential_oneBlock {t : Text} (h : t.length ≤ 4096) : Sequential t (oneBlock t.length) := by
  intro j
  cases j with
  | zero => rfl
  | succ j =>
    cases j with
    | zero => simp [offsetAfter, ReadCall.bytes, oneBlock, h]
    | succ j => simp [offsetAfter, ReadCall.bytes, oneBlock]

/-- Commands succeed, and `SIGTERM` ends the process. -/
def succeeds : Outcome := ⟨false, true, true, true, 0⟩

def lsAndExit : Text := ['l', 's', '\n', 'e', 'x', 'i', 't', '\n']

theorem executes_lsAndExit :
    Executes (fun _ => succeeds) (List.replicate 256 nul) lsAndExit (oneBlock 8) := by
  have hr : Sequential lsAndExit (oneBlock 8) := sequential_oneBlock (by decide)
  have hlines : inputLines lsAndExit = [['l', 's'], ['e', 'x', 'i', 't']] := by decide
  refine (executes_iff (fun _ => succeeds) _ lsAndExit hr).mpr ⟨by decide, ?_, ?_⟩
  · rw [hlines]
    exact List.forall_mem_cons.mpr ⟨⟨by decide, by decide⟩,
      List.forall_mem_singleton.mpr ⟨by decide, by decide⟩⟩
  · rw [hlines]
    refine ⟨List.cons_ne_nil _ _, fun k hk => ?_⟩
    cases k with
    | zero => rfl
    | succ k =>
      obtain rfl : k = 0 := by
        simp only [List.length_cons, List.length_nil] at hk
        omega
      rfl

/-- After `ls` its process gives back what is left in its copy of the buffer, and the next read
of `main` finds the file at its start: the same lines, the same outcomes, another run. -/
example : ((Main.start (List.replicate 256 nul)).after lsAndExit (fun _ => ⟨0, 3, by decide⟩)
    (fun _ => succeeds) 2).passed = [['l', 's'], ['l', 's']] := by
  decide

/-- What `splitCommands` gets for one command and the end of the file. -/
example : ((Main.start (List.replicate 256 nul)).after ['l', 's', '\n'] (oneBlock 3)
    (fun _ => succeeds) 4).passed = [['l', 's'], ['l'], [], []] := by
  decide

/-- One command, after which the file ends: it is executed again without its last letter. -/
theorem not_executes_ls :
    ¬ Executes (fun _ => succeeds) (List.replicate 256 nul) ['l', 's', '\n'] (oneBlock 3) := by
  have hr : Sequential ['l', 's', '\n'] (oneBlock 3) :=
    sequential_oneBlock (t := ['l', 's', '\n']) (by decide)
  rw [executes_iff_loopExecutes hr, loopExecutes_iff_after]
  rintro ⟨m, hm, -, hended, -⟩
  obtain rfl : m = 0 := by
    have hone : (inputLines ['l', 's', '\n']).length = 1 := by decide
    omega
  revert hended
  decide

end Examples
end CLib.MyShell
