import CLib.MyShell.MainLoop

namespace CLib.MyShell
open CLib.Base

/-- `char commands[BUF_SZ][BUF_SZ]`. -/
structure Table where
  row : Fin bufSz → Text
  length_row : ∀ i, (row i).length = bufSz

/-- `commands[num][j] = c`. There is no such byte outside of the table. -/
def Table.write (t : Table) (num j : ℕ) (c : Char) : Option Table :=
  if h : num < bufSz ∧ j < bufSz then
    some {
      row := Function.update t.row ⟨num, h.1⟩ ((t.row ⟨num, h.1⟩).set j c)
      length_row := by
        intro i
        by_cases hi : i = ⟨num, h.1⟩
        · rw [hi, Function.update_self, List.length_set, t.length_row]
        · rw [Function.update_of_ne hi, t.length_row] }
  else none

/-- The table and the local variables of `splitCommands`. -/
structure Split where
  commands : Table
  num : ℕ
  j : ℕ

namespace Split

/-- `if (j != 0) { commands[num][j] = '\0'; ++num; j = 0; }`; behind the loop `j` is not
reset, and not read again. -/
def finish (s : Split) : Option Split :=
  if s.j ≠ 0 then (s.commands.write s.num s.j nul).map fun t => ⟨t, s.num + 1, 0⟩ else some s

/-- The body of the loop. -/
def character (s : Split) (c : Char) : Option Split :=
  if c ≠ ' ' then (s.commands.write s.num s.j c).map fun t => ⟨t, s.num, s.j + 1⟩ else s.finish

end Split

/-- `splitCommands` on the global table: what it leaves there, and the number it returns. -/
def Table.splitCommands (t : Table) (command : Text) : Option (Table × ℕ) :=
  ((cstr command).foldlM Split.character ⟨t, 0, 0⟩).bind fun s =>
    s.finish.map fun s => (s.commands, s.num)

/-- The first rows of the table are terminated strings, and these are the words. -/
def Table.Holds (t : Table) (words : List Text) : Prop :=
  ∀ i (hi : i < words.length), ∃ h : i < bufSz,
    nul ∈ t.row ⟨i, h⟩ ∧ cstr (t.row ⟨i, h⟩) = words[i]

/-- The maximal runs of characters other than the space. -/
def runs (command : Text) : List Text := (command.splitOn ' ').filter fun w => w ≠ []

def join (words : List Text) : Text := [' '].intercalate words

section Runs
variable {w : Text}

theorem runs_append_space (a b : Text) : runs (a ++ ' ' :: b) = runs a ++ runs b := by
  rw [runs, List.splitOn_append_cons_of_beq a b (beq_self_eq_true ' '), List.filter_append]
  rfl

theorem runs_of_not_mem (h : ' ' ∉ w) : runs w = if w ≠ [] then [w] else [] := by
  rw [runs, List.splitOn_eq_singleton h]
  by_cases hw : w = [] <;> simp [hw]

theorem runs_join {words : List Text} (h : ∀ w ∈ words, w ≠ [] ∧ ' ' ∉ w) :
    runs (join words) = words := by
  induction words with
  | nil => rfl
  | cons w words ih =>
    obtain ⟨⟨hne, hw⟩, hwords⟩ := List.forall_mem_cons.mp h
    cases words with
    | nil => simpa [join, List.intercalate, hne] using runs_of_not_mem hw
    | cons v words =>
      have hjoin : join (w :: v :: words) = w ++ ' ' :: join (v :: words) := by
        simp [join, List.intercalate]
      rw [hjoin, runs_append_space, ih hwords, runs_of_not_mem hw, if_pos hne]
      rfl

theorem nul_mem_join {words : List Text} (h : nul ∈ join words) : ∃ w ∈ words, nul ∈ w := by
  induction words with
  | nil => cases h
  | cons w words ih =>
    cases words with
    | nil => exact ⟨w, List.mem_cons_self, by simpa [join, List.intercalate] using h⟩
    | cons v words =>
      have hcases : nul ∈ w ∨ nul ∈ join (v :: words) := by
        simpa [join, List.intercalate, show nul ≠ ' ' by decide] using h
      rcases hcases with hw | hwords
      · exact ⟨w, List.mem_cons_self, hw⟩
      · obtain ⟨u, hu, hmem⟩ := ih hwords
        exact ⟨u, List.mem_cons_of_mem w hu, hmem⟩

theorem splitLoop_runs (words : List Text) (h : ' ' ∉ w) (cs : Text) :
    let r := splitLoop (words, w) cs
    (if r.2 ≠ [] then r.1 ++ [r.2] else r.1) = words ++ runs (w ++ cs) := by
  induction cs generalizing words w with
  | nil =>
    rw [List.append_nil, runs_of_not_mem h]
    by_cases hw : w = [] <;> simp [splitLoop, hw]
  | cons c cs ih =>
    by_cases hc : c = ' '
    · subst hc
      rw [runs_append_space, runs_of_not_mem h]
      by_cases hw : w = []
      · simpa [splitLoop, hw] using ih words (w := []) (by simp)
      · simpa [splitLoop, hw] using ih (words ++ [w]) (w := []) (by simp)
    · have hwc : ' ' ∉ w ++ [c] := by simpa [h] using Ne.symm hc
      simpa [splitLoop, hc] using ih words hwc

theorem splitCommands_eq_runs (command : Text) : splitCommands command = runs (cstr command) :=
  splitLoop_runs [] List.not_mem_nil (cstr command)

end Runs

theorem Table.write_eq_some {t : Table} {num j : ℕ} (hnum : num < bufSz) (hj : j < bufSz) (c : Char) :
    ∃ t', t.write num j c = some t' ∧ t'.row ⟨num, hnum⟩ = (t.row ⟨num, hnum⟩).set j c ∧
      ∀ i, i ≠ ⟨num, hnum⟩ → t'.row i = t.row i :=
  ⟨_, dif_pos ⟨hnum, hj⟩, Function.update_self .., fun _ hi => Function.update_of_ne hi ..⟩

theorem set_of_isPrefix {w r : Text} (h : w <+: r) (hlt : w.length < r.length) (c : Char) :
    ∃ rest, r.set w.length c = w ++ c :: rest := by
  obtain ⟨u, rfl⟩ := h
  refine ⟨u.drop 1, ?_⟩
  rw [List.set_eq_take_append_cons_drop, if_pos hlt, List.take_left, ← List.drop_drop,
    List.drop_left]

namespace Split
variable {s : Split} {words : List Text} {w : Text} {c : Char}

/-- The table holds the finished words in its first rows, and in the next row the
characters so far of the word that is being filled in. -/
structure Stores (s : Split) (words : List Text) (w : Text) : Prop where
  num : s.num = words.length
  j : s.j = w.length
  words_free : ∀ v ∈ words, nul ∉ v
  word_free : nul ∉ w
  holds : s.commands.Holds words
  filled : ∀ h : words.length < bufSz, w <+: s.commands.row ⟨words.length, h⟩

theorem stores_start (t : Table) : Stores ⟨t, 0, 0⟩ [] [] where
  num := rfl
  j := rfl
  words_free := by simp
  word_free := List.not_mem_nil
  holds := fun _ hi => absurd hi (Nat.not_lt_zero _)
  filled := fun _ => List.nil_prefix

theorem Stores.character (h : s.Stores words w) (hc : c ≠ ' ') (hnul : c ≠ nul)
    (hnum : words.length < bufSz) (hj : w.length < bufSz) :
    ∃ s', s.character c = some s' ∧ s'.Stores words (w ++ [c]) := by
  obtain ⟨t, ht, hrow, hframe⟩ := Table.write_eq_some (t := s.commands) hnum hj c
  refine ⟨⟨t, s.num, s.j + 1⟩, ?_, ?_⟩
  · rw [Split.character, if_pos hc, h.num, h.j, ht]
    rfl
  · have hlen : w.length < (s.commands.row ⟨words.length, hnum⟩).length := by
      rwa [s.commands.length_row]
    obtain ⟨rest, hset⟩ := set_of_isPrefix (h.filled hnum) hlen c
    refine ⟨h.num, by simp [h.j], h.words_free, by simpa [h.word_free] using hnul.symm, ?_, ?_⟩
    · -- The finished words are in other rows.
      intro i hi
      obtain ⟨hlt, hholds⟩ := h.holds i hi
      have hne : (⟨i, hlt⟩ : Fin bufSz) ≠ ⟨words.length, hnum⟩ := by
        simpa using Nat.ne_of_lt hi
      exact ⟨hlt, by rwa [hframe _ hne]⟩
    · intro _
      exact ⟨rest, by rw [hrow, hset, List.append_assoc, List.singleton_append]⟩

theorem Stores.finish (h : s.Stores words w) (hw : w ≠ [])
    (hnum : words.length < bufSz) (hj : w.length < bufSz) :
    ∃ s', s.finish = some s' ∧ s'.Stores (words ++ [w]) [] := by
  obtain ⟨t, ht, hrow, hframe⟩ := Table.write_eq_some (t := s.commands) hnum hj nul
  refine ⟨⟨t, s.num + 1, 0⟩, ?_, ?_⟩
  · have hne : s.j ≠ 0 := by rwa [h.j, Ne, List.length_eq_zero_iff]
    rw [Split.finish, if_pos hne, h.num, h.j, ht]
    rfl
  · have hlen : w.length < (s.commands.row ⟨words.length, hnum⟩).length := by
      rwa [s.commands.length_row]
    obtain ⟨rest, hset⟩ := set_of_isPrefix (h.filled hnum) hlen nul
    have hfree : ∀ v ∈ words ++ [w], nul ∉ v := by
      simpa [or_imp, forall_and] using ⟨h.words_free, h.word_free⟩
    refine ⟨by simp [h.num], rfl, hfree, List.not_mem_nil, ?_, fun _ => List.nil_prefix⟩
    intro i hi
    rcases Nat.lt_or_ge i words.length with hlt | hge
    · obtain ⟨hib, hholds⟩ := h.holds i hlt
      have hne : (⟨i, hib⟩ : Fin bufSz) ≠ ⟨words.length, hnum⟩ := by
        simpa using Nat.ne_of_lt hlt
      refine ⟨hib, ?_⟩
      rwa [hframe _ hne, List.getElem_append_left hlt]
    · obtain rfl : i = words.length := by
        rw [List.length_append, List.length_singleton] at hi
        omega
      refine ⟨hnum, ?_⟩
      rw [hrow, hset, List.getElem_concat_length rfl, cstr_append_nul, cstr_of_not_mem h.word_free]
      exact ⟨by simp, rfl⟩

/-- The loop: each character written so far came from a character of the command, so the
row and the column stay below the length of the command. -/
theorem Stores.loop (h : s.Stores words w) {cs : Text} (hcs : nul ∉ cs)
    (hroom : words.length + w.length + cs.length < bufSz) :
    let r := splitLoop (words, w) cs
    ∃ s', cs.foldlM Split.character s = some s' ∧ s'.Stores r.1 r.2 ∧
      r.1.length + r.2.length < bufSz := by
  induction cs generalizing s words w with
  | nil => exact ⟨s, rfl, h, hroom⟩
  | cons c cs ih =>
    obtain ⟨hc, hcs⟩ := not_or.mp (List.mem_cons.not.mp hcs)
    rw [List.length_cons] at hroom
    by_cases hspace : c = ' '
    · by_cases hw : w = []
      · have hskip : s.character c = some s := by
          simp [Split.character, Split.finish, hspace, h.j, hw]
        have hloop : splitLoop (words, w) (c :: cs) = splitLoop (words, w) cs := by
          simp [splitLoop, hspace, hw]
        rw [hloop, List.foldlM_cons, hskip]
        exact ih h hcs (by omega)
      · have hpos : 0 < w.length := List.length_pos_iff.mpr hw
        have hloop : splitLoop (words, w) (c :: cs) = splitLoop (words ++ [w], []) cs := by
          simp [splitLoop, hspace, hw]
        obtain ⟨s', hs', h'⟩ := h.finish hw (by omega) (by omega)
        rw [hloop, List.foldlM_cons, Split.character, if_neg (not_not.mpr hspace), hs']
        apply ih h' hcs
        rw [List.length_append, List.length_singleton, List.length_nil]
        omega
    · have hloop : splitLoop (words, w) (c :: cs) = splitLoop (words, w ++ [c]) cs := by
        simp [splitLoop, hspace]
      obtain ⟨s', hs', h'⟩ := h.character hspace (Ne.symm hc) (by omega) (by omega)
      rw [hloop, List.foldlM_cons, hs']
      apply ih h' hcs
      rw [List.length_append, List.length_singleton]
      omega

end Split

namespace Table

theorem splitCommands_holds (t : Table) {command : Text} (h : (cstr command).length < bufSz) :
    ∃ t', t.splitCommands command = some (t', (MyShell.splitCommands command).length) ∧
      t'.Holds (MyShell.splitCommands command) := by
  obtain ⟨s, hs, hstores, hroom⟩ := (Split.stores_start t).loop (nul_not_mem_cstr command)
    (by simpa using h)
  rw [Table.splitCommands, MyShell.splitCommands, hs, Option.bind_some]
  by_cases hw : (splitLoop ([], []) (cstr command)).2 = []
  · have hfinish : s.finish = some s := by simp [Split.finish, hstores.j, hw]
    simp only [hw, hfinish]
    exact ⟨s.commands, by simp [hstores.num], hstores.holds⟩
  · obtain ⟨s', hs', hstores'⟩ := hstores.finish hw (by omega) (by omega)
    simp only [ne_eq, hw, not_false_eq_true, if_true, hs']
    exact ⟨s'.commands, by simp [hstores'.num], hstores'.holds⟩

/-- Whatever the table holds before: a command of at most 255 bytes is cut into its runs,
and words that have been joined with spaces are found again. -/
theorem splitCommands_runs (t : Table) :
    (∀ command : Text, (cstr command).length < bufSz →
      ∃ t', t.splitCommands command = some (t', (runs (cstr command)).length) ∧
        t'.Holds (runs (cstr command))) ∧
    ∀ words : List Text, (∀ w ∈ words, w ≠ [] ∧ ' ' ∉ w ∧ nul ∉ w) → (join words).length < bufSz →
      ∃ t', t.splitCommands (join words) = some (t', words.length) ∧ t'.Holds words := by
  have hruns : ∀ command : Text, (cstr command).length < bufSz →
      ∃ t', t.splitCommands command = some (t', (runs (cstr command)).length) ∧
        t'.Holds (runs (cstr command)) := by
    intro command h
    rw [← splitCommands_eq_runs]
    exact t.splitCommands_holds h
  refine ⟨hruns, fun words hwords hlen => ?_⟩
  have hfree : nul ∉ join words := by
    intro hmem
    obtain ⟨w, hw, hmem⟩ := nul_mem_join hmem
    exact (hwords w hw).2.2 hmem
  have h := hruns (join words)
  rw [cstr_of_not_mem hfree, runs_join fun w hw => ⟨(hwords w hw).1, (hwords w hw).2.1⟩] at h
  exact h hlen

/-- On a table without contents, as it is when the shell starts. -/
def blank : Table := ⟨fun _ => List.replicate bufSz nul, fun _ => List.length_replicate⟩

theorem splitCommands_blank :
    (∃ t, blank.splitCommands "  ls -l ".toList = some (t, 2) ∧ t.Holds ["ls".toList, "-l".toList]) ∧
    ∃ t, blank.splitCommands "cat a".toList = some (t, 2) ∧ t.Holds ["cat".toList, "a".toList] :=
  ⟨blank.splitCommands_runs.1 "  ls -l ".toList (by decide),
    blank.splitCommands_runs.2 ["cat".toList, "a".toList] (by decide) (by decide)⟩

end Table
end CLib.MyShell
