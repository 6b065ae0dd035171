import CLib.Base.Getline

namespace CLib.Mysql
open CLib.Base

def maxRe : ℕ := 64

/-- `g_re_array` and `g_re_count`. -/
structure ReTable (γ : Type) where
  array : ℕ → Option γ
  count : ℕ

def ReTable.entries {γ : Type} (t : ReTable γ) : List (Option γ) := (List.range t.count).map t.array

/-- `g_re_array[g_re_count] = re; g_re_count++;` -/
def ReTable.add {γ : Type} (t : ReTable γ) (re : γ) : ReTable γ :=
  ⟨fun i => if i = t.count then some re else t.array i, t.count + 1⟩

/-- `sql_load_re` under way: the table, the patterns given to `pcre2_compile` so far, and
whether the function is going to succeed. -/
structure ReLoad (γ : Type) where
  table : ReTable γ
  passed : List Text
  ok : Bool

section
variable {γ : Type} (compile : Text → Option γ)

/-- The loop over the lines. The statement that is to strip the newline compares instead
of assigning, so the pattern is the line as a C string. -/
def loadLines : ReLoad γ → List Text → ReLoad γ
  | s, [] => s
  | s, line :: lines =>
    let pattern := cstr line
    if pattern.length = 0 then loadLines s lines
    else match compile pattern with
      | none => ⟨s.table, s.passed ++ [pattern], false⟩
      | some re =>
        let s : ReLoad γ := ⟨s.table.add re, s.passed ++ [pattern], s.ok⟩
        if s.table.count = maxRe then s else loadLines s lines

/-- `sql_load_re`; `none` is a file that cannot be read. -/
def sqlLoadRe (table : ReTable γ) (file : Option Text) : ReLoad γ :=
  let table : ReTable γ := ⟨table.array, 0⟩
  match file with
  | none => ⟨table, [], false⟩
  | some t => loadLines compile ⟨table, [], true⟩ (getlines t)

/-- The patterns up to and with the first that does not compile. -/
def upToFailure : List Text → List Text
  | [] => []
  | p :: ps => if (compile p).isNone then [p] else p :: upToFailure ps

/-- The load is that of the given patterns: they are compiled in order until one fails,
and if none does, the table holds what they compile to. -/
structure LoadsPatterns (patterns : List Text) (r : ReLoad γ) : Prop where
  passed : r.passed = upToFailure compile patterns
  loaded : r.ok = true → r.table.count = patterns.length ∧ r.table.entries = patterns.map compile

end

/-- The texts that are not empty, at most `MAX_RE` of them. -/
def firstNonEmpty (n : ℕ) (ls : List Text) : List Text := (ls.filter fun l => l ≠ []).take n

/-- The patterns of a file: its non-empty lines without their newlines. -/
def intendedPatterns (t : Text) : List Text := firstNonEmpty maxRe ((getlines t).map stripNewline)

theorem firstNonEmpty_cons {n : ℕ} {l : Text} (hl : l ≠ []) (ls : List Text) :
    firstNonEmpty (n + 1) (l :: ls) = l :: firstNonEmpty n ls := by
  rw [firstNonEmpty, List.filter_cons_of_pos (by simpa using hl)]
  rfl

@[simp] theorem firstNonEmpty_cons_nil (n : ℕ) (ls : List Text) :
    firstNonEmpty n ([] :: ls) = firstNonEmpty n ls := by
  rw [firstNonEmpty, List.filter_cons_of_neg (by simp)]
  rfl

@[simp] theorem firstNonEmpty_nil (n : ℕ) : firstNonEmpty n [] = [] := by
  simp [firstNonEmpty]

@[simp] theorem firstNonEmpty_zero (ls : List Text) : firstNonEmpty 0 ls = [] := rfl

section
variable {γ : Type} {compile : Text → Option γ}

@[simp] theorem ReTable.entries_add (t : ReTable γ) (re : γ) :
    (t.add re).entries = t.entries ++ [some re] := by
  have hkeep : (List.range t.count).map (t.add re).array = (List.range t.count).map t.array := by
    apply List.map_congr_left
    intro i hi
    exact if_neg (Nat.ne_of_lt (List.mem_range.mp hi))
  have hnew : (t.add re).array t.count = some re := if_pos rfl
  show (List.range (t.count + 1)).map (t.add re).array = _
  rw [List.range_succ, List.map_append, hkeep, List.map_singleton, hnew]
  rfl

/-- From `s` to `r` the patterns `ps` are loaded. -/
structure LoadsMore (compile : Text → Option γ) (s : ReLoad γ) (ps : List Text) (r : ReLoad γ) :
    Prop where
  passed : r.passed = s.passed ++ upToFailure compile ps
  loaded : r.ok = true → r.table.count = s.table.count + ps.length ∧
    r.table.entries = s.table.entries ++ ps.map compile

theorem LoadsMore.cons {s r : ReLoad γ} {p : Text} {ps : List Text} {re : γ}
    (hc : compile p = some re)
    (h : LoadsMore compile ⟨s.table.add re, s.passed ++ [p], s.ok⟩ ps r) :
    LoadsMore compile s (p :: ps) r where
  passed := by
    rw [h.passed, upToFailure, hc, List.append_assoc]
    rfl
  loaded hok := by
    obtain ⟨hcount, hentries⟩ := h.loaded hok
    rw [hcount, hentries, ReTable.entries_add, List.append_assoc, List.length_cons, List.map_cons,
      hc]
    refine ⟨?_, rfl⟩
    show s.table.count + 1 + ps.length = s.table.count + (ps.length + 1)
    omega

theorem LoadsMore.nil (s : ReLoad γ) : LoadsMore compile s [] s :=
  ⟨(List.append_nil _).symm, fun _ => ⟨rfl, (List.append_nil _).symm⟩⟩

/-- The loop invariant: what the loop does from a state with room in the table is to load
the first non-empty ones of the C strings of the remaining lines. -/
theorem loadLines_loads {s : ReLoad γ} (hroom : s.table.count < maxRe) (ls : List Text) :
    LoadsMore compile s (firstNonEmpty (maxRe - s.table.count) (ls.map cstr))
      (loadLines compile s ls) := by
  induction ls generalizing s with
  | nil =>
    rw [List.map_nil, firstNonEmpty_nil]
    exact .nil s
  | cons line lines ih =>
    obtain ⟨n, hn⟩ : ∃ n, maxRe - s.table.count = n + 1 := ⟨maxRe - s.table.count - 1, by omega⟩
    cases hp : cstr line with
    | nil =>
      have hskip : loadLines compile s (line :: lines) = loadLines compile s lines := by
        simp [loadLines, hp]
      rw [hskip, List.map_cons, hp, firstNonEmpty_cons_nil]
      exact ih hroom
    | cons c cs =>
      rw [List.map_cons, hp, hn, firstNonEmpty_cons (List.cons_ne_nil c cs)]
      cases hc : compile (c :: cs) with
      | none =>
        have hfail : loadLines compile s (line :: lines) =
            ⟨s.table, s.passed ++ [c :: cs], false⟩ := by
          simp [loadLines, hp, hc]
        rw [hfail]
        exact ⟨by simp [upToFailure, hc], fun hok => by cases hok⟩
      | some re =>
        apply LoadsMore.cons hc
        by_cases hfull : s.table.count + 1 = maxRe
        · -- The table is full now, so the loop ends and nothing more is passed.
          obtain rfl : n = 0 := by omega
          have hlast : loadLines compile s (line :: lines) =
              ⟨s.table.add re, s.passed ++ [c :: cs], s.ok⟩ := by
            simp [loadLines, hp, hc, ReTable.add, hfull]
          rw [hlast, firstNonEmpty_zero]
          exact .nil _
        · have hnext : loadLines compile s (line :: lines) =
              loadLines compile ⟨s.table.add re, s.passed ++ [c :: cs], s.ok⟩ lines := by
            simp [loadLines, hp, hc, ReTable.add, hfull]
          have hn' : maxRe - (s.table.count + 1) = n := by omega
          rw [hnext, ← hn']
          exact ih (show s.table.count + 1 < maxRe by omega)

/-- What `sql_load_re` loads: the first `MAX_RE` lines that are not empty as C strings,
each with its newline. -/
theorem sqlLoadRe_loads (table : ReTable γ) (t : Text) :
    LoadsPatterns compile (firstNonEmpty maxRe ((getlines t).map cstr))
      (sqlLoadRe compile table (some t)) := by
  have h : LoadsMore compile ⟨⟨table.array, 0⟩, [], true⟩
      (firstNonEmpty maxRe ((getlines t).map cstr)) (sqlLoadRe compile table (some t)) :=
    loadLines_loads (show 0 < maxRe by decide) (getlines t)
  refine ⟨h.passed, fun hok => ?_⟩
  obtain ⟨hcount, hentries⟩ := h.loaded hok
  exact ⟨hcount.trans (Nat.zero_add _), hentries⟩

theorem upToFailure_subset (ps : List Text) : upToFailure compile ps ⊆ ps := by
  induction ps with
  | nil => exact List.Subset.refl _
  | cons p ps ih =>
    rw [upToFailure]
    split_ifs
    · exact List.cons_subset_cons p (List.nil_subset ps)
    · exact List.cons_subset_cons p ih

theorem head_mem_upToFailure {p : Text} (hp : p ≠ []) (ls : List Text) :
    p ∈ upToFailure compile (firstNonEmpty maxRe (p :: ls)) := by
  have hfirst : firstNonEmpty maxRe (p :: ls) = p :: firstNonEmpty (maxRe - 1) ls :=
    firstNonEmpty_cons hp ls
  rw [hfirst, upToFailure]
  split_ifs <;> exact List.mem_cons_self

theorem mem_of_mem_firstNonEmpty {n : ℕ} {l : Text} {ls : List Text}
    (h : l ∈ firstNonEmpty n ls) : l ∈ ls :=
  List.mem_of_mem_filter (List.mem_of_mem_take h)

theorem nul_not_mem_of_passed {table : ReTable γ} {t p : Text}
    (h : p ∈ (sqlLoadRe compile table (some t)).passed) : nul ∉ p := by
  rw [(sqlLoadRe_loads table t).passed] at h
  have hmem := mem_of_mem_firstNonEmpty (upToFailure_subset _ h)
  obtain ⟨l, -, rfl⟩ := List.mem_map.mp hmem
  exact nul_not_mem_cstr l

theorem newline_not_mem_of_intended {t p : Text} (h : p ∈ intendedPatterns t) : '\n' ∉ p := by
  obtain ⟨l, hl, rfl⟩ := List.mem_map.mp (mem_of_mem_firstNonEmpty h)
  exact newline_not_mem_stripNewline hl

/-- A first line with a NUL byte in it would have to be passed whole. -/
theorem not_loads_of_nul_mem {table : ReTable γ} {t w : Text} {ls : List Text}
    (hlines : (getlines t).map stripNewline = w :: ls) (hnul : nul ∈ w) :
    ¬ LoadsPatterns compile (intendedPatterns t) (sqlLoadRe compile table (some t)) := by
  intro h
  have hw : w ∈ upToFailure compile (intendedPatterns t) := by
    rw [intendedPatterns, hlines]
    exact head_mem_upToFailure (List.ne_nil_of_mem hnul) ls
  rw [← h.passed] at hw
  exact nul_not_mem_of_passed hw hnul

/-- The expressions are loaded as intended from the files without a line end and without
a NUL byte, that is from one line at most, and from no other file. -/
theorem sqlLoadRe_intended_iff (compile : Text → Option γ) (table : ReTable γ) (t : Text) :
    LoadsPatterns compile (intendedPatterns t) (sqlLoadRe compile table (some t)) ↔
      '\n' ∉ t ∧ nul ∉ t := by
  constructor
  · intro h
    have hnewline : '\n' ∉ t := by
      intro hmem
      obtain ⟨w, u, rfl, hw⟩ := List.eq_append_cons_of_mem hmem
      have hlines := getlines_line hw u
      by_cases hnul : nul ∈ w
      · exact not_loads_of_nul_mem (by rw [hlines, List.map_cons, stripNewline_concat]) hnul h
      · -- The first line is passed with its newline, which no intended pattern has.
        have hcstr : cstr (w ++ ['\n']) = w ++ ['\n'] := by
          apply cstr_of_not_mem
          rw [List.mem_append, not_or]
          exact ⟨hnul, by decide⟩
        have hpassed : w ++ ['\n'] ∈ (sqlLoadRe compile table (some (w ++ '\n' :: u))).passed := by
          rw [(sqlLoadRe_loads table _).passed, hlines, List.map_cons, hcstr]
          exact head_mem_upToFailure (by simp) _
        rw [h.passed] at hpassed
        exact newline_not_mem_of_intended (upToFailure_subset _ hpassed) (by simp)
    -- The only line is passed up to its NUL byte.
    refine ⟨hnewline, fun hnul => ?_⟩
    have hlines := getlines_of_not_mem hnewline (List.ne_nil_of_mem hnul)
    have hstripped : (getlines t).map stripNewline = t :: [] := by
      rw [hlines, List.map_singleton, stripNewline_of_not_mem hnewline]
    exact not_loads_of_nul_mem hstripped hnul h
  · rintro ⟨hnewline, hnul⟩
    have hsame : intendedPatterns t = firstNonEmpty maxRe ((getlines t).map cstr) := by
      obtain rfl | hne := eq_or_ne t []
      · rfl
      · rw [intendedPatterns, getlines_of_not_mem hnewline hne, List.map_singleton,
          List.map_singleton, stripNewline_of_not_mem hnewline, cstr_of_not_mem hnul]
    rw [hsame]
    exact sqlLoadRe_loads table t

end

/-- From the file `abc`, with a line end, the pattern with the newline is compiled. -/
theorem not_loads_terminated_line :
    (sqlLoadRe some ⟨fun _ => none, 0⟩ (some "abc\n".toList)).passed = ["abc\n".toList] ∧
      ¬ ∀ (compile : Text → Option Text) table t,
        LoadsPatterns compile (intendedPatterns t) (sqlLoadRe compile table (some t)) := by
  refine ⟨by decide, fun h => ?_⟩
  have hpassed := (h some ⟨fun _ => none, 0⟩ "abc\n".toList).passed
  revert hpassed
  decide

end CLib.Mysql
