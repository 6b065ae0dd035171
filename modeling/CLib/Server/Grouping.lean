import CLib.Base.Sections
import CLib.Server.Tailing

namespace CLib.Server
open CLib.Base

/-- A sequence of lines, cut in front of every line that contains the mark. -/
def groups (ls : List Text) : List (List Text) := sections hasMark ls

/-- The lines `pre` of the sequence `ls` have been assembled: the strings enqueued
are the groups that `pre` completes, each without its final character, and the
lines of the group after them are pending. -/
structure Grouped (ls pre : List Text) (a : Assembly) : Prop where
  completed : (groups pre).dropLast <+: groups ls
  enqueued : a.enqueued = (groups pre).dropLast.map fun g => g.flatten.dropLast
  currentLine : a.currentLine = ((groups pre).getLastD []).flatten

theorem hasMark_ne_nil {l : Text} (h : hasMark l = true) : l ≠ [] := by
  rintro rfl
  revert h
  decide

theorem flatten_ne_nil_of_isSection {g : List Text} (h : IsSection hasMark g) :
    g.flatten ≠ [] := by
  obtain ⟨a, t, rfl, ha, -⟩ := h
  simp [hasMark_ne_nil ha]

theorem exists_group_of_begun {pre ls : List Text} (hpre : pre <+: ls)
    (hmark : ∀ l ∈ pre.head?, hasMark l = true) {gs : List (List Text)} {g : List Text}
    (hgs : groups pre = gs ++ [g]) :
    gs <+: groups ls ∧ ∃ g' ∈ groups ls, g <+: g' := by
  obtain ⟨rest, rfl⟩ := hpre
  obtain ⟨g', gs', h⟩ := exists_sections_append hmark hgs rest
  have h' : groups (pre ++ rest) = gs ++ (g ++ g') :: gs' := h
  rw [h']
  exact ⟨List.prefix_append _ _, g ++ g', by simp, List.prefix_append _ _⟩

theorem head_prefix_marked {pre ls : List Text} (hpre : pre <+: ls)
    (hmark : ∀ l ∈ ls.head?, hasMark l = true) : ∀ l ∈ pre.head?, hasMark l = true := by
  intro l hl
  apply hmark
  obtain ⟨rest, rfl⟩ := hpre
  rw [List.head?_append, Option.mem_def.mp hl]
  rfl

theorem completed_of_isPrefix {pre ls : List Text} (hpre : pre <+: ls)
    (hmark : ∀ l ∈ ls.head?, hasMark l = true) : (groups pre).dropLast <+: groups ls := by
  obtain rfl | hne := eq_or_ne pre []
  · exact List.nil_prefix
  · obtain ⟨gs, g, hg⟩ : ∃ gs g, groups pre = gs ++ [g] := exists_sections_concat hne
    rw [hg, List.dropLast_concat]
    exact (exists_group_of_begun hpre (head_prefix_marked hpre hmark) hg).1

theorem exists_pending {pre : List Text} (hne : pre ≠ [])
    (hmark : ∀ l ∈ pre.head?, hasMark l = true) :
    ∃ gs g, groups pre = gs ++ [g] ∧ g.flatten ≠ [] := by
  obtain ⟨gs, g, hg⟩ : ∃ gs g, groups pre = gs ++ [g] := exists_sections_concat hne
  have hmem : g ∈ groups pre := by simp [hg]
  exact ⟨gs, g, hg, flatten_ne_nil_of_isSection (isSection_of_mem_sections hmark hmem)⟩

/-- The loop invariant of the assembly: while every group fits into the buffer,
what is pending is the last group so far, and the groups before it are enqueued. -/
theorem Assembly.feedAll_groups {pre ls : List Text} (hpre : pre <+: ls)
    (hmark : ∀ l ∈ ls.head?, hasMark l = true)
    (hsize : ∀ g ∈ groups ls, g.flatten.length < bufferSizeBig) :
    Assembly.empty.feedAll pre =
      ⟨((groups pre).getLastD []).flatten,
        (groups pre).dropLast.map fun g => g.flatten.dropLast⟩ := by
  induction pre using List.reverseRecOn with
  | nil => rfl
  | append_singleton pre l ih =>
    have hpre' : pre <+: ls := (List.prefix_append pre [l]).trans hpre
    have hhead := head_prefix_marked hpre' hmark
    have hhead' := head_prefix_marked hpre hmark
    -- Every group that has been begun fits, because the group it becomes does.
    have hfits : ∀ {gs g}, groups (pre ++ [l]) = gs ++ [g] → g.flatten.length < bufferSizeBig := by
      intro gs g hgs
      obtain ⟨-, g', hg', hgg'⟩ := exists_group_of_begun hpre hhead' hgs
      exact hgg'.flatten.length_le.trans_lt (hsize g' hg')
    rw [feedAll_append, ih hpre', feedAll_cons, feedAll_nil]
    cases hm : hasMark l with
    | true =>
      have hgs : groups (pre ++ [l]) = groups pre ++ [[l]] := sections_concat_marked hhead hm
      have hlen : l.length < bufferSizeBig := by simpa using hfits hgs
      rw [hgs, List.dropLast_concat, List.getLastD_concat]
      obtain rfl | hne := eq_or_ne pre []
      · rw [feed_first rfl hlen]
        simp [groups]
      · obtain ⟨gs, g, hg, hgne⟩ := exists_pending hne hhead
        rw [hg, List.dropLast_concat, List.getLastD_concat, feed_marked hgne hm hlen]
        simp
    | false =>
      have hne : pre ≠ [] := by
        rintro rfl
        simp [hm] at hhead'
      obtain ⟨gs, g, hg, hgne⟩ := exists_pending hne hhead
      have hgs : groups (pre ++ [l]) = gs ++ [g ++ [l]] := sections_concat_unmarked hhead hg hm
      have hlen : g.flatten.length + l.length < bufferSizeBig := by simpa using hfits hgs
      rw [hgs, hg, List.dropLast_concat, List.dropLast_concat, List.getLastD_concat,
        List.getLastD_concat, feed_unmarked hgne hm hlen]
      simp

namespace Reader
variable {r : Reader} {e : Attempt}

/-- The line that a round hands to the assembly: what `fgets` took before the end
of the file, once `line_count` has passed the three header lines. -/
def line (r : Reader) (e : Attempt) : List Text :=
  let got := fgets (e.file.drop r.pos) bufferSizeBig
  if r.exit.isSome || decide (e.fgetsErrno ≠ 0) || got.2 then []
  else if (cstr got.1).length = 0 ∨ r.lineCount + 1 ≤ 3 then []
  else [cstr got.1]

/-- The lines read after the header, over the rounds `es`. -/
def linesRead (r : Reader) : List Attempt → List Text
  | [] => []
  | e :: es => r.line e ++ (r.attempt e).linesRead es

theorem linesRead_append (r : Reader) (es fs : List Attempt) :
    r.linesRead (es ++ fs) = r.linesRead es ++ (r.attempts es).linesRead fs := by
  induction es generalizing r with
  | nil => rfl
  | cons e es ih =>
    rw [List.cons_append, linesRead, linesRead, ih, List.append_assoc]
    rfl

theorem accept_assembly (r : Reader) (e : Attempt) (buf : Text) :
    (r.accept e buf).assembly =
      r.assembly.feedAll (if buf.length = 0 ∨ r.lineCount ≤ 3 then [] else [buf]) := by
  unfold accept
  dsimp only
  by_cases hbuf : buf.length = 0
  · rw [if_pos hbuf, if_pos (Or.inl hbuf)]
    exact (reopen_idles _ e).assembly
  · by_cases hcount : r.lineCount ≤ 3
    · rw [if_neg hbuf, if_pos hcount, if_pos (Or.inr hcount)]
      rfl
    · rw [if_neg hbuf, if_neg hcount, if_neg (not_or.mpr ⟨hbuf, hcount⟩)]
      split_ifs <;> rfl

theorem attempt_assembly (r : Reader) (e : Attempt) :
    (r.attempt e).assembly = r.assembly.feedAll (r.line e) := by
  cases hexit : r.exit with
  | some x =>
    have hsome : r.exit.isSome := by simp [hexit]
    rw [attempt_of_exit hsome]
    simp [line, hsome]
  | none =>
    by_cases herr : e.fgetsErrno = 0
    · cases hgot : fgets (e.file.drop r.pos) bufferSizeBig with
      | mk l eof =>
        cases eof with
        | true =>
          have hline : r.line e = [] := by simp [line, hgot]
          rw [attempt_eof hexit herr (by rw [hgot]), hline, Assembly.feedAll_nil]
          dsimp only
          split_ifs
          · rfl
          · rfl
          · exact (reopen_idles _ e).assembly
        | false =>
          have hline : r.line e =
              if (cstr l).length = 0 ∨ r.lineCount + 1 ≤ 3 then [] else [cstr l] := by
            simp [line, hgot, hexit, herr]
          rw [attempt_chunk hexit herr hgot, accept_assembly, hline]
          rfl
    · have hline : r.line e = [] := by simp [line, herr]
      have hattempt : r.attempt e = r.lock.fgetsFailed e := by simp [attempt, hexit, herr]
      rw [hattempt, hline, Assembly.feedAll_nil]
      exact (r.lock.fgetsFailed_idles e).assembly

theorem attempts_assembly (r : Reader) (es : List Attempt) :
    (r.attempts es).assembly = r.assembly.feedAll (r.linesRead es) := by
  induction es generalizing r with
  | nil => rfl
  | cons e es ih =>
    have hstep : (r.attempts (e :: es)).assembly =
        (r.attempt e).assembly.feedAll ((r.attempt e).linesRead es) := ih (r.attempt e)
    rw [hstep, attempt_assembly, linesRead, Assembly.feedAll_append]

/-- Record assembly is the intended grouping, after any rounds `es` of a longer run. -/
theorem assembly_grouped (es fs : List Attempt)
    (hmark : ∀ l ∈ (opened.linesRead (es ++ fs)).head?, hasMark l = true)
    (hsize : ∀ g ∈ groups (opened.linesRead (es ++ fs)), g.flatten.length < bufferSizeBig) :
    Grouped (opened.linesRead (es ++ fs)) (opened.linesRead es) (opened.attempts es).assembly := by
  have hpre : opened.linesRead es <+: opened.linesRead (es ++ fs) := by
    rw [linesRead_append]
    exact List.prefix_append _ _
  have hassembly : (opened.attempts es).assembly = Assembly.empty.feedAll (opened.linesRead es) :=
    attempts_assembly opened es
  rw [hassembly, Assembly.feedAll_groups hpre hmark hsize]
  exact ⟨completed_of_isPrefix hpre hmark, rfl, rfl⟩

/-- Three header lines, a record of two lines, and the first line of the next record. -/
def twoRecords : Text := "h\nh\nh\n/*## a\nb\n/*## c\n".toList

theorem assembly_grouped_twoRecords :
    Grouped ["/*## a\n".toList, "b\n".toList, "/*## c\n".toList]
      ["/*## a\n".toList, "b\n".toList]
      (opened.attempts (List.replicate 5 (.quiet twoRecords))).assembly := by
  have h := assembly_grouped (List.replicate 5 (.quiet twoRecords)) [.quiet twoRecords]
    (by decide +kernel) (by decide +kernel)
  have hread : opened.linesRead (List.replicate 5 (.quiet twoRecords)) =
      ["/*## a\n".toList, "b\n".toList] := by decide +kernel
  have hall : opened.linesRead (List.replicate 5 (.quiet twoRecords) ++ [.quiet twoRecords]) =
      ["/*## a\n".toList, "b\n".toList, "/*## c\n".toList] := by decide +kernel
  rwa [hread, hall] at h

end Reader
end CLib.Server
