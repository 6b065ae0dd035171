import CLib.Base.Lines

namespace CLib.Base

/-- The lines that `getline` takes from a file one after the other, each with its newline
and the last one without, if there is none. -/
def getlines (t : Text) : List Text :=
  (splitLines t).1 ++ if (splitLines t).2 = [] then [] else [(splitLines t).2]

def stripNewline (l : Text) : Text := if l.getLast? = some '\n' then l.dropLast else l

@[simp] theorem stripNewline_concat (w : Text) : stripNewline (w ++ ['\n']) = w := by
  simp [stripNewline]

theorem stripNewline_of_not_mem {l : Text} (h : '\n' ∉ l) : stripNewline l = l :=
  if_neg fun hlast => h (List.mem_of_getLast? hlast)

theorem splitLines_of_not_mem {t : Text} (h : '\n' ∉ t) : splitLines t = ([], t) := by
  induction t with
  | nil => rfl
  | cons c cs ih =>
    obtain ⟨hc, hcs⟩ := not_or.mp (List.mem_cons.not.mp h)
    rw [splitLines, if_neg (Ne.symm hc), ih hcs]

theorem splitLines_line {w : Text} (h : '\n' ∉ w) (t : Text) :
    splitLines (w ++ '\n' :: t) = ((w ++ ['\n']) :: (splitLines t).1, (splitLines t).2) := by
  induction w with
  | nil => rw [List.nil_append, splitLines, if_pos rfl]; rfl
  | cons c cs ih =>
    obtain ⟨hc, hcs⟩ := not_or.mp (List.mem_cons.not.mp h)
    rw [List.cons_append, splitLines, if_neg (Ne.symm hc), ih hcs]
    rfl

@[simp] theorem getlines_nil : getlines [] = [] := rfl

theorem getlines_of_not_mem {t : Text} (h : '\n' ∉ t) (hne : t ≠ []) : getlines t = [t] := by
  rw [getlines, splitLines_of_not_mem h, if_neg hne, List.nil_append]

theorem getlines_line {w : Text} (h : '\n' ∉ w) (t : Text) :
    getlines (w ++ '\n' :: t) = (w ++ ['\n']) :: getlines t := by
  rw [getlines, splitLines_line h, getlines, List.cons_append]

theorem IsLine.getlines {l : Text} (h : IsLine l) : getlines l = [l] := by
  obtain ⟨w, hw, rfl⟩ := h
  rw [getlines_line hw, getlines_nil]

theorem newline_not_mem_stripNewline {t l : Text} (h : l ∈ getlines t) : '\n' ∉ stripNewline l := by
  rcases List.mem_append.mp h with hl | hl
  · obtain ⟨w, hw, rfl⟩ := splitLines_isLine t l hl
    rwa [stripNewline_concat]
  · split_ifs at hl with hrest
    · cases hl
    · rw [List.mem_singleton.mp hl, stripNewline_of_not_mem (splitLines_rest t)]
      exact splitLines_rest t

/-- The text stops at the end of a line, or is empty. -/
def LineEnd (t : Text) : Prop := (splitLines t).2 = []

instance : DecidablePred LineEnd := fun t => inferInstanceAs (Decidable ((splitLines t).2 = []))

theorem lineEnd_line {w : Text} (h : '\n' ∉ w) : LineEnd (w ++ ['\n']) := by
  rw [LineEnd, splitLines_line h]
  rfl

theorem splitLines_append {t : Text} (h : LineEnd t) (r : Text) :
    splitLines (t ++ r) = ((splitLines t).1 ++ (splitLines r).1, (splitLines r).2) := by
  induction t with
  | nil => rfl
  | cons c cs ih =>
    rw [LineEnd, splitLines] at h
    rw [List.cons_append, splitLines, splitLines]
    by_cases hc : c = '\n'
    · rw [if_pos hc] at h
      rw [if_pos hc, if_pos hc, ih h]
      rfl
    · rw [if_neg hc] at h
      rw [if_neg hc, if_neg hc]
      split at h
      · cases h
      · next l ls hls =>
        rw [ih h, hls]
        rfl

theorem getlines_append {t : Text} (h : LineEnd t) (r : Text) :
    getlines (t ++ r) = getlines t ++ getlines r := by
  have hrest : (splitLines t).2 = [] := h
  rw [getlines, splitLines_append h, getlines, getlines, if_pos hrest, List.append_nil,
    List.append_assoc]

theorem LineEnd.append {t r : Text} (ht : LineEnd t) (hr : LineEnd r) : LineEnd (t ++ r) := by
  rw [LineEnd, splitLines_append ht]
  exact hr

end CLib.Base
