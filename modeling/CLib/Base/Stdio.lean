import CLib.Base.Lines

namespace CLib.Base

/-- A `read` by which a stream fills its buffer: the offset at which it finds the open file, and
the most bytes that it returns. Whoever else has the file open may have moved the offset. -/
structure ReadCall where
  start : ℕ
  count : ℕ
  count_pos : 0 < count

def ReadCall.bytes (r : ReadCall) (content : Text) : Text := (content.drop r.start).take r.count

/-- A stream on an open file: the bytes in its buffer that have not been taken, the number of
its reads, and its end-of-file indicator. -/
structure InputStream where
  buffer : Text
  reads : ℕ
  eof : Bool

/-- Where the offset is left by the first `j` reads. -/
def offsetAfter (content : Text) (r : ℕ → ReadCall) : ℕ → ℕ
  | 0 => 0
  | j + 1 => (r j).start + ((r j).bytes content).length

/-- Each read goes on where the one before it ended. -/
def Sequential (content : Text) (r : ℕ → ReadCall) : Prop := ∀ j, (r j).start = offsetAfter content r j

namespace InputStream

def opened : InputStream := ⟨[], 0, false⟩

/-- `getc`. At the end of the file the stream does not read any more. -/
def getc (content : Text) (r : ℕ → ReadCall) (s : InputStream) : Option Char × InputStream :=
  match s.buffer with
  | c :: cs => (some c, { s with buffer := cs })
  | [] =>
    if s.eof then (none, s)
    else match (r s.reads).bytes content with
      | [] => (none, ⟨[], s.reads + 1, true⟩)
      | c :: cs => (some c, ⟨cs, s.reads + 1, false⟩)

/-- `fgets` with room for `n` bytes in front of the NUL. -/
def fgets (content : Text) (r : ℕ → ReadCall) : ℕ → InputStream → Text × InputStream
  | 0, s => ([], s)
  | n + 1, s =>
    match s.getc content r with
    | (none, s) => ([], s)
    | (some c, s) =>
      if c = '\n' then ([c], s)
      else
        let line := fgets content r n s
        (c :: line.1, line.2)

/-- What the stream has still to deliver. -/
structure Delivers (content : Text) (r : ℕ → ReadCall) (s : InputStream) (rest : Text) : Prop where
  bytes : s.buffer ++ content.drop (offsetAfter content r s.reads) = rest
  eof : s.eof = true → rest = []

variable {content rest : Text} {r : ℕ → ReadCall} {s : InputStream} {c : Char} {n : ℕ}

theorem delivers_opened (content : Text) (r : ℕ → ReadCall) : opened.Delivers content r content :=
  ⟨rfl, nofun⟩

theorem bytes_append_drop (h : Sequential content r) (j : ℕ) :
    (r j).bytes content ++ content.drop (offsetAfter content r (j + 1)) = content.drop (offsetAfter content r j) := by
  have hdrop : ∀ l : Text, l.take (r j).count ++ l.drop (l.take (r j).count).length = l := by
    intro l
    rw [List.length_take]
    rcases Nat.le_total (r j).count l.length with hle | hle
    · rw [Nat.min_eq_left hle, List.take_append_drop]
    · rw [Nat.min_eq_right hle, List.take_of_length_le hle, List.drop_length, List.append_nil]
  rw [offsetAfter, ← List.drop_drop, ReadCall.bytes, hdrop, h j]

theorem Delivers.getc_nil (h : s.Delivers content r []) (hr : Sequential content r) :
    ∃ t, s.getc content r = (none, t) ∧ t.Delivers content r [] := by
  obtain ⟨hbuffer, hdrop⟩ := List.append_eq_nil_iff.mp h.bytes
  have hbytes := bytes_append_drop hr s.reads
  rw [hdrop, List.append_eq_nil_iff] at hbytes
  rw [getc, hbuffer]
  dsimp only
  split_ifs with heof
  · exact ⟨s, rfl, h⟩
  · rw [hbytes.1]
    exact ⟨_, rfl, hbytes.2, fun _ => rfl⟩

theorem Delivers.getc_cons (h : s.Delivers content r (c :: rest)) (hr : Sequential content r) :
    ∃ t, s.getc content r = (some c, t) ∧ t.Delivers content r rest := by
  have heof : ¬ s.eof = true := fun heof => List.cons_ne_nil _ _ (h.eof heof)
  have hbuffer := h.bytes
  rw [getc]
  cases hs : s.buffer with
  | cons d ds =>
    rw [hs, List.cons_append, List.cons.injEq] at hbuffer
    obtain ⟨rfl, htail⟩ := hbuffer
    exact ⟨_, rfl, htail, fun h => absurd h heof⟩
  | nil =>
    dsimp only
    rw [hs, List.nil_append] at hbuffer
    have hbytes := bytes_append_drop hr s.reads
    rw [hbuffer] at hbytes
    rw [if_neg heof]
    cases hread : (r s.reads).bytes content with
    | nil =>
      -- A read that is allowed a byte returns one if there is one.
      have hpos := (r s.reads).count_pos
      rw [ReadCall.bytes, hr s.reads, hbuffer, List.take_cons hpos] at hread
      cases hread
    | cons d ds =>
      rw [hread, List.cons_append, List.cons.injEq] at hbytes
      obtain ⟨rfl, htail⟩ := hbytes
      exact ⟨_, rfl, htail, nofun⟩

/-- While the reads go on where they ended, the stream is the text that it has still to deliver. -/
theorem Delivers.fgets (h : s.Delivers content r rest) (hr : Sequential content r) (n : ℕ) :
    ∃ t, s.fgets content r n = ((Base.fgets rest (n + 1)).1, t) ∧
      t.Delivers content r (rest.drop (Base.fgets rest (n + 1)).1.length) := by
  induction n generalizing s rest with
  | zero =>
    have hnil : (Base.fgets rest 1).1 = [] := List.length_eq_zero_iff.mp
      (Nat.le_zero.mp (fgets_length_le rest 1))
    rw [hnil]
    exact ⟨s, rfl, h⟩
  | succ n ih =>
    cases rest with
    | nil =>
      obtain ⟨t, hget, ht⟩ := h.getc_nil hr
      rw [InputStream.fgets, hget]
      exact ⟨t, rfl, ht⟩
    | cons c rest =>
      obtain ⟨t, hget, ht⟩ := h.getc_cons hr
      rw [InputStream.fgets, hget, Base.fgets, if_neg (by omega)]
      dsimp only
      split_ifs with hc
      · exact ⟨t, rfl, ht⟩
      · obtain ⟨u, hfgets, hu⟩ := ih ht
        rw [hfgets]
        exact ⟨u, rfl, hu⟩

end InputStream
end CLib.Base
