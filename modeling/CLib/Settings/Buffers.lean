import CLib.Base.Getline

namespace CLib.Settings
open CLib.Base

/-- The size of the buffers `parameter` and `value`. -/
def parameterSize : ℕ := 256

/-- The bytes that are passed over. -/
def isSkipped (c : Char) : Bool := c = ' ' || c = '\t' || c = '\n'

/-- The memory of `parameter` or `value`. -/
structure Buffer where
  bytes : Text
  length_bytes : bytes.length = parameterSize

namespace Buffer

/-- `= {'\0'}`. -/
def empty : Buffer := ⟨List.replicate parameterSize nul, List.length_replicate⟩

/-- `strlen`, which has no value on a buffer without a NUL. -/
def strlen (b : Buffer) : Option ℕ :=
  if nul ∈ b.bytes then some (cstr b.bytes).length else none

def set (b : Buffer) (i : ℕ) (c : Char) : Buffer :=
  ⟨b.bytes.set i c, by rw [List.length_set, b.length_bytes]⟩

end Buffer

/-- The values that the `unsigned int pos` can take. -/
def posRange : ℕ := 2 ^ 32

/-- The local variables of `load_connect_config` on a line, with the indices at which the
buffers have been written. -/
structure Scan where
  pos : ℕ
  parameterDone : Bool
  parameter : Buffer
  value : Buffer
  running : Bool
  writes : List ℕ

namespace Scan

def start : Scan := ⟨0, false, Buffer.empty, Buffer.empty, true, []⟩

/-- `break`. -/
def stop (s : Scan) : Scan := { s with running := false }

/-- `pos++`. -/
def next (s : Scan) : Scan := { s with pos := (s.pos + 1) % posRange }

/-- `parameter[strlen(parameter)] = line[pos]`, or the same for the value. -/
def put (s : Scan) (c : Char) : Option Scan :=
  if !s.parameterDone then
    s.parameter.strlen.map fun i =>
      { s with parameter := s.parameter.set i c, writes := s.writes ++ [i] }
  else
    s.value.strlen.map fun i => { s with value := s.value.set i c, writes := s.writes ++ [i] }

/-- `strlen(parameter) == 256 || strlen(value) == 256`. -/
def full (s : Scan) : Option Bool :=
  s.parameter.strlen.bind fun n =>
    if n = parameterSize then some true else s.value.strlen.map fun n => n = parameterSize

/-- The body of the loop. -/
def character (s : Scan) (c : Char) : Option Scan :=
  if c = '#' then some s.stop
  else if isSkipped c then some s.next
  else if c = '=' then some { s with parameterDone := true }.next
  else (s.put c).bind fun s => s.full.map fun full => if full then s.stop else s.next

/-- `for (; pos < strlen(line); pos++)`. -/
def iterate (line : Text) (s : Scan) : Option Scan :=
  if s.running then
    match (cstr line)[s.pos]? with
    | none => some s.stop
    | some c => s.character c
  else some s

/-- The loop on a line after `n` rounds; `none` if it has called `strlen` on a buffer that
is not terminated. -/
def after (line : Text) : ℕ → Option Scan
  | 0 => some start
  | n + 1 => (after line n).bind (iterate line)

/-- `if (!strlen(parameter) || !strlen(value)) continue; set_parameter(parameter, value);`
the calls of `set_parameter`. -/
def calls (s : Scan) : Option (List (Text × Text)) :=
  s.parameter.strlen.bind fun n =>
    if n = 0 then some []
    else s.value.strlen.map fun m =>
      if m = 0 then [] else [(cstr s.parameter.bytes, cstr s.value.bytes)]

/-- Both buffers are terminated, the length test and the arguments of `set_parameter` have
their values, and all writes stay in front of the last byte. -/
structure Terminated (s : Scan) : Prop where
  parameter : nul ∈ s.parameter.bytes
  value : nul ∈ s.value.bytes
  writes : ∀ i ∈ s.writes, i ≤ parameterSize - 2
  full : s.full.isSome
  calls : s.calls.isSome

end Scan

/-- The calls of `set_parameter` for a line. A loop that ends has at most one round more than
there are bytes: `none` is one that has no end, or a buffer that has lost its last NUL. -/
def lineCalls (line : Text) : Option (List (Text × Text)) :=
  (Scan.after line (line.length + 1)).bind fun s => if s.running then none else s.calls

/-- A byte that is put into one of the buffers. -/
def isOrdinary (c : Char) : Bool := !isSkipped c && c != '#' && c != '='

/-- What goes into the parameter: the ordinary bytes in front of the first sign. -/
def parameterBytes (t : Text) : Text := (t.takeWhile (· != '=')).filter isOrdinary

def valueBytes (t : Text) : Text := (t.dropWhile (· != '=')).filter isOrdinary

/-- The bytes in front of the comment, as far as `pos` gets. -/
def body (line : Text) : Text := ((cstr line).take posRange).takeWhile (· != '#')

/-- There is room for what the text puts into the buffers, and for a NUL in each. -/
def HasRoom (t : Text) : Prop :=
  (parameterBytes t).length < parameterSize ∧ (valueBytes t).length < parameterSize

/-- There is room for the body of the line. A line that `pos` does not get through is
read again and again, so that it must not put anything. -/
def Fits (line : Text) : Prop :=
  if (body line).length < posRange then HasRoom (body line)
  else (body line).filter isOrdinary = []

instance (t : Text) : Decidable (HasRoom t) := inferInstanceAs (Decidable (_ ∧ _))

instance (line : Text) : Decidable (Fits line) :=
  inferInstanceAs (Decidable (if (body line).length < posRange then _ else _))

/-- The buffers stay terminated on the line. -/
def Safe (line : Text) : Prop := ∀ n, ∃ s, Scan.after line n = some s ∧ s.Terminated

namespace Buffer
variable {b : Buffer} {w : Text} {c : Char}

/-- The buffer holds the string, and behind it only NULs. -/
structure Fills (b : Buffer) (w : Text) : Prop where
  bytes : b.bytes = w ++ List.replicate (parameterSize - w.length) nul
  free : nul ∉ w
  length_lt : w.length < parameterSize

theorem fills_empty : empty.Fills [] := ⟨rfl, List.not_mem_nil, by decide⟩

theorem Fills.eq_append (h : b.Fills w) :
    b.bytes = w ++ nul :: List.replicate (parameterSize - w.length - 1) nul := by
  have hlt := h.length_lt
  have hk : parameterSize - w.length = parameterSize - w.length - 1 + 1 := by omega
  rw [h.bytes, hk, List.replicate_succ, Nat.add_sub_cancel]

theorem Fills.cstr_eq (h : b.Fills w) : cstr b.bytes = w := by
  rw [h.eq_append, cstr_append_nul, cstr_of_not_mem h.free]

theorem Fills.nul_mem (h : b.Fills w) : nul ∈ b.bytes := by
  rw [h.eq_append]
  simp

theorem Fills.strlen_eq (h : b.Fills w) : b.strlen = some w.length := by
  rw [strlen, if_pos h.nul_mem, h.cstr_eq]

theorem Fills.set_eq (h : b.Fills w) (c : Char) :
    (b.set w.length c).bytes = w ++ c :: List.replicate (parameterSize - w.length - 1) nul := by
  show b.bytes.set w.length c = _
  rw [h.eq_append, List.set_append_right _ _ (Nat.le_refl _), Nat.sub_self, List.set_cons_zero]

theorem Fills.set (h : b.Fills w) (hc : c ≠ nul) (hroom : w.length + 1 < parameterSize) :
    (b.set w.length c).Fills (w ++ [c]) where
  bytes := by
    rw [h.set_eq, List.length_append, List.length_singleton, List.append_assoc, Nat.sub_sub]
    rfl
  free := by simpa [h.free] using hc.symm
  length_lt := by simpa using hroom

theorem Fills.strlen_set (h : b.Fills w) (hc : c ≠ nul) (hfull : w.length + 1 = parameterSize) :
    (b.set w.length c).strlen = none := by
  have hbytes : (b.set w.length c).bytes = w ++ [c] := by
    rw [h.set_eq, ← hfull, Nat.sub_sub, Nat.sub_self, List.replicate_zero]
  have hmem : nul ∉ (b.set w.length c).bytes := by
    rw [hbytes]
    simpa [h.free] using hc.symm
  rw [strlen, if_neg hmem]

end Buffer

section Bytes
variable {t : Text} {c : Char}

theorem byte_cases (c : Char) :
    c = '#' ∨ isSkipped c = true ∨ c = '=' ∨ (isSkipped c = false ∧ c ≠ '#' ∧ c ≠ '=') := by
  by_cases hcomment : c = '#'
  · exact .inl hcomment
  · by_cases hequals : c = '='
    · exact .inr (.inr (.inl hequals))
    · cases hskip : isSkipped c with
      | true => exact .inr (.inl rfl)
      | false => exact .inr (.inr (.inr ⟨rfl, hcomment, hequals⟩))

theorem parameterBytes_cons (c : Char) (t : Text) :
    parameterBytes (c :: t) =
      if c = '=' then [] else [c].filter isOrdinary ++ parameterBytes t := by
  unfold parameterBytes
  split_ifs with h
  · rw [h]
    rfl
  · rw [List.takeWhile_cons_of_pos (by simpa using h), ← List.singleton_append, List.filter_append]

theorem valueBytes_cons (c : Char) (t : Text) :
    valueBytes (c :: t) = if c = '=' then t.filter isOrdinary else valueBytes t := by
  unfold valueBytes
  split_ifs with h
  · rw [h]
    rfl
  · rw [List.dropWhile_cons_of_pos (by simpa using h)]

theorem parameterBytes_concat (t : Text) (c : Char) :
    parameterBytes (t ++ [c]) =
      if '=' ∈ t then parameterBytes t else parameterBytes t ++ [c].filter isOrdinary := by
  induction t with
  | nil =>
    rw [List.nil_append, parameterBytes_cons]
    by_cases hc : c = '='
    · rw [hc]
      rfl
    · rw [if_neg hc]
      exact List.append_nil _
  | cons d t ih =>
    rw [List.cons_append, parameterBytes_cons, parameterBytes_cons, ih]
    by_cases hd : d = '='
    · simp [hd]
    · have hmem : '=' ∈ d :: t ↔ '=' ∈ t := by simp [Ne.symm hd]
      simp only [hmem, if_neg hd]
      split_ifs
      · rfl
      · rw [List.append_assoc]

theorem valueBytes_concat (t : Text) (c : Char) :
    valueBytes (t ++ [c]) =
      if '=' ∈ t then valueBytes t ++ [c].filter isOrdinary else valueBytes t := by
  induction t with
  | nil =>
    rw [List.nil_append, valueBytes_cons, if_neg List.not_mem_nil]
    split_ifs <;> rfl
  | cons d t ih =>
    rw [List.cons_append, valueBytes_cons, valueBytes_cons, ih]
    by_cases hd : d = '='
    · simp [hd]
    · have hmem : '=' ∈ d :: t ↔ '=' ∈ t := by simp [Ne.symm hd]
      simp only [hmem, if_neg hd]

theorem length_filter_isOrdinary (t : Text) :
    (t.filter isOrdinary).length = (parameterBytes t).length + (valueBytes t).length := by
  rw [parameterBytes, valueBytes, ← List.length_append, ← List.filter_append,
    List.takeWhile_append_dropWhile]

theorem length_parameterBytes_le_concat (t : Text) (c : Char) :
    (parameterBytes t).length ≤ (parameterBytes (t ++ [c])).length := by
  rw [parameterBytes_concat]
  split_ifs <;> simp

theorem length_valueBytes_le_concat (t : Text) (c : Char) :
    (valueBytes t).length ≤ (valueBytes (t ++ [c])).length := by
  rw [valueBytes_concat]
  split_ifs <;> simp

theorem not_isOrdinary_of_isSkipped (h : isSkipped c = true) : isOrdinary c = false := by
  simp [isOrdinary, h]

end Bytes

theorem HasRoom.of_concat {t : Text} {c : Char} (h : HasRoom (t ++ [c])) : HasRoom t :=
  ⟨(length_parameterBytes_le_concat t c).trans_lt h.1, (length_valueBytes_le_concat t c).trans_lt h.2⟩

namespace Scan
variable {s : Scan} {t : Text} {c : Char}

/-- The loop has gone through the bytes of the text. -/
structure Describes (s : Scan) (t : Text) : Prop where
  done : s.parameterDone = true ↔ '=' ∈ t
  parameter : s.parameter.Fills (parameterBytes t)
  value : s.value.Fills (valueBytes t)
  writes : ∀ i ∈ s.writes, i ≤ parameterSize - 2

theorem describes_start : start.Describes [] where
  done := by simp [start]
  parameter := Buffer.fills_empty
  value := Buffer.fills_empty
  writes := by simp [start]

theorem full_of_fills {p v : Text} (hp : s.parameter.Fills p) (hv : s.value.Fills v) :
    s.full = some false := by
  rw [full, hp.strlen_eq, Option.bind_some, if_neg (Nat.ne_of_lt hp.length_lt), hv.strlen_eq]
  simpa using Nat.ne_of_lt hv.length_lt

theorem Describes.terminated (h : s.Describes t) : s.Terminated where
  parameter := h.parameter.nul_mem
  value := h.value.nul_mem
  writes := h.writes
  full := by rw [full_of_fills h.parameter h.value]; rfl
  calls := by
    rw [calls, h.parameter.strlen_eq, Option.bind_some, h.value.strlen_eq]
    split_ifs <;> rfl

theorem Describes.put (h : s.Describes t) (hc : isOrdinary c = true) (hnul : c ≠ nul)
    (hroom : HasRoom (t ++ [c])) :
    ∃ s', s.put c = some s' ∧ s'.Describes (t ++ [c]) ∧ s'.pos = s.pos ∧ s'.running = s.running := by
  have hfilter : [c].filter isOrdinary = [c] := by simp [hc]
  have hne : c ≠ '=' := by
    rintro rfl
    cases hc
  obtain ⟨hp, hv⟩ := hroom
  have hpbytes := parameterBytes_concat t c
  have hvbytes := valueBytes_concat t c
  rw [hfilter] at hpbytes hvbytes
  by_cases hmem : '=' ∈ t
  · have hdone : s.parameterDone = true := h.done.mpr hmem
    rw [if_pos hmem] at hpbytes hvbytes
    rw [hvbytes, List.length_append, List.length_singleton] at hv
    refine ⟨{ s with
      value := s.value.set (valueBytes t).length c
      writes := s.writes ++ [(valueBytes t).length] }, ?_, ?_, rfl, rfl⟩
    · rw [Scan.put, hdone, if_neg (by decide), h.value.strlen_eq]
      rfl
    · refine ⟨by simp [hdone, hmem], hpbytes ▸ h.parameter, hvbytes ▸ h.value.set hnul hv, ?_⟩
      simpa [or_imp, forall_and] using ⟨h.writes, by omega⟩
  · have hdone : s.parameterDone = false := by simpa [hmem] using h.done
    rw [if_neg hmem] at hpbytes hvbytes
    rw [hpbytes, List.length_append, List.length_singleton] at hp
    refine ⟨{ s with
      parameter := s.parameter.set (parameterBytes t).length c
      writes := s.writes ++ [(parameterBytes t).length] }, ?_, ?_, rfl, rfl⟩
    · rw [Scan.put, hdone, if_pos (by decide), h.parameter.strlen_eq]
      rfl
    · refine ⟨by simp [hdone, hmem, hne.symm], hpbytes ▸ h.parameter.set hnul hp, hvbytes ▸ h.value, ?_⟩
      simpa [or_imp, forall_and] using ⟨h.writes, by omega⟩

/-- Where there is no room the byte takes the place of the last NUL, and the length test
has no length. -/
theorem Describes.put_full (h : s.Describes t) (hc : isOrdinary c = true) (hnul : c ≠ nul)
    (hroom : ¬ HasRoom (t ++ [c])) : (s.put c).bind Scan.full = none := by
  have hfilter : [c].filter isOrdinary = [c] := by simp [hc]
  have hplt := h.parameter.length_lt
  have hvlt := h.value.length_lt
  rw [HasRoom, parameterBytes_concat, valueBytes_concat, hfilter] at hroom
  by_cases hmem : '=' ∈ t
  · have hdone : s.parameterDone = true := h.done.mpr hmem
    rw [if_pos hmem, if_pos hmem, List.length_append, List.length_singleton] at hroom
    have hlast : (valueBytes t).length + 1 = parameterSize := by omega
    rw [Scan.put, hdone, if_neg (by decide), h.value.strlen_eq, Option.map_some, Option.bind_some,
      Scan.full, h.parameter.strlen_eq, Option.bind_some, if_neg (Nat.ne_of_lt hplt),
      h.value.strlen_set hnul hlast]
    rfl
  · have hdone : s.parameterDone = false := by simpa [hmem] using h.done
    rw [if_neg hmem, if_neg hmem, List.length_append, List.length_singleton] at hroom
    have hlast : (parameterBytes t).length + 1 = parameterSize := by omega
    rw [Scan.put, hdone, if_pos (by decide), h.parameter.strlen_eq, Option.map_some,
      Option.bind_some, Scan.full, h.parameter.strlen_set hnul hlast]
    rfl

theorem Describes.concat (h : s.Describes t) (hc : isOrdinary c = false) {done : Bool}
    (hdone : done = (s.parameterDone || c = '=')) (pos : ℕ) :
    Describes { s with pos := pos, parameterDone := done } (t ++ [c]) := by
  have hfilter : [c].filter isOrdinary = [] := by simp [hc]
  have hpbytes := parameterBytes_concat t c
  have hvbytes := valueBytes_concat t c
  rw [hfilter, List.append_nil, ite_self] at hpbytes hvbytes
  refine ⟨?_, hpbytes ▸ h.parameter, hvbytes ▸ h.value, h.writes⟩
  rw [List.mem_append, List.mem_singleton, hdone, Bool.or_eq_true, h.done, decide_eq_true_iff,
    eq_comm (a := c)]

theorem Describes.character (h : s.Describes t) (hcomment : c ≠ '#') (hnul : c ≠ nul)
    (hroom : HasRoom (t ++ [c])) :
    ∃ s', s.character c = some s' ∧ s'.Describes (t ++ [c]) ∧ s'.pos = (s.pos + 1) % posRange ∧
      s'.running = s.running := by
  rw [Scan.character, if_neg hcomment]
  rcases byte_cases c with rfl | hskip | rfl | ⟨hskip, -, hequals⟩
  · exact absurd rfl hcomment
  · have hne : c ≠ '=' := by
      rintro rfl
      cases hskip
    rw [if_pos hskip]
    exact ⟨_, rfl, h.concat (not_isOrdinary_of_isSkipped hskip) (by simp [hne]) _, rfl, rfl⟩
  · rw [if_neg (by decide), if_pos rfl]
    exact ⟨_, rfl, h.concat (by decide) (by simp) _, rfl, rfl⟩
  · obtain ⟨s', hput, h', hpos, hrun⟩ := h.put (by simp [isOrdinary, hskip, hcomment, hequals]) hnul hroom
    rw [if_neg (by simp [hskip]), if_neg hequals, hput, Option.bind_some,
      full_of_fills h'.parameter h'.value]
    exact ⟨s'.next, rfl, ⟨h'.done, h'.parameter, h'.value, h'.writes⟩, by rw [next, hpos], hrun⟩

theorem Describes.character_eq_none (h : s.Describes t) (hcomment : c ≠ '#') (hnul : c ≠ nul)
    (hroom : ¬ HasRoom (t ++ [c])) : s.character c = none := by
  have hc : isOrdinary c = true := by
    by_contra hc
    have hfilter : [c].filter isOrdinary = [] := by simp [hc]
    apply hroom
    rw [HasRoom, parameterBytes_concat, valueBytes_concat, hfilter, List.append_nil,
      List.append_nil, ite_self, ite_self]
    exact ⟨h.parameter.length_lt, h.value.length_lt⟩
  have hnone := h.put_full hc hnul hroom
  simp only [isOrdinary, Bool.and_eq_true, Bool.not_eq_true', bne_iff_ne, ne_eq] at hc
  rw [Scan.character, if_neg hcomment, if_neg (by simp [hc.1.1]), if_neg hc.2]
  cases hput : s.put c with
  | none => rfl
  | some s' =>
    rw [hput, Option.bind_some] at hnone
    rw [Option.bind_some, hnone]
    rfl

end Scan

/-- The bytes that the loop goes through in its first `n` rounds. -/
def passed (line : Text) (n : ℕ) : Text :=
  (List.range n).map fun i => (cstr line).getD (i % posRange) nul

theorem passed_succ (line : Text) (n : ℕ) :
    passed line (n + 1) = passed line n ++ [(cstr line).getD (n % posRange) nul] := by
  rw [passed, List.range_succ, List.map_append]
  rfl

/-- The first `n` rounds all find a byte in front of a comment. -/
def GoesOn (line : Text) (n : ℕ) : Prop :=
  ∀ i < n, ∃ c, (cstr line)[i % posRange]? = some c ∧ c ≠ '#'

namespace Scan
variable {line : Text} {n : ℕ}

/-- The loop after `n` rounds is described by the bytes it has gone through, if they have
room. -/
theorem after_describes (hgo : GoesOn line n) (hroom : HasRoom (passed line n)) :
    ∃ s, after line n = some s ∧ s.Describes (passed line n) ∧ s.pos = n % posRange ∧
      s.running = true := by
  induction n with
  | zero => exact ⟨start, rfl, describes_start, rfl, rfl⟩
  | succ n ih =>
    obtain ⟨c, hc, hcomment⟩ := hgo n (Nat.lt_succ_self n)
    have hget : (cstr line).getD (n % posRange) nul = c := by simp [List.getD, hc]
    rw [passed_succ, hget] at hroom ⊢
    obtain ⟨s, hs, h, hpos, hrun⟩ := ih (fun i hi => hgo i (Nat.lt_succ_of_lt hi)) hroom.of_concat
    have hnul : c ≠ nul := fun he => nul_not_mem_cstr line (he ▸ List.mem_of_getElem? hc)
    obtain ⟨s', hs', h', hpos', hrun'⟩ := h.character hcomment hnul hroom
    refine ⟨s', ?_, h', ?_, hrun'.trans hrun⟩
    · rw [after, hs, Option.bind_some, iterate, if_pos hrun, hpos, hc]
      exact hs'
    · rw [hpos', hpos, Nat.mod_add_mod]

theorem after_eq_none (hgo : GoesOn line n) (hroom : ¬ HasRoom (passed line n)) :
    after line n = none := by
  induction n with
  | zero =>
    have hnil : HasRoom [] := ⟨by decide, by decide⟩
    exact absurd hnil hroom
  | succ n ih =>
    have hgo' : GoesOn line n := fun i hi => hgo i (Nat.lt_succ_of_lt hi)
    by_cases hbefore : HasRoom (passed line n)
    · obtain ⟨c, hc, hcomment⟩ := hgo n (Nat.lt_succ_self n)
      have hget : (cstr line).getD (n % posRange) nul = c := by simp [List.getD, hc]
      rw [passed_succ, hget] at hroom
      obtain ⟨s, hs, h, hpos, hrun⟩ := after_describes hgo' hbefore
      have hnul : c ≠ nul := fun he => nul_not_mem_cstr line (he ▸ List.mem_of_getElem? hc)
      rw [after, hs, Option.bind_some, iterate, if_pos hrun, hpos, hc]
      exact h.character_eq_none hcomment hnul hroom
    · rw [after, ih hgo' hbefore]
      rfl

theorem after_of_stopped {s : Scan} (hs : after line n = some s) (hstop : s.running = false) (k : ℕ) :
    after line (n + k) = some s := by
  induction k with
  | zero => exact hs
  | succ k ih =>
    rw [← Nat.add_assoc, after, ih, Option.bind_some, iterate, if_neg (by simp [hstop])]

end Scan

section Body
variable {line : Text} {n : ℕ}

theorem body_isPrefix (line : Text) : body line <+: cstr line :=
  (List.takeWhile_prefix _).trans (List.take_prefix _ _)

theorem length_body_le (line : Text) : (body line).length ≤ posRange :=
  ((List.takeWhile_prefix _).length_le).trans (List.length_take_le _ _)

theorem getElem?_body {i : ℕ} (hi : i < (body line).length) :
    (cstr line)[i]? = some (body line)[i] ∧ (body line)[i] ≠ '#' := by
  have hne : ((body line)[i] != '#') = true :=
    List.mem_takeWhile_imp (p := (· != '#')) (List.getElem_mem hi)
  rw [(body_isPrefix line).getElem hi]
  exact ⟨List.getElem?_eq_getElem _, by simpa [(body_isPrefix line).getElem hi] using hne⟩

theorem goesOn_of_le (hn : n ≤ (body line).length) : GoesOn line n := by
  intro i hi
  have hlt : i < (body line).length := Nat.lt_of_lt_of_le hi hn
  rw [Nat.mod_eq_of_lt (Nat.lt_of_lt_of_le hlt (length_body_le line))]
  exact ⟨_, getElem?_body hlt⟩

theorem passed_of_le (hn : n ≤ (body line).length) : passed line n = (body line).take n := by
  induction n with
  | zero => rfl
  | succ n ih =>
    have hlt : n < (body line).length := hn
    have hget : (cstr line).getD (n % posRange) nul = (body line)[n] := by
      rw [Nat.mod_eq_of_lt (Nat.lt_of_lt_of_le hlt (length_body_le line)), List.getD,
        (getElem?_body hlt).1]
      rfl
    rw [passed_succ, hget, ih (Nat.le_of_lt hlt), List.take_succ_eq_append_getElem hlt]

theorem getElem?_length_body (h : (body line).length < posRange) :
    (cstr line)[(body line).length]? = none ∨ (cstr line)[(body line).length]? = some '#' := by
  have hsplit : body line ++ ((cstr line).take posRange).dropWhile (· != '#') =
      (cstr line).take posRange := List.takeWhile_append_dropWhile
  have htake : (cstr line)[(body line).length]? =
      ((cstr line).take posRange)[(body line).length]? := (List.getElem?_take_of_lt h).symm
  rw [htake, ← hsplit, List.getElem?_append_right (Nat.le_refl _), Nat.sub_self,
    ← List.head?_eq_getElem?]
  have hnot := List.head?_dropWhile_not (· != '#') ((cstr line).take posRange)
  cases hhead : (((cstr line).take posRange).dropWhile (· != '#')).head? with
  | none => exact .inl rfl
  | some d =>
    rw [hhead] at hnot
    exact .inr (by simpa using hnot)

theorem mod_posRange_lt (h : (body line).length = posRange) (i : ℕ) :
    i % posRange < (body line).length := by
  rw [h]
  exact Nat.mod_lt i (by decide)

theorem goesOn_of_length_eq (h : (body line).length = posRange) (n : ℕ) : GoesOn line n := by
  intro i _
  exact ⟨_, getElem?_body (mod_posRange_lt h i)⟩

theorem passed_mul (h : (body line).length = posRange) (k : ℕ) :
    passed line (k * posRange) = (List.replicate k (body line)).flatten := by
  induction k with
  | zero =>
    rw [Nat.zero_mul]
    rfl
  | succ k ih =>
    have hround : passed line posRange = body line := by
      rw [passed_of_le (Nat.le_of_eq h.symm), ← h, List.take_length]
    have hmod : (fun i => (cstr line).getD ((k * posRange + i) % posRange) nul) =
        fun i => (cstr line).getD (i % posRange) nul := by
      funext i
      rw [Nat.mul_comm, Nat.mul_add_mod]
    rw [Nat.succ_mul, passed, List.range_add, List.map_append, List.map_map, List.replicate_succ',
      List.flatten_append, ← ih]
    refine congrArg (passed line (k * posRange) ++ ·) ?_
    rw [List.flatten_singleton, ← hround]
    exact congrArg (List.map · (List.range posRange)) hmod

theorem mem_body_of_mem_passed (h : (body line).length = posRange) {c : Char}
    (hc : c ∈ passed line n) : c ∈ body line := by
  obtain ⟨i, -, rfl⟩ := List.mem_map.mp hc
  rw [List.getD, (getElem?_body (mod_posRange_lt h i)).1]
  exact List.getElem_mem _

end Body

section Safe
variable {line : Text}

theorem HasRoom.of_append {t u : Text} (h : HasRoom (t ++ u)) : HasRoom t := by
  induction u using List.reverseRecOn with
  | nil => rwa [List.append_nil] at h
  | append_singleton u c ih =>
    rw [← List.append_assoc] at h
    exact ih h.of_concat

theorem hasRoom_of_filter_eq_nil {t : Text} (h : t.filter isOrdinary = []) : HasRoom t := by
  have hlen := length_filter_isOrdinary t
  rw [h, List.length_nil] at hlen
  constructor <;> unfold parameterSize <;> omega

theorem after_of_le {n : ℕ} (hroom : HasRoom (body line)) (hn : n ≤ (body line).length) :
    ∃ s, Scan.after line n = some s ∧ s.Describes ((body line).take n) ∧ s.pos = n % posRange ∧
      s.running = true := by
  have htake : HasRoom ((body line).take n) :=
    HasRoom.of_append (u := (body line).drop n) (by rwa [List.take_append_drop])
  rw [← passed_of_le hn] at htake ⊢
  exact Scan.after_describes (goesOn_of_le hn) htake

theorem after_length_body (hroom : HasRoom (body line)) (hlt : (body line).length < posRange) :
    ∃ s, Scan.after line ((body line).length + 1) = some s ∧ s.Describes (body line) ∧
      s.running = false := by
  obtain ⟨s, hs, h, hpos, hrun⟩ := after_of_le hroom (Nat.le_refl _)
  rw [List.take_length] at h
  refine ⟨s.stop, ?_, ⟨h.done, h.parameter, h.value, h.writes⟩, rfl⟩
  rw [Scan.after, hs, Option.bind_some, Scan.iterate, if_pos hrun, hpos, Nat.mod_eq_of_lt hlt]
  rcases getElem?_length_body hlt with hnone | hcomment
  · rw [hnone]
  · rw [hcomment]
    exact if_pos rfl

theorem safe_of_fits (h : Fits line) : Safe line := by
  intro n
  unfold Fits at h
  split_ifs at h with hlt
  · by_cases hn : n ≤ (body line).length
    · obtain ⟨s, hs, h, -⟩ := after_of_le h hn
      exact ⟨s, hs, h.terminated⟩
    · obtain ⟨s, hs, h, hstop⟩ := after_length_body h hlt
      obtain ⟨k, rfl⟩ := Nat.exists_eq_add_of_lt (Nat.not_le.mp hn)
      rw [Nat.add_right_comm]
      exact ⟨s, Scan.after_of_stopped hs hstop k, h.terminated⟩
  · have hlen : (body line).length = posRange := Nat.le_antisymm (length_body_le line) (Nat.not_lt.mp hlt)
    have hnil : (passed line n).filter isOrdinary = [] := by
      rw [List.filter_eq_nil_iff] at h ⊢
      exact fun c hc => h c (mem_body_of_mem_passed hlen hc)
    obtain ⟨s, hs, h, -⟩ :=
      Scan.after_describes (goesOn_of_length_eq hlen n) (hasRoom_of_filter_eq_nil hnil)
    exact ⟨s, hs, h.terminated⟩

theorem hasRoom_of_safe {n : ℕ} (h : Safe line) (hgo : GoesOn line n) : HasRoom (passed line n) := by
  by_contra hroom
  obtain ⟨s, hs, -⟩ := h n
  rw [Scan.after_eq_none hgo hroom] at hs
  cases hs

theorem fits_of_safe (h : Safe line) : Fits line := by
  unfold Fits
  split_ifs with hlt
  · have hroom := hasRoom_of_safe h (goesOn_of_le (Nat.le_refl _))
    rwa [passed_of_le (Nat.le_refl _), List.take_length] at hroom
  · have hlen : (body line).length = posRange := Nat.le_antisymm (length_body_le line) (Nat.not_lt.mp hlt)
    by_contra hne
    -- Each time the loop goes through the line it puts the byte again.
    obtain ⟨hp, hv⟩ := hasRoom_of_safe h (goesOn_of_length_eq hlen (2 * parameterSize * posRange))
    have hsum := length_filter_isOrdinary (passed line (2 * parameterSize * posRange))
    have hpos : 0 < ((body line).filter isOrdinary).length := List.length_pos_iff.mpr hne
    have hcount : ((passed line (2 * parameterSize * posRange)).filter isOrdinary).length =
        2 * parameterSize * ((body line).filter isOrdinary).length := by
      rw [passed_mul hlen, List.filter_flatten, List.map_replicate, List.length_flatten,
        List.map_replicate, List.sum_replicate_nat]
    have hle := Nat.mul_le_mul_left (2 * parameterSize) hpos
    omega

/-- Exactly the lines with at most 255 ordinary bytes for each of the buffers keep them
terminated. -/
theorem safe_iff_fits (line : Text) : Safe line ↔ Fits line := ⟨fits_of_safe, safe_of_fits⟩

theorem parameterSize_lt_posRange : parameterSize < posRange := by
  unfold parameterSize posRange
  omega

/-- A line that is one long name. -/
theorem not_safe_replicate {n : ℕ} (hn : parameterSize ≤ n) (hlt : n < posRange) :
    ¬ Safe (List.replicate n 'a') := by
  intro h
  have hbody : body (List.replicate n 'a') = List.replicate n 'a' := by
    have hnul : nul ∉ List.replicate n 'a' := by
      simp [List.mem_replicate, show nul ≠ 'a' by decide]
    have hlen : (List.replicate n 'a').length ≤ posRange := by
      rw [List.length_replicate]
      exact Nat.le_of_lt hlt
    rw [body, cstr_of_not_mem hnul, List.take_of_length_le hlen, List.takeWhile_replicate,
      if_pos (by decide)]
  have hbytes : parameterBytes (List.replicate n 'a') = List.replicate n 'a' := by
    rw [parameterBytes, List.takeWhile_replicate, if_pos (by decide),
      List.filter_replicate_of_pos (by decide)]
  have hfits := fits_of_safe h
  rw [Fits, hbody, List.length_replicate, if_pos hlt, HasRoom, hbytes, List.length_replicate] at hfits
  exact Nat.not_lt.mpr hn hfits.1

/-- The 256th byte of the parameter takes the place of its last NUL. -/
theorem not_safe_full : ¬ Safe (List.replicate parameterSize 'a') :=
  not_safe_replicate (Nat.le_refl _) parameterSize_lt_posRange

end Safe

section Calls
variable {line : Text} {n : ℕ} {s : Scan} {calls : List (Text × Text)}

theorem Scan.after_of_eq_none (h : Scan.after line n = none) (k : ℕ) : Scan.after line (n + k) = none := by
  induction k with
  | zero => exact h
  | succ k ih => rw [← Nat.add_assoc, Scan.after, ih, Option.bind_none]

theorem Scan.running_of_goesOn (hgo : GoesOn line n) (hs : Scan.after line n = some s) :
    s.running = true := by
  by_cases hroom : HasRoom (passed line n)
  · obtain ⟨s', hs', -, -, hrun⟩ := Scan.after_describes hgo hroom
    rw [hs] at hs'
    rwa [Option.some.inj hs']
  · rw [Scan.after_eq_none hgo hroom] at hs
    cases hs

theorem lineCalls_eq (hlt : (body line).length < posRange) (hroom : HasRoom (body line)) :
    lineCalls line =
      some (if parameterBytes (body line) = [] ∨ valueBytes (body line) = [] then []
        else [(parameterBytes (body line), valueBytes (body line))]) := by
  obtain ⟨s, hs, h, hstop⟩ := after_length_body hroom hlt
  have hle := ((body_isPrefix line).trans (cstr_isPrefix line)).length_le
  have hrounds : line.length + 1 = (body line).length + 1 + (line.length - (body line).length) := by
    omega
  rw [lineCalls, hrounds, Scan.after_of_stopped hs hstop, Option.bind_some, if_neg (by simp [hstop]),
    Scan.calls, h.parameter.strlen_eq, h.value.strlen_eq, h.parameter.cstr_eq, h.value.cstr_eq]
  by_cases hp : parameterBytes (body line) = []
  · simp [hp]
  · by_cases hv : valueBytes (body line) = [] <;> simp [hp, hv]

theorem after_eq_none_of_not_hasRoom (hroom : ¬ HasRoom (body line)) (hn : (body line).length ≤ n) :
    Scan.after line n = none := by
  obtain ⟨k, rfl⟩ := Nat.exists_eq_add_of_le hn
  apply Scan.after_of_eq_none
  apply Scan.after_eq_none (goesOn_of_le (Nat.le_refl _))
  rwa [passed_of_le (Nat.le_refl _), List.take_length]

/-- The loop ends on the lines that `pos` gets through and that have room, and on no others. -/
theorem exists_stopped_iff :
    (∃ n s, Scan.after line n = some s ∧ s.running = false) ↔
      (body line).length < posRange ∧ HasRoom (body line) := by
  constructor
  · rintro ⟨n, s, hs, hstop⟩
    have hnot : ¬ GoesOn line n := fun hgo => by
      rw [Scan.running_of_goesOn hgo hs] at hstop
      cases hstop
    have hlt : (body line).length < posRange :=
      Nat.lt_of_le_of_ne (length_body_le line) fun hlen => hnot (goesOn_of_length_eq hlen n)
    have hn : (body line).length ≤ n := Nat.le_of_lt (Nat.lt_of_not_le fun hle => hnot (goesOn_of_le hle))
    refine ⟨hlt, by_contra fun hroom => ?_⟩
    rw [after_eq_none_of_not_hasRoom hroom hn] at hs
    cases hs
  · rintro ⟨hlt, hroom⟩
    obtain ⟨s, hs, -, hstop⟩ := after_length_body hroom hlt
    exact ⟨_, s, hs, hstop⟩

theorem eq_of_stopped {m : ℕ} {s' : Scan} (hs : Scan.after line n = some s) (hstop : s.running = false)
    (hs' : Scan.after line m = some s') (hstop' : s'.running = false) : s = s' := by
  have h := Scan.after_of_stopped hs hstop m
  rw [Nat.add_comm, Scan.after_of_stopped hs' hstop'] at h
  exact (Option.some.inj h).symm

theorem lineCalls_eq_some_iff :
    lineCalls line = some calls ↔
      ∃ n s, Scan.after line n = some s ∧ s.running = false ∧ s.calls = some calls := by
  constructor
  · intro h
    obtain ⟨s, hs, h⟩ := Option.bind_eq_some_iff.mp h
    split_ifs at h with hrun
    exact ⟨_, s, hs, by simpa using hrun, h⟩
  · rintro ⟨n, s, hs, hstop, hcalls⟩
    obtain ⟨hlt, hroom⟩ := exists_stopped_iff.mp ⟨n, s, hs, hstop⟩
    obtain ⟨s', hs', -, hstop'⟩ := after_length_body hroom hlt
    have hle := ((body_isPrefix line).trans (cstr_isPrefix line)).length_le
    have hrounds : line.length + 1 = (body line).length + 1 + (line.length - (body line).length) := by
      omega
    rw [lineCalls, hrounds, Scan.after_of_stopped hs' hstop', Option.bind_some,
      if_neg (by simp [hstop']), ← eq_of_stopped hs hstop hs' hstop', hcalls]

theorem lineCalls_isSome (h : lineCalls line = some calls) :
    (body line).length < posRange ∧ HasRoom (body line) := by
  obtain ⟨n, s, hs, hstop, -⟩ := lineCalls_eq_some_iff.mp h
  exact exists_stopped_iff.mp ⟨n, s, hs, hstop⟩

end Calls

end CLib.Settings
