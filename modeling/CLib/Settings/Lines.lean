import CLib.Settings.Buffers

namespace CLib.Settings
open CLib.Base

/-- The blanks that may stand anywhere in a line. -/
def isBlank (c : Char) : Bool := c = ' ' || c = '\t'

/-- The line is the text `u` with spaces and tabs put in anywhere, with or without a
comment behind it, and with or without its newline. -/
def Spells (u line : Text) : Prop :=
  ∃ body comment ending : Text, body.filter (fun c => !isBlank c) = u ∧
    (comment = [] ∨ ∃ w, '\n' ∉ w ∧ comment = '#' :: w) ∧ (ending = [] ∨ ending = ['\n']) ∧
    line = body ++ (comment ++ ending)

/-- A key that the two buffers of the parser have room for. -/
structure Key where
  text : Text
  ne_nil : text ≠ []
  free : ∀ c ∈ text, isSkipped c = false ∧ c ≠ '#' ∧ c ≠ '='
  length_lt : text.length < parameterSize

/-- A value that the two buffers of the parser have room for. -/
structure Value where
  text : Text
  ne_nil : text ≠ []
  free : ∀ c ∈ text, isSkipped c = false ∧ c ≠ '#'
  length_lt : text.length < parameterSize

def setting (k : Key) (v : Value) : Text := k.text ++ '=' :: v.text

/-- Every line that spells the setting is taken for it. -/
def RoundTrips (lineCalls : Text → Option (List (Text × Text))) (k : Key) (v : Value) : Prop :=
  ∀ line, Spells (setting k v) line → lineCalls line = some [(k.text, v.text)]

/-- Nothing in front of the sign, or nothing behind it. -/
def Incomplete (u : Text) : Prop := (∃ v, u = '=' :: v) ∨ ∃ k, '=' ∉ k ∧ (u = k ∨ u = k ++ ['='])

/-- The bytes in front of a comment and of a NUL. -/
def front (t : Text) : Text := t.takeWhile fun c => c != '#' && c != nul

section Filter
variable {p q : Char → Bool}

theorem takeWhile_filter (h : ∀ c, q c = false → p c = true) (t : Text) :
    (t.filter q).takeWhile p = (t.takeWhile p).filter q := by
  induction t with
  | nil => rfl
  | cons c t ih =>
    cases hq : q c with
    | false =>
      rw [List.filter_cons_of_neg (by simp [hq]), List.takeWhile_cons_of_pos (h c hq),
        List.filter_cons_of_neg (by simp [hq]), ih]
    | true =>
      rw [List.filter_cons_of_pos hq]
      cases hp : p c with
      | false =>
        rw [List.takeWhile_cons_of_neg (by simp [hp]), List.takeWhile_cons_of_neg (by simp [hp])]
        rfl
      | true =>
        rw [List.takeWhile_cons_of_pos hp, List.takeWhile_cons_of_pos hp,
          List.filter_cons_of_pos hq, ih]

theorem dropWhile_filter (h : ∀ c, q c = false → p c = true) (t : Text) :
    (t.filter q).dropWhile p = (t.dropWhile p).filter q := by
  refine @List.append_cancel_left _ ((t.filter q).takeWhile p) _ _ ?_
  rw [List.takeWhile_append_dropWhile, takeWhile_filter h, ← List.filter_append,
    List.takeWhile_append_dropWhile]

end Filter

section Blanks
variable {c : Char}

theorem isSkipped_of_isBlank (h : isBlank c = true) : isSkipped c = true := by
  unfold isSkipped
  rw [isBlank] at h
  rw [h, Bool.true_or]

theorem ne_of_isBlank {d : Char} (h : (!isBlank c) = false) (hd : isBlank d = false) : (c != d) = true := by
  rw [bne_iff_ne]
  rintro rfl
  rw [hd] at h
  cases h

theorem isOrdinary_filter (t : Text) :
    (t.filter fun c => !isBlank c).filter isOrdinary = t.filter isOrdinary := by
  rw [List.filter_filter]
  apply List.filter_congr
  intro c _
  cases hblank : isBlank c with
  | false => rw [Bool.not_false, Bool.and_true]
  | true => rw [not_isOrdinary_of_isSkipped (isSkipped_of_isBlank hblank), Bool.false_and]

theorem parameterBytes_filter (t : Text) :
    parameterBytes (t.filter fun c => !isBlank c) = parameterBytes t := by
  rw [parameterBytes, takeWhile_filter fun c hc => ne_of_isBlank hc (by decide), isOrdinary_filter,
    parameterBytes]

theorem valueBytes_filter (t : Text) :
    valueBytes (t.filter fun c => !isBlank c) = valueBytes t := by
  rw [valueBytes, dropWhile_filter fun c hc => ne_of_isBlank hc (by decide), isOrdinary_filter,
    valueBytes]

theorem front_filter (t : Text) :
    front (t.filter fun c => !isBlank c) = (front t).filter fun c => !isBlank c := by
  apply takeWhile_filter
  intro c hc
  rw [ne_of_isBlank hc (by decide), ne_of_isBlank hc (by decide)]
  rfl

theorem bytes_append_newline {e : Text} (he : e = [] ∨ e = ['\n']) (t : Text) :
    parameterBytes (t ++ e) = parameterBytes t ∧ valueBytes (t ++ e) = valueBytes t := by
  have hnewline : isOrdinary '\n' = false := by decide
  rcases he with rfl | rfl
  · rw [List.append_nil]
    exact ⟨rfl, rfl⟩
  · rw [parameterBytes_concat, valueBytes_concat]
    simp [hnewline]

end Blanks

theorem front_eq (t : Text) : front t = (cstr t).takeWhile (· != '#') := by
  rw [front, cstr, List.takeWhile_takeWhile]
  congr 1
  funext c
  by_cases hcomment : c = '#' <;> by_cases hnul : c = nul <;> simp [hcomment, hnul]

theorem body_eq_front {line : Text} (h : (body line).length < posRange) : body line = front line := by
  rw [body, ← List.take_takeWhile, ← front_eq] at h ⊢
  rw [List.length_take] at h
  exact List.take_of_length_le (by omega)

theorem front_append (t u : Text) : front (t ++ u) = if front t = t then t ++ front u else front t := by
  have hlen : (front t).length = t.length ↔ front t = t :=
    ⟨(List.takeWhile_prefix _).eq_of_length, congrArg List.length⟩
  rw [front, List.takeWhile_append]
  exact if_congr hlen rfl rfl

theorem bytes_of_spells {u line : Text} (h : Spells u line) :
    parameterBytes (front line) = parameterBytes (front u) ∧
      valueBytes (front line) = valueBytes (front u) := by
  obtain ⟨b, comment, ending, rfl, hcomment, hending, rfl⟩ := h
  obtain ⟨e, he, hfront⟩ : ∃ e, (e = [] ∨ e = ['\n']) ∧ front (b ++ (comment ++ ending)) = front b ++ e := by
    rw [front_append]
    split_ifs with hb
    · rw [hb]
      refine ⟨front (comment ++ ending), ?_, rfl⟩
      rcases hcomment with rfl | ⟨w, -, rfl⟩
      · rcases hending with rfl | rfl
        · exact .inl rfl
        · exact .inr (by decide)
      · exact .inl rfl
    · exact ⟨[], .inl rfl, (List.append_nil _).symm⟩
  obtain ⟨hp, hv⟩ := bytes_append_newline he (front b)
  rw [hfront, hp, hv, front_filter, parameterBytes_filter, valueBytes_filter]
  exact ⟨rfl, rfl⟩

section Setting
variable {k : Key} {v : Value} {line : Text}

theorem Key.filter_isOrdinary (k : Key) : k.text.filter isOrdinary = k.text := by
  apply List.filter_eq_self.mpr
  intro c hc
  obtain ⟨hskip, hcomment, hequals⟩ := k.free c hc
  simp [isOrdinary, hskip, hcomment, hequals]

theorem Value.filter_isOrdinary (v : Value) (h : '=' ∉ v.text) : v.text.filter isOrdinary = v.text := by
  apply List.filter_eq_self.mpr
  intro c hc
  obtain ⟨hskip, hcomment⟩ := v.free c hc
  have hequals : c ≠ '=' := fun heq => h (heq ▸ hc)
  simp [isOrdinary, hskip, hcomment, hequals]

theorem front_setting (hk : nul ∉ k.text) (hv : nul ∉ v.text) : front (setting k v) = setting k v := by
  have hnul : ∀ {c : Char} {t : Text}, nul ∉ t → c ∈ t → c ≠ nul := by
    rintro c t ht hc rfl
    exact ht hc
  apply List.takeWhile_eq_self_iff.mpr
  intro c hc
  rcases List.mem_append.mp hc with hc | hc
  · simp [(k.free c hc).2.1, hnul hk hc]
  · rcases List.mem_cons.mp hc with rfl | hc
    · decide
    · simp [(v.free c hc).2, hnul hv hc]

theorem bytes_setting (hequals : '=' ∉ v.text) :
    parameterBytes (setting k v) = k.text ∧ valueBytes (setting k v) = v.text := by
  have hkey : ∀ c ∈ k.text, (c != '=') = true := fun c hc => bne_iff_ne.mpr (k.free c hc).2.2
  constructor
  · rw [parameterBytes, setting, List.takeWhile_append_of_pos hkey,
      List.takeWhile_cons_of_neg (by decide), List.append_nil, k.filter_isOrdinary]
  · rw [valueBytes, setting, List.dropWhile_append_of_pos hkey, List.dropWhile_cons_of_neg (by decide),
      List.filter_cons_of_neg (by decide), v.filter_isOrdinary hequals]

/-- A line is taken for the setting that it spells unless a sign is in the value, a NUL byte
ends it early, or `pos` does not get through it. -/
theorem lineCalls_spells_iff (h : Spells (setting k v) line) :
    lineCalls line = some [(k.text, v.text)] ↔
      '=' ∉ v.text ∧ nul ∉ k.text ∧ nul ∉ v.text ∧ (body line).length < posRange := by
  constructor
  · intro hcalls
    obtain ⟨hlt, hroom⟩ := lineCalls_isSome hcalls
    rw [lineCalls_eq hlt hroom, Option.some_inj] at hcalls
    split_ifs at hcalls with hempty
    obtain ⟨hk, hv⟩ := Prod.mk.inj (List.singleton_inj.mp hcalls)
    have hnul : nul ∉ body line := fun hmem => nul_not_mem_cstr line ((body_isPrefix line).subset hmem)
    have hsubk : ∀ c ∈ k.text, c ∈ body line := by
      rw [← hk]
      exact fun c hc => (List.takeWhile_prefix _).subset (List.mem_filter.mp hc).1
    have hsubv : ∀ c ∈ v.text, c ∈ body line ∧ isOrdinary c = true := by
      rw [← hv]
      exact fun c hc => (List.mem_filter.mp hc).imp_left fun hc => (List.dropWhile_suffix _).subset hc
    refine ⟨fun hmem => ?_, fun hmem => hnul (hsubk nul hmem), fun hmem => hnul (hsubv nul hmem).1, hlt⟩
    exact absurd (hsubv '=' hmem).2 (by decide)
  · rintro ⟨hequals, hk, hv, hlt⟩
    obtain ⟨hparameter, hvalue⟩ := bytes_of_spells h
    obtain ⟨hkey, hval⟩ := bytes_setting (k := k) hequals
    rw [← body_eq_front hlt, front_setting hk hv, hkey] at hparameter
    rw [← body_eq_front hlt, front_setting hk hv, hval] at hvalue
    have hroom : HasRoom (body line) := by
      rw [HasRoom, hparameter, hvalue]
      exact ⟨k.length_lt, v.length_lt⟩
    rw [lineCalls_eq hlt hroom, hparameter, hvalue, if_neg (not_or.mpr ⟨k.ne_nil, v.ne_nil⟩)]

theorem spells_self (k : Key) (v : Value) : Spells (setting k v) (setting k v) := by
  refine ⟨setting k v, [], [], ?_, .inl rfl, .inl rfl, (List.append_nil _).symm⟩
  have hblank : ∀ c, isSkipped c = false → (!isBlank c) = true := fun c hc => by
    cases h : isBlank c with
    | true => rw [isSkipped_of_isBlank h] at hc; cases hc
    | false => rfl
  apply List.filter_eq_self.mpr
  intro c hc
  rcases List.mem_append.mp hc with hc | hc
  · exact hblank c (k.free c hc).1
  · rcases List.mem_cons.mp hc with rfl | hc
    · rfl
    · exact hblank c (v.free c hc).1

end Setting

theorem valueBytes_of_not_mem {t : Text} (h : '=' ∉ t) : valueBytes t = [] := by
  have hne : ∀ c ∈ t, (c != '=') = true := by
    intro c hc
    rw [bne_iff_ne]
    rintro rfl
    exact h hc
  rw [valueBytes, List.dropWhile_eq_nil_iff.mpr hne]
  rfl

theorem not_mem_front {c : Char} {t : Text} (h : c ∉ t) : c ∉ front t := fun hmem =>
  h ((List.takeWhile_prefix _).subset hmem)

theorem bytes_incomplete {u : Text} (h : Incomplete u) :
    parameterBytes (front u) = [] ∨ valueBytes (front u) = [] := by
  rcases h with ⟨v, rfl⟩ | ⟨k, hk, rfl | rfl⟩
  · apply Or.inl
    have hfront : front ('=' :: v) = '=' :: front v := List.takeWhile_cons_of_pos (by decide)
    rw [hfront, parameterBytes_cons, if_pos rfl]
  · exact .inr (valueBytes_of_not_mem (not_mem_front hk))
  · apply Or.inr
    rw [front_append]
    split_ifs
    · have hfront : front ['='] = ['='] := by decide
      rw [hfront, valueBytes_concat, if_neg hk, valueBytes_of_not_mem hk]
    · exact valueBytes_of_not_mem (not_mem_front hk)

/-- A line without a key or without a value sets nothing, if the loop on it has an end. -/
theorem lineCalls_incomplete_iff {u line : Text} (h : Incomplete u) (hline : Spells u line) :
    lineCalls line = some [] ↔ (body line).length < posRange ∧ HasRoom (body line) := by
  refine ⟨lineCalls_isSome, fun ⟨hlt, hroom⟩ => ?_⟩
  obtain ⟨hparameter, hvalue⟩ := bytes_of_spells hline
  have hbytes := bytes_incomplete h
  rw [← hparameter, ← hvalue, ← body_eq_front hlt] at hbytes
  rw [lineCalls_eq hlt hroom, if_pos hbytes]

end CLib.Settings
