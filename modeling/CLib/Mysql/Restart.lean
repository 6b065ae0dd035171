import CLib.Mysql.Actions

namespace CLib.Mysql
open CLib.Base

/-- `STRING_SIZE`, the size of the buffer for a text column of a result. -/
def stringSize : ℕ := 131070

section
variable (normalize : Text → UInt32)

/-- The id that `sql_init` computes for a row of `ids_event` with this `sql_text`. -/
def reloadedId (sqlText : Text) : UInt32 := normalize (snprintf bufferSize (sqlText.take stringSize))

/-- The tables after `sql_init`, when `ids_event` holds these texts. -/
def restarted (sqlTexts : List Text) (normalRows : List UInt32) (exceptionRows suspectRows : List Row) :
    Caches :=
  (sqlInit normalRows (sqlTexts.map (reloadedId normalize)) exceptionRows suspectRows).caches

end

def sqlTextColumn : ℕ := 10

/-- Wherever a check stores the statement in `ids_event`, the id of the stored text is the
statement's own one after a restart, and no later check takes it to the rule engine again. -/
def SurvivesRestart (sql : Text) : Prop :=
  ∀ (normalize : Text → UInt32) (ml ml' : Bool) (c : Caches) (dbhost sqlPtr : Text) (r : Replies)
    (id : UInt32) (columns : List Param) (sqlText : Text),
    NewRow.event id columns ∈ inserted (checkActions normalize ml c dbhost sql sqlPtr r) →
    columns[sqlTextColumn]? = some (.string sqlText) →
      reloadedId normalize sqlText = sqlId normalize sql ∧
        ∀ sqlTexts normalRows exceptionRows suspectRows later, sqlText ∈ sqlTexts →
          Reachable (dbStep normalize ml')
            (restarted normalize sqlTexts normalRows exceptionRows suspectRows) later →
          ∀ dbhost' a, (sqlCheckSql normalize ml' later dbhost' sql a).2.invokesRules = false

section Event
variable {normalize : Text → UInt32} {ml : Bool} {c : Caches} {dbhost sql sqlPtr : Text} {r : Replies}

/-- The only row of `ids_event` that a check inserts is that of its own statement. -/
theorem event_of_mem_inserted {id : UInt32} {columns : List Param}
    (h : NewRow.event id columns ∈ inserted (checkActions normalize ml c dbhost sql sqlPtr r)) :
    ¬ CutShort normalize c dbhost sql ∧ id = sqlId normalize sql ∧
      columns = eventColumns r.errText r.tm sql sqlPtr := by
  have heffect : CheckEffect normalize ml c dbhost sql sqlPtr r _ _ _ := check_effect sqlPtr r
  cases heffect with
  | cutShort _ _ actions => simp [actions] at h
  | matched _ _ _ _ _ actions => simp [actions, sqlCheckSqlRe] at h
  | learned _ _ _ _ _ _ _ _ _ actions => simp [actions] at h
  | normal _ _ _ _ _ _ actions =>
    rw [actions] at h
    split_ifs at h <;> simp at h
  | garbage _ _ _ _ _ _ _ actions => simp [actions] at h
  | rejected hfree _ _ _ _ _ _ _ actions =>
    rw [actions] at h
    exact ⟨hfree, by simpa using h⟩
  | exited _ _ rows => simp [rows] at h

theorem reloadedId_storedText (normalize : Text → UInt32) (sql : Text) :
    reloadedId normalize (storedText sql) = normalize (storedText sql) := by
  have hlen : (storedText sql).length < bufferSize := by
    rw [storedText, snprintf, List.length_take, bufferSize]
    omega
  have hfits : (storedText sql).take stringSize = storedText sql := by
    apply List.take_of_length_le
    unfold bufferSize at hlen
    unfold stringSize
    omega
  rw [reloadedId, hfits, snprintf_of_lt hlen]

theorem reloadedId_storedText_of_lt (h : sql.length < bufferSize - 1) (normalize : Text → UInt32) :
    reloadedId normalize (storedText sql) = sqlId normalize sql := by
  rw [reloadedId_storedText, storedText, sqlId, snprintf_of_lt h, snprintf_of_lt (by omega)]

theorem storedText_ne_snprintf (h : bufferSize - 1 ≤ sql.length) :
    storedText sql ≠ snprintf bufferSize sql := by
  intro heq
  have hlen := congrArg List.length heq
  unfold bufferSize at h
  simp only [storedText, snprintf, List.length_take, bufferSize] at hlen
  omega

/-- A statement whose id is in the error table does not get to the rule engine. -/
theorem not_invokesRules_of_mem_error (h : sqlId normalize sql ∈ c.error) (dbhost : Text)
    (a : Answers) : (sqlCheckSql normalize ml c dbhost sql a).2.invokesRules = false :=
  (sqlCheckSql_of_cutShort ml (.inr (.inr (.inr (.inl h)))) a).2

end Event

/-- The rule engine complains, and the row is inserted. -/
def rejection : Replies := { plain with checkSqlSucceeds := false }

/-- A statement of `BUFFER_SIZE - 1` bytes or more that is checked at all is stored in a
row, and that row does not give its id back for every normalization. -/
theorem not_survivesRestart {sql : Text} (hexempt : ¬ exempt sql) (hlen : bufferSize - 1 ≤ sql.length) :
    ¬ SurvivesRestart sql := by
  intro h
  let normalize : Text → UInt32 := fun t => if t = snprintf bufferSize sql then 1 else 0
  have hfree : ¬ CutShort normalize emptyCaches [] sql := by
    simpa [CutShort, emptyCaches] using hexempt
  have hrow : NewRow.event (sqlId normalize sql) (eventColumns [] rejection.tm sql []) ∈
      inserted (checkActions normalize false emptyCaches [] sql [] rejection) := by
    rw [checkActions, if_neg hfree]
    exact List.mem_cons_self
  have hid := (h normalize false false emptyCaches [] [] rejection _ _ (storedText sql) hrow rfl).1
  rw [reloadedId_storedText] at hid
  simp [normalize, sqlId, storedText_ne_snprintf hlen] at hid

/-- The error cache survives a restart for exactly the statements that are not checked
at all and those of fewer than `BUFFER_SIZE - 1` bytes. -/
theorem survivesRestart_iff (sql : Text) :
    SurvivesRestart sql ↔ exempt sql ∨ sql.length < bufferSize - 1 := by
  constructor
  · intro h
    by_contra hno
    obtain ⟨hexempt, hlen⟩ := not_or.mp hno
    exact not_survivesRestart hexempt (by omega) h
  · intro hsql normalize ml ml' c dbhost sqlPtr r id columns sqlText hrow hcolumn
    obtain ⟨hfree, -, rfl⟩ := event_of_mem_inserted hrow
    have hlen : sql.length < bufferSize - 1 := hsql.resolve_left fun h => hfree (.inl h)
    obtain rfl : storedText sql = sqlText := by simpa [eventColumns, sqlTextColumn] using hcolumn
    have hid := reloadedId_storedText_of_lt hlen normalize
    refine ⟨hid, ?_⟩
    intro sqlTexts normalRows exceptionRows suspectRows later hstored hlater dbhost' a
    -- The error table only grows, so what `sql_init` has loaded is still there.
    have hmem := (grows_of_reachable hlater).error (List.mem_map_of_mem hstored)
    rw [hid] at hmem
    exact not_invokesRules_of_mem_error hmem dbhost' a

theorem mem_of_exempt {sql : Text} (h : exempt sql) : 'X' ∈ sql.map Char.toUpper ∨ '.' ∈ sql := by
  rw [exempt, Bool.or_eq_true, strcasestr, strstr_isSome_iff, strstr_isSome_iff] at h
  rcases h with h | h
  · exact .inl (h.subset (by decide))
  · exact .inr (h.subset (by decide))

theorem not_exempt_replicate (n : ℕ) : ¬ exempt (List.replicate n 'a') := by
  intro h
  rcases mem_of_exempt h with h | h
  · rw [List.map_replicate] at h
    exact absurd (List.eq_of_mem_replicate h) (by decide)
  · exact absurd (List.eq_of_mem_replicate h) (by decide)

/-- A statement of `BUFFER_SIZE - 1` bytes: its last byte is lost in the row. -/
theorem not_survivesRestart_full : ¬ ∀ sql : Text, SurvivesRestart sql := by
  intro h
  refine not_survivesRestart (not_exempt_replicate _) ?_ (h (List.replicate (bufferSize - 1) 'a'))
  exact List.length_replicate.ge

end CLib.Mysql
