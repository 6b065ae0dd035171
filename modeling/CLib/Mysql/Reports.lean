import CLib.Mysql.Actions

namespace CLib.Mysql
open CLib.Base

/-- A record handed to `sql_check_sql`, and answers in which every INSERT succeeds. -/
structure HandedRecord where
  dbhost : Text
  sql : Text
  sqlPtr : Text
  replies : Replies
  errorBinds : replies.errorBinds
  errorExecutes : replies.errorExecutes
  suspectBinds : replies.suspectBinds
  suspectExecutes : replies.suspectExecutes

/-- The ids that rows of `ids_event` are for. -/
def eventIds (rows : List NewRow) : List UInt32 :=
  rows.filterMap fun
    | .event id _ => some id
    | _ => none

/-- The pairs that rows of `suspect_sql_new` are for. -/
def suspectPairs (rows : List NewRow) : List Pair :=
  rows.filterMap fun
    | .suspect _ p _ => some p
    | _ => none

/-- The pairs that `sql_check_sql_re` has inserted rows for. -/
def matchedPairs (rows : List NewRow) : List Pair :=
  rows.filterMap fun
    | .suspect .regularExpression p _ => some p
    | _ => none

/-- The tables of the checker, and the rows that were inserted so far. -/
structure Reported where
  caches : Caches
  rows : List NewRow

section
variable (normalize : Text → UInt32) (ml : Bool)

def HandedRecord.pair (x : HandedRecord) : Pair := (x.dbhost, sqlId normalize x.sql)

def Reported.step (s : Reported) (x : HandedRecord) : Option Reported :=
  (dbStep normalize ml s.caches (.check x.dbhost x.sql x.sqlPtr x.replies)).map fun c =>
    ⟨c, inserted (checkActions normalize ml s.caches x.dbhost x.sql x.sqlPtr x.replies) ++ s.rows⟩

/-- One of the two detectors finds the record. -/
def Found (c : Caches) (x : HandedRecord) : Prop :=
  ¬ CutShort normalize c x.dbhost x.sql ∧ x.replies.checkSqlSucceeds ∧
    (x.replies.reMatches ∨ ml ∧ x.replies.ml = .one)

/-- A pair that a regular expression has found before is not found once more. -/
def NotFoundAgain (s : Reported) (x : HandedRecord) : Prop :=
  x.pair normalize ∈ matchedPairs s.rows → ¬ Found normalize ml s.caches x

end

/-- No id has two rows of `ids_event`, and no pair two rows of `suspect_sql_new`. -/
structure Reported.AtMostOnce (s : Reported) : Prop where
  events : (eventIds s.rows).Nodup
  suspects : (suspectPairs s.rows).Nodup

/-- What is reported is in a table, unless it was a regular expression that found it. -/
structure Reported.Kept (s : Reported) : Prop where
  once : s.AtMostOnce
  error : ∀ id ∈ eventIds s.rows, id ∈ s.caches.error
  suspect : ∀ p ∈ suspectPairs s.rows, p ∈ matchedPairs s.rows ∨ p.key ∈ s.caches.suspect

theorem mem_suspectPairs_of_mem_matchedPairs {rows : List NewRow} {p : Pair}
    (h : p ∈ matchedPairs rows) : p ∈ suspectPairs rows := by
  obtain ⟨row, hrow, hp⟩ := List.mem_filterMap.mp h
  refine List.mem_filterMap.mpr ⟨row, hrow, ?_⟩
  split at hp
  · exact hp
  · cases hp

section Step
variable {normalize : Text → UInt32} {ml : Bool} {s u : Reported} {x : HandedRecord}

/-- What a record that is handed in adds to the rows and to the tables. -/
inductive ReportEffect (normalize : Text → UInt32) (ml : Bool) (s : Reported) (x : HandedRecord)
    (u : Reported) : Prop
  | nothing (found : ¬ Found normalize ml s.caches x) (rows : u.rows = s.rows)
      (tables : SameTables s.caches u.caches)
  | event (columns : List Param) (found : ¬ Found normalize ml s.caches x)
      (new : sqlId normalize x.sql ∉ s.caches.error)
      (rows : u.rows = .event (sqlId normalize x.sql) columns :: s.rows)
      (error : u.caches.error = sqlId normalize x.sql :: s.caches.error)
      (suspect : u.caches.suspect = s.caches.suspect)
  | matched (columns : List Param) (found : Found normalize ml s.caches x)
      (new : (x.pair normalize).key ∉ s.caches.suspect)
      (rows : u.rows = .suspect .regularExpression (x.pair normalize) columns :: s.rows)
      (tables : SameTables s.caches u.caches)
  | learned (columns : List Param) (found : Found normalize ml s.caches x)
      (new : (x.pair normalize).key ∉ s.caches.suspect)
      (rows : u.rows = .suspect .machineLearning (x.pair normalize) columns :: s.rows)
      (error : u.caches.error = s.caches.error)
      (suspect : u.caches.suspect = (x.pair normalize).key :: s.caches.suspect)

theorem not_mem_of_not_cutShort {c : Caches} {dbhost sql : Text} (h : ¬ CutShort normalize c dbhost sql) :
    sqlId normalize sql ∉ c.error ∧ cacheKey dbhost (sqlId normalize sql) ∉ c.suspect := by
  simp only [CutShort, not_or] at h
  exact ⟨h.2.2.2.1, h.2.2.2.2⟩

theorem report_effect (h : s.step normalize ml x = some u) : ReportEffect normalize ml s x u := by
  obtain ⟨c, hc, rfl⟩ := Option.map_eq_some_iff.mp h
  obtain ⟨o, hreturns, heffect⟩ := check_effect_of_dbStep hc
  cases heffect with
  | cutShort hcut tables actions => exact .nothing (fun hf => hf.1 hcut) (by simp [actions]) tables
  | matched hfree accepted re tables _ actions =>
    refine .matched (reColumns x.sql) ⟨hfree, accepted, .inl re⟩ (not_mem_of_not_cutShort hfree).2 ?_ tables
    simp [actions, sqlCheckSqlRe, x.suspectExecutes, HandedRecord.pair]
  | learned hfree accepted re on reply _ error suspect _ actions =>
    refine .learned (suspectColumns (sqlId normalize x.sql) x.replies.errText x.replies.tm x.sql x.sqlPtr)
      ⟨hfree, accepted, .inr ⟨on, reply⟩⟩ (not_mem_of_not_cutShort hfree).2 ?_ error suspect
    simp [actions, x.suspectExecutes, HandedRecord.pair]
  | normal _ _ re reply tables _ actions =>
    refine .nothing ?_ ?_ tables
    · rintro ⟨-, -, hre | ⟨hml, hone⟩⟩
      · exact re hre
      · rw [reply hml] at hone
        cases hone
    · rw [actions]
      split_ifs <;> simp
  | garbage _ _ re _ reply tables _ actions =>
    refine .nothing ?_ (by simp [actions]) tables
    rintro ⟨-, -, hre | ⟨-, hone⟩⟩
    · exact re hre
    · rw [reply] at hone
      cases hone
  | rejected hfree hrejected _ _ _ error suspect _ actions =>
    refine .event (eventColumns x.replies.errText x.replies.tm x.sql x.sqlPtr)
      (fun hf => hrejected hf.2.1) (not_mem_of_not_cutShort hfree).1 ?_ error suspect
    simp [actions]
  | exited _ outcome => exact absurd outcome hreturns

/-- A record that is handed in keeps the invariant, unless it is found once more. -/
theorem Reported.Kept.step (hs : s.Kept) (hG : NotFoundAgain normalize ml s x)
    (h : s.step normalize ml x = some u) : u.Kept := by
  cases report_effect h with
  | nothing _ rows tables =>
    exact ⟨⟨rows ▸ hs.once.events, rows ▸ hs.once.suspects⟩, rows ▸ tables.error ▸ hs.error,
      rows ▸ tables.suspect ▸ hs.suspect⟩
  | event columns _ new rows error suspect =>
    refine ⟨⟨?_, rows ▸ hs.once.suspects⟩, ?_, rows ▸ suspect ▸ hs.suspect⟩
    · rw [rows]
      exact List.nodup_cons.mpr ⟨fun hmem => new (hs.error _ hmem), hs.once.events⟩
    · rw [rows, error]
      exact List.forall_mem_cons.mpr ⟨List.mem_cons_self, fun id hid =>
        List.mem_cons_of_mem _ (hs.error id hid)⟩
  | matched columns found new rows tables =>
    have hfresh : x.pair normalize ∉ suspectPairs s.rows := fun hmem =>
      (hs.suspect _ hmem).elim (fun hmatched => hG hmatched found) new
    refine ⟨⟨rows ▸ hs.once.events, ?_⟩, rows ▸ tables.error ▸ hs.error, ?_⟩
    · rw [rows]
      exact List.nodup_cons.mpr ⟨hfresh, hs.once.suspects⟩
    · rw [rows, tables.suspect]
      refine List.forall_mem_cons.mpr ⟨.inl List.mem_cons_self, fun p hp => ?_⟩
      exact (hs.suspect p hp).imp_left (List.mem_cons_of_mem _)
  | learned columns found new rows error suspect =>
    have hfresh : x.pair normalize ∉ suspectPairs s.rows := fun hmem =>
      (hs.suspect _ hmem).elim (fun hmatched => hG hmatched found) new
    refine ⟨⟨rows ▸ hs.once.events, ?_⟩, rows ▸ error ▸ hs.error, ?_⟩
    · rw [rows]
      exact List.nodup_cons.mpr ⟨hfresh, hs.once.suspects⟩
    · rw [rows, suspect]
      refine List.forall_mem_cons.mpr ⟨.inr List.mem_cons_self, fun p hp => ?_⟩
      exact (hs.suspect p hp).imp_right (List.mem_cons_of_mem _)

theorem notFoundAgain_of_atMostOnce (h : s.step normalize ml x = some u) (hu : u.AtMostOnce) :
    NotFoundAgain normalize ml s x := by
  intro hmatched found
  have hmem := mem_suspectPairs_of_mem_matchedPairs hmatched
  cases report_effect h with
  | nothing hno => exact hno found
  | event _ hno => exact hno found
  | matched columns _ _ rows =>
    have hnodup := hu.suspects
    rw [rows] at hnodup
    exact (List.nodup_cons.mp hnodup).1 hmem
  | learned columns _ _ rows =>
    have hnodup := hu.suspects
    rw [rows] at hnodup
    exact (List.nodup_cons.mp hnodup).1 hmem

end Step

/-- In every history each statement is reported at most once, exactly if no record is
found once more after a regular expression has found it. -/
theorem reportedAtMostOnce_iff (normalize : Text → UInt32) (ml : Bool) (c : Caches)
    (history : List HandedRecord) :
    (∀ s, Visits (Reported.step normalize ml) ⟨c, []⟩ history s → s.AtMostOnce) ↔
      Along (Reported.step normalize ml) (NotFoundAgain normalize ml) ⟨c, []⟩ history := by
  apply along_iff_forall_visits (I := Reported.Kept)
  · exact fun s hs => hs.once
  · exact ⟨⟨List.nodup_nil, List.nodup_nil⟩, nofun, nofun⟩
  · exact fun s x u hs hG h => hs.step hG h
  · exact fun s x u h hu => notFoundAgain_of_atMostOnce h hu

section Examples

def matching : Replies := { plain with reMatches := true }

def matchedRecord : HandedRecord := ⟨['5'], ['a'], [], matching, rfl, rfl, rfl, rfl⟩

/-- The same statement, found twice by a regular expression, has two rows. -/
theorem not_reportedAtMostOnce :
    ¬ ∀ (normalize : Text → UInt32) (ml : Bool) (c : Caches) (history : List HandedRecord) (s : Reported),
      Visits (Reported.step normalize ml) ⟨c, []⟩ history s → s.AtMostOnce := by
  intro h
  obtain ⟨s, hs, hrows⟩ : ∃ s, runFrom (Reported.step (fun _ => 7) false) ⟨emptyCaches, []⟩
      [matchedRecord, matchedRecord] = some s ∧ suspectPairs s.rows = [(['5'], 7), (['5'], 7)] :=
    ⟨_, rfl, rfl⟩
  have honce := (h _ _ _ _ s ⟨_, List.prefix_rfl, hs⟩).suspects
  rw [hrows] at honce
  exact absurd honce (by decide)

end Examples

def alarmTypeColumn : ℕ := 1

/-- Two rows of `suspect_sql_new` are equal but for the alarm type. -/
def SameButAlarmType (columns columns' : List Param) : Prop :=
  ∀ i < 12, i ≠ alarmTypeColumn → columns[i]? = columns'[i]?

/-- The columns that the branch of a detector binds. -/
def Detector.columns (normalize : Text → UInt32) (sql sqlPtr : Text) (r : Replies) :
    Detector → List Param
  | .regularExpression => reColumns sql
  | .machineLearning => suspectColumns (sqlId normalize sql) r.errText r.tm sql sqlPtr

section Rows
variable {normalize : Text → UInt32} {ml : Bool} {c : Caches} {dbhost sql sqlPtr : Text} {r : Replies}

/-- The only rows of `suspect_sql_new` that a check inserts are those of the two detectors. -/
theorem columns_of_mem_inserted {d : Detector} {p : Pair} {columns : List Param}
    (h : NewRow.suspect d p columns ∈ inserted (checkActions normalize ml c dbhost sql sqlPtr r)) :
    columns = d.columns normalize sql sqlPtr r := by
  have heffect : CheckEffect normalize ml c dbhost sql sqlPtr r _ _ _ := check_effect sqlPtr r
  cases heffect with
  | cutShort _ _ actions => simp [actions] at h
  | matched _ _ _ _ _ actions =>
    rw [actions, sqlCheckSqlRe, inserted_cons_insert] at h
    split_ifs at h
    · obtain ⟨rfl, -, rfl⟩ : d = _ ∧ p = _ ∧ columns = _ := by simpa using h
      rfl
    · cases h
  | learned _ _ _ _ _ _ _ _ _ actions =>
    rw [actions, inserted_cons_socket, inserted_cons_insert] at h
    split_ifs at h
    · obtain ⟨rfl, -, rfl⟩ : d = _ ∧ p = _ ∧ columns = _ := by simpa using h
      rfl
    · cases h
  | normal _ _ _ _ _ _ actions =>
    rw [actions] at h
    split_ifs at h <;> simp at h
  | garbage _ _ _ _ _ _ _ actions => simp [actions] at h
  | rejected _ _ _ _ _ _ _ _ actions => simp [actions] at h
  | exited _ _ rows => simp [rows] at h

end Rows

/-- The row of a record that a regular expression finds is never that of the same record
found by the machine-learning server. -/
theorem not_sameButAlarmType (normalize : Text → UInt32) (ml ml' : Bool) (c c' : Caches)
    (dbhost sql sqlPtr : Text) (r r' : Replies) (p p' : Pair) (columns columns' : List Param)
    (hre : NewRow.suspect .regularExpression p columns ∈
      inserted (checkActions normalize ml c dbhost sql sqlPtr r))
    (hml : NewRow.suspect .machineLearning p' columns' ∈
      inserted (checkActions normalize ml' c' dbhost sql sqlPtr r')) :
    ¬ SameButAlarmType columns columns' := by
  obtain rfl := columns_of_mem_inserted hre
  obtain rfl := columns_of_mem_inserted hml
  intro hsame
  have hid := hsame 0 (by decide) (by decide)
  cases forall₂_ne_reColumns_suspectColumns (sqlId normalize sql) r'.errText r'.tm sql sql sqlPtr with
  | cons hne _ => exact hne (Option.some.inj hid)

section Examples

/-- The row of a match holds the statement in the column `id`, and nothing else. -/
theorem not_sameButAlarmType_a :
    ¬ SameButAlarmType (reColumns ['a']) (suspectColumns 7 [] plain.tm ['a'] []) := by
  refine not_sameButAlarmType (fun _ => 7) false true emptyCaches emptyCaches ['5'] ['a'] [] matching
    { plain with ml := .one } (['5'], 7) (['5'], 7) _ _ ?_ ?_
  · exact List.mem_cons_self
  · exact List.mem_cons_self

theorem rows_differ :
    ¬ ∀ (normalize : Text → UInt32) (ml ml' : Bool) (c c' : Caches) (dbhost sql sqlPtr : Text)
      (r r' : Replies) (p p' : Pair) (columns columns' : List Param),
      NewRow.suspect .regularExpression p columns ∈
        inserted (checkActions normalize ml c dbhost sql sqlPtr r) →
      NewRow.suspect .machineLearning p' columns' ∈
        inserted (checkActions normalize ml' c' dbhost sql sqlPtr r') →
      SameButAlarmType columns columns' := by
  intro h
  have hsame := h (fun _ => 7) false true emptyCaches emptyCaches ['5'] ['a'] [] matching
    { plain with ml := .one } (['5'], 7) (['5'], 7) _ _ List.mem_cons_self List.mem_cons_self
  exact absurd (hsame 0 (by decide) (by decide)) (by decide)

end Examples

end CLib.Mysql
