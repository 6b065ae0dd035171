import CLib.Mysql.Actions
import CLib.Server.Pipeline

namespace CLib.Mysql
open CLib.Base CLib.Server

def idColumn : ℕ := 0

def dbhostColumn : ℕ := 3

/-- The columns of a row of `suspect_sql_new` that `sql_init` selects. -/
structure SuspectRow where
  id : UInt32
  dbhost : UInt64
  deriving DecidableEq

def suspectRow (columns : List Param) : Option SuspectRow :=
  match columns[idColumn]?, columns[dbhostColumn]? with
  | some (.long id), some (.longLong dbhost) => some ⟨id, dbhost⟩
  | _, _ => none

/-- The variables `int_data`, a `long`, and `db_host`, an `int`, of `sql_init`. -/
structure SelectBuffers where
  intData : Int64
  dbHost : Int32

/-- `mysql_stmt_fetch`: of `dbhost` it leaves the low 32 bits. -/
def SuspectRow.fetch (r : SuspectRow) : SelectBuffers :=
  ⟨Int64.ofNat r.id.toNat, r.dbhost.toUInt32.toInt32⟩

/-- What `%u` prints of an `int`. -/
def percentUInt (v : Int32) : Text := percentU v.toUInt32.toNat

/-- What `%u` prints of a `long`: it takes the low 32 bits. -/
def percentULong (v : Int64) : Text := percentU v.toUInt64.toUInt32.toNat

/-- `snprintf(key_in_hash, STR_LEN, "%u%u", db_host, int_data)`. -/
def SelectBuffers.keyInHash (b : SelectBuffers) : Text :=
  snprintf strLen (percentUInt b.dbHost ++ percentULong b.intData)

/-- The same buffers as a row that `sqlInit` reads. -/
def SelectBuffers.row (b : SelectBuffers) : Row := (b.dbHost.toUInt32, b.intData.toUInt64.toUInt32)

theorem SelectBuffers.keyInHash_mem_sqlInit {b : SelectBuffers} {suspectRows : List Row}
    (h : b.row ∈ suspectRows) (normalRows errorRows : List UInt32) (exceptionRows : List Row) :
    b.keyInHash ∈ (sqlInit normalRows errorRows exceptionRows suspectRows).caches.suspect := by
  apply List.mem_map.mpr
  exact ⟨b.row, h, rfl⟩

theorem parseLogRec_dbhost {record : Text} (h : (parseRecord record).dbhost.length < strLen) :
    (parseLogRec record).dbhost = (parseRecord record).dbhost := by
  have hformat : logRecFormat =
      recordFormat ++ (List.replicate 15 [Directive.blank, .string]).flatten := rfl
  obtain ⟨more, happend, hmore⟩ := exists_sscanf_append recordFormat
    (List.replicate 15 [Directive.blank, .string]).flatten record
  have hle : (sscanf recordFormat record).length ≤ 5 := length_sscanf_le recordFormat record
  show member (storeWords (sscanf logRecFormat record)) .dbhost =
    member (storeWords (sscanf recordFormat record)) .dbhost
  rw [hformat, happend]
  rcases hle.lt_or_eq with hfew | hall
  · rw [hmore hfew, List.append_nil]
  · exact dbhost_storeWords_append hall more h

section RoundTrip
variable {host id : UInt32}

theorem toUInt32_ofInt_toNat (host : UInt32) : (UInt64.ofInt (host.toNat : ℤ)).toUInt32 = host := by
  have hlt : host.toNat < 2 ^ 32 := host.toNat_lt
  apply UInt32.toNat_inj.mp
  rw [UInt64.toNat_toUInt32, UInt64.ofInt, UInt64.toNat_ofNat']
  omega

theorem percentU_length_lt (host : UInt32) : (percentU host.toNat).length < strLen := by
  have hlt : host.toNat < 2 ^ 32 := host.toNat_lt
  have hle : (percentU host.toNat).length ≤ 10 :=
    (Nat.length_toDigits_le_iff (by omega) (by omega)).mpr (by omega)
  exact hle.trans_lt (by decide)

theorem keyInHash_fetch (host id : UInt32) :
    (SuspectRow.fetch ⟨id, UInt64.ofInt (atol (percentU host.toNat))⟩).keyInHash =
      cacheKey (percentU host.toNat) id := by
  have hlt : host.toNat < 2 ^ 32 := host.toNat_lt
  have hatol : atol (percentU host.toNat) = host.toNat := atol_percentU (by omega)
  have hhost : percentUInt (UInt64.ofInt (host.toNat : ℤ)).toUInt32.toInt32 = percentU host.toNat := by
    rw [percentUInt, UInt32.toUInt32_toInt32, toUInt32_ofInt_toNat]
  have hid : percentULong (Int64.ofNat id.toNat) = percentU id.toNat := by
    simp [percentULong]
  rw [hatol, SuspectRow.fetch, SelectBuffers.keyInHash, hhost, hid, cacheKey]

theorem suspectRow_suspectColumns (id : UInt32) (errText : Text) (tm : Tm) (sql sqlPtr : Text) :
    suspectRow (suspectColumns id errText tm sql sqlPtr) =
      some ⟨id, UInt64.ofInt (atol (parseLogRec sqlPtr).dbhost)⟩ := rfl

end RoundTrip

section Check
variable {normalize : Text → UInt32} {ml : Bool} {c : Caches} {dbhost sql sqlPtr : Text} {r : Replies}

/-- The key that a check puts into the suspect table, and the row that it stores with it. -/
theorem suspect_of_suspectInserted {d : Detector} {p : Pair} {columns : List Param}
    (hkey : (sqlCheckSql normalize ml c dbhost sql r.toAnswers).2 = .suspectInserted)
    (hrow : NewRow.suspect d p columns ∈ inserted (checkActions normalize ml c dbhost sql sqlPtr r)) :
    columns = suspectColumns (sqlId normalize sql) r.errText r.tm sql sqlPtr ∧
      (sqlCheckSql normalize ml c dbhost sql r.toAnswers).1.suspect =
        cacheKey dbhost (sqlId normalize sql) :: c.suspect := by
  have heffect : CheckEffect normalize ml c dbhost sql sqlPtr r _ _ _ := check_effect sqlPtr r
  cases heffect with
  | learned _ _ _ _ _ _ _ suspect _ actions =>
    rw [actions, inserted_cons_socket, inserted_cons_insert] at hrow
    split_ifs at hrow
    · obtain ⟨-, -, hcolumns⟩ : d = _ ∧ p = _ ∧ columns = _ := by simpa using hrow
      exact ⟨hcolumns, suspect⟩
    · cases hrow
  | cutShort _ _ _ outcome => simp [hkey, Outcome.invokesRules] at outcome
  | _ => simp_all -- every other exit has another outcome

end Check

/-- The key under which a check of a record with a decimal host enters a suspect is, for
every id, the one that `sql_init` builds from the row stored for it. -/
theorem suspectKey_survivesRestart (normalize : Text → UInt32) (ml : Bool) (c : Caches)
    (sql sqlPtr : Text) (r : Replies) (host : UInt32) (d : Detector) (p : Pair) (columns : List Param)
    (hhost : (parseRecord sqlPtr).dbhost = percentU host.toNat)
    (hkey : (sqlCheckSql normalize ml c (parseRecord sqlPtr).dbhost sql r.toAnswers).2 =
      .suspectInserted)
    (hrow : NewRow.suspect d p columns ∈
      inserted (checkActions normalize ml c (parseRecord sqlPtr).dbhost sql sqlPtr r)) :
    ∃ key row,
      (sqlCheckSql normalize ml c (parseRecord sqlPtr).dbhost sql r.toAnswers).1.suspect =
        key :: c.suspect ∧
      suspectRow columns = some row ∧ row.fetch.keyInHash = key ∧
      ∀ normalRows errorRows exceptionRows suspectRows, row.fetch.row ∈ suspectRows →
        key ∈ (sqlInit normalRows errorRows exceptionRows suspectRows).caches.suspect := by
  obtain ⟨rfl, hsuspect⟩ := suspect_of_suspectInserted hkey hrow
  have hstored := suspectRow_suspectColumns (sqlId normalize sql) r.errText r.tm sql sqlPtr
  rw [parseLogRec_dbhost (hhost ▸ percentU_length_lt host), hhost] at hstored
  have hrebuilt := keyInHash_fetch host (sqlId normalize sql)
  refine ⟨_, _, hsuspect, hstored, by rw [hrebuilt, hhost], ?_⟩
  intro normalRows errorRows exceptionRows suspectRows hmem
  rw [hhost, ← hrebuilt]
  exact SelectBuffers.keyInHash_mem_sqlInit hmem normalRows errorRows exceptionRows

/-- A record whose host does not fit in an `int`. -/
def largeHostRecord : Text := "d t q/*## r 4000000000 ".toList

/-- The machine-learning server calls the statement dubious. -/
def dubiousReplies : Replies := { plain with ml := .one }

theorem suspectKey_survivesRestart_largeHost :
    ∃ key row,
      (sqlCheckSql (fun _ => 7) true emptyCaches (parseRecord largeHostRecord).dbhost ['a']
        dubiousReplies.toAnswers).1.suspect = [key] ∧
      suspectRow (suspectColumns 7 [] dubiousReplies.tm ['a'] largeHostRecord) = some row ∧
      row.fetch.keyInHash = key ∧
      ∀ normalRows errorRows exceptionRows suspectRows, row.fetch.row ∈ suspectRows →
        key ∈ (sqlInit normalRows errorRows exceptionRows suspectRows).caches.suspect :=
  suspectKey_survivesRestart (fun _ => 7) true emptyCaches ['a'] largeHostRecord dubiousReplies
    4000000000 .machineLearning ((parseRecord largeHostRecord).dbhost, 7)
    (suspectColumns 7 [] dubiousReplies.tm ['a'] largeHostRecord) (by decide +kernel)
    (by decide +kernel) (by decide +kernel)

end CLib.Mysql
