import CLib.Base.CString
import CLib.Base.Wrap

namespace CLib.Mysql
open CLib.Base

/-- The globals that `print_report` reads, and the sizes of the tables. -/
structure Counters where
  totalCount : UInt32
  normalCount : UInt32
  errorCount : UInt32
  reSqlCount : UInt32
  sqlCountWhitelist : UInt32
  sqlCountBlacklist : UInt32
  sqlCountSuspect : UInt32
  sqlCountException : UInt32
  totalTime : UInt64
  timeReadFile : UInt64
  totalCheckTime : UInt64
  normalizationTime : UInt64
  timeCheckNormal : UInt64
  timeCheckError : UInt64
  timeCheckSuspect : UInt64
  timeInsert : UInt64
  timeRe : UInt64

/-- The lines of the report that print a number. -/
inductive ReportItem
  | totalSqlCount
  | totalNormalSqlCount
  | totalCountInWhitelist
  | totalCountInBlacklist
  | totalCountInSuspectlist
  | totalCountInExceptionList
  | totalErrorSqlCount
  | totalInsertIntoDB
  | totalSqlCheckedWithRe
  | pencentOfNormalSql
  | pencentOfErrorSql
  | totalTime
  | totalTimeReadFile
  | totalCheckTime
  | totalNormalizationTime
  | totalTimeCheckNormalSql
  | totalTimeCheckErrorSql
  | totalTimeCheckSuspectSql
  | totalTimeInsertIntoDB
  | totalCheckWithRe
  | averageCheckTime
  | averageCheckTimeNormal
  | averageNormalizationTime
  | averageCheckTimeError
  | averageTimeInsertIntoDB
  | averageTimeCheckWithRe
  | averageTimeCheckSuspect
deriving DecidableEq, Repr

def ReportItem.text : ReportItem → Text
  | totalSqlCount => "total sql count:             ".toList
  | totalNormalSqlCount => "total normal sql count:      ".toList
  | totalCountInWhitelist => "total count in whitelist:    ".toList
  | totalCountInBlacklist => "total count in blacklist:    ".toList
  | totalCountInSuspectlist => "total count in suspectlist:  ".toList
  | totalCountInExceptionList => "total count in exception list:  ".toList
  | totalErrorSqlCount => "total error sql count:       ".toList
  | totalInsertIntoDB => "total insert into DB:        ".toList
  | totalSqlCheckedWithRe => "total sql checked with re:   ".toList
  | pencentOfNormalSql => "pencent of normal sql:       ".toList
  | pencentOfErrorSql => "pencent of error sql:        ".toList
  | totalTime => "total time(nanoseconds):     ".toList
  | totalTimeReadFile => "total time read file:        ".toList
  | totalCheckTime => "total check time:            ".toList
  | totalNormalizationTime => "total normalization time:    ".toList
  | totalTimeCheckNormalSql => "total time check normal sql: ".toList
  | totalTimeCheckErrorSql => "total time check error sql:  ".toList
  | totalTimeCheckSuspectSql => "total time check suspect sql:".toList
  | totalTimeInsertIntoDB => "total time insert into DB:   ".toList
  | totalCheckWithRe => "total check with re:         ".toList
  | averageCheckTime => "average check time:          ".toList
  | averageCheckTimeNormal => "average check time normal:   ".toList
  | averageNormalizationTime => "average normalization time:  ".toList
  | averageCheckTimeError => "average check time error:    ".toList
  | averageTimeInsertIntoDB => "average time insert into DB: ".toList
  | averageTimeCheckWithRe => "average time check with re:  ".toList
  | averageTimeCheckSuspect => "average time check suspect:  ".toList

/-- What a call of `log_msg` prints. -/
inductive LogLine
  | message (text : Text)
  | number (item : ReportItem) (value : ℤ)
deriving DecidableEq

def LogLine.text : LogLine → Text
  | message text => text
  | number item value => item.text ++ (toString value).toList ++ ['\n']

/-- `log_msg(LEVEL_INFO, "...%d\n", n)`, which prints an `unsigned int` as an `int`. -/
def logD (item : ReportItem) (n : UInt32) : LogLine := .number item n.toBitVec.toInt

def logLu (item : ReportItem) (n : UInt64) : LogLine := .number item n.toNat

def logLd (item : ReportItem) (n : UInt64) : LogLine := .number item n.toBitVec.toInt

/-- `count * 100 / total`, which has no value for `total = 0`. -/
def logPercent (item : ReportItem) (count total : UInt32) : Option LogLine :=
  if total = 0 then none else some (logD item (count * 100 / total))

def logAverage (item : ReportItem) (time : UInt64) (count : UInt32) : Option LogLine :=
  if count = 0 then none else some (logLd item (time / count.toUInt64))

def block (guard : Bool) (calls : List (Option LogLine)) : List (Option LogLine) :=
  if guard then calls else []

/-- The calls one after the other, up to the first division by zero. -/
def logAll : List (Option LogLine) → Option (List LogLine)
  | [] => some []
  | call :: calls => call.bind fun line => (logAll calls).map (line :: ·)

namespace Counters
variable (c : Counters)

/-- `g_error_count + sql_count_whitelist + sql_count_suspect`. -/
def inserted : UInt32 := c.errorCount + c.sqlCountWhitelist + c.sqlCountSuspect

def counts : List LogLine :=
  [.message "Dumping report.......\n".toList,
    .message "=========================================================\n".toList,
    logD .totalSqlCount c.totalCount,
    logD .totalNormalSqlCount c.normalCount,
    logD .totalCountInWhitelist c.sqlCountWhitelist,
    logD .totalCountInBlacklist c.sqlCountBlacklist,
    logD .totalCountInSuspectlist c.sqlCountSuspect,
    logD .totalCountInExceptionList c.sqlCountException,
    logD .totalErrorSqlCount c.errorCount,
    logD .totalInsertIntoDB c.inserted,
    logD .totalSqlCheckedWithRe c.reSqlCount]

def percents : List (Option LogLine) :=
  block (c.totalCount != 0)
    [logPercent .pencentOfNormalSql c.normalCount c.totalCount,
      logPercent .pencentOfErrorSql c.errorCount c.totalCount]

def times : List LogLine :=
  [logLu .totalTime c.totalTime,
    logLu .totalTimeReadFile c.timeReadFile,
    logLu .totalCheckTime c.totalCheckTime,
    logLu .totalNormalizationTime c.normalizationTime,
    logLu .totalTimeCheckNormalSql c.timeCheckNormal,
    logLu .totalTimeCheckErrorSql c.timeCheckError,
    logLu .totalTimeCheckSuspectSql c.timeCheckSuspect,
    logLu .totalTimeInsertIntoDB c.timeInsert,
    logLu .totalCheckWithRe c.timeRe]

def averages : List (Option LogLine) :=
  block (c.totalCount != 0)
    [logAverage .averageCheckTime c.totalCheckTime c.totalCount] ++
  block (c.normalCount != 0)
    [logAverage .averageCheckTimeNormal c.timeCheckNormal c.normalCount,
      logAverage .averageNormalizationTime c.normalizationTime c.normalCount] ++
  block (c.errorCount != 0)
    [logAverage .averageCheckTimeError c.timeCheckError c.errorCount] ++
  block (c.errorCount != 0 || c.sqlCountWhitelist != 0 || c.sqlCountSuspect != 0)
    [logAverage .averageTimeInsertIntoDB c.timeInsert c.inserted] ++
  block (c.reSqlCount != 0)
    [logAverage .averageTimeCheckWithRe c.timeRe c.reSqlCount,
      logAverage .averageTimeCheckSuspect c.timeCheckSuspect c.reSqlCount]

def ending : List LogLine :=
  [.message "=========================================================\n".toList,
    .message "Dumping report completed.\n".toList]

/-- The calls of `log_msg`. -/
def calls : List (Option LogLine) :=
  c.counts.map some ++ c.percents ++ c.times.map some ++ c.averages ++ ending.map some

/-- The lines of the report, or `none` if there is a division by zero. -/
def reportLines : Option (List LogLine) := logAll c.calls

/-- `print_report`: what goes to the log. -/
def printReport : Option Text := c.reportLines.map fun lines => (lines.map LogLine.text).flatten

/-- The number printed as a percentage is the rounded down percentage, and so in 0..100. -/
def Percentage (item : ReportItem) (count : UInt32) (lines : List LogLine) : Prop :=
  ∀ v : ℤ, .number item v ∈ lines →
    v = (100 * count.toNat / c.totalCount.toNat : ℕ) ∧ 0 ≤ v ∧ v ≤ 100

/-- There is no division by zero, and the percentages are right. -/
def Sound : Prop :=
  ∃ lines, c.reportLines = some lines ∧ c.Percentage .pencentOfNormalSql c.normalCount lines ∧
    c.Percentage .pencentOfErrorSql c.errorCount lines

/-- The products, and the sum unless all its terms are zero, do not reach or do not hit the
values that 32 bits lose. -/
structure InRange : Prop where
  normal : 100 * c.normalCount.toNat < 2 ^ 32
  error : 100 * c.errorCount.toNat < 2 ^ 32
  inserted : c.errorCount.toNat + c.sqlCountWhitelist.toNat + c.sqlCountSuspect.toNat = 0 ∨
    ¬ 2 ^ 32 ∣ c.errorCount.toNat + c.sqlCountWhitelist.toNat + c.sqlCountSuspect.toNat

end Counters

section Calls
variable {calls : List (Option LogLine)} {lines : List LogLine} {item item' : ReportItem}

theorem exists_logAll_iff : (∃ lines, logAll calls = some lines) ↔ none ∉ calls := by
  induction calls with
  | nil => simp [logAll]
  | cons call calls ih =>
    cases call with
    | none => simp [logAll]
    | some line =>
      rw [List.mem_cons, not_or, ← ih]
      simp [logAll]

theorem mem_of_logAll (h : logAll calls = some lines) (line : LogLine) :
    line ∈ lines ↔ some line ∈ calls := by
  induction calls generalizing lines with
  | nil =>
    obtain rfl : [] = lines := Option.some.inj h
    simp
  | cons call calls ih =>
    cases call with
    | none => cases h
    | some first =>
      rw [logAll, Option.bind_some, Option.map_eq_some_iff] at h
      obtain ⟨rest, hrest, rfl⟩ := h
      rw [List.mem_cons, List.mem_cons, ih hrest, Option.some_inj]

@[simp] theorem mem_block {guard : Bool} {call : Option LogLine} :
    call ∈ block guard calls ↔ guard = true ∧ call ∈ calls := by
  cases guard <;> simp [block]

@[simp] theorem none_eq_logPercent_iff {count total : UInt32} :
    none = logPercent item count total ↔ total = 0 := by
  unfold logPercent
  split_ifs with h <;> simp [h]

@[simp] theorem none_eq_logAverage_iff {time : UInt64} {count : UInt32} :
    none = logAverage item time count ↔ count = 0 := by
  unfold logAverage
  split_ifs with h <;> simp [h]

theorem some_ne_logAverage (h : item' ≠ item) (v : ℤ) (time : UInt64) (count : UInt32) :
    some (.number item' v) ≠ logAverage item time count := by
  unfold logAverage logLd
  split_ifs <;> simp [h]

theorem logPercent_eq {count total : UInt32} (hle : count.toNat ≤ total.toNat) (htotal : total ≠ 0) :
    logPercent item count total =
      some (.number item (count.toNat * 100 % 2 ^ 32 / total.toNat : ℕ)) := by
  have hpos : 0 < total.toNat := by
    rw [Nat.pos_iff_ne_zero]
    exact fun h => htotal (UInt32.toNat_inj.mp h)
  have hquotient : (count * 100 / total).toNat = count.toNat * 100 % 2 ^ 32 / total.toNat := by
    rw [UInt32.toNat_div, UInt32.toNat_mul]
    rfl
  have hlt : 2 * (count * 100 / total).toNat < 2 ^ 32 := by
    rw [hquotient]
    have hmul := Nat.div_mul_le_self (count.toNat * 100 % 2 ^ 32) total.toNat
    have hmod : count.toNat * 100 % 2 ^ 32 < 2 ^ 32 := Nat.mod_lt _ (by omega)
    rcases Nat.lt_or_ge total.toNat 2 with hone | htwo
    · have hsmall : count.toNat * 100 % 2 ^ 32 = count.toNat * 100 := Nat.mod_eq_of_lt (by omega)
      have hle100 := Nat.div_le_self (count.toNat * 100) total.toNat
      rw [hsmall]
      omega
    · have hle := Nat.mul_le_mul_left (count.toNat * 100 % 2 ^ 32 / total.toNat) htwo
      omega
  rw [logPercent, if_neg htotal, logD, BitVec.toInt_eq_toNat_of_lt hlt]
  exact congrArg (fun n : ℕ => some (LogLine.number item n)) hquotient

end Calls

namespace Counters
variable {c : Counters}

theorem mem_calls_iff_mem_percents {item : ReportItem}
    (h : item = .pencentOfNormalSql ∨ item = .pencentOfErrorSql) {v : ℤ} :
    some (.number item v) ∈ c.calls ↔ some (.number item v) ∈ c.percents := by
  rcases h with rfl | rfl <;>
    simp [calls, counts, times, averages, ending, logD, logLu, some_ne_logAverage]

/-- The only division that its guard does not keep from a divisor of zero. -/
theorem none_mem_calls_iff : none ∈ c.calls ↔
    (c.errorCount ≠ 0 ∨ c.sqlCountWhitelist ≠ 0 ∨ c.sqlCountSuspect ≠ 0) ∧ c.inserted = 0 := by
  simp [calls, percents, averages, or_assoc]

theorem inserted_eq_zero_iff : c.inserted = 0 ↔
    2 ^ 32 ∣ c.errorCount.toNat + c.sqlCountWhitelist.toNat + c.sqlCountSuspect.toNat := by
  rw [inserted, ← UInt32.toNat_inj, UInt32.toNat_add, UInt32.toNat_add, Nat.mod_add_mod,
    Nat.dvd_iff_mod_eq_zero]
  rfl

theorem exists_reportLines_iff : (∃ lines, c.reportLines = some lines) ↔
    c.errorCount.toNat + c.sqlCountWhitelist.toNat + c.sqlCountSuspect.toNat = 0 ∨
      ¬ 2 ^ 32 ∣ c.errorCount.toNat + c.sqlCountWhitelist.toNat + c.sqlCountSuspect.toNat := by
  rw [reportLines, exists_logAll_iff, none_mem_calls_iff, inserted_eq_zero_iff, not_and_or]
  apply or_congr_left
  simp only [ne_eq, ← UInt32.toNat_inj, UInt32.toNat_zero]
  omega

theorem percentage_iff {item : ReportItem} {count : UInt32} {lines : List LogLine}
    (h : c.reportLines = some lines) (hle : count.toNat ≤ c.totalCount.toNat)
    (hitem : item = .pencentOfNormalSql ∨ item = .pencentOfErrorSql)
    (hpercents : ∀ v, some (.number item v) ∈ c.percents ↔
      c.totalCount ≠ 0 ∧ some (.number item v) = logPercent item count c.totalCount) :
    c.Percentage item count lines ↔ 100 * count.toNat < 2 ^ 32 := by
  have hmem : ∀ v : ℤ, .number item v ∈ lines ↔
      c.totalCount ≠ 0 ∧ v = (count.toNat * 100 % 2 ^ 32 / c.totalCount.toNat : ℕ) := by
    intro v
    rw [mem_of_logAll h, mem_calls_iff_mem_percents hitem, hpercents]
    refine and_congr_right fun htotal => ?_
    rw [logPercent_eq hle htotal, Option.some_inj, LogLine.number.injEq]
    exact and_iff_right rfl
  unfold Percentage
  by_cases htotal : c.totalCount = 0
  · have hcount : count.toNat = 0 := by
      rw [htotal] at hle
      exact Nat.le_zero.mp hle
    simp [hmem, htotal, hcount]
  · have hpos : 0 < c.totalCount.toNat := by
      rw [Nat.pos_iff_ne_zero]
      exact fun h => htotal (UInt32.toNat_inj.mp h)
    have hexact := mod_div_eq_div_iff (a := count.toNat * 100) hpos (Nat.le_of_lt c.totalCount.toNat_lt)
    have hpercent : 100 * count.toNat / c.totalCount.toNat ≤ 100 := by
      apply Nat.div_le_of_le_mul
      rw [Nat.mul_comm]
      exact Nat.mul_le_mul_right 100 hle
    rw [Nat.mul_comm 100] at hpercent ⊢
    constructor
    · intro hall
      obtain ⟨hprinted, -⟩ := hall _ ((hmem _).mpr ⟨htotal, rfl⟩)
      exact hexact.mp (Int.ofNat_inj.mp hprinted)
    · intro hlt v hv
      obtain ⟨-, rfl⟩ := (hmem v).mp hv
      rw [hexact.mpr hlt]
      exact ⟨rfl, Int.natCast_nonneg _, by exact_mod_cast hpercent⟩

theorem percentage_normal_iff {lines : List LogLine} (h : c.reportLines = some lines)
    (hle : c.normalCount.toNat ≤ c.totalCount.toNat) :
    c.Percentage .pencentOfNormalSql c.normalCount lines ↔ 100 * c.normalCount.toNat < 2 ^ 32 :=
  percentage_iff h hle (.inl rfl) fun v => by simp [percents, logPercent, logD]

theorem percentage_error_iff {lines : List LogLine} (h : c.reportLines = some lines)
    (hle : c.errorCount.toNat ≤ c.totalCount.toNat) :
    c.Percentage .pencentOfErrorSql c.errorCount lines ↔ 100 * c.errorCount.toNat < 2 ^ 32 :=
  percentage_iff h hle (.inr rfl) fun v => by simp [percents, logPercent, logD]

/-- The report is right exactly for counters in range. -/
theorem sound_iff_inRange (h : c.normalCount.toNat + c.errorCount.toNat ≤ c.totalCount.toNat) :
    c.Sound ↔ c.InRange := by
  constructor
  · rintro ⟨lines, hlines, hn, he⟩
    exact ⟨(percentage_normal_iff hlines (by omega)).mp hn,
      (percentage_error_iff hlines (by omega)).mp he, exists_reportLines_iff.mp ⟨lines, hlines⟩⟩
  · rintro ⟨hn, he, hinserted⟩
    obtain ⟨lines, hlines⟩ := exists_reportLines_iff.mpr hinserted
    exact ⟨lines, hlines, (percentage_normal_iff hlines (by omega)).mpr hn,
      (percentage_error_iff hlines (by omega)).mpr he⟩

/-- Counters of a server that has only counted. -/
def counted (total normal error whitelist : UInt32) : Counters :=
  ⟨total, normal, error, 0, whitelist, 0, 0, 0, 0, 0, 0, 0, 0, 0, 0, 0, 0⟩

theorem sound_counted : (counted 3 2 1 2).Sound ↔ (counted 3 2 1 2).InRange :=
  sound_iff_inRange (by decide)

/-- 42949673 records, all of them normal: the report says 0 percent. One error and 2^32 - 1
entries in the whitelist: it divides by zero. -/
theorem not_sound_counted :
    ¬ (counted 42949673 42949673 0 0).Sound ∧ ¬ (counted 1 0 1 4294967295).Sound := by
  constructor
  · rintro ⟨lines, hlines, hn, -⟩
    exact absurd ((percentage_normal_iff hlines (by decide)).mp hn) (by decide)
  · rintro ⟨lines, hlines, -⟩
    exact absurd (exists_reportLines_iff.mp ⟨lines, hlines⟩) (by decide)

end Counters
end CLib.Mysql
