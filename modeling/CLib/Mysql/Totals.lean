import CLib.Mysql.PrintReport
import CLib.Mysql.Verdicts
import Mathlib.Data.List.Dedup

namespace CLib.Mysql
open CLib.Base

/-- What `print_report` finds in the globals: the times are those of `times`, and nothing is
inserted into `g_hash_table_for_normal_sql`. -/
def Caches.counters (c : Caches) (times : Counters) : Counters :=
  { times with
    totalCount := c.totalCount
    normalCount := c.normalCount
    errorCount := c.errorCount
    reSqlCount := c.reSqlCount
    sqlCountWhitelist := 0
    sqlCountBlacklist := .ofNat c.error.dedup.length
    sqlCountSuspect := .ofNat c.suspect.dedup.length
    sqlCountException := .ofNat c.exception.dedup.length }

/-- The counters as `sql_init` leaves them, and tables of a size that leaves `%d` room. -/
structure Caches.Fresh (c : Caches) : Prop where
  totalCount : c.totalCount = 0
  normalCount : c.normalCount = 0
  errorCount : c.errorCount = 0
  reSqlCount : c.reSqlCount = 0
  error : c.error.dedup.length < 2 ^ 30
  suspect : c.suspect.dedup.length < 2 ^ 30
  exception : c.exception.dedup.length < 2 ^ 30

/-- The first lines of a report with these numbers. -/
def report (total normal white black suspects exceptions errors re : ℕ) : List LogLine :=
  [.message "Dumping report.......\n".toList,
    .message "=========================================================\n".toList,
    .number .totalSqlCount total,
    .number .totalNormalSqlCount normal,
    .number .totalCountInWhitelist white,
    .number .totalCountInBlacklist black,
    .number .totalCountInSuspectlist suspects,
    .number .totalCountInExceptionList exceptions,
    .number .totalErrorSqlCount errors,
    .number .totalInsertIntoDB (errors + white + suspects : ℕ),
    .number .totalSqlCheckedWithRe re] ++
  if total = 0 then []
  else [.number .pencentOfNormalSql (100 * normal / total : ℕ),
    .number .pencentOfErrorSql (100 * errors / total : ℕ)]

/-- The report of a run: normal records are counted only if the machine-learning server has found
them so, and the tables have their sizes at the start and what the run has added. -/
def reportOfRun (normalize : Text → UInt32) (ml : Bool) (c₀ : Caches) (h : List Handled) : List LogLine :=
  let os := outcomes h
  report (os.countP (· ≠ .exempt)) (if ml then os.count .normalInserted else 0) 0
    (c₀.error.dedup.length + os.count .errorInserted)
    (c₀.suspect.dedup.length + os.count .suspectInserted)
    (c₀.exception.dedup.length + (exceptionsOf normalize h).length)
    (os.count .errorInserted) (os.countP Outcome.accepted)

section Report
variable {normalize : Text → UInt32} {ml : Bool} {c₀ : Caches} {s : Audited} {calls : List Call}

theorem logAll_map_some (lines : List LogLine) (calls : List (Option LogLine)) :
    logAll (lines.map some ++ calls) = (logAll calls).map (lines ++ ·) := by
  induction lines with
  | nil => simp
  | cons line lines ih =>
    rw [List.map_cons, List.cons_append, logAll, Option.bind_some, ih, Option.map_map]
    rfl

theorem logD_eq {n : ℕ} {x : UInt32} (item : ReportItem) (hx : x.toNat = n) (hn : 2 * n < 2 ^ 32) :
    logD item x = .number item n := by
  rw [logD, BitVec.toInt_eq_toNat_of_lt (by rw [UInt32.toNat_toBitVec, hx]; exact hn),
    UInt32.toNat_toBitVec, hx]

theorem length_dedup_append {α : Type} [DecidableEq α] {new old : List α} (hnew : new.Nodup)
    (hfresh : ∀ k ∈ new, k ∉ old) : (new ++ old).dedup.length = old.dedup.length + new.length := by
  induction new with
  | nil => rfl
  | cons k new ih =>
    obtain ⟨hk, hnew⟩ := List.nodup_cons.mp hnew
    obtain ⟨hold, hfresh⟩ := List.forall_mem_cons.mp hfresh
    rw [List.cons_append, List.dedup_cons_of_notMem (List.mem_append.not.mpr (not_or.mpr ⟨hk, hold⟩)),
      List.length_cons, ih hnew hfresh, List.length_cons]
    omega

theorem toNat_zero_add_ofNat {x x₀ : UInt32} {n : ℕ} (hx : x = x₀ + .ofNat n) (hx₀ : x₀ = 0)
    (hn : n < 2 ^ 32) : x.toNat = n := by
  rw [hx, hx₀, UInt32.zero_add, UInt32.toNat_ofNat', Nat.mod_eq_of_lt hn]

theorem numbers_of_run (hs : s.Sound normalize ml c₀) (hfresh : c₀.Fresh)
    (hlen : 100 * s.history.length < 2 ^ 32) :
    let os := outcomes s.history
    s.caches.totalCount.toNat = os.countP (· ≠ .exempt) ∧
      s.caches.normalCount.toNat = (if ml then os.count .normalInserted else 0) ∧
      s.caches.errorCount.toNat = os.count .errorInserted ∧
      s.caches.reSqlCount.toNat = os.countP Outcome.accepted ∧
      s.caches.error.dedup.length = c₀.error.dedup.length + os.count .errorInserted ∧
      s.caches.suspect.dedup.length = c₀.suspect.dedup.length + os.count .suspectInserted ∧
      s.caches.exception.dedup.length =
        c₀.exception.dedup.length + (exceptionsOf normalize s.history).length := by
  obtain ⟨-, ht, hc⟩ := hs
  have hos := length_outcomes_le s.history
  have hcount : ∀ o : Outcome, (outcomes s.history).count o ≤ (outcomes s.history).length :=
    fun o => List.count_le_length
  have hcountP : ∀ p : Outcome → Bool, (outcomes s.history).countP p ≤ (outcomes s.history).length :=
    fun p => List.countP_le_length
  have hnormal := hcount .normalInserted
  refine ⟨?_, ?_, ?_, ?_, ?_, ?_, ?_⟩
  · have htotal := hcountP (· ≠ .exempt)
    exact toNat_zero_add_ofNat hc.totalCount hfresh.totalCount (by omega)
  · refine toNat_zero_add_ofNat hc.normalCount hfresh.normalCount ?_
    split_ifs <;> omega
  · have herror := hcount .errorInserted
    exact toNat_zero_add_ofNat hc.errorCount hfresh.errorCount (by omega)
  · have hre := hcountP Outcome.accepted
    exact toNat_zero_add_ofNat hc.reSqlCount hfresh.reSqlCount (by omega)
  · have hnew : ∀ id ∈ (added normalize s.history).error, id ∉ c₀.error := fun id hid =>
      (ht.verdicts_new id (List.mem_append_right _ hid)).2
    rw [ht.error, length_dedup_append (List.nodup_append.mp ht.verdicts).2.1 hnew]
    exact congrArg _ (length_idsOf _ _)
  · rw [ht.suspect, length_dedup_append ht.suspect_nodup fun k hk => (ht.suspect_new k hk).1]
    exact congrArg _ (length_suspectsOf _)
  · rw [ht.exception, length_dedup_append ht.exception_nodup ht.exception_new]
    rfl

/-- The report on numbers that `%d` and the products have room for begins with them. -/
theorem counts_append_percents {c : Counters} {total normal errors re white black suspects exceptions : ℕ}
    (htotal : c.totalCount.toNat = total) (hnormal : c.normalCount.toNat = normal)
    (herrors : c.errorCount.toNat = errors) (hre : c.reSqlCount.toNat = re)
    (hwhite : c.sqlCountWhitelist.toNat = white) (hblack : c.sqlCountBlacklist.toNat = black)
    (hsuspects : c.sqlCountSuspect.toNat = suspects) (hexceptions : c.sqlCountException.toNat = exceptions)
    (hle : normal ≤ total) (hle' : errors ≤ total) (htotal' : 100 * total < 2 ^ 32)
    (hre' : 2 * re < 2 ^ 32) (hblack' : 2 * black < 2 ^ 32) (hexceptions' : 2 * exceptions < 2 ^ 32)
    (hinserted' : 2 * (errors + white + suspects) < 2 ^ 32) :
    c.counts.map some ++ c.percents =
      (report total normal white black suspects exceptions errors re).map some := by
  have hinserted : c.inserted.toNat = errors + white + suspects := by
    rw [Counters.inserted, UInt32.toNat_add, UInt32.toNat_add, herrors, hwhite, hsuspects,
      Nat.mod_add_mod, Nat.mod_eq_of_lt (by omega)]
  have hpercent : ∀ (item : ReportItem) (count : UInt32) (n : ℕ), count.toNat = n → n ≤ total →
      c.totalCount ≠ 0 →
      logPercent item count c.totalCount = some (.number item (100 * n / total : ℕ)) := by
    intro item count n hn hcount hpos
    rw [logPercent_eq (by omega) hpos, htotal, hn, Nat.mod_eq_of_lt (by omega), Nat.mul_comm]
  have hzero : c.totalCount = 0 ↔ total = 0 := by
    rw [← UInt32.toNat_inj, htotal]
    rfl
  rw [Counters.counts, logD_eq .totalSqlCount htotal (by omega),
    logD_eq .totalNormalSqlCount hnormal (by omega),
    logD_eq .totalCountInWhitelist hwhite (by omega), logD_eq .totalCountInBlacklist hblack hblack',
    logD_eq .totalCountInSuspectlist hsuspects (by omega),
    logD_eq .totalCountInExceptionList hexceptions hexceptions',
    logD_eq .totalErrorSqlCount herrors (by omega), logD_eq .totalInsertIntoDB hinserted hinserted',
    logD_eq .totalSqlCheckedWithRe hre hre', report, List.map_append]
  congr 1
  rw [Counters.percents]
  split_ifs with htot
  · rw [block, if_neg (by simpa using hzero.mpr htot)]
    rfl
  · have hne : c.totalCount ≠ 0 := mt hzero.mp htot
    rw [block, if_pos (by simpa using hne), hpercent _ _ _ hnormal hle hne,
      hpercent _ _ _ herrors hle' hne]
    rfl

/-- After any run of fewer than 42949673 calls, `print_report` divides by no zero, and its report
begins with the true counts and percentages of the outcomes. -/
theorem report_of_run (h : runFrom (Audited.step normalize ml) ⟨c₀, []⟩ calls = some s)
    (hfresh : c₀.Fresh) (hlen : 100 * calls.length < 2 ^ 32) (times : Counters) :
    ∃ rest, (s.caches.counters times).printReport =
      some (((reportOfRun normalize ml c₀ s.history ++ rest).map LogLine.text).flatten) := by
  have hs := sound_of_run h
  have hhistory : s.history.length = calls.length := by
    simpa using congrArg List.length (calls_of_run h)
  rw [← hhistory] at hlen
  obtain ⟨htotal, hnormal, herrors, hre, hblack, hsuspects, hexceptions⟩ := numbers_of_run hs hfresh hlen
  have hos := length_outcomes_le s.history
  have hle : ∀ o : Outcome, o ≠ .exempt →
      (outcomes s.history).count o ≤ (outcomes s.history).countP (· ≠ .exempt) := by
    intro o ho
    apply List.countP_mono_left
    intro x _ hx
    rw [beq_iff_eq] at hx
    simpa [hx] using ho
  have hnormal' := hle .normalInserted (by decide)
  have herrors' := hle .errorInserted (by decide)
  have htotal' : (outcomes s.history).countP (· ≠ .exempt) ≤ _ := List.countP_le_length
  have hre' : (outcomes s.history).countP Outcome.accepted ≤ _ := List.countP_le_length
  have hsuspects' : (outcomes s.history).count .suspectInserted ≤ _ := List.count_le_length
  have hexceptions' := @length_exceptionsOf_le normalize s.history
  obtain ⟨-, -, -, -, herror₀, hsuspect₀, hexception₀⟩ := hfresh
  have hofNat : ∀ m n : ℕ, m = n → n < 2 ^ 31 → (UInt32.ofNat m).toNat = n := by
    rintro m n rfl hn
    rw [UInt32.toNat_ofNat', Nat.mod_eq_of_lt (by omega)]
  have hsize := hofNat _ _ hsuspects (by omega)
  have hbegin := counts_append_percents (c := s.caches.counters times) htotal hnormal herrors hre
    (show (0 : UInt32).toNat = 0 from rfl) (hofNat _ _ hblack (by omega)) hsize
    (hofNat _ _ hexceptions (by omega)) (by split_ifs <;> omega) herrors' (by omega) (by omega)
    (by omega) (by omega) (by omega)
  obtain ⟨lines, hlines⟩ : ∃ lines, (s.caches.counters times).reportLines = some lines := by
    rw [Counters.exists_reportLines_iff]
    show s.caches.errorCount.toNat + 0 + (UInt32.ofNat s.caches.suspect.dedup.length).toNat = 0 ∨
      ¬ 2 ^ 32 ∣ s.caches.errorCount.toNat + 0 + (UInt32.ofNat s.caches.suspect.dedup.length).toNat
    rw [hsize, herrors]
    refine or_iff_not_imp_left.mpr fun hpos hdvd => ?_
    have hge := Nat.le_of_dvd (Nat.pos_of_ne_zero hpos) hdvd
    omega
  rw [Counters.printReport, hlines]
  rw [Counters.reportLines, Counters.calls, hbegin, List.append_assoc, List.append_assoc,
    logAll_map_some] at hlines
  obtain ⟨rest, -, rfl⟩ := Option.map_eq_some_iff.mp hlines
  exact ⟨rest, rfl⟩

theorem fresh_noCaches : noCaches.Fresh := by constructor <;> decide

def noTimes : Counters := ⟨0, 0, 0, 0, 0, 0, 0, 0, 0, 0, 0, 0, 0, 0, 0, 0, 0⟩

/-- Two records, one of them normal, the other one known. -/
theorem report_of_run_twiceNormal :
    reportOfRun (fun _ => 7) true noCaches twiceNormalEnd.history = report 2 1 0 0 0 0 0 1 ∧
      ∃ rest, (twiceNormalEnd.caches.counters noTimes).printReport =
        some (((reportOfRun (fun _ => 7) true noCaches twiceNormalEnd.history ++
          rest).map LogLine.text).flatten) :=
  ⟨by decide +kernel, report_of_run run_twiceNormal fresh_noCaches (by decide) noTimes⟩

end Report
end CLib.Mysql
