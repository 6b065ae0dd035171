import CLib.Base.Wrap
import Mathlib.Algebra.Order.Field.Rat
import Mathlib.Tactic.FieldSimp
import Mathlib.Tactic.Linarith
import Mathlib.Tactic.Positivity

namespace CLib.Monitor
open CLib.Base

/-- The counters of `cpu_stat_t`. -/
structure CpuStat where
  user : UInt32
  nice : UInt32
  system : UInt32
  idle : UInt32
  iowait : UInt32
  irq : UInt32
  softirq : UInt32

/-- The sum as the code computes it, on `unsigned int`. -/
def CpuStat.total (s : CpuStat) : UInt32 :=
  s.user + s.nice + s.system + s.idle + s.softirq + s.iowait + s.irq

/-- `(double)`, which is exact for an `unsigned int`. -/
def double (n : UInt32) : ℚ := n.toNat

def calCpuidle (one two : CpuStat) : ℚ :=
  let oneTotal := double one.total
  let twoTotal := double two.total
  let oneIdle := double one.idle
  let twoIdle := double two.idle
  if twoTotal - oneTotal ≠ 0 then (twoIdle - oneIdle) / (twoTotal - oneTotal) * 100 else 100

def CpuStat.time (s : CpuStat) : ℕ :=
  s.user.toNat + s.nice.toNat + s.system.toNat + s.idle.toNat + s.softirq.toNat + s.iowait.toNat +
    s.irq.toNat

/-- No counter has gone back. -/
structure Later (one two : CpuStat) : Prop where
  user : one.user ≤ two.user
  nice : one.nice ≤ two.nice
  system : one.system ≤ two.system
  idle : one.idle ≤ two.idle
  iowait : one.iowait ≤ two.iowait
  irq : one.irq ≤ two.irq
  softirq : one.softirq ≤ two.softirq

/-- The value is the share of the idle time, in percent. -/
structure IdlePercentage (one two : CpuStat) (v : ℚ) : Prop where
  nonneg : 0 ≤ v
  le_hundred : v ≤ 100
  of_time_eq : two.time = one.time → v = 100
  of_time_ne : two.time ≠ one.time →
    v = 100 * ((two.idle.toNat - one.idle.toNat : ℚ) / (two.time - one.time))

/-- The two sums lose the same multiple of 2^32, or it does not matter what they lose: there was
no idle time, and the reduced sums differ. -/
def LosesAlike (one two : CpuStat) : Prop :=
  one.time / 2 ^ 32 = two.time / 2 ^ 32 ∨
    (one.idle = two.idle ∧ one.time % 2 ^ 32 ≠ two.time % 2 ^ 32)

theorem CpuStat.toNat_total (s : CpuStat) : s.total.toNat = s.time % 2 ^ 32 := by
  simp only [CpuStat.total, CpuStat.time, UInt32.toNat_add, Nat.mod_add_mod]

/-- The share of the idle time in the time, in percent. -/
def share (idle time : ℤ) : ℚ := if time ≠ 0 then (idle : ℚ) / time * 100 else 100

section Share
variable {idle time reduced lost : ℤ}

theorem share_nonneg (hidle : 0 ≤ idle) (hle : idle ≤ time) : 0 ≤ share idle time := by
  have htime : (0 : ℚ) ≤ time := by exact_mod_cast hidle.trans hle
  have hidle : (0 : ℚ) ≤ idle := by exact_mod_cast hidle
  unfold share
  split_ifs <;> positivity

theorem share_le_hundred (hidle : 0 ≤ idle) (hle : idle ≤ time) : share idle time ≤ 100 := by
  unfold share
  split_ifs with h
  · have hpos : (0 : ℚ) < time := by
      exact_mod_cast lt_of_le_of_ne (hidle.trans hle) (Ne.symm h)
    have hone : (idle : ℚ) / time ≤ 1 := by
      rw [div_le_one hpos]
      exact_mod_cast hle
    linarith
  · exact le_refl 100

theorem share_eq_share_iff (hidle : 0 ≤ idle) (hlt : idle < 2 ^ 32) (hlost : 0 ≤ lost)
    (hreduced : reduced = time - 2 ^ 32 * lost) (hlow : -2 ^ 32 < reduced) :
    share idle reduced = share idle time ↔ lost = 0 ∨ (idle = 0 ∧ reduced ≠ 0) := by
  rcases eq_or_lt_of_le hlost with hzero | hpos
  · have heq : reduced = time := by rw [hreduced, ← hzero, Int.mul_zero, Int.sub_zero]
    simp [heq, ← hzero]
  · have htime : time ≠ 0 := by omega
    have htimeQ : (time : ℚ) ≠ 0 := by exact_mod_cast htime
    unfold share
    rw [if_pos htime]
    by_cases hzero : reduced = 0
    · -- The time is at least 2^32, and the idle time is less.
      have hne : (100 : ℚ) ≠ idle / time * 100 := by
        intro h
        have heq : (idle : ℚ) = time := by
          field_simp at h
          linarith
        have heq : idle = time := by exact_mod_cast heq
        omega
      simp [hzero, hne, hpos.ne']
    · have hzeroQ : (reduced : ℚ) ≠ 0 := by exact_mod_cast hzero
      rw [if_pos hzero]
      constructor
      · intro h
        have hmul : (idle : ℚ) * time = idle * reduced := by
          field_simp at h
          linarith
        have hmul : idle * (time - reduced) = 0 := by
          rw [Int.mul_sub, sub_eq_zero]
          exact_mod_cast hmul
        rcases mul_eq_zero.mp hmul with h0 | h0
        · exact .inr ⟨h0, hzero⟩
        · omega
      · rintro (h | ⟨rfl, -⟩)
        · omega
        · simp

end Share

section Percentage
variable {one two : CpuStat}

theorem Later.time_le (h : Later one two) : one.time ≤ two.time := by
  have huser := UInt32.le_iff_toNat_le.mp h.user
  have hnice := UInt32.le_iff_toNat_le.mp h.nice
  have hsystem := UInt32.le_iff_toNat_le.mp h.system
  have hidle := UInt32.le_iff_toNat_le.mp h.idle
  have hiowait := UInt32.le_iff_toNat_le.mp h.iowait
  have hirq := UInt32.le_iff_toNat_le.mp h.irq
  have hsoftirq := UInt32.le_iff_toNat_le.mp h.softirq
  unfold CpuStat.time
  omega

theorem Later.idle_le (h : Later one two) :
    (two.idle.toNat : ℤ) - one.idle.toNat ≤ two.time - one.time := by
  have huser := UInt32.le_iff_toNat_le.mp h.user
  have hnice := UInt32.le_iff_toNat_le.mp h.nice
  have hsystem := UInt32.le_iff_toNat_le.mp h.system
  have hiowait := UInt32.le_iff_toNat_le.mp h.iowait
  have hirq := UInt32.le_iff_toNat_le.mp h.irq
  have hsoftirq := UInt32.le_iff_toNat_le.mp h.softirq
  unfold CpuStat.time
  omega

theorem calCpuidle_eq_share (one two : CpuStat) : calCpuidle one two =
    share (two.idle.toNat - one.idle.toNat) (two.total.toNat - one.total.toNat) := by
  have hne : double two.total - double one.total ≠ 0 ↔
      (two.total.toNat : ℤ) - one.total.toNat ≠ 0 := by
    unfold double
    rw [sub_ne_zero, sub_ne_zero]
    exact_mod_cast Iff.rfl
  unfold calCpuidle share
  by_cases htotal : double two.total - double one.total ≠ 0
  · rw [if_pos (hne.mp htotal)]
    apply (if_pos htotal).trans
    unfold double
    push_cast
    rfl
  · rw [if_neg (mt hne.mpr htotal)]
    exact if_neg htotal

theorem idlePercentage_iff (h : Later one two) (v : ℚ) : IdlePercentage one two v ↔
    v = share (two.idle.toNat - one.idle.toNat) (two.time - one.time) := by
  have hidle : (0 : ℤ) ≤ (two.idle.toNat : ℤ) - one.idle.toNat := by
    have hle := UInt32.le_iff_toNat_le.mp h.idle
    omega
  have hne : (two.time : ℤ) - one.time ≠ 0 ↔ two.time ≠ one.time := by omega
  constructor
  · intro hv
    unfold share
    split_ifs with htime
    · rw [hv.of_time_ne (hne.mp htime)]
      push_cast
      exact mul_comm _ _
    · exact hv.of_time_eq (by omega)
  · rintro rfl
    refine ⟨share_nonneg hidle h.idle_le, share_le_hundred hidle h.idle_le, fun htime => ?_,
      fun htime => ?_⟩
    · exact if_neg (by omega)
    · rw [share, if_pos (hne.mpr htime)]
      push_cast
      exact mul_comm _ _

/-- The value is the percentage exactly if both sums lose the same. -/
theorem idlePercentage_calCpuidle_iff (h : Later one two) :
    IdlePercentage one two (calCpuidle one two) ↔ LosesAlike one two := by
  have hidle := UInt32.le_iff_toNat_le.mp h.idle
  have hlt := two.idle.toNat_lt
  have htime := Nat.div_le_div_right (c := 2 ^ 32) h.time_le
  have hreduced := sub_mod_eq one.time two.time (2 ^ 32)
  have hone : one.time % 2 ^ 32 < 2 ^ 32 := Nat.mod_lt _ (by omega)
  rw [idlePercentage_iff h, calCpuidle_eq_share, CpuStat.toNat_total, CpuStat.toNat_total,
    share_eq_share_iff (by omega) (by omega) (by omega) hreduced (by omega)]
  refine or_congr (by omega) (and_congr ?_ (by omega))
  rw [← UInt32.toNat_inj]
  omega

/-- A quarter of the time was idle. -/
theorem idlePercentage_quarter :
    IdlePercentage ⟨1, 0, 0, 1, 0, 0, 0⟩ ⟨4, 0, 0, 2, 0, 0, 0⟩
      (calCpuidle ⟨1, 0, 0, 1, 0, 0, 0⟩ ⟨4, 0, 0, 2, 0, 0, 0⟩) ↔
    LosesAlike ⟨1, 0, 0, 1, 0, 0, 0⟩ ⟨4, 0, 0, 2, 0, 0, 0⟩ :=
  idlePercentage_calCpuidle_iff ⟨by decide, by decide, by decide, by decide, by decide, by decide,
    by decide⟩

/-- The second sum wraps to zero, and the idle percentage is negative. -/
theorem not_idlePercentage_wrapped :
    Later ⟨4294967295, 0, 0, 0, 0, 0, 0⟩ ⟨4294967295, 0, 0, 1, 0, 0, 0⟩ ∧
      ¬ IdlePercentage ⟨4294967295, 0, 0, 0, 0, 0, 0⟩ ⟨4294967295, 0, 0, 1, 0, 0, 0⟩
        (calCpuidle ⟨4294967295, 0, 0, 0, 0, 0, 0⟩ ⟨4294967295, 0, 0, 1, 0, 0, 0⟩) := by
  refine ⟨⟨by decide, by decide, by decide, by decide, by decide, by decide, by decide⟩, fun h => ?_⟩
  exact absurd h.nonneg (by decide +kernel)

end Percentage
end CLib.Monitor
