import Catchb.LogStore
import Catchb.Proofs.LogPaging

/-! When the logs that are deleted for their age are those that are too old. -/

namespace Catchb.Proofs.LogRetention
open Lib DB

/-- The start of the day less the period. -/
def cutoff (xCurrentDate : TimeT) (ulRetentionPeriod : UInt32) : Int :=
  xCurrentDate.value - 86400 * ulRetentionPeriod.toNat

/-- The logs are gone that are older, and no others. -/
def Retains (xCurrentDate : TimeT) (ulRetentionPeriod : UInt32) (t : LogTable) : Prop :=
  (removeExpiredLog xCurrentDate ulRetentionPeriod t).2 =
    t.remove (fun r => decide ((r.ulTime.toNat : Int) < cutoff xCurrentDate ulRetentionPeriod))

/-- A cutoff that is a number of 32 bits divides the texts of the times as it does the times. One
that is not has its lower 32 bits to the right side of every text, unless it is not reached. -/
structure Readable (xCurrentDate : TimeT) (ulRetentionPeriod : UInt32) (t : LogTable) : Prop where
  within : 0 < cutoff xCurrentDate ulRetentionPeriod →
    cutoff xCurrentDate ulRetentionPeriod < 0x100000000 →
    ∀ r ∈ t.rows, r.time < decimal (cutoff xCurrentDate ulRetentionPeriod) ↔
      (r.ulTime.toNat : Int) < cutoff xCurrentDate ulRetentionPeriod
  before : cutoff xCurrentDate ulRetentionPeriod ≤ 0 →
    xCurrentDate.exceeds (ulRetentionPeriod * 24 * 3600) = true →
    ∀ r ∈ t.rows, decimal (cutoff xCurrentDate ulRetentionPeriod % 0x100000000) ≤ r.time
  behind : 0x100000000 ≤ cutoff xCurrentDate ulRetentionPeriod →
    ∀ r ∈ t.rows, r.time < decimal (cutoff xCurrentDate ulRetentionPeriod % 0x100000000)

variable {xCurrentDate : TimeT} {ulRetentionPeriod : UInt32} {t : LogTable}

theorem toNat_seconds (ulRetentionPeriod : UInt32) :
    (ulRetentionPeriod * 24 * 3600).toNat = 86400 * ulRetentionPeriod.toNat % 0x100000000 := by
  have h24 : (24 : UInt32).toNat = 24 := rfl
  have h3600 : (3600 : UInt32).toNat = 3600 := rfl
  rw [UInt32.toNat_mul, UInt32.toNat_mul, h24, h3600]
  omega

theorem toNat_minus (xTime : TimeT) (ul : UInt32) :
    ((xTime.minus ul).toNat : Int) = (xTime.value - ul.toNat) % 0x100000000 := by
  have hul : ul.toBitVec.toNat = ul.toNat := rfl
  have hlt := ul.toNat_lt
  cases xTime with
  | long32 x =>
    have hx := x.isLt
    have hminus : ((TimeT.long32 x).minus ul).toNat = (x - ul.toBitVec).toNat := rfl
    rw [hminus, BitVec.toNat_sub, hul, TimeT.value, BitVec.toInt_eq_toNat_cond]
    split <;> omega
  | long64 x =>
    have hx := x.isLt
    have hminus : ((TimeT.long64 x).minus ul).toNat =
        ((x - ul.toBitVec.setWidth 64).setWidth 32).toNat := rfl
    rw [hminus, BitVec.toNat_setWidth, BitVec.toNat_sub, BitVec.toNat_setWidth, hul, TimeT.value,
      BitVec.toInt_eq_toNat_cond]
    split <;> omega

/-- The subtraction gives the lower 32 bits of the cutoff. -/
theorem toNat_expiration (xCurrentDate : TimeT) (ulRetentionPeriod : UInt32) :
    ((xCurrentDate.minus (ulRetentionPeriod * 24 * 3600)).toNat : Int) =
      cutoff xCurrentDate ulRetentionPeriod % 0x100000000 := by
  rw [toNat_minus, toNat_seconds, cutoff]
  omega

/-- A date behind the period exceeds what is left of it in 32 bits. -/
theorem exceeds_of_pos (h : 0 < cutoff xCurrentDate ulRetentionPeriod) :
    xCurrentDate.exceeds (ulRetentionPeriod * 24 * 3600) = true := by
  have hseconds := toNat_seconds ulRetentionPeriod
  rw [cutoff] at h
  cases xCurrentDate with
  | long32 x =>
    have hx := x.isLt
    have hul : (ulRetentionPeriod * 24 * 3600).toBitVec.toNat =
        (ulRetentionPeriod * 24 * 3600).toNat := rfl
    rw [TimeT.value, BitVec.toInt_eq_toNat_cond] at h
    rw [TimeT.exceeds, BitVec.ult, decide_eq_true_eq, hul]
    split at h <;> omega
  | long64 x =>
    rw [TimeT.value] at h
    rw [TimeT.exceeds, decide_eq_true_eq]
    omega

/-- Log by log, what the statement takes for old is old. -/
theorem retains_iff_rows : Retains xCurrentDate ulRetentionPeriod t ↔
    ∀ r ∈ t.rows, (xCurrentDate.exceeds (ulRetentionPeriod * 24 * 3600) = true ∧
      r.time < decimal (cutoff xCurrentDate ulRetentionPeriod % 0x100000000)) ↔
      (r.ulTime.toNat : Int) < cutoff xCurrentDate ulRetentionPeriod := by
  rw [Retains, removeExpiredLog, ← toNat_expiration]
  split
  · rename_i hexceeds
    simp [LogTable.remove_eq_iff, hexceeds]
  · rename_i hexceeds
    simp [LogTable.eq_remove_iff, hexceeds]

theorem Readable.retains (h : Readable xCurrentDate ulRetentionPeriod t) :
    Retains xCurrentDate ulRetentionPeriod t := by
  rw [retains_iff_rows]
  intro r hr
  have htime := r.ulTime.toNat_lt
  rcases le_or_gt (cutoff xCurrentDate ulRetentionPeriod) 0 with hle | hpos
  · constructor
    · rintro ⟨hexceeds, hlt⟩
      exact absurd hlt (not_lt.mpr (h.before hle hexceeds r hr))
    · intro hold
      omega
  · rw [and_iff_right (exceeds_of_pos hpos)]
    rcases lt_or_ge (cutoff xCurrentDate ulRetentionPeriod) 0x100000000 with hlt | hge
    · rw [Int.emod_eq_of_lt hpos.le hlt]
      exact h.within hpos hlt r hr
    · exact iff_of_true (h.behind hge r hr) (by omega)

/-- A number of ten digits. -/
def TenDigits (n : Int) : Prop := 1000000000 ≤ n ∧ n < 10000000000

theorem decimal_lt_iff {i j : Int} (hi : TenDigits i) (hj : TenDigits j) :
    decimal i < decimal j ↔ i < j := by
  have hlength {n : Nat} (hn : TenDigits n) : (Nat.toDigits 10 n).length = 10 := by
    obtain ⟨hlow, hhigh⟩ := hn
    have hdigits {k : Nat} (hk : 0 < k) : (Nat.toDigits 10 n).length ≤ k ↔ n < 10 ^ k :=
      Nat.length_toDigits_le_iff (by decide) hk
    have hle := (hdigits (k := 10) (by decide)).mpr (by omega)
    have hgt := mt (hdigits (k := 9) (by decide)).mp (by omega)
    omega
  obtain ⟨m, rfl⟩ := Int.eq_ofNat_of_zero_le (a := i) (by have := hi.1; omega)
  obtain ⟨n, rfl⟩ := Int.eq_ofNat_of_zero_le (a := j) (by have := hj.1; omega)
  rw [Int.ofNat_lt]
  exact Numerals.toDigits_lt_iff ((hlength hi).trans (hlength hj).symm)

/-- Logs and a cutoff between the autumn of 2001 and the start of 2038 are told apart. -/
theorem retains_of_tenDigits (hcutoff : TenDigits (cutoff xCurrentDate ulRetentionPeriod))
    (hlt : cutoff xCurrentDate ulRetentionPeriod < 0x80000000)
    (hrows : ∀ r ∈ t.rows, TenDigits r.ulTime.toNat ∧ r.ulTime.toNat < 0x80000000) :
    Retains xCurrentDate ulRetentionPeriod t := by
  have hlow := hcutoff.1
  refine Readable.retains ⟨fun _ _ r hr => ?_, fun hle => ?_, fun hge => ?_⟩
  · obtain ⟨hten, hsmall⟩ := hrows r hr
    have hsigned : r.ulTime.toBitVec.toInt = r.ulTime.toNat := by
      have hval : r.ulTime.toBitVec.toNat = r.ulTime.toNat := rfl
      rw [BitVec.toInt_eq_toNat_cond, hval, if_pos (by omega)]
    rw [LogRow.time, hsigned]
    exact decimal_lt_iff hten hcutoff
  · omega
  · omega

end Catchb.Proofs.LogRetention
