import Catchb.Proofs.TimeSums
import Mathlib.Tactic.Linarith
import Mathlib.Tactic.Ring

/-! Times moved by a number of units. -/

namespace Catchb.Proofs.TimeShifts
open FtmTime TimeSums

inductive Shift
  | addMS
  | addSecs
  | addMins
  | addHours
  | addDays
  | subMS
  | subSecs
  | subMins
  | subHours
  | subDays

section
variable {m : DataModel} (a : FtmTime m) (n : UInt32)

def shifted : Shift → FtmTime m
  | .addMS => a.addMS n
  | .addSecs => a.addSecs n
  | .addMins => a.addMins n
  | .addHours => a.addHours n
  | .addDays => a.addDays n
  | .subMS => a.subMS n
  | .subSecs => a.subSecs n
  | .subMins => a.subMins n
  | .subHours => a.subHours n
  | .subDays => a.subDays n

/-- The microseconds of the shift's units. -/
def amount : Shift → Int
  | .addMS | .subMS => 1000 * n.toNat
  | .addSecs | .subSecs => 1000000 * n.toNat
  | .addMins | .subMins => 60000000 * n.toNat
  | .addHours | .subHours => 3600000000 * n.toNat
  | .addDays | .subDays => 86400000000 * n.toNat

/-- What the result should come to. -/
def target (shift : Shift) : Int :=
  match shift with
  | .addMS | .addSecs | .addMins | .addHours | .addDays => us a + amount n shift
  | .subMS | .subSecs | .subMins | .subHours | .subDays => max 0 (us a - amount n shift)

def Exact (shift : Shift) : Prop :=
  Proper (shifted a n shift) ∧ us (shifted a n shift) = target a n shift

/-- The seconds that a number of units comes to fit 32 bits, and those of the sum a `time_t`. -/
def AddFits (seconds : Nat) : Prop :=
  seconds * n.toNat < 0x100000000 ∧ a.tv_sec.toInt + (seconds * n.toNat : Nat) < m.limit

/-- When a shift is exact. The seconds of minutes, hours and days are taken modulo 2^32. -/
def Fits : Shift → Prop
  | .addMS => 1000 * n.toNat < 0x100000000 ∧ a.tv_usec.toInt + 1000 * n.toNat < m.limit ∧
      a.tv_sec.toInt + (a.tv_usec.toInt + 1000 * n.toNat) / 1000000 < m.limit
  | .addSecs => AddFits a n 1
  | .addMins => AddFits a n 60
  | .addHours => AddFits a n 3600
  | .addDays => AddFits a n 86400
  | .subMS | .subSecs => us a < 0x10000000000000000
  | .subMins => us a < 0x10000000000000000 ∧
      (60 * n.toNat < 0x100000000 ∨ us a ≤ 1000000 * (60 * n.toNat % 0x100000000 : Nat))
  | .subHours => us a < 0x10000000000000000 ∧
      (n.toNat = 0 ∨ us a ≤ 1000000 * (3600 * n.toNat % 0x100000000 : Nat))
  | .subDays => n.toNat = 0 ∧ us a < 0x10000000000000000 ∨
      us a ≤ 86400000000 * n.toNat ∧
        (us a % 0x10000000000000000 ≤ 1000 * (86400 * n.toNat % 0x100000000 : Nat) ∨
          us a % 0x10000000000000000 = 1000 * n.toNat)

end

section
variable {m : DataModel} {a : FtmTime m} {n : UInt32} {x : Int}

theorem neg_limit_le (v : Long m) : -(m.limit : Int) ≤ v.toInt := by
  rw [← half_width]
  exact BitVec.le_toInt v

/-- What is stored has lost a multiple of 2^32 or of 2^64. -/
theorem toInt_store_eq (m : DataModel) (x : Int) :
    ∃ k : Int, (Long.store m x).toInt = x - 2 * m.limit * k := by
  have hwidth : ((2 ^ m.width : Nat) : Int) = 2 * m.limit := by cases m <;> rfl
  refine ⟨x.bdiv (2 ^ m.width), ?_⟩
  rw [Long.store, BitVec.toInt_ofInt, Int.bmod_eq_self_sub_mul_bdiv, hwidth]

/-- A value that is not negative only gets smaller. -/
theorem toInt_store_le (hx : 0 ≤ x) : (Long.store m x).toInt ≤ x := by
  obtain ⟨k, hk⟩ := toInt_store_eq m x
  have hless := long_lt (Long.store m x)
  have hlimit := limit_cases (m := m)
  rcases hlimit with hlimit | hlimit <;> rw [hlimit] at hk hless <;> omega

/-- Seconds that have lost nothing are added exactly. -/
theorem addSecs_exact_iff (ha : Proper a) {k : UInt32} {seconds : Nat}
    (hk : k.toNat = seconds * n.toNat % 0x100000000) :
    Proper (a.addSecs k) ∧ us (a.addSecs k) = us a + 1000000 * (seconds * n.toNat : Nat) ↔
      AddFits a n seconds := by
  obtain ⟨hsec, husec, hless⟩ := ha
  have hle := Nat.mod_le (seconds * n.toNat) 0x100000000
  have hadd : us (a.addSecs k) =
      (Long.store m (a.tv_sec.toInt + k.toNat)).toInt * 1000000 + a.tv_usec.toInt := rfl
  have hdown := toInt_store_le (m := m) (x := a.tv_sec.toInt + k.toNat) (by omega)
  constructor
  · intro h
    obtain ⟨-, hus⟩ := h
    have hmax := long_lt (Long.store m (a.tv_sec.toInt + k.toNat))
    rw [hadd, us] at hus
    constructor <;> omega
  · intro h
    obtain ⟨hfits, hsum⟩ := h
    have hsame : k.toNat = seconds * n.toNat := by rw [hk, Nat.mod_eq_of_lt hfits]
    have hstore := toInt_store (m := m) (x := a.tv_sec.toInt + k.toNat) (by omega) (by omega)
    refine ⟨⟨?_, husec, hless⟩, ?_⟩
    · change 0 ≤ (Long.store m (a.tv_sec.toInt + k.toNat)).toInt
      omega
    · rw [hadd, us]
      omega

/-- Milliseconds are carried into the seconds while they fit 32 bits and, with the microseconds, a
`long`. -/
theorem addMS_exact_iff (ha : Proper a) : Exact a n .addMS ↔ Fits a n .addMS := by
  obtain ⟨hsec, husec, hless⟩ := ha
  have hlimit := limit_cases (m := m)
  have hk : (n * 1000).toNat = n.toNat * 1000 % 0x100000000 := UInt32.toNat_mul _ _
  have hkle := Nat.mod_le (n.toNat * 1000) 0x100000000
  have hdown := toInt_store_le (m := m) (x := a.tv_usec.toInt + (n * 1000).toNat) (by omega)
  have hadd : a.addMS n =
      ⟨.store m (a.tv_sec.toInt +
        (Long.store m (a.tv_usec.toInt + (n * 1000).toNat)).toInt.tdiv 1000000),
        .store m ((Long.store m (a.tv_usec.toInt + (n * 1000).toNat)).toInt.tmod 1000000)⟩ := rfl
  generalize hsum : Long.store m (a.tv_usec.toInt + (n * 1000).toNat) = sum at hdown hadd
  have hsummin := neg_limit_le sum
  have hsummax := long_lt sum
  -- The quotient and the rest are cut towards zero, and the rest has the sum's sign.
  have hsplit := Int.mul_tdiv_add_tmod sum.toInt 1000000
  have hrestmin := Int.lt_tmod_of_pos sum.toInt (b := 1000000) (by decide)
  have hrestmax := Int.tmod_lt_of_pos sum.toInt (b := 1000000) (by decide)
  have hrestpos := Int.tmod_nonneg (a := sum.toInt) 1000000
  generalize sum.toInt.tdiv 1000000 = q at hsplit hadd
  generalize sum.toInt.tmod 1000000 = r at hsplit hrestmin hrestmax hrestpos hadd
  have hrest : (Long.store m r).toInt = r := toInt_store (by omega) (by omega)
  have hmax := long_lt (Long.store m (a.tv_sec.toInt + q))
  have hus : us (a.addMS n) = (Long.store m (a.tv_sec.toInt + q)).toInt * 1000000 + r := by
    rw [hadd, us, hrest]
  have hcarry : (Long.store m (a.tv_sec.toInt + q)).toInt ≤ a.tv_sec.toInt + q := by
    by_cases hneg : a.tv_sec.toInt + q < 0
    · exact Int.le_of_eq (toInt_store (by omega) (by omega))
    · exact toInt_store_le (by omega)
  simp only [Exact, shifted, target, amount, Fits]
  constructor
  · intro h
    obtain ⟨hproper, htarget⟩ := h
    have hrestpos := hproper.usec
    rw [hadd, hrest] at hrestpos
    rw [hus, us] at htarget
    refine ⟨?_, ?_, ?_⟩ <;> omega
  · intro h
    obtain ⟨hfits, hlong, htime⟩ := h
    have hexact : sum.toInt = a.tv_usec.toInt + 1000 * n.toNat := by
      rw [← hsum, toInt_store] <;> omega
    have hq : q = (a.tv_usec.toInt + 1000 * n.toNat) / 1000000 := by omega
    have hstore := toInt_store (m := m) (x := a.tv_sec.toInt + q) (by omega) (by omega)
    refine ⟨?_, ?_⟩
    · rw [hadd]
      constructor
      · rw [hstore]
        omega
      · rw [hrest]
        omega
      · rw [hrest]
        omega
    · rw [hus, hstore, us]
      omega

/-- The count of microseconds in 64 bits. -/
theorem toNat_ofInt_us (a : FtmTime m) :
    ((UInt64.ofInt (us a)).toNat : Int) = us a % 0x10000000000000000 := by
  have hnonneg : 0 ≤ us a % 2 ^ 64 := Int.emod_nonneg _ (by decide)
  rw [UInt64.ofInt, UInt64.toNat_ofNat']
  omega

/-- A subtraction stores what is left of the count. -/
theorem subUS_eq (a : FtmTime m) (c s : UInt64) : a.subUS c s =
    ⟨.store m ((if UInt64.ofInt (us a) > c then UInt64.ofInt (us a) - s else 0) / 1000000).toNat,
      .store m
        ((if UInt64.ofInt (us a) > c then UInt64.ofInt (us a) - s else 0) % 1000000).toNat⟩ := rfl

/-- What is left where the subtraction does not wrap. -/
theorem us_subUS (ha : Proper a) {c s : UInt64}
    (h : (c.toNat : Int) < us a % 0x10000000000000000 →
      s.toNat ≤ us a % 0x10000000000000000) :
    Proper (a.subUS c s) ∧ us (a.subUS c s) =
      if (c.toNat : Int) < us a % 0x10000000000000000
      then us a % 0x10000000000000000 - s.toNat else 0 := by
  have hnonneg := us_nonneg ha
  have hcount := toNat_ofInt_us a
  have hless := long_lt a.tv_sec
  rw [← us_div ha] at hless
  have hsub := subUS_eq a c s
  generalize UInt64.ofInt (us a) = count at hcount hsub
  generalize hleft : (if count > c then count - s else 0) = left at hsub
  have hvalue : (left.toNat : Int) =
      if (c.toNat : Int) < us a % 0x10000000000000000
      then us a % 0x10000000000000000 - s.toNat else 0 := by
    rw [← hleft]
    split
    · rename_i hgt
      rw [gt_iff_lt, UInt64.lt_iff_toNat_lt] at hgt
      have hle : s ≤ count := by
        rw [UInt64.le_iff_toNat_le]
        omega
      rw [if_pos (by omega), UInt64.toNat_sub_of_le _ _ hle]
      rw [UInt64.le_iff_toNat_le] at hle
      omega
    · rename_i hgt
      rw [gt_iff_lt, UInt64.lt_iff_toNat_lt] at hgt
      rw [if_neg (by omega)]
      rfl
  have hpair := proper_store (m := m) (x := left.toNat) (by omega) (by
    rw [hvalue]
    split <;> omega)
  have hmillion : (1000000 : UInt64).toNat = 1000000 := rfl
  rw [hsub, ← hvalue]
  rw [UInt64.toNat_div, UInt64.toNat_mod, hmillion, Int.natCast_ediv, Int.natCast_emod]
  exact hpair

/-- A subtraction of no more than what is compared, and that of no more than what is due, is
exact if it is of what is due or if nothing is left. -/
theorem subUS_exact_iff (ha : Proper a) {c s : UInt64} (due : Int) (hsub : s.toNat ≤ c.toNat)
    (hdue : c.toNat ≤ due) (hless : due < 0x10000000000000000) :
    Proper (a.subUS c s) ∧ us (a.subUS c s) = max 0 (us a - due) ↔
      us a < 0x10000000000000000 ∧ (s.toNat = due ∨ us a ≤ c.toNat) := by
  have hnonneg := us_nonneg ha
  obtain ⟨hproper, hus⟩ := us_subUS (c := c) (s := s) ha (fun hlt => by omega)
  rw [and_iff_right hproper, hus]
  split <;> omega

/-- A number of 32 bits is scaled in 64. -/
theorem toNat_scaled (k : UInt32) (factor : UInt64) (h : factor.toNat ≤ 1000000) :
    (k.toUInt64 * factor).toNat = factor.toNat * k.toNat := by
  have hk : k.toNat < 0x100000000 := k.toNat_lt
  rw [UInt64.toNat_mul, UInt32.toNat_toUInt64, Nat.mul_comm]
  apply Nat.mod_eq_of_lt
  calc factor.toNat * k.toNat ≤ 1000000 * k.toNat := Nat.mul_le_mul_right _ h
    _ < 2 ^ 64 := by omega

/-- Where the same amount is compared and subtracted, and it has lost nothing. -/
theorem subUS_scaled_iff (ha : Proper a) (factor : UInt64) (h : factor.toNat ≤ 1000000) :
    Proper (a.subUS (n.toUInt64 * factor) (n.toUInt64 * factor)) ∧
        us (a.subUS (n.toUInt64 * factor) (n.toUInt64 * factor)) =
          max 0 (us a - factor.toNat * n.toNat) ↔
      us a < 0x10000000000000000 := by
  have hdue : ((n.toUInt64 * factor).toNat : Int) = factor.toNat * n.toNat := by
    rw [toNat_scaled n factor h, Int.natCast_mul]
  have hless := (n.toUInt64 * factor).toNat_lt
  rw [subUS_exact_iff ha (factor.toNat * n.toNat) Nat.le.refl (by omega) (by omega)]
  exact and_iff_left (.inl hdue)

theorem toNat_minutes (n : UInt32) : (n * 60).toNat = 60 * n.toNat % 0x100000000 := by
  rw [UInt32.toNat_mul, Nat.mul_comm]
  rfl

theorem toNat_hours (n : UInt32) : (n * 60 * 60).toNat = 3600 * n.toNat % 0x100000000 := by
  rw [UInt32.toNat_mul, toNat_minutes]
  have hsixty : (60 : UInt32).toNat = 60 := rfl
  rw [hsixty]
  omega

theorem toNat_days (n : UInt32) : (n * 60 * 60 * 24).toNat = 86400 * n.toNat % 0x100000000 := by
  rw [UInt32.toNat_mul, toNat_hours]
  have hday : (24 : UInt32).toNat = 24 := rfl
  rw [hday]
  omega

theorem subMins_exact_iff (ha : Proper a) : Exact a n .subMins ↔ Fits a n .subMins := by
  have hn : n.toNat < 0x100000000 := n.toNat_lt
  have hmod := Nat.mod_le (60 * n.toNat) 0x100000000
  have hk : ((n * 60).toUInt64 * 1000000).toNat = 1000000 * (60 * n.toNat % 0x100000000) := by
    rw [toNat_scaled _ _ (by decide), toNat_minutes]
    rfl
  refine (subUS_exact_iff ha (60000000 * n.toNat) Nat.le.refl (by omega) (by omega)).trans ?_
  rw [hk]
  refine and_congr_right fun _ => or_congr ?_ ?_ <;> omega

/-- Of what is compared a thousandth is subtracted. -/
theorem subHours_exact_iff (ha : Proper a) : Exact a n .subHours ↔ Fits a n .subHours := by
  have hn : n.toNat < 0x100000000 := n.toNat_lt
  have hmod := Nat.mod_le (3600 * n.toNat) 0x100000000
  have hk : ((n * 60 * 60).toUInt64 * 1000000).toNat =
      1000000 * (3600 * n.toNat % 0x100000000) := by
    rw [toNat_scaled _ _ (by decide), toNat_hours]
    rfl
  have hs : ((n * 60 * 60).toUInt64 * 1000).toNat = 1000 * (3600 * n.toNat % 0x100000000) := by
    rw [toNat_scaled _ _ (by decide), toNat_hours]
    rfl
  simp only [Exact, shifted, target, amount, Fits, subHours]
  generalize (n * 60 * 60).toUInt64 * 1000000 = compared at hk ⊢
  generalize (n * 60 * 60).toUInt64 * 1000 = subtracted at hs ⊢
  generalize 3600 * n.toNat % 0x100000000 = p at hmod hk hs ⊢
  rw [subUS_exact_iff ha _ (by omega) (by omega) (by omega), hk, hs]
  refine and_congr_right fun _ => or_congr ?_ ?_ <;> omega

/-- A subtraction of more than there is, by less than 2^43 microseconds, wraps. With a `time_t` of
32 bits the seconds are cut off once more, but something is left of them. -/
theorem us_subUS_wrapped (ha : Proper a) {c s : UInt64}
    (hleft : (c.toNat : Int) < us a % 0x10000000000000000)
    (hwrap : us a % 0x10000000000000000 < s.toNat) (hs : s.toNat < 0x80000000000) :
    us (a.subUS c s) ≠ 0 ∧ (0x10000000000000000 ≤ us a → us (a.subUS c s) =
      0x10000000000000000 + us a % 0x10000000000000000 - s.toNat) := by
  have hcount := toNat_ofInt_us a
  have hsub := subUS_eq a c s
  generalize UInt64.ofInt (us a) = count at hcount hsub
  have hgt : count > c := by
    rw [gt_iff_lt, UInt64.lt_iff_toNat_lt]
    omega
  have hvalue : (count - s).toNat = 0x10000000000000000 - s.toNat + count.toNat := by
    rw [UInt64.toNat_sub]
    omega
  have hmillion : (1000000 : UInt64).toNat = 1000000 := rfl
  rw [if_pos hgt, UInt64.toNat_div, UInt64.toNat_mod, hmillion, hvalue] at hsub
  generalize hv : 0x10000000000000000 - s.toNat + count.toNat = value at hsub
  rw [hsub, us]
  have hless := long_lt a.tv_sec
  rw [← us_div ha] at hless
  have hrest := toInt_store (m := m) (x := (value % 1000000 : Nat)) (by omega) (by
    rcases limit_cases (m := m) with hlimit | hlimit <;> omega)
  rw [hrest]
  dsimp only
  rcases limit_cases (m := m) with hlimit | hlimit
  · obtain ⟨k, hk⟩ := toInt_store_eq m (value / 1000000 : Nat)
    rw [hlimit] at hk hless
    constructor
    · intro hzero
      have hsec : (Long.store m (value / 1000000 : Nat)).toInt = 0 := by omega
      omega
    · omega
  · have hquot := toInt_store (m := m) (x := (value / 1000000 : Nat)) (by omega) (by omega)
    rw [hquot]
    constructor <;> omega

/-- What the days lack is never a multiple of 2^64. -/
theorem eq_zero_of_days {k : Nat} {j : Int} (h : k < 0x100000000)
    (hj : 0x10000000000000000 * j = 86399999000 * (k : Int)) : k = 0 := by
  have hk : (k : Int) < 0x100000000 := Int.ofNat_lt.mpr h
  have hfew : j < 125 := by linarith
  have hpos : -1 < j := by linarith
  have hmod : 0x10000000000000000 * j % 125 = 0 := by
    rw [hj]
    exact Int.emod_eq_zero_of_dvd ⟨691199992 * k, by ring⟩
  have hremainder : (0x10000000000000000 : Int) % 125 = 116 := rfl
  have hzero : j = 0 := by
    rw [Int.mul_emod, hremainder] at hmod
    clear hj
    omega
  rw [hzero] at hj
  omega

/-- A subtraction of days that wraps is not exact, not even for a count of more than 64 bits. -/
theorem wrapped_ne_target {k : Nat} {x : Int} (h : k < 0x100000000)
    (hmore : x % 0x10000000000000000 < 1000 * k) :
    0x10000000000000000 + x % 0x10000000000000000 - 1000 * k ≠ max 0 (x - 86400000000 * k) := by
  intro hus
  have hnonneg := Int.emod_nonneg x (b := 0x10000000000000000) (by decide)
  have hk : (k : Int) < 0x100000000 := Int.ofNat_lt.mpr h
  have hpos : 0 ≤ x - 86400000000 * k := by
    by_contra hneg
    rw [max_eq_left (Int.le_of_lt (Int.not_le.mp hneg))] at hus
    linarith
  rw [max_eq_right hpos] at hus
  have hsplit := Int.mul_ediv_add_emod x 0x10000000000000000
  have hnone := eq_zero_of_days (j := x / 0x10000000000000000 - 1) h (by linarith)
  rw [hnone] at hmore
  exact absurd hmore (Int.not_lt.mpr hnonneg)

/-- Where it does not wrap it is exact if there are no days, or if both leave nothing. -/
theorem days_exact_iff {k p : Nat} {x : Int} (h : k < 0x100000000) (hx : 0 ≤ x)
    (hp : p ≤ 86400 * k) :
    (if 1000 * (p : Int) < x % 0x10000000000000000
      then x % 0x10000000000000000 - 1000 * k else 0) = max 0 (x - 86400000000 * k) ↔
    k = 0 ∧ x < 0x10000000000000000 ∨ x ≤ 86400000000 * k ∧
      (x % 0x10000000000000000 ≤ 1000 * (p : Int) ∨
        x % 0x10000000000000000 = 1000 * (k : Int)) := by
  by_cases hdue : x ≤ 86400000000 * k
  · rw [max_eq_left (by omega)]
    split <;> omega
  · rw [max_eq_right (by omega)]
    have hsplit := Int.mul_ediv_add_emod x 0x10000000000000000
    constructor
    · intro hus
      have hgone : 0x10000000000000000 * (x / 0x10000000000000000) = 86399999000 * (k : Int) := by
        split at hus
        · linarith
        · omega
      have hnone := eq_zero_of_days h hgone
      rw [hnone] at hgone
      exact .inl ⟨hnone, by omega⟩
    · intro hcase
      rcases hcase with ⟨hnone, hsmall⟩ | ⟨hle, -⟩
      · rw [Int.emod_eq_of_lt hx hsmall]
        split <;> omega
      · exact absurd hle hdue

/-- A day is subtracted as a millisecond. -/
theorem subDays_exact_iff (ha : Proper a) : Exact a n .subDays ↔ Fits a n .subDays := by
  have hn : n.toNat < 0x100000000 := n.toNat_lt
  have hnonneg := us_nonneg ha
  have hmod := Nat.mod_le (86400 * n.toNat) 0x100000000
  have hk : ((n * 60 * 60 * 24).toUInt64 * 1000).toNat =
      1000 * (86400 * n.toNat % 0x100000000) := by
    rw [toNat_scaled _ _ (by decide), toNat_days]
    rfl
  have hs : (n.toUInt64 * 1000).toNat = 1000 * n.toNat := toNat_scaled n 1000 (by decide)
  simp only [Exact, shifted, target, amount, Fits, subDays]
  generalize (n * 60 * 60 * 24).toUInt64 * 1000 = compared at hk ⊢
  generalize n.toUInt64 * 1000 = subtracted at hs ⊢
  generalize 86400 * n.toNat % 0x100000000 = p at hmod hk ⊢
  by_cases hwrap : (compared.toNat : Int) < us a % 0x10000000000000000 ∧
      us a % 0x10000000000000000 < subtracted.toNat
  · obtain ⟨hleft, hmore⟩ := hwrap
    obtain ⟨hsome, hwrapped⟩ := us_subUS_wrapped ha hleft hmore (by omega)
    rw [hs] at hmore hwrapped
    have hneither : ¬(n.toNat = 0 ∧ us a < 0x10000000000000000 ∨
        us a ≤ 86400000000 * n.toNat ∧ (us a % 0x10000000000000000 ≤ 1000 * (p : Int) ∨
          us a % 0x10000000000000000 = 1000 * (n.toNat : Int))) := by
      clear hwrapped hsome
      omega
    refine iff_of_false (fun h => ?_) hneither
    obtain ⟨-, hus⟩ := h
    by_cases hsmall : us a < 0x10000000000000000
    · have hnone : us a - 86400000000 * n.toNat ≤ 0 := by
        rw [Int.emod_eq_of_lt hnonneg hsmall] at hmore
        clear hwrapped hsome hus
        omega
      rw [max_eq_left hnone] at hus
      exact hsome hus
    · rw [hwrapped (by omega)] at hus
      exact wrapped_ne_target hn hmore hus
  · obtain ⟨hproper, hus⟩ := us_subUS ha (fun hleft => Int.not_lt.mp fun hmore =>
      hwrap ⟨hleft, hmore⟩)
    rw [and_iff_right hproper, hus, hs, hk]
    exact days_exact_iff hn hnonneg hmod

/-- Seconds, minutes, hours and days are added alike. -/
theorem add_exact_iff (ha : Proper a) {k : UInt32} (seconds : Nat) {added : Int}
    (hk : k.toNat = seconds * n.toNat % 0x100000000)
    (hadded : added = 1000000 * (seconds * n.toNat : Nat)) :
    Proper (a.addSecs k) ∧ us (a.addSecs k) = us a + added ↔ AddFits a n seconds := by
  rw [hadded]
  exact addSecs_exact_iff ha hk

/-- Each shift of each time is exact under its condition and under no other. -/
theorem shift_exact_iff (a : FtmTime m) (ha : Proper a) (n : UInt32) (shift : Shift) :
    Exact a n shift ↔ Fits a n shift := by
  have hn : n.toNat < 0x100000000 := n.toNat_lt
  cases shift with
  | addMS => exact addMS_exact_iff ha
  | addSecs => exact add_exact_iff ha 1 (by omega) (by simp only [amount]; omega)
  | addMins => exact add_exact_iff ha 60 (toNat_minutes n) (by simp only [amount]; omega)
  | addHours => exact add_exact_iff ha 3600 (toNat_hours n) (by simp only [amount]; omega)
  | addDays => exact add_exact_iff ha 86400 (toNat_days n) (by simp only [amount]; omega)
  | subMS => exact subUS_scaled_iff ha 1000 (by decide)
  | subSecs => exact subUS_scaled_iff ha 1000000 (by decide)
  | subMins => exact subMins_exact_iff ha
  | subHours => exact subHours_exact_iff ha
  | subDays => exact subDays_exact_iff ha

end

def twoHours : FtmTime .ilp32 := ⟨7200, 500000⟩

theorem proper_twoHours : Proper twoHours := ⟨by decide, by decide, by decide⟩

/-- Five minutes. -/
theorem minutes_exact : Exact twoHours 5 .addMins ∧ Exact twoHours 5 .subMins := by
  have hiff := shift_exact_iff twoHours proper_twoHours 5
  exact ⟨(hiff .addMins).mpr ⟨by decide, by decide⟩,
    (hiff .subMins).mpr ⟨by decide, .inl (by decide)⟩⟩

/-- An hour less makes 3.6 s less. -/
theorem hour_not_subtracted : Proper twoHours ∧ ¬Exact twoHours 1 .subHours := by
  refine ⟨proper_twoHours, fun h => ?_⟩
  obtain ⟨-, hnone | hless⟩ := (subHours_exact_iff proper_twoHours).mp h
  · exact absurd hnone (by decide)
  · exact absurd hless (by decide)

end Catchb.Proofs.TimeShifts
