import Catchb.Proofs.Dispatch

/-! Whether the functions that set a timer on agree with each other and with their units. -/

namespace Catchb.Proofs.TimerAdds
open Timeval FtmTimer Dispatch

/-- A number of seconds leaves one timer, whether it is added in seconds, in milliseconds or in
microseconds. -/
def Agree (now : Nat) (ulTimeS : UInt32) (pTimer : FtmTimer) : Prop :=
  pTimer.addS now ulTimeS = pTimer.addMS now (1000 * ulTimeS) ∧
    pTimer.addS now ulTimeS = pTimer.addUS now (1000000 * ulTimeS)

/-- What is added to the time of expiry is the amount, in milliseconds. -/
def Exact (now : Nat) (ulTimeMS : UInt32) (pTimer : FtmTimer) : Prop :=
  us (pTimer.addMS now ulTimeMS).xExpiredTime = us pTimer.xExpiredTime + ulTimeMS.toNat * 1000

/-- The clock is neither behind the base time nor more than the amount past it, in seconds of 32
bits; or the time of expiry is what the clock makes of the base time. -/
def Steady (now : Nat) (ulTimeS : UInt32) (pTimer : FtmTimer) : Prop :=
  (now < us pTimer.xBaseTime → pTimer.xExpiredTime = gettimeofday now) ∧
    (us pTimer.xBaseTime ≤ now →
      ulTimeS.toNat < (now / 1000000 - pTimer.xBaseTime.tv_sec) % 0x100000000 →
      pTimer.xExpiredTime = ⟨now / 1000000, pTimer.xBaseTime.tv_usec⟩)

section
variable {now : Nat} {ulTimeS : UInt32} {pTimer : FtmTimer} {a b : Timeval}

/-- Whole seconds are added without a carry. -/
theorem timeradd_seconds (ha : Normal a) (n : Nat) :
    a.timeradd ⟨n, 0⟩ = ⟨a.tv_sec + n, a.tv_usec⟩ :=
  if_neg (Nat.not_le.mpr ha)

theorem timeradd_seconds_inj (ha : Normal a) (hb : Normal b) (n : Nat) :
    a.timeradd ⟨n, 0⟩ = b.timeradd ⟨n, 0⟩ ↔ a = b := by
  rw [timeradd_seconds ha, timeradd_seconds hb]
  constructor
  · intro h
    obtain ⟨asec, ausec⟩ := a
    obtain ⟨bsec, busec⟩ := b
    obtain ⟨hsec, husec⟩ := Timeval.mk.inj h
    have hsec' : asec = bsec := Nat.add_right_cancel hsec
    rw [hsec', show ausec = busec from husec]
  · rintro rfl
    rfl

theorem normal_rebase (hbase : Normal pTimer.xBaseTime) (hexpired : Normal pTimer.xExpiredTime) :
    Normal (pTimer.rebase now ulTimeS) := by
  simp only [rebase]
  split
  · exact normal_gettimeofday now
  · split
    · exact hbase
    · exact hexpired

/-- The base time is set to the time of expiry, unless the clock has moved too far. -/
theorem rebase_eq_iff (hbase : Normal pTimer.xBaseTime) :
    pTimer.rebase now ulTimeS = pTimer.xExpiredTime ↔ Steady now ulTimeS pTimer := by
  have hnow := normal_gettimeofday now
  have hdiff : ((gettimeofday now).tv_sec - pTimer.xBaseTime.tv_sec).toUInt32 > ulTimeS ↔
      ulTimeS.toNat < (now / 1000000 - pTimer.xBaseTime.tv_sec) % 0x100000000 := by
    rw [gt_iff_lt, UInt32.lt_iff_toNat_lt]
    rfl
  simp only [rebase, before_iff hnow hbase, us_gettimeofday, hdiff, Steady]
  split
  · rename_i hbehind
    constructor
    · exact fun h => ⟨fun _ => h.symm, fun hle => absurd hbehind (Nat.not_lt.mpr hle)⟩
    · exact fun h => (h.1 hbehind).symm
  · rename_i hahead
    split
    · rename_i hlate
      constructor
      · exact fun h => ⟨fun hbehind => absurd hbehind hahead, fun _ _ => h.symm⟩
      · exact fun h => (h.2 (Nat.not_lt.mp hahead) hlate).symm
    · rename_i hlate
      exact iff_of_true rfl
        ⟨fun hbehind => absurd hbehind hahead, fun _ h => absurd h hlate⟩

/-- The functions agree on the interval and on the base time. Only the microseconds are added to
the latter. -/
theorem agree_iff (hbase : Normal pTimer.xBaseTime) (hexpired : Normal pTimer.xExpiredTime)
    (hfits : 1000000 * ulTimeS.toNat < UInt32.size) :
    Agree now ulTimeS pTimer ↔ Steady now ulTimeS pTimer := by
  have hless : 1000 * ulTimeS.toNat < UInt32.size := by omega
  have hms : (1000 * ulTimeS).toNat = 1000 * ulTimeS.toNat := by
    rw [UInt32.toNat_mul]
    exact Nat.mod_eq_of_lt hless
  have hus : (1000000 * ulTimeS).toNat = 1000000 * ulTimeS.toNat := by
    rw [UInt32.toNat_mul]
    exact Nat.mod_eq_of_lt hfits
  have hmsdiv : 1000 * ulTimeS / 1000 = ulTimeS := by
    apply UInt32.toNat_inj.mp
    rw [UInt32.toNat_div, hms]
    exact Nat.mul_div_cancel_left _ (by decide)
  have husdiv : 1000000 * ulTimeS / 1000000 = ulTimeS := by
    apply UInt32.toNat_inj.mp
    rw [UInt32.toNat_div, hus]
    exact Nat.mul_div_cancel_left _ (by decide)
  have hagree : pTimer.addS now ulTimeS = pTimer.addMS now (1000 * ulTimeS) := by
    have hadd : pTimer.addMS now (1000 * ulTimeS) =
        ⟨pTimer.rebase now (1000 * ulTimeS / 1000),
          pTimer.xExpiredTime.timeradd ⟨(1000 * ulTimeS).toNat / 1000,
            (1000 * ulTimeS).toNat % 1000 * 1000000⟩,
          ⟨(1000 * ulTimeS).toNat / 1000, (1000 * ulTimeS).toNat % 1000 * 1000000⟩⟩ := rfl
    rw [hadd, hmsdiv, hms, Nat.mul_div_cancel_left _ (by decide), Nat.mul_mod_right, Nat.zero_mul]
    rfl
  have hadd : pTimer.addUS now (1000000 * ulTimeS) =
      ⟨pTimer.rebase now ulTimeS, (pTimer.rebase now ulTimeS).timeradd ⟨ulTimeS.toNat, 0⟩,
        ⟨ulTimeS.toNat, 0⟩⟩ := by
    simp only [addUS]
    rw [husdiv, hus, Nat.mul_div_cancel_left _ (by decide), Nat.mul_mod_right]
  rw [Agree, and_iff_right hagree, hadd, ← rebase_eq_iff hbase,
    ← timeradd_seconds_inj (normal_rebase hbase hexpired) hexpired ulTimeS.toNat]
  simp only [addS, FtmTimer.mk.injEq, true_and, and_true]
  exact eq_comm

/-- The rest of the milliseconds comes out as seconds. -/
theorem addMS_exact_iff (now : Nat) (ulTimeMS : UInt32) (pTimer : FtmTimer) :
    Exact now ulTimeMS pTimer ↔ ulTimeMS.toNat % 1000 = 0 := by
  rw [Exact, addMS, us_timeradd, Nat.add_left_cancel_iff, us]
  dsimp only
  omega

/-- The functions agree exactly while the clock keeps step, and milliseconds are exact in whole
seconds alone. -/
theorem adds_agree_iff (pTimer : FtmTimer) (now : Nat) (hbase : Normal pTimer.xBaseTime)
    (hexpired : Normal pTimer.xExpiredTime) :
    (∀ ulTimeS : UInt32, 1000000 * ulTimeS.toNat < UInt32.size →
      (Agree now ulTimeS pTimer ↔ Steady now ulTimeS pTimer)) ∧
    ∀ ulTimeMS : UInt32, Exact now ulTimeMS pTimer ↔ ulTimeMS.toNat % 1000 = 0 :=
  ⟨fun _ hfits => agree_iff hbase hexpired hfits,
    fun ulTimeMS => addMS_exact_iff now ulTimeMS pTimer⟩

end

/-- A timer of ten seconds. -/
def tenSeconds : FtmTimer := ⟨⟨100, 0⟩, ⟨110, 0⟩, ⟨10, 0⟩⟩

theorem normal_tenSeconds : Normal tenSeconds.xBaseTime ∧ Normal tenSeconds.xExpiredTime :=
  ⟨Nat.zero_lt_succ _, Nat.zero_lt_succ _⟩

/-- It is set on by five seconds while it runs. -/
theorem running_timer_agrees :
    Agree 105000000 5 tenSeconds ∧ Exact 105000000 5000 tenSeconds := by
  have hiff := adds_agree_iff tenSeconds 105000000 normal_tenSeconds.1 normal_tenSeconds.2
  constructor
  · refine (hiff.1 5 (by decide)).mpr ⟨fun h => absurd h (by decide), fun _ h => ?_⟩
    exact absurd h (by decide)
  · exact (hiff.2 5000).mpr rfl

/-- Long after it has expired, and by a second and a half. -/
theorem late_timer_differs : (Normal tenSeconds.xBaseTime ∧ Normal tenSeconds.xExpiredTime) ∧
    ¬Agree 200000000 5 tenSeconds ∧ ¬Exact 200000000 1500 tenSeconds := by
  refine ⟨normal_tenSeconds, fun h => ?_, fun h => ?_⟩
  · cases h.2
  · cases h

end Catchb.Proofs.TimerAdds
