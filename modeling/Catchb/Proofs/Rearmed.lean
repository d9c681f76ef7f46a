import Catchb.Proofs.TimerAdds

/-! Whether a timer that is set on runs, and how long it is waited for. -/

namespace Catchb.Proofs.Rearmed
open Timeval FtmTimer Dispatch TimerAdds

/-- More than `ulTimeS` seconds have passed since the base time, as a 32-bit difference. -/
def Overdue (now : Nat) (ulTimeS : UInt32) (pTimer : FtmTimer) : Prop :=
  ulTimeS.toNat < (now / 1000000 - pTimer.xBaseTime.tv_sec) % 0x100000000

/-- The clock is behind the base time; or the timer is overdue and its base time is no later
within its second than the clock is; or it is not overdue and its time of expiry has come. -/
def Current (now : Nat) (ulTimeS : UInt32) (pTimer : FtmTimer) : Prop :=
  now < us pTimer.xBaseTime ∨
    (Overdue now ulTimeS pTimer ∧ pTimer.xBaseTime.tv_usec ≤ now % 1000000) ∨
    (¬Overdue now ulTimeS pTimer ∧ us pTimer.xExpiredTime ≤ now)

section
variable {now : Nat} {ulTimeS : UInt32} {pTimer : FtmTimer} {a b : Timeval}

/-- A base time made of the clock's seconds and its own microseconds can be in the future, and so
can the old time of expiry. -/
theorem rebase_le_iff (hbase : Normal pTimer.xBaseTime) :
    us (pTimer.rebase now ulTimeS) ≤ now ↔ Current now ulTimeS pTimer := by
  have hnow := normal_gettimeofday now
  have hdiff : ((gettimeofday now).tv_sec - pTimer.xBaseTime.tv_sec).toUInt32 > ulTimeS ↔
      Overdue now ulTimeS pTimer := by
    rw [gt_iff_lt, UInt32.lt_iff_toNat_lt]
    rfl
  simp only [rebase, before_iff hnow hbase, us_gettimeofday, hdiff, Current]
  split
  · rename_i hbehind
    exact iff_of_true (us_gettimeofday now).le (.inl hbehind)
  · rename_i hahead
    split
    · rename_i hlate
      rw [hdiff] at hlate
      have hsplit := us_gettimeofday now
      have hmixed : us { pTimer.xBaseTime with tv_sec := (gettimeofday now).tv_sec } ≤ now ↔
          pTimer.xBaseTime.tv_usec ≤ now % 1000000 := by
        simp only [us, gettimeofday]
        omega
      rw [hmixed, or_iff_right hahead, and_iff_right hlate, or_iff_left (fun h => h.1 hlate)]
    · rename_i hlate
      rw [hdiff] at hlate
      rw [or_iff_right hahead, or_iff_right (fun h => hlate h.1), and_iff_right hlate]

/-- A timer with its time of expiry ahead runs exactly if its base time is not ahead. -/
theorem runs_iff (hbase : Normal pTimer.xBaseTime) (hexpired : Normal pTimer.xExpiredTime)
    (hahead : now ≤ us pTimer.xExpiredTime) :
    pTimer.isExpired now = false ↔ us pTimer.xBaseTime ≤ now := by
  rw [← Bool.not_eq_true, isExpired_iff hbase hexpired]
  omega

theorem addS_runs_iff (hbase : Normal pTimer.xBaseTime) (hexpired : Normal pTimer.xExpiredTime)
    (hahead : now ≤ us (pTimer.addS now ulTimeS).xExpiredTime) :
    (pTimer.addS now ulTimeS).isExpired now = false ↔ Current now ulTimeS pTimer := by
  have htimeout : Normal ⟨ulTimeS.toNat, 0⟩ := Nat.zero_lt_succ _
  have hnew : Normal (pTimer.addS now ulTimeS).xBaseTime := normal_rebase hbase hexpired
  rw [runs_iff hnew (normal_timeradd hexpired htimeout) hahead]
  exact rebase_le_iff hbase

theorem addUS_runs_iff {ulTimeUS : UInt32} (hbase : Normal pTimer.xBaseTime)
    (hexpired : Normal pTimer.xExpiredTime)
    (hahead : now ≤ us (pTimer.addUS now ulTimeUS).xExpiredTime) :
    (pTimer.addUS now ulTimeUS).isExpired now = false ↔
      Current now (ulTimeUS / 1000000) pTimer := by
  have htimeout : Normal ⟨ulTimeUS.toNat / 1000000, ulTimeUS.toNat % 1000000⟩ :=
    Nat.mod_lt _ (by decide)
  have hnew : Normal (pTimer.addUS now ulTimeUS).xBaseTime := normal_rebase hbase hexpired
  rw [runs_iff hnew (normal_timeradd hnew htimeout) hahead]
  exact rebase_le_iff hbase

/-- A timer that is set on, and whose new time of expiry has not come, runs exactly if its base
time was current. -/
theorem rearmed_runs_iff (pTimer : FtmTimer) (now : Nat) (hbase : Normal pTimer.xBaseTime)
    (hexpired : Normal pTimer.xExpiredTime) :
    (∀ ulTimeS : UInt32, now ≤ us (pTimer.addS now ulTimeS).xExpiredTime →
      ((pTimer.addS now ulTimeS).isExpired now = false ↔ Current now ulTimeS pTimer)) ∧
    ∀ ulTimeUS : UInt32, now ≤ us (pTimer.addUS now ulTimeUS).xExpiredTime →
      ((pTimer.addUS now ulTimeUS).isExpired now = false ↔
        Current now (ulTimeUS / 1000000) pTimer) :=
  ⟨fun _ hahead => addS_runs_iff hbase hexpired hahead,
    fun _ hahead => addUS_runs_iff hbase hexpired hahead⟩

end

/-- A second after it has expired, five seconds are added. -/
theorem expired_timer_runs : (tenSeconds.addS 111000000 5).isExpired 111000000 = false ∧
    (tenSeconds.addUS 111000000 5000000).isExpired 111000000 = false := by
  have hiff := rearmed_runs_iff tenSeconds 111000000 normal_tenSeconds.1 normal_tenSeconds.2
  have hlate : Overdue 111000000 5 tenSeconds := by
    unfold Overdue
    decide
  have hcurrent : Current 111000000 5 tenSeconds := .inr (.inl ⟨hlate, by decide⟩)
  exact ⟨(hiff.1 5 (by decide)).mpr hcurrent, (hiff.2 5000000 (by decide)).mpr hcurrent⟩

/-- It starts at nine tenths of a second. -/
def tenSecondsLater : FtmTimer := ⟨⟨100, 900000⟩, ⟨110, 900000⟩, ⟨10, 0⟩⟩

/-- A timer that runs, and one that is overdue, are set on. -/
theorem running_timer_expires :
    (105000000 ≤ us (tenSeconds.addS 105000000 5).xExpiredTime ∧
      (tenSeconds.addS 105000000 5).isExpired 105000000 = true) ∧
    115100000 ≤ us (tenSecondsLater.addS 115100000 10).xExpiredTime ∧
      (tenSecondsLater.addS 115100000 10).isExpired 115100000 = true :=
  ⟨⟨by decide, by decide⟩, ⟨by decide, by decide⟩⟩

section
variable {now : Nat} {ulTimeoutS : UInt32} {pTimer : FtmTimer} {a b : Timeval}

theorem us_initUS (now : Nat) (ulTimeoutUS : UInt32) :
    us (initUS now ulTimeoutUS).xExpiredTime = now + ulTimeoutUS.toNat := by
  rw [initUS, us_timeradd, us_gettimeofday, us]
  dsimp only
  omega

theorem us_injective (ha : Normal a) (hb : Normal b) (h : us a = us b) : a = b := by
  obtain ⟨asec, ausec⟩ := a
  obtain ⟨bsec, busec⟩ := b
  unfold Dispatch.Normal at ha hb
  simp only [us] at ha hb h
  obtain ⟨rfl, rfl⟩ : asec = bsec ∧ ausec = busec := by omega
  rfl

/-- Seconds come to the same time as their milliseconds while their microseconds fit 32 bits. -/
theorem initS_eq_initMS_iff (hfits : 1000 * ulTimeoutS.toNat < UInt32.size) :
    (initS now ulTimeoutS).xExpiredTime = (initMS now (1000 * ulTimeoutS)).xExpiredTime ↔
      1000000 * ulTimeoutS.toNat < UInt32.size := by
  have hms : (1000 * ulTimeoutS).toNat = 1000 * ulTimeoutS.toNat := by
    rw [UInt32.toNat_mul]
    exact Nat.mod_eq_of_lt hfits
  have husec : (ulTimeoutS * 1000000).toNat = ulTimeoutS.toNat * 1000000 % UInt32.size :=
    UInt32.toNat_mul _ _
  have hs : us (initS now ulTimeoutS).xExpiredTime =
      now + ulTimeoutS.toNat * 1000000 % UInt32.size := by
    rw [initS, us_initUS, husec]
  have hboth := us_initMS now (1000 * ulTimeoutS)
  rw [hms] at hboth
  have hnormal : Normal (initS now ulTimeoutS).xExpiredTime :=
    normal_timeradd (normal_gettimeofday now) (Nat.mod_lt _ (by decide))
  have hnormal' := normal_initMS now (1000 * ulTimeoutS)
  unfold UInt32.size at *
  constructor
  · intro he
    rw [he, hboth] at hs
    omega
  · intro hlt
    rw [Nat.mod_eq_of_lt (by omega)] at hs
    exact us_injective hnormal hnormal' (by omega)

/-- A difference is exact, whether or not the later time is normalised. -/
theorem us_timersub_of_before (hb : Normal b) (h : b.before a = true) :
    us (a.timersub b) = us a - us b := by
  unfold Dispatch.Normal at hb
  unfold before at h
  unfold timersub us
  split at h <;> rw [decide_eq_true_eq] at h <;> split <;> dsimp only <;> omega

/-- The wait is cut to 32 bits. -/
theorem waitForExpired_iff (hbase : pTimer.xBaseTime.before (gettimeofday now) = true)
    (hexpired : (gettimeofday now).before pTimer.xExpiredTime = true) :
    (pTimer.waitForExpired now).map UInt32.toNat = some (us pTimer.xExpiredTime - now) ↔
      us pTimer.xExpiredTime - now < UInt32.size := by
  have hsub := us_timersub_of_before (normal_gettimeofday now) hexpired
  rw [us_gettimeofday] at hsub
  have hwait : pTimer.waitForExpired now = some (us pTimer.xExpiredTime - now).toUInt32 := by
    rw [← hsub]
    simp only [waitForExpired, hbase, hexpired, Bool.and_self, if_true]
    rfl
  have hcut : (us pTimer.xExpiredTime - now).toUInt32.toNat =
      (us pTimer.xExpiredTime - now) % UInt32.size :=
    UInt32.toNat_ofNat'
  rw [hwait, Option.map_some, Option.some.injEq, hcut]
  exact Nat.mod_eq_iff_lt (by decide)

/-- A timer is set and waited for as it is asked to exactly while the microseconds fit 32 bits. -/
theorem waits_iff (now : Nat) :
    (∀ ulTimeoutS : UInt32, 1000 * ulTimeoutS.toNat < UInt32.size →
      ((initS now ulTimeoutS).xExpiredTime = (initMS now (1000 * ulTimeoutS)).xExpiredTime ↔
        1000000 * ulTimeoutS.toNat < UInt32.size)) ∧
    ∀ pTimer : FtmTimer, pTimer.xBaseTime.before (gettimeofday now) = true →
      (gettimeofday now).before pTimer.xExpiredTime = true →
      ((pTimer.waitForExpired now).map UInt32.toNat = some (us pTimer.xExpiredTime - now) ↔
        us pTimer.xExpiredTime - now < UInt32.size) :=
  ⟨fun _ hfits => initS_eq_initMS_iff hfits,
    fun _ hbase hexpired => waitForExpired_iff hbase hexpired⟩

end

/-- An hour. -/
theorem hour_waits :
    (initS 0 3600).xExpiredTime = (initMS 0 3600000).xExpiredTime ∧
    (FtmTimer.waitForExpired 1000000 ⟨⟨0, 0⟩, ⟨3601, 0⟩, ⟨3601, 0⟩⟩).map UInt32.toNat =
      some 3600000000 :=
  ⟨((waits_iff 0).1 3600 (by decide)).mpr (by decide),
    ((waits_iff 1000000).2 ⟨⟨0, 0⟩, ⟨3601, 0⟩, ⟨3601, 0⟩⟩ rfl rfl).mpr (by decide)⟩

def twoHours : FtmTimer := ⟨⟨0, 0⟩, ⟨7201, 0⟩, ⟨7201, 0⟩⟩

theorem two_hours_wrap :
    (1000 * (7200 : UInt32).toNat < UInt32.size ∧
      (initS 0 7200).xExpiredTime ≠ (initMS 0 (1000 * 7200)).xExpiredTime) ∧
    twoHours.xBaseTime.before (gettimeofday 1000000) = true ∧
      (gettimeofday 1000000).before twoHours.xExpiredTime = true ∧
      (twoHours.waitForExpired 1000000).map UInt32.toNat ≠
        some (us twoHours.xExpiredTime - 1000000) :=
  ⟨⟨by decide, by decide⟩, ⟨rfl, rfl, by decide⟩⟩

end Catchb.Proofs.Rearmed
