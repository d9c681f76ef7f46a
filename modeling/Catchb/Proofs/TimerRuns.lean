import Catchb.Proofs.TimerAdds

/-! The times of a timer over whole runs of the calls that set it. -/

namespace Catchb.Proofs.TimerRuns
open Lib Timeval FtmTimer Dispatch TimerAdds

/-- A call that takes nothing from the memory of the timer. -/
inductive TimerStart
  | initS (ulTimeoutS : UInt32)
  | initMS (ulTimeoutMS : UInt32)
  | initUS (ulTimeoutUS : UInt32)
  | initTime (pTimeout : Timeval)

inductive TimerOp
  | init (start : TimerStart)
  | addUS (ulTimeUS : UInt32)
  | addMS (ulTimeMS : UInt32)
  | addS (ulTimeS : UInt32)
  | addTime (pTimeout : {t : Timeval // Normal t})

def TimerStart.timer (now : Nat) : TimerStart → FtmTimer
  | initS ulTimeoutS => .initS now ulTimeoutS
  | initMS ulTimeoutMS => .initMS now ulTimeoutMS
  | initUS ulTimeoutUS => .initUS now ulTimeoutUS
  | initTime pTimeout => .initTime now pTimeout

/-- A call at a time of the clock. -/
def step (pTimer : FtmTimer) : Nat × TimerOp → FtmTimer
  | (now, .init start) => start.timer now
  | (now, .addUS ulTimeUS) => pTimer.addUS now ulTimeUS
  | (now, .addMS ulTimeMS) => pTimer.addMS now ulTimeMS
  | (now, .addS ulTimeS) => pTimer.addS now ulTimeS
  | (_, .addTime pTimeout) => pTimer.addTime pTimeout

structure Normalised (pTimer : FtmTimer) : Prop where
  timeout : Normal pTimer.xTimeout
  base : Normal pTimer.xBaseTime
  expired : Normal pTimer.xExpiredTime

/-- Milliseconds are added in whole seconds, and a time that is given is normalised. -/
def Kept : TimerOp → Prop
  | .init (.initTime pTimeout) => Normal pTimeout
  | .addMS ulTimeMS => ulTimeMS.toNat % 1000 = 0
  | _ => True

section
variable {pTimer : FtmTimer} {pTimeout : Timeval}

theorem normalised_initUS (now : Nat) (ulTimeoutUS : UInt32) :
    Normalised (initUS now ulTimeoutUS) := by
  have htimeout : Normal ⟨ulTimeoutUS.toNat / 1000000, ulTimeoutUS.toNat % 1000000⟩ :=
    Nat.mod_lt _ (by decide)
  have hbase := normal_gettimeofday now
  exact ⟨htimeout, hbase, normal_timeradd hbase htimeout⟩

theorem normalised_addTime (h : Normalised pTimer) :
    Normalised (pTimer.addTime pTimeout) ↔ Normal pTimeout := by
  constructor
  · exact fun hadd => hadd.timeout
  · exact fun htimeout => ⟨htimeout, h.base, normal_timeradd h.expired htimeout⟩

theorem normalised_start (now : Nat) (start : TimerStart) :
    Normalised (start.timer now) ↔ Kept (.init start) := by
  cases start with
  | initS ulTimeoutS => exact iff_of_true (normalised_initUS now _) trivial
  | initMS ulTimeoutMS =>
    have htimeout : Normal ⟨ulTimeoutMS.toNat / 1000, ulTimeoutMS.toNat % 1000 * 1000⟩ := by
      have hmod := Nat.mod_lt ulTimeoutMS.toNat (y := 1000) (by decide)
      unfold Dispatch.Normal
      dsimp only
      omega
    have hbase := normal_gettimeofday now
    exact iff_of_true ⟨htimeout, hbase, normal_timeradd hbase htimeout⟩ trivial
  | initUS ulTimeoutUS => exact iff_of_true (normalised_initUS now _) trivial
  | initTime pTimeout => exact normalised_addTime (normalised_initUS now 0)

/-- Only the rest of the milliseconds makes a timeout of more microseconds than a second has. -/
theorem normalised_addMS (h : Normalised pTimer) (now : Nat) (ulTimeMS : UInt32) :
    Normalised (pTimer.addMS now ulTimeMS) ↔ ulTimeMS.toNat % 1000 = 0 := by
  have htimeout : Normal ⟨ulTimeMS.toNat / 1000, ulTimeMS.toNat % 1000 * 1000000⟩ ↔
      ulTimeMS.toNat % 1000 = 0 := by
    unfold Dispatch.Normal
    dsimp only
    omega
  have hbase : Normal (pTimer.addMS now ulTimeMS).xBaseTime :=
    normal_rebase h.base h.expired
  constructor
  · exact fun hadd => htimeout.mp hadd.timeout
  · intro hwhole
    exact ⟨htimeout.mpr hwhole, hbase, normal_timeradd h.expired (htimeout.mpr hwhole)⟩

/-- A call keeps a normalised timer so exactly if its amount is one of those. -/
theorem normalised_step (h : Normalised pTimer) (op : Nat × TimerOp) :
    Normalised (step pTimer op) ↔ Kept op.2 := by
  obtain ⟨now, op⟩ := op
  cases op with
  | init start => exact normalised_start now start
  | addUS ulTimeUS =>
    have htimeout : Normal ⟨ulTimeUS.toNat / 1000000, ulTimeUS.toNat % 1000000⟩ :=
      Nat.mod_lt _ (by decide)
    have hbase : Normal (pTimer.rebase now (ulTimeUS / 1000000)) := normal_rebase h.base h.expired
    exact iff_of_true ⟨htimeout, hbase, normal_timeradd hbase htimeout⟩ trivial
  | addMS ulTimeMS => exact normalised_addMS h now ulTimeMS
  | addS ulTimeS =>
    have htimeout : Normal ⟨ulTimeS.toNat, 0⟩ := Nat.zero_lt_succ _
    exact iff_of_true
      ⟨htimeout, normal_rebase h.base h.expired, normal_timeradd h.expired htimeout⟩ trivial
  | addTime pTimeout =>
    exact iff_of_true ((normalised_addTime h).mpr pTimeout.property) trivial

theorem normalised_states (h : Normalised pTimer) (ops : List (Nat × TimerOp)) :
    (∀ t ∈ states step pTimer ops, Normalised t) ↔ ∀ op ∈ ops, Kept op.2 := by
  have hiff : ∀ p (op : Nat × TimerOp), Normalised p → (Normalised (step p op) ↔ Kept op.2) :=
    fun _ op hp => normalised_step hp op
  have hrun := safe_iff_admitted (fun _ hp => hp) (fun p op hp => (hiff p op hp).mpr)
    (fun p op hp => (hiff p op hp).mp) h ops
  rw [hrun]
  exact admitted_const

/-- In every run that begins with an `init`, whatever the memory of the timer held, its times are
normalised throughout exactly if every amount of milliseconds is one of whole seconds. -/
theorem normalised_throughout_iff (pTimer : FtmTimer) (now : Nat) (start : TimerStart)
    (ops : List (Nat × TimerOp)) :
    (∀ t ∈ states step pTimer ((now, .init start) :: ops), Normalised t) ↔
      ∀ op ∈ (now, TimerOp.init start) :: ops, Kept op.2 := by
  rw [states_cons, List.forall_mem_cons, List.forall_mem_cons]
  have hstart : Normalised (step pTimer (now, .init start)) ↔ Kept (.init start) :=
    normalised_start now start
  constructor
  · intro h
    obtain ⟨hfirst, hrest⟩ := h
    exact ⟨hstart.mp hfirst, (normalised_states hfirst ops).mp hrest⟩
  · intro h
    obtain ⟨hfirst, hrest⟩ := h
    have hfirst' := hstart.mpr hfirst
    exact ⟨hfirst', (normalised_states hfirst' ops).mpr hrest⟩

end

/-- A timer of ten seconds gets a second and a half more. -/
theorem half_second_overflows :
    ¬∀ t ∈ states step tenSeconds [(0, .init (.initS 10)), (5000000, .addMS 1500)],
      Normalised t := by
  intro h
  have hlast := h _ (foldl_mem_states tenSeconds (List.cons_ne_nil _ _))
  have htimeout : Normal ⟨1, 500000000⟩ := hlast.timeout
  exact absurd htimeout (by unfold Dispatch.Normal; decide)

end Catchb.Proofs.TimerRuns
