import Catchb.Proofs.Sequence

/-! Timers, and the events that a manager keeps in the order in which they expire. -/

namespace Catchb

/-- `struct timeval`. -/
structure Timeval where
  tv_sec : Nat
  tv_usec : Nat
  deriving DecidableEq

namespace Timeval

/-- What `gettimeofday` gives, of a clock that counts microseconds. -/
def gettimeofday (now : Nat) : Timeval := ⟨now / 1000000, now % 1000000⟩

/-- `timercmp` with `<`. -/
def before (a b : Timeval) : Bool :=
  if a.tv_sec = b.tv_sec then a.tv_usec < b.tv_usec else a.tv_sec < b.tv_sec

/-- At most one second is carried. -/
def timeradd (a b : Timeval) : Timeval :=
  let usec := a.tv_usec + b.tv_usec
  if 1000000 ≤ usec then ⟨a.tv_sec + b.tv_sec + 1, usec - 1000000⟩
  else ⟨a.tv_sec + b.tv_sec, usec⟩

def timersub (a b : Timeval) : Timeval :=
  if a.tv_usec < b.tv_usec then ⟨a.tv_sec - b.tv_sec - 1, a.tv_usec + 1000000 - b.tv_usec⟩
  else ⟨a.tv_sec - b.tv_sec, a.tv_usec - b.tv_usec⟩

end Timeval

structure FtmTimer where
  xBaseTime : Timeval
  xExpiredTime : Timeval
  xTimeout : Timeval
  deriving DecidableEq

/-! `now` is what the clock says at each call of `gettimeofday`. -/

namespace FtmTimer
open Timeval

def initUS (now : Nat) (ulTimeoutUS : UInt32) : FtmTimer :=
  let xTimeout := ⟨ulTimeoutUS.toNat / 1000000, ulTimeoutUS.toNat % 1000000⟩
  let xBaseTime := gettimeofday now
  ⟨xBaseTime, xBaseTime.timeradd xTimeout, xTimeout⟩

def initS (now : Nat) (ulTimeoutS : UInt32) : FtmTimer := initUS now (ulTimeoutS * 1000000)

def initMS (now : Nat) (ulTimeoutMS : UInt32) : FtmTimer :=
  let xTimeout := ⟨ulTimeoutMS.toNat / 1000, ulTimeoutMS.toNat % 1000 * 1000⟩
  let xBaseTime := gettimeofday now
  ⟨xBaseTime, xBaseTime.timeradd xTimeout, xTimeout⟩

/-- The milliseconds are multiplied by a million. Only the seconds of a base time that lies
too far back are replaced. -/
def addMS (now : Nat) (ulTimeMS : UInt32) (pTimer : FtmTimer) : FtmTimer :=
  let xCurrentTime := gettimeofday now
  let xTimeout := ⟨ulTimeMS.toNat / 1000, ulTimeMS.toNat % 1000 * 1000000⟩
  let xBaseTime :=
    if xCurrentTime.before pTimer.xBaseTime then xCurrentTime
    else
      let ulDiff := (xCurrentTime.tv_sec - pTimer.xBaseTime.tv_sec).toUInt32
      if ulDiff > ulTimeMS / 1000 then { pTimer.xBaseTime with tv_sec := xCurrentTime.tv_sec }
      else pTimer.xExpiredTime
  ⟨xBaseTime, pTimer.xExpiredTime.timeradd xTimeout, xTimeout⟩

/-- The base time that `addUS` and `addS` set, as `addMS` does, with their amount in whole
seconds. -/
def rebase (now : Nat) (ulTimeS : UInt32) (pTimer : FtmTimer) : Timeval :=
  let xCurrentTime := gettimeofday now
  if xCurrentTime.before pTimer.xBaseTime then xCurrentTime
  else
    let ulDiff := (xCurrentTime.tv_sec - pTimer.xBaseTime.tv_sec).toUInt32
    if ulDiff > ulTimeS then { pTimer.xBaseTime with tv_sec := xCurrentTime.tv_sec }
    else pTimer.xExpiredTime

/-- The amount is added to the base time. -/
def addUS (now : Nat) (ulTimeUS : UInt32) (pTimer : FtmTimer) : FtmTimer :=
  let xTimeout := ⟨ulTimeUS.toNat / 1000000, ulTimeUS.toNat % 1000000⟩
  let xBaseTime := pTimer.rebase now (ulTimeUS / 1000000)
  ⟨xBaseTime, xBaseTime.timeradd xTimeout, xTimeout⟩

def addS (now : Nat) (ulTimeS : UInt32) (pTimer : FtmTimer) : FtmTimer :=
  let xTimeout := ⟨ulTimeS.toNat, 0⟩
  ⟨pTimer.rebase now ulTimeS, pTimer.xExpiredTime.timeradd xTimeout, xTimeout⟩

def addTime (pTimeout : Timeval) (pTimer : FtmTimer) : FtmTimer :=
  { pTimer with xExpiredTime := pTimer.xExpiredTime.timeradd pTimeout, xTimeout := pTimeout }

def initTime (now : Nat) (pTimeout : Timeval) : FtmTimer := (initUS now 0).addTime pTimeout

def isExpired (now : Nat) (pTimer : FtmTimer) : Bool :=
  let xCurrentTime := gettimeofday now
  pTimer.xExpiredTime.before xCurrentTime || xCurrentTime.before pTimer.xBaseTime

/-- What `usleep` is given, or none where it is not called. The sum is stored in 32 bits. -/
def waitForExpired (now : Nat) (pTimer : FtmTimer) : Option UInt32 :=
  let xCurrentTime := gettimeofday now
  if pTimer.xBaseTime.before xCurrentTime && xCurrentTime.before pTimer.xExpiredTime then
    let xDiffTime := pTimer.xExpiredTime.timersub xCurrentTime
    some (xDiffTime.tv_sec * 1000000 + xDiffTime.tv_usec).toUInt32
  else none

def remainUS (now : Nat) (pTimer : FtmTimer) : UInt64 :=
  let xCurrentTime := gettimeofday now
  if xCurrentTime.before pTimer.xExpiredTime then
    let xDiffTime := pTimer.xExpiredTime.timersub xCurrentTime
    xDiffTime.tv_sec.toUInt64 * 1000000 + xDiffTime.tv_usec.toUInt64
  else 0

/-- The quotient is stored in 32 bits. -/
def remainMS (now : Nat) (pTimer : FtmTimer) : UInt32 := (remainUS now pTimer / 1000).toUInt32

end FtmTimer

inductive EventTimerType
  | once
  | repeating
  deriving DecidableEq

/-- A callback adds no events and leaves its timer alone. -/
structure EventTimer where
  xType : EventTimerType
  ulTimeMS : UInt32
  xTimer : FtmTimer
  deriving DecidableEq

namespace EventTimer

def comparator (now : Nat) (pEvent1 pEvent2 : EventTimer) : Int :=
  let ulRemainTime1 := pEvent1.xTimer.remainMS now
  let ulRemainTime2 := pEvent2.xTimer.remainMS now
  if ulRemainTime1 > ulRemainTime2 then 1 else if ulRemainTime1 = ulRemainTime2 then 0 else -1

end EventTimer

structure EventTimerManager where
  ulLoopInterval : UInt32
  pEventList : List EventTimer

namespace EventTimerManager
open Proofs.Sequence

def create : EventTimerManager := ⟨10, []⟩

/-- `FTM_LIST_insert` in ascending order, while the clock stands still. -/
def insert (now : Nat) (pEvent : EventTimer) (pETM : EventTimerManager) : EventTimerManager :=
  { pETM with
    pEventList :=
      insertBefore (fun e => EventTimer.comparator now e pEvent > 0) pEvent pETM.pEventList }

/-- `created` is when the timer starts, `now` when the manager's lock is free. -/
def add (created now : Nat) (xType : EventTimerType) (ulExpiredTime : UInt32)
    (pETM : EventTimerManager) : EventTimerManager :=
  pETM.insert now
    { xType
      ulTimeMS := if ulExpiredTime > pETM.ulLoopInterval then ulExpiredTime else pETM.ulLoopInterval
      xTimer := .initMS created ulExpiredTime }

/-- One turn of the scan, or none where the scan stops. The clock is read at the check of the
first event, when its timer is set on, and when it is put back. -/
def dispatch (checked added inserted : Nat) (pETM : EventTimerManager) :
    Option EventTimerManager :=
  match pETM.pEventList with
  | [] => none
  | pEvent :: rest =>
    if pEvent.xTimer.isExpired checked then
      let removed := { pETM with pEventList := rest }
      match pEvent.xType with
      | .repeating =>
        some (removed.insert inserted
          { pEvent with xTimer := pEvent.xTimer.addMS added pEvent.ulTimeMS })
      | .once => some removed
    else none

end EventTimerManager
end Catchb
