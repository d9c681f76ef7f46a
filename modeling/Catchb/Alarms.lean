import Catchb.LinkedList
import Catchb.Smtpc

/-! The daemon's calls that walk over the list of its alarms. -/

namespace Catchb
open Lib

/-- The list holds addresses of alarms. -/
structure Alarms where
  pAlarmList : IterList Ptr Text
  memory : Ptr → FtmAlarm

namespace Alarms

def fieldEmail : UInt32 := (1 : UInt32) <<< 1
def fieldMessage : UInt32 := (1 : UInt32) <<< 2

def setFields (ulFieldFlags : UInt32) (pAlarm pTempAlarm : FtmAlarm) : FtmAlarm :=
  { pTempAlarm with
    pEmail := if ulFieldFlags &&& fieldEmail ≠ 0 then pAlarm.pEmail else pTempAlarm.pEmail
    pMessage :=
      if ulFieldFlags &&& fieldMessage ≠ 0 then pAlarm.pMessage else pTempAlarm.pMessage }

/-- `astray` is a call that follows an address which was never set. -/
inductive Ending
  | returned (xRet : Ret) (s : Alarms)
  | astray

/-- The loop goes on while there is no next alarm. `none` is a loop that has not ended. -/
def setLoop (pName : Text) (pAlarm : FtmAlarm) (ulFieldFlags : UInt32) :
    Nat → Option Ptr → Alarms → Option Ending
  | 0, _, _ => none
  | n + 1, pTempAlarm, s =>
    let ((xRet, _), pAlarmList) := s.pAlarmList.iteratorNext
    let s := { s with pAlarmList }
    if xRet = .ok then some (.returned .objectNotFound s)
    else
      match pTempAlarm with
      | none => some .astray
      | some p =>
        if pName = (s.memory p).pName.val then
          some (.returned .ok { s with
            memory := Function.update s.memory p (setFields ulFieldFlags pAlarm (s.memory p)) })
        else setLoop pName pAlarm ulFieldFlags n pTempAlarm s

def setAlarm (pName : Text) (pAlarm : FtmAlarm) (ulFieldFlags : UInt32) (s : Alarms) :
    Option Ending :=
  setLoop pName pAlarm ulFieldFlags FtmList.fuel none
    { s with pAlarmList := s.pAlarmList.iteratorStart }

section
variable {γ : Type}

/-- The loop of the two readings, which copies `f` of an alarm. The count is tested after the
copy. -/
def copyLoop (f : FtmAlarm → γ) (ulIndex ulMaxCount : UInt32) :
    Nat → UInt32 → UInt32 → Alarms → Option ((List γ × UInt32) × Alarms)
  | 0, _, _, _ => none
  | n + 1, i, ulCount, s =>
    match s.pAlarmList.iteratorNext with
    | ((.ok, some p), pAlarmList) =>
      let s := { s with pAlarmList }
      let (copied, ulCount) :=
        if i ≥ ulIndex then ([f (s.memory p)], ulCount + 1) else ([], ulCount)
      if ulCount ≥ ulMaxCount then some ((copied, ulCount), s)
      else
        (copyLoop f ulIndex ulMaxCount n (i + 1) ulCount s).map
          (fun ((rest, ulCount), s) => ((copied ++ rest, ulCount), s))
    | (_, pAlarmList) => some (([], ulCount), { s with pAlarmList })

/-- The elements that are written, and `*pCount`. -/
def copyList (f : FtmAlarm → γ) (i ulIndex ulMaxCount : UInt32) (s : Alarms) :
    Option ((List γ × UInt32) × Alarms) :=
  copyLoop f ulIndex ulMaxCount FtmList.fuel i 0
    { s with pAlarmList := s.pAlarmList.iteratorStart }

end

def getAlarmList (ulIndex ulMaxCount : UInt32) (s : Alarms) :
    Option ((List FtmAlarm × UInt32) × Alarms) :=
  copyList id 0 ulIndex ulMaxCount s

/-- Nothing sets `i` before it is read. -/
def getAlarmNameList (i ulIndex ulMaxCount : UInt32) (s : Alarms) :
    Option ((List Text × UInt32) × Alarms) :=
  copyList (fun pAlarm => pAlarm.pName.val) i ulIndex ulMaxCount s

end Alarms
end Catchb
