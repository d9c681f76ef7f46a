import Catchb.Params
import Catchb.Types

/-! The server's services, as far as the headers of their responses. -/

namespace Catchb
open Lib Params

/-- `FTM_RET` as it is sent. -/
abbrev RetCode := UInt32

def retOK : RetCode := 0
def retNotEnoughMemory : RetCode := 2
def retFunctionNotSupported : RetCode := 37

/-- What one request finds. `ssid` and `xRet` are what the session ID's check and the operation
on the daemon return, `logs` the rows of the log query, and `i` the counter that the name list
starts with, which nothing sets. -/
structure ServiceRun where
  ulRespBufferLen : UInt32
  ssid : RetCode
  xRet : RetCode
  malloc : Bool
  pCCTVList : List ID
  pSwitchList : List ID
  pModelList : List ModelName
  pAlarmList : List UserName
  pStatisticsList : List UInt32
  logs : List Log
  i : UInt32

structure Req where
  xCmd : Nat
  ulIndex : UInt32
  ulCount : UInt32

structure Resp where
  xCmd : Nat
  ulLen : UInt32
  xRet : RetCode
  ulCount : UInt32

abbrev Service := ServiceRun → Req → Resp → RetCode × Resp

/-- The enumeration's value. -/
def Cmd.code (c : Cmd) : Nat := c.ctorIdx

def Resp.fill (pResp : Resp) (pReq : Req) (xRet : RetCode) (ulLen : Nat) : Resp :=
  { pResp with xCmd := pReq.xCmd, ulLen := .ofNat ulLen, xRet }

/-- The elements of a list behind the header. -/
def Resp.list (pResp : Resp) (pReq : Req) (c : Cmd) (t : CType) (xRet : RetCode) (ulCount : Nat) :
    Resp :=
  { pResp.fill pReq xRet ((respParams c).size + t.size * ulCount) with ulCount := .ofNat ulCount }

/-- The elements that a response of the length has room for; a `size_t` has 32 bits too. -/
def roomFor (ulLen : UInt32) (c : Cmd) (t : CType) : UInt32 :=
  (ulLen - .ofNat (respParams c).size) / .ofNat t.size

/-- A count that is not let over another one. -/
def clamp (ulMaxCount ulCount : UInt32) : UInt32 :=
  if ulMaxCount > ulCount then ulCount else ulMaxCount

theorem toNat_clamp (ulMaxCount ulCount : UInt32) :
    (clamp ulMaxCount ulCount).toNat = min ulMaxCount.toNat ulCount.toNat := by
  unfold clamp
  split
  · rename_i hlt
    exact (Nat.min_eq_right (Nat.le_of_lt hlt)).symm
  · rename_i hle
    exact (Nat.min_eq_left (Nat.le_of_not_lt hle)).symm

/-- The daemon's lists are read from the front for as long as there is an element. -/
def getList {α : Type} (pList : List α) (ulMaxCount : UInt32) : List α :=
  pList.take ulMaxCount.toNat

/-- An element is taken before the count is compared. -/
def getAlarmNameList (ulIndex ulMaxCount : UInt32) : UInt32 → UInt32 → List UserName → List UserName
  | _, _, [] => []
  | i, ulCount, pName :: rest =>
    if ulIndex ≤ i then
      if ulMaxCount ≤ ulCount + 1 then [pName]
      else pName :: getAlarmNameList ulIndex ulMaxCount (i + 1) (ulCount + 1) rest
    else if ulMaxCount ≤ ulCount then []
    else getAlarmNameList ulIndex ulMaxCount (i + 1) ulCount rest

namespace Service

/-- The services that answer with their operation's result and return their own. -/
def answers (c : Cmd) : Service := fun run pReq pResp =>
  (retOK, pResp.fill pReq run.xRet (respParams c).size)

/-- The services that return their operation's result as well. -/
def returns (c : Cmd) : Service := fun run pReq pResp =>
  (run.xRet, pResp.fill pReq run.xRet (respParams c).size)

/-- The services that list what the daemon has. -/
def lists {α : Type} (c : Cmd) (t : CType) (pList : ServiceRun → List α) : Service :=
  fun run pReq pResp =>
    let ulMaxCount := clamp (roomFor pResp.ulLen c t) pReq.ulCount
    (retOK, pResp.list pReq c t retOK (getList (pList run) ulMaxCount).length)

/-- The services that list copies from an allocation of their own. -/
def copies (c : Cmd) (t : CType) (pList : ServiceRun → List ID) : Service :=
  fun run pReq pResp =>
    let ulMaxCount := clamp (roomFor pResp.ulLen c t) pReq.ulCount
    if run.malloc then
      (retOK, pResp.list pReq c t retOK (getList (pList run) ulMaxCount).length)
    else (retOK, pResp.list pReq c t retNotEnoughMemory 0)

def cctvAdd : Service := answers .cctvAdd
def cctvDel : Service := answers .cctvDel
def cctvGetProperties : Service := answers .cctvGetProperties
def cctvSetProperties : Service := answers .cctvSetProperties
def cctvGetCount : Service := answers .cctvGetCount

/-- The count of the request is not looked at. -/
def cctvGetIDList : Service := fun run pReq pResp =>
  let ulMaxCount := roomFor pResp.ulLen .cctvGetIDList id
  (retOK, pResp.list pReq .cctvGetIDList id retOK (getList run.pCCTVList ulMaxCount).length)

def cctvGetList : Service := copies .cctvGetList cctvConfig ServiceRun.pCCTVList
def cctvSetPolicy : Service := answers .cctvSetPolicy
def cctvReset : Service := answers .cctvReset
def switchAdd : Service := answers .switchAdd
def switchDel : Service := answers .switchDel
def switchGetCount : Service := answers .switchGetCount
def switchGetProperties : Service := answers .switchGetProperties
def switchSetProperties : Service := answers .switchSetProperties
def switchGetIDList : Service := lists .switchGetIDList id ServiceRun.pSwitchList
def switchGetList : Service := copies .switchGetList switchConfig ServiceRun.pSwitchList
def switchGetModelList : Service := lists .switchGetModelList switchModelInfo ServiceRun.pModelList

def logGetList : Service := fun run pReq pResp =>
  let ulMaxCount := clamp (roomFor pResp.ulLen .logGetList log) pReq.ulCount
  let pLogList := if run.xRet = retOK then getList run.logs ulMaxCount else []
  (retOK, pResp.list pReq .logGetList log run.xRet pLogList.length)

/-- The length stays what the session's thread set. -/
def logGetCount2 : Service := fun run pReq pResp =>
  (retOK, { pResp with xCmd := pReq.xCmd, xRet := run.xRet })

def logDel : Service := answers .logDel
def logGetCount : Service := returns .logGetCount
def logGetInfo : Service := returns .logGetInfo
def alarmAdd : Service := answers .alarmAdd
def alarmDel : Service := answers .alarmDel
def alarmGetCount : Service := returns .alarmGetCount
def alarmGet : Service := returns .alarmGet
def alarmSet : Service := returns .alarmSet

def alarmGetNameList : Service := fun run pReq pResp =>
  let ulMaxCount := clamp (roomFor pResp.ulLen .alarmGetNameList name) pReq.ulCount
  let pNameList := getAlarmNameList pReq.ulIndex ulMaxCount run.i 0 run.pAlarmList
  (retOK, pResp.list pReq .alarmGetNameList name retOK pNameList.length)

def smtpGet : Service := returns .smtpGet
def smtpSet : Service := returns .smtpSet

/-- The samples are read from the request's index on. -/
def statGetList : Service := fun run pReq pResp =>
  let ulMaxCount := clamp (roomFor pResp.ulLen .statGetList statistics) pReq.ulCount
  let pStatList := getList (run.pStatisticsList.drop pReq.ulIndex.toNat) ulMaxCount
  (retOK, pResp.list pReq .statGetList statistics retOK pStatList.length)

def statDel : Service := answers .statDel
def statDel2 : Service := answers .statDel2
def statGetCount : Service := returns .statGetCount
def statGetInfo : Service := returns .statGetInfo
def statSetInfo : Service := returns .statSetInfo
def ssidCreate : Service := returns .ssidCreate
def ssidDel : Service := returns .ssidDel
def ssidVerify : Service := returns .ssidVerify

end Service

open Service in
def pCmdSet : List (Cmd × Service) :=
  [(.cctvAdd, cctvAdd), (.cctvDel, cctvDel), (.cctvGetCount, cctvGetCount),
    (.cctvGetProperties, cctvGetProperties), (.cctvSetProperties, cctvSetProperties),
    (.cctvGetIDList, cctvGetIDList), (.cctvGetList, cctvGetList), (.cctvSetPolicy, cctvSetPolicy),
    (.cctvReset, cctvReset), (.switchAdd, switchAdd), (.switchDel, switchDel),
    (.switchGetCount, switchGetCount), (.switchGetProperties, switchGetProperties),
    (.switchSetProperties, switchSetProperties), (.switchGetIDList, switchGetIDList),
    (.switchGetList, switchGetList), (.switchGetModelList, switchGetModelList),
    (.logGetCount, logGetCount), (.logGetCount2, logGetCount2), (.logGetInfo, logGetInfo),
    (.logGetList, logGetList), (.logDel, logDel), (.alarmAdd, alarmAdd), (.alarmDel, alarmDel),
    (.alarmGetCount, alarmGetCount), (.alarmGet, alarmGet), (.alarmSet, alarmSet),
    (.alarmGetNameList, alarmGetNameList), (.smtpSet, smtpSet), (.smtpGet, smtpGet),
    (.statGetCount, statGetCount), (.statSetInfo, statSetInfo), (.statGetInfo, statGetInfo),
    (.statGetList, statGetList), (.statDel, statDel), (.statDel2, statDel2),
    (.ssidCreate, ssidCreate), (.ssidDel, ssidDel), (.ssidVerify, ssidVerify)]

/-- The table's entry for a command's value. -/
def findCmdSet (xCmd : Nat) : Option (Cmd × Service) :=
  pCmdSet.find? (fun pSet => pSet.1.code = xCmd)

def serviceCall (run : ServiceRun) (pReq : Req) (pResp : Resp) : RetCode × Resp :=
  if pReq.xCmd ≠ Cmd.ssidCreate.code ∧ run.ssid ≠ retOK then (run.ssid, pResp)
  else
    match findCmdSet pReq.xCmd with
    | none => (retFunctionNotSupported, pResp)
    | some pSet => pSet.2 run pReq pResp

/-- A result that is not OK is sent alone. -/
def finish (pReq : Req) (xRet : RetCode) (pResp : Resp) : Resp :=
  if xRet ≠ retOK then pResp.fill pReq xRet resp.size else pResp

/-- One round of the session's thread, from the request to the header of what is sent. -/
def service (run : ServiceRun) (pReq : Req) (pResp : Resp) : Resp :=
  let (xRet, pResp) := serviceCall run pReq { pResp with ulLen := run.ulRespBufferLen }
  finish pReq xRet pResp

end Catchb
