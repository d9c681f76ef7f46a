import Catchb.Ssid
import Catchb.Stubs

/-! The server's call of a service, with the state that the services change. -/

namespace Catchb
open Lib

/-- `rest` is what only the other services work on. The statistics are the samples' times. -/
structure Server (ρ : Type) where
  ulSSIDTimeout : UInt32
  idList : Ssid.IDList
  pStatisticsList : List UInt32
  rest : ρ

/-- A request in its buffer. Its fields are where the services read them, each service its own,
whether they were received or not. -/
structure ServerReq where
  req : Req
  pSSID : Text
  pID : Text
  pPasswd : Text
  ulBeginTime : UInt32
  ulEndTime : UInt32

/-- What a call finds; `verify` is for a check that a service makes itself. -/
structure CallRun where
  service : ServiceRun
  check : Ssid.CheckRun
  verify : Ssid.CheckRun
  create : Ssid.CreateRun

namespace Server
variable {ρ : Type}

/-- The operation of a service and what the service answers from. -/
abbrev Operation (ρ : Type) := ServerReq → CallRun → Server ρ → ServiceRun × Server ρ

/-- The samples of a time, up to the first that is too late. -/
def delStatistics2 (ulFirstTime ulLastTime : UInt32) : List UInt32 → List UInt32
  | [] => []
  | t :: rest =>
    if t < ulFirstTime then t :: delStatistics2 ulFirstTime ulLastTime rest
    else if t ≥ ulLastTime then t :: rest
    else delStatistics2 ulFirstTime ulLastTime rest

def getStatisticsInfo (s : Server ρ) : RetCode :=
  if s.pStatisticsList = [] then retListEmpty else retOK

def statDel2 : Operation ρ := fun pReq run s =>
  let s := { s with
    pStatisticsList := delStatistics2 pReq.ulBeginTime pReq.ulEndTime s.pStatisticsList }
  ({ run.service with xRet := s.getStatisticsInfo }, s)

def ssidCreate : Operation ρ := fun pReq run s =>
  match Ssid.create s.idList (some pReq.pID) (some pReq.pPasswd) run.create with
  | (.ok _, idList) => ({ run.service with xRet := retOK }, { s with idList })
  | (.error xRet, idList) => ({ run.service with xRet }, { s with idList })

def ssidDel : Operation ρ := fun pReq run s =>
  let (xRet, idList) := Ssid.destroy s.idList pReq.pSSID
  ({ run.service with xRet }, { s with idList })

def ssidVerify : Operation ρ := fun pReq run s =>
  let (xRet, idList) := Ssid.isValid s.idList pReq.pSSID s.ulSSIDTimeout run.verify
  ({ run.service with xRet }, { s with idList })

/-- `other` are the operations of the services that have nothing to do with sessions. -/
def operation (other : Cmd → Operation ρ) : Cmd → Operation ρ
  | .statDel2 => statDel2
  | .ssidCreate => ssidCreate
  | .ssidDel => ssidDel
  | .ssidVerify => ssidVerify
  | c => other c

/-- The check of a request's session ID, which only the creation of a session goes without. -/
def check (pReq : ServerReq) (run : CallRun) (s : Server ρ) : RetCode × Server ρ :=
  if pReq.req.xCmd ≠ Cmd.ssidCreate.code then
    let (xRet, idList) := Ssid.isValid s.idList pReq.pSSID s.ulSSIDTimeout run.check
    (xRet, { s with idList })
  else (retOK, s)

/-- `fService` are the operations of the table's entries. -/
def serviceCall (fService : Cmd → Operation ρ) (pReq : ServerReq) (run : CallRun) (s : Server ρ)
    (pResp : Resp) : RetCode × Resp × Server ρ :=
  let (xRet, s) := s.check pReq run
  if xRet ≠ retOK then (xRet, pResp, s)
  else
    match findCmdSet pReq.req.xCmd with
    | none => (retFunctionNotSupported, pResp, s)
    | some pSet =>
      let (service, s) := fService pSet.1 pReq run s
      let (xRet, pResp) := pSet.2 { service with ssid := xRet } pReq.req pResp
      (xRet, pResp, s)

/-- One round of the session's thread, from the request to the header of what is sent. -/
def service (fService : Cmd → Operation ρ) (pReq : ServerReq) (run : CallRun) (s : Server ρ)
    (pResp : Resp) : Resp × Server ρ :=
  let (xRet, pResp, s) :=
    s.serviceCall fService pReq run { pResp with ulLen := run.service.ulRespBufferLen }
  (finish pReq.req xRet pResp, s)

/-- The request of `FTM_CLIENT_SSID_del` ends with its common part. -/
def ssidDelReq (pSSID : Text) (pReqBuff : ServerReq) : ServerReq :=
  { pReqBuff with
    req := { pReqBuff.req with xCmd := (sentCmd .ssidDel).code }
    pSSID := (Field.copy 16 pSSID).val }

/-- `FTM_CLIENT_SSID_del`, with its request and its response delivered. -/
def clientSsidDel (other : Cmd → Operation ρ) (pSSID : Text) (pReqBuff : ServerReq) (run : CallRun)
    (s : Server ρ) (pResp : Resp) : RetCode × Server ρ :=
  let (pResp, s) := s.service (operation other) (ssidDelReq pSSID pReqBuff) run pResp
  (pResp.xRet, s)

theorem check_listed {pReq : ServerReq} {run : CallRun} {s : Server ρ}
    (hcmd : pReq.req.xCmd ≠ Cmd.ssidCreate.code)
    (h : Ssid.Listed s.idList pReq.pSSID s.ulSSIDTimeout run.check.ulTime) : s.check pReq run =
      (retOK, { s with
        idList := (Ssid.isValid s.idList pReq.pSSID s.ulSSIDTimeout run.check).2 }) := by
  have hret := Ssid.isValid_iff_listed.mpr h
  simp [check, hcmd, hret]

theorem serviceCall_found {fService : Cmd → Operation ρ} {pReq : ServerReq} {run : CallRun}
    {s s' : Server ρ} {c : Cmd} {f : Service} (hcheck : s.check pReq run = (retOK, s'))
    (hfind : findCmdSet pReq.req.xCmd = some (c, f)) (pResp : Resp) :
    s.serviceCall fService pReq run pResp =
      let answer := f { (fService c pReq run s').1 with ssid := retOK } pReq.req pResp
      (answer.1, answer.2, (fService c pReq run s').2) := by
  simp [serviceCall, hcheck, hfind]

/-- What is answered is what the services answer that have no state, when they find what the check
and the operation return. -/
theorem serviceCall_refines (fService : Cmd → Operation ρ) (pReq : ServerReq) (run : CallRun)
    (s : Server ρ) (pResp : Resp) : ∃ found : ServiceRun, found.ssid = (s.check pReq run).1 ∧
      Catchb.serviceCall found pReq.req pResp =
        ((s.serviceCall fService pReq run pResp).1, (s.serviceCall fService pReq run pResp).2.1) := by
  cases hcheck : s.check pReq run with
  | mk xRet s' =>
    by_cases hok : xRet = retOK
    · cases hfind : findCmdSet pReq.req.xCmd with
      | none =>
        refine ⟨{ run.service with ssid := xRet }, rfl, ?_⟩
        simp [Catchb.serviceCall, serviceCall, hcheck, hok, hfind]
      | some pSet =>
        refine ⟨{ (fService pSet.1 pReq run s').1 with ssid := xRet }, rfl, ?_⟩
        simp [Catchb.serviceCall, serviceCall, hcheck, hok, hfind]
    · have hcmd : pReq.req.xCmd ≠ Cmd.ssidCreate.code := by
        intro heq
        simp only [check, heq, ne_eq, not_true_eq_false, ↓reduceIte, Prod.mk.injEq] at hcheck
        exact hok hcheck.1.symm
      refine ⟨{ run.service with ssid := xRet }, rfl, ?_⟩
      simp [Catchb.serviceCall, serviceCall, hcheck, hok, hcmd]

end Server
end Catchb
