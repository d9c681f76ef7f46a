import Catchb.Service

/-! The client's calls, each named by its command, and calls one after the other on a connection, each
response arriving whole. -/

namespace Catchb
open Lib Params

/-- The command that the call of a name puts in its request. -/
def sentCmd : Cmd → Cmd
  | .ssidDel => .statDel2
  | c => c

/-- The request a call sends is the structure of its own name. -/
structure Request where
  stub : Cmd
  known : stub ≠ .unknown
  body : List UInt8
  sized : 4 + body.length = (reqParams stub).size

structure Call where
  stub : Cmd
  known : stub ≠ .unknown
  ulIndex : UInt32
  ulMaxCount : UInt32

/-- The elements of the lists. -/
def listElem : Cmd → Option CType
  | .cctvGetIDList | .switchGetIDList => some id
  | .cctvGetList => some cctvConfig
  | .switchGetList => some switchConfig
  | .switchGetModelList => some switchModelInfo
  | .logGetList => some log
  | .alarmGetNameList => some name
  | .statGetList => some statistics
  | _ => none

/-- The elements that a frame of `FTM_PARAM_MAX_LEN` bytes has room for. -/
def allowed (c : Cmd) (t : CType) : UInt32 := .ofNat ((4096 - (respParams c).size) / t.size)

namespace Call

/-- The count that a list's request asks for. For more logs or samples than are allowed a call
makes calls of its own. -/
def ulCount (call : Call) : UInt32 :=
  match call.stub with
  | .cctvGetList => clamp call.ulMaxCount (allowed .cctvGetList cctvConfig)
  | .switchGetList => clamp call.ulMaxCount (allowed .switchGetList switchConfig)
  | .switchGetModelList => clamp call.ulMaxCount (allowed .switchGetModelList switchModelInfo)
  | .logGetList => clamp call.ulMaxCount (allowed .logGetList log)
  | .statGetList => clamp call.ulMaxCount (allowed .statGetList statistics)
  | _ => call.ulMaxCount

def request (call : Call) : Req := ⟨(sentCmd call.stub).code, call.ulIndex, call.ulCount⟩

/-- The length of a list of elements, as a call allocates and passes it. -/
def ulRespLen (c : Cmd) (t : CType) (ulMaxCount : UInt32) : UInt32 :=
  .ofNat ((respParams c).size + t.size * ulMaxCount.toNat)

/-- The bytes that a call's `recv` takes; the `int` between turns into the same `size_t`. -/
def readLen (call : Call) : Nat :=
  match listElem call.stub with
  | none => (respParams call.stub).size
  | some t => (ulRespLen call.stub t call.ulCount).toNat

/-- Where the fields end that a call uses of a response. -/
def usedLen (call : Call) (pResp : Resp) : Nat :=
  match listElem call.stub with
  | none => (respParams call.stub).size
  | some t => (respParams call.stub).size + t.size * pResp.ulCount.toNat

/-- What one request of a call meets. The response is `answered` when there is memory for it and
it comes in time; `heap` is what that memory holds of a field that is not received whole. -/
structure Round where
  run : ServiceRun
  pResp : Resp
  answered : Bool
  heap : Resp

/-- The fields of a response as `recv` leaves them, the count being the last of the fixed part. -/
def received (call : Call) (pResp heap : Resp) : Resp where
  xCmd := if 4 ≤ call.readLen then pResp.xCmd else heap.xCmd
  ulLen := if 8 ≤ call.readLen then pResp.ulLen else heap.ulLen
  xRet := if resp.size ≤ call.readLen then pResp.xRet else heap.xRet
  ulCount := if (respParams call.stub).size ≤ call.readLen then pResp.ulCount else heap.ulCount

/-- The elements that one request copies, if it does not fail. The list of models has to be
shorter than what was asked for. -/
def copied (call : Call) (round : Round) : Option UInt32 :=
  let pResp := call.received (service round.run call.request round.pResp) round.heap
  if round.answered = false ∨ pResp.xRet ≠ retOK then none
  else if call.stub = .switchGetModelList ∧ call.ulCount ≤ pResp.ulCount then none
  else some pResp.ulCount

/-- The requests for more elements than are allowed at once; `ulTotalCount` of them are copied so
far. Only the logs stop where no element comes. -/
def copyAll (stub : Cmd) (known : stub ≠ .unknown) (ulAllowedNumber : UInt32) :
    UInt32 → UInt32 → UInt32 → List Round → List (UInt32 × UInt32)
  | _, _, _, [] => []
  | ulIndex, ulMaxCount, ulTotalCount, round :: rounds =>
    if ulMaxCount = 0 then []
    else
      match copied ⟨stub, known, ulIndex, clamp ulAllowedNumber ulMaxCount⟩ round with
      | none => []
      | some ulRespCount =>
        (ulTotalCount, ulRespCount) ::
          if stub = .logGetList ∧ ulRespCount = 0 then []
          else
            copyAll stub known ulAllowedNumber (ulIndex + ulRespCount) (ulMaxCount - ulRespCount)
              (ulTotalCount + ulRespCount) rounds

/-- Where in the caller's array a list call copies elements, and how many. -/
def copies (call : Call) (rounds : List Round) : List (UInt32 × UInt32) :=
  let once := rounds.head?.bind call.copied |>.toList.map (Prod.mk 0)
  let more := fun ulAllowedNumber =>
    if ulAllowedNumber ≥ call.ulMaxCount then once
    else copyAll call.stub call.known ulAllowedNumber call.ulIndex call.ulMaxCount 0 rounds
  match call.stub with
  | .logGetList => more (allowed .logGetList log)
  | .statGetList => more (allowed .statGetList statistics)
  | _ => once

end Call

/-- `got` is what a call received, each byte as the number of the call it answers. -/
structure Exchange where
  call : Call
  pResp : Resp
  got : List Nat

structure Wire where
  pResp : Resp
  unread : List Nat
  exchanges : List Exchange

namespace Wire

/-- The response buffer is as it was allocated. -/
def connect (pResp : Resp) : Wire := ⟨pResp, [], []⟩

def exchange (w : Wire) (e : ServiceRun × Call) : Wire :=
  let pResp := service e.1 e.2.request w.pResp
  let arrived := w.unread ++ List.replicate pResp.ulLen.toNat w.exchanges.length
  { pResp
    unread := arrived.drop e.2.readLen
    exchanges := w.exchanges ++ [⟨e.2, pResp, arrived.take e.2.readLen⟩] }

end Wire
end Catchb
