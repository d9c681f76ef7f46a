import Catchb.Json
import Catchb.ServiceCall
import Catchb.Lib.Program

/-! What the handlers of the web requests do: the calls to the server, and what they do on the
machine themselves. -/

namespace Catchb
open Lib

def retClientTimeout : RetCode := 171

/-- The fields that a web request fills of a camera's configuration. -/
structure CctvFields where
  pID : Text
  pIP : Text
  pSwitchID : Text
  pComment : Text

structure SwitchFields where
  pID : Text
  pModel : Text
  pIP : Text
  pUserID : Text
  pPasswd : Text
  bSecure : UInt8
  pComment : Text

structure Alarm where
  pName : Text
  pEmail : Text
  pMessage : Text
  deriving Inhabited

structure SmtpConfig where
  bEnable : UInt8
  pServer : Text
  usPort : UInt16
  pUserID : Text
  pPasswd : Text
  pSender : Text
  deriving Inhabited

/-- Of the statistics, what a web request can set. -/
structure SystemInfo where
  ulFields : UInt32
  ulInterval : UInt32
  ulMaxCount : UInt32
  deriving Inhabited

/-- The filter of the log queries. -/
structure LogFilter where
  xLogType : UInt32
  pID : Text
  pIP : Text
  ulBeginTime : UInt32
  ulEndTime : UInt32

/-- The client's functions that the handlers call, with what they pass behind the session ID. -/
inductive ClientCall
  | cctvAdd (xConfig : CctvFields)
  | cctvDel (pID : Text)
  | cctvGetProperties (pID : Text)
  | cctvSetProperties (xConfig : CctvFields) (ulFieldFlags : UInt32)
  | cctvGetIDList (ulCount : UInt32)
  | cctvSetPolicy (pID : Text) (xPolicy : AcPolicy)
  | cctvReset (pID pHash : Text)
  | switchAdd (xConfig : SwitchFields)
  | switchDel (pID : Text)
  | switchGetProperties (pID : Text)
  | switchSetProperties (xConfig : SwitchFields) (ulFieldFlags : UInt32)
  | switchGetIDList (ulCount : UInt32)
  | switchGetModelList (ulCount : UInt32)
  | logGetInfo
  | logDel (ulIndex ulCount : UInt32)
  | logGetList (filter : LogFilter) (ulIndex ulCount : UInt32)
  | logGetCount2 (filter : LogFilter)
  | alarmAdd (xAlarm : Alarm)
  | alarmDel (pName : Text)
  | alarmGet (pName : Text)
  | alarmSet (pName : Text) (xAlarm : Alarm) (ulFieldFlags : UInt32)
  | alarmGetNameList (ulIndex ulCount : UInt32)
  | alarmGetCount
  | smtpGet
  | smtpSet (xConfig : SmtpConfig)
  | ssidCreate (pID pPasswd : Text)
  | ssidDel
  | ssidVerify
  | statSetInfo (xInfo : SystemInfo)
  | statGetInfo
  | statDel (ulIndex ulCount : UInt32)
  | statDel2 (ulBeginTime ulEndTime : UInt32)
  | statGetList (ulIndex ulCount : UInt32)

namespace ClientCall

/-- The name of the function. -/
def stub : ClientCall → Cmd
  | cctvAdd _ => .cctvAdd
  | cctvDel _ => .cctvDel
  | cctvGetProperties _ => .cctvGetProperties
  | cctvSetProperties _ _ => .cctvSetProperties
  | cctvGetIDList _ => .cctvGetIDList
  | cctvSetPolicy _ _ => .cctvSetPolicy
  | cctvReset _ _ => .cctvReset
  | switchAdd _ => .switchAdd
  | switchDel _ => .switchDel
  | switchGetProperties _ => .switchGetProperties
  | switchSetProperties _ _ => .switchSetProperties
  | switchGetIDList _ => .switchGetIDList
  | switchGetModelList _ => .switchGetModelList
  | logGetInfo => .logGetInfo
  | logDel _ _ => .logDel
  | logGetList _ _ _ => .logGetList
  | logGetCount2 _ => .logGetCount2
  | alarmAdd _ => .alarmAdd
  | alarmDel _ => .alarmDel
  | alarmGet _ => .alarmGet
  | alarmSet _ _ _ => .alarmSet
  | alarmGetNameList _ _ => .alarmGetNameList
  | alarmGetCount => .alarmGetCount
  | smtpGet => .smtpGet
  | smtpSet _ => .smtpSet
  | ssidCreate _ _ => .ssidCreate
  | ssidDel => .ssidDel
  | ssidVerify => .ssidVerify
  | statSetInfo _ => .statSetInfo
  | statGetInfo => .statGetInfo
  | statDel _ _ => .statDel
  | statDel2 _ _ => .statDel2
  | statGetList _ _ => .statGetList

/-- What of a response a handler goes on with. -/
def Reply : ClientCall → Type
  | alarmGet _ => Alarm
  | alarmGetNameList _ _ => List Text
  | smtpGet => SmtpConfig
  | statGetInfo => SystemInfo
  | _ => Unit

instance (c : ClientCall) : Inhabited c.Reply := by
  cases c <;> unfold Reply <;> infer_instance

end ClientCall

/-- A question of a handler to the world outside. `measure` are the commands that read the machine's
state, of which only the result matters. -/
inductive Ask
  | call (pSSID : Text) (c : ClientCall)
  | popen (pCommand : Text)
  | fopen (pFileName text : Text)
  | setTime (ulTime : UInt32)
  | measure
  | malloc (ulCount : UInt32)

/-- A command is answered with its output, and a file with how much of the text is written. -/
def Ask.Answer : Ask → Type
  | call _ c => Reading c.Reply
  | popen _ => Option Text
  | fopen _ _ => Option Nat
  | setTime _ => RetCode
  | measure => RetCode
  | malloc _ => Bool

/-- A handler, which ends early with what it returns. -/
abbrev Cgi := Program Ask Ask.Answer RetCode

namespace Cgi
open Program

/-- `if (xRet != FTM_RET_OK) goto finished;` -/
def check (xRet : RetCode) : Cgi Unit := if xRet = retOK then done () else fail xRet

/-- A call, and the check of what it returns. -/
def call (pSSID : Text) (c : ClientCall) : Cgi c.Reply :=
  ask (.call pSSID c) (fun resp : Reading c.Reply =>
    if resp.xRet = retOK then done resp.value else fail resp.xRet)

def popen (pCommand : Text) : Cgi (Option Text) := query (Ask.popen pCommand)

def fopen (pFileName text : Text) : Cgi (Option Nat) := query (Ask.fopen pFileName text)

def setTime (ulTime : UInt32) : Cgi RetCode := query (Ask.setTime ulTime)

def measure : Cgi RetCode := query Ask.measure

/-- Without the memory the handler returns `xRet`. -/
def malloc (ulCount : UInt32) (xRet : RetCode) : Cgi Unit :=
  ask (.malloc ulCount) (fun pList : Bool => if pList then done () else fail xRet)

section
variable (answer : (q : Ask) → q.Answer) {α β : Type}

/-- The command lines of a run. -/
def lines (p : Cgi α) : List Text :=
  (p.asked answer).filterMap (fun q => match q with
    | .popen pCommand => some pCommand
    | _ => none)

@[simp] theorem lines_done (a : α) : lines answer (done a) = [] := rfl

@[simp] theorem lines_check (xRet : RetCode) : lines answer (check xRet) = [] := by
  unfold check
  split <;> rfl

@[simp] theorem lines_check_bind (xRet : RetCode) (f : Unit → Cgi β) :
    lines answer (check xRet >>= f) = if xRet = retOK then lines answer (f ()) else [] := by
  unfold check
  split <;> rfl

@[simp] theorem lines_call_bind (pSSID : Text) (c : ClientCall) (f : c.Reply → Cgi β) :
    lines answer (call pSSID c >>= f) =
      let resp : Reading c.Reply := answer (.call pSSID c)
      if resp.xRet = retOK then lines answer (f resp.value) else [] := by
  let resp : Reading c.Reply := answer (.call pSSID c)
  have hask : lines answer (call pSSID c >>= f) = lines answer
      ((if resp.xRet = retOK then done resp.value else fail resp.xRet : Cgi c.Reply) >>= f) := rfl
  rw [hask]
  simp only [resp]
  split_ifs <;> rfl

@[simp] theorem lines_popen_bind (pCommand : Text) (f : Option Text → Cgi β) :
    lines answer (popen pCommand >>= f) =
      pCommand :: lines answer (f (answer (Ask.popen pCommand))) := rfl

end

end Cgi

/-- What is seen to happen: the server accepts a session ID and does what a command asks of it, or
the handler does something on the machine. -/
inductive Effect
  | accepted (pSSID : Text)
  | served (c : Cmd)
  | ran (pCommand : Text)
  | wrote (pFileName : Text) (text : Text)
  | timeSet (ulTime : UInt32)
  | measured

/-- What the questions of a run find. -/
structure Found where
  sent : Bool
  answered : Bool
  run : CallRun
  pReqBuff : ServerReq
  pResp : Resp
  reply : (c : ClientCall) → c.Reply
  popen : Option Text
  fopen : Option Nat
  setTime : RetCode
  measure : RetCode
  malloc : Bool

/-- The server, and how many questions there have been. -/
structure Machine (ρ : Type) where
  server : Server ρ
  asked : Nat

namespace Machine
variable {ρ : Type}

/-- The request of a call begins with its command and the session ID. -/
def request (pSSID : Text) (c : ClientCall) (pReqBuff : ServerReq) : ServerReq :=
  { pReqBuff with
    req := { pReqBuff.req with xCmd := (sentCmd c.stub).code }
    pSSID := (Field.copy 16 pSSID).val }

/-- What the server does with a request. -/
def serverEffects (s : Server ρ) (pReq : ServerReq) (run : CallRun) : List Effect :=
  if (s.check pReq run).1 = retOK then
    (if pReq.req.xCmd ≠ Cmd.ssidCreate.code then [.accepted pReq.pSSID] else []) ++
      ((findCmdSet pReq.req.xCmd).map (fun pSet => Effect.served pSet.1)).toList
  else []

/-- A call whose request goes out and whose response is delivered, or is lost. -/
def callServer (fService : Cmd → Server.Operation ρ) (found : Found) (s : Server ρ) (pSSID : Text)
    (c : ClientCall) : List Effect × Reading c.Reply × Server ρ :=
  if found.sent = false then ([], ⟨retError, found.reply c⟩, s)
  else
    let pReq := request pSSID c found.pReqBuff
    let (pResp, s') := s.service fService pReq found.run found.pResp
    let xRet := if found.answered then pResp.xRet else retClientTimeout
    (serverEffects s pReq found.run, ⟨xRet, found.reply c⟩, s')

/-- `found` is what each question of the run finds. -/
def world (fService : Cmd → Server.Operation ρ) (found : Nat → Found) :
    Program.World Ask Ask.Answer (Machine ρ) Effect := fun m q =>
  let f := found m.asked
  let m := { m with asked := m.asked + 1 }
  match q with
  | .call pSSID c =>
    let (es, resp, server) := callServer fService f m.server pSSID c
    (es, resp, { m with server })
  | .popen pCommand => (if f.popen.isSome then [.ran pCommand] else [], f.popen, m)
  | .fopen pFileName text => (if f.fopen.isSome then [.wrote pFileName text] else [], f.fopen, m)
  | .setTime ulTime => (if f.setTime = retOK then [.timeSet ulTime] else [], f.setTime, m)
  | .measure => ([.measured], f.measure, m)
  | .malloc _ => ([], f.malloc, m)

end Machine
end Catchb
