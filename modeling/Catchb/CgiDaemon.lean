import Catchb.Cgi

/-! The handlers that only call the server. The bodies of their responses are left out. -/

namespace Catchb.Cgi
open Lib

/-- A time's string is made seconds of by `setString`. -/
abbrev SetString := Text → Reading UInt32

/-- The flag of a field that was read. -/
def flag (xRet : RetCode) (ulField : UInt32) : UInt32 := if xRet = retOK then ulField else 0

def cctvAdd (pReqRoot : Json) : Cgi Unit := do
  let ssid := pReqRoot.getSSID false []
  let id := pReqRoot.getID false []
  let ip := pReqRoot.getIP true []
  let switchID := pReqRoot.getSwitchID true []
  let comment := pReqRoot.getComment true []
  if (ssid.xRet ||| id.xRet ||| ip.xRet ||| switchID.xRet ||| comment.xRet) = retOK then
    let _ ← call ssid.value (.cctvAdd ⟨id.value, ip.value, switchID.value, comment.value⟩)
    let _ ← call ssid.value (.cctvGetProperties id.value)
  else check retInvalidArguments

def cctvDel (pReqRoot : Json) : Cgi Unit := do
  let ssid := pReqRoot.getSSID false []
  let id := pReqRoot.getID false []
  check (ssid.xRet ||| id.xRet)
  let _ ← call ssid.value (.cctvDel id.value)

def cctvGet (pReqRoot : Json) : Cgi Unit := do
  let ssid := pReqRoot.getSSID false []
  let id := pReqRoot.getID false []
  check (ssid.xRet ||| id.xRet)
  let _ ← call ssid.value (.cctvGetProperties id.value)

def cctvSet (pReqRoot : Json) : Cgi Unit := do
  let ssid := pReqRoot.getSSID false []
  let id := pReqRoot.getID false []
  check (ssid.xRet ||| id.xRet)
  let ip := pReqRoot.getIP false []
  let switchID := pReqRoot.getSwitchID false []
  let comment := pReqRoot.getComment false []
  let ulFieldFlags := flag ip.xRet 2 ||| flag switchID.xRet 4 ||| flag comment.xRet 8
  let _ ← call ssid.value
    (.cctvSetProperties ⟨id.value, ip.value, switchID.value, comment.value⟩ ulFieldFlags)
  let _ ← call ssid.value (.cctvGetProperties id.value)

def cctvGetIDList (pReqRoot : Json) : Cgi Unit := do
  malloc 20 retNotEnoughMemory
  let ssid := pReqRoot.getSSID false []
  let index := pReqRoot.getIndex true 0
  let count := pReqRoot.getCount true 20
  if (ssid.xRet ||| index.xRet ||| count.xRet) = retOK then
    let _ ← call ssid.value (.cctvGetIDList count.value)
  else check retInvalidArguments

/-- A policy that is no word of the two is what the variable held, which nothing sets. -/
def cctvSetPolicy (pReqRoot : Json) (xPolicy : AcPolicy) : Cgi Unit := do
  let ssid := pReqRoot.getSSID false []
  let id := pReqRoot.getID false []
  check (ssid.xRet ||| id.xRet)
  let policy := pReqRoot.getPolicy false xPolicy
  check policy.xRet
  let _ ← call ssid.value (.cctvSetPolicy id.value policy.value)

def cctvReset (pReqRoot : Json) : Cgi Unit := do
  let ssid := pReqRoot.getSSID false []
  check ssid.xRet
  let id := pReqRoot.getID false []
  check id.xRet
  let hash := pReqRoot.getHash false []
  check hash.xRet
  let _ ← call ssid.value (.cctvReset id.value hash.value)

def switchAdd (pReqRoot : Json) : Cgi Unit := do
  let ssid := pReqRoot.getSSID false []
  check ssid.xRet
  let id := pReqRoot.getID false []
  check id.xRet
  let model := pReqRoot.getModel false []
  check model.xRet
  let ip := pReqRoot.getIP true []
  check ip.xRet
  let userID := pReqRoot.getUserID true []
  check userID.xRet
  let passwd := pReqRoot.getPasswd true []
  check passwd.xRet
  let comment := pReqRoot.getComment true []
  check comment.xRet
  let secure := pReqRoot.getSecure true 0
  check secure.xRet
  let _ ← call ssid.value (.switchAdd ⟨id.value, model.value, ip.value, userID.value, passwd.value,
    secure.value, comment.value⟩)
  let _ ← call ssid.value (.switchGetProperties id.value)

def switchDel (pReqRoot : Json) : Cgi Unit := do
  let ssid := pReqRoot.getSSID false []
  check ssid.xRet
  let id := pReqRoot.getID false []
  check id.xRet
  let _ ← call ssid.value (.switchDel id.value)

def switchGet (pReqRoot : Json) : Cgi Unit := do
  let ssid := pReqRoot.getSSID false []
  check ssid.xRet
  let id := pReqRoot.getID false []
  check id.xRet
  let _ ← call ssid.value (.switchGetProperties id.value)

def switchSet (pReqRoot : Json) : Cgi Unit := do
  let ssid := pReqRoot.getSSID false []
  check ssid.xRet
  let id := pReqRoot.getID false []
  check id.xRet
  let model := pReqRoot.getModel false []
  let ip := pReqRoot.getIP false []
  let userID := pReqRoot.getUserID false []
  let passwd := pReqRoot.getPasswd false []
  let secure := pReqRoot.getSecure false 0
  let comment := pReqRoot.getComment false []
  let ulFieldFlags := flag model.xRet 2 ||| flag ip.xRet 4 ||| flag userID.xRet 8 |||
    flag passwd.xRet 16 ||| flag secure.xRet 32 ||| flag comment.xRet 64
  let _ ← call ssid.value (.switchSetProperties ⟨id.value, model.value, ip.value, userID.value,
    passwd.value, secure.value, comment.value⟩ ulFieldFlags)
  let _ ← call ssid.value (.switchGetProperties id.value)

def switchGetIDList (pReqRoot : Json) : Cgi Unit := do
  let ssid := pReqRoot.getSSID false []
  check ssid.xRet
  malloc 20 retOK
  let index := pReqRoot.getIndex true 0
  let count := pReqRoot.getCount true 20
  check (index.xRet ||| count.xRet)
  let _ ← call ssid.value (.switchGetIDList count.value)

def switchGetModelList (pReqRoot : Json) : Cgi Unit := do
  let ssid := pReqRoot.getSSID false []
  check ssid.xRet
  malloc 20 retOK
  let index := pReqRoot.getIndex true 0
  let count := pReqRoot.getCount true 20
  check (index.xRet ||| count.xRet)
  let _ ← call ssid.value (.switchGetModelList count.value)

def logGetInfo (pReqRoot : Json) : Cgi Unit := do
  let ssid := pReqRoot.getSSID false []
  check ssid.xRet
  let _ ← call ssid.value .logGetInfo

def logDel (pReqRoot : Json) : Cgi Unit := do
  let ssid := pReqRoot.getSSID false []
  let index := pReqRoot.getIndex true 0
  let count := pReqRoot.getCount false 0
  check (ssid.xRet ||| index.xRet ||| count.xRet)
  let _ ← call ssid.value (.logDel index.value count.value)

/-- What the two log queries read, whether the reading fails or not. -/
def logFilter (setString : SetString) (pReqRoot : Json) : LogFilter where
  xLogType := (pReqRoot.getLogType true 0).value
  pID := (pReqRoot.getID true []).value
  pIP := (pReqRoot.getIP true []).value
  ulBeginTime := (pReqRoot.getTime setString "begin".toList true 0).value
  ulEndTime := (pReqRoot.getTime setString "end".toList true 0).value

def logGetList (setString : SetString) (pReqRoot : Json) : Cgi Unit := do
  let ssid := pReqRoot.getSSID false []
  let index := pReqRoot.getIndex true 0
  let count := pReqRoot.getCount true 20
  check count.xRet
  malloc count.value retOK
  let _ ← call ssid.value (.logGetList (logFilter setString pReqRoot) index.value count.value)

def logGetCount2 (setString : SetString) (pReqRoot : Json) : Cgi Unit := do
  let ssid := pReqRoot.getSSID false []
  let _ ← call ssid.value (.logGetCount2 (logFilter setString pReqRoot))

def alarmAdd (pReqRoot : Json) : Cgi Unit := do
  let ssid := pReqRoot.getSSID false []
  check ssid.xRet
  let name := pReqRoot.getName false []
  check name.xRet
  let email := pReqRoot.getString "email".toList 128 true []
  check email.xRet
  let message := pReqRoot.getString "message".toList 1024 true []
  check message.xRet
  let _ ← call ssid.value (.alarmAdd ⟨name.value, email.value, message.value⟩)
  let _ ← call ssid.value (.alarmGet name.value)

def alarmDel (pReqRoot : Json) : Cgi Unit := do
  let ssid := pReqRoot.getSSID false []
  check ssid.xRet
  let name := pReqRoot.getString "name".toList 32 true []
  check name.xRet
  let _ ← call ssid.value (.alarmDel name.value)

def alarmGet (pReqRoot : Json) : Cgi Unit := do
  let ssid := pReqRoot.getSSID false []
  check ssid.xRet
  let name := pReqRoot.getString "name".toList 32 false []
  check name.xRet
  let _ ← call ssid.value (.alarmGet name.value)

/-- The alarms of a list of names, one by one. -/
def alarmGetEach (pSSID : Text) : List Text → Cgi Unit
  | [] => Program.done ()
  | pName :: rest => do
    let _ ← call pSSID (.alarmGet pName)
    alarmGetEach pSSID rest

def alarmGetList (pReqRoot : Json) : Cgi Unit := do
  let ssid := pReqRoot.getSSID false []
  check ssid.xRet
  let index := pReqRoot.getUINT32 "index".toList true 0
  check index.xRet
  let count := pReqRoot.getUINT32 "count".toList true 20
  check count.xRet
  malloc count.value retNotEnoughMemory
  let names ← call ssid.value (.alarmGetNameList index.value count.value)
  malloc (.ofNat (List.length (α := Text) names)) retNotEnoughMemory
  alarmGetEach ssid.value names

/-- A field that is no string, or too long, ends the handler as if it had done everything. -/
def alarmSet (pReqRoot : Json) : Cgi Unit := do
  let ssid := pReqRoot.getSSID false []
  check ssid.xRet
  let name := pReqRoot.getString "name".toList 32 false []
  check name.xRet
  match pReqRoot.getObjectItem "alarm".toList with
  | none => check retObjectNotFound
  | some pAlarmItem =>
    let xAlarm : Alarm ← call ssid.value (.alarmGet name.value)
    let email := pAlarmItem.getString "email".toList 128 true xAlarm.pEmail
    let message := pAlarmItem.getString "message".toList 1024 true xAlarm.pMessage
    if email.xRet ≠ retOK ∨ message.xRet ≠ retOK then Program.done ()
    else
      let emailFlag := if (pAlarmItem.getObjectItem "email".toList).isSome then 2 else 0
      let messageFlag := if (pAlarmItem.getObjectItem "message".toList).isSome then 4 else 0
      let _ ← call ssid.value (.alarmSet name.value ⟨xAlarm.pName, email.value, message.value⟩
        (emailFlag ||| messageFlag))
      let _ ← call ssid.value (.alarmGet name.value)

def alarmGetInfo (pReqRoot : Json) : Cgi Unit := do
  let ssid := pReqRoot.getSSID false []
  check ssid.xRet
  let _ ← call ssid.value .alarmGetCount

def alarmGetConfig (pReqRoot : Json) : Cgi Unit := do
  let ssid := pReqRoot.getSSID false []
  check ssid.xRet
  let _ ← call ssid.value .smtpGet

/-- The lengths let through are those of the arrays, with their terminators. -/
def alarmSetConfig (pReqRoot : Json) : Cgi Unit := do
  let ssid := pReqRoot.getSSID false []
  check ssid.xRet
  let xConfig : SmtpConfig ← call ssid.value .smtpGet
  let enable := pReqRoot.getBool "enable".toList true xConfig.bEnable
  check enable.xRet
  let server := pReqRoot.getString "server".toList 257 true xConfig.pServer
  check server.xRet
  let port := pReqRoot.getUINT16 "port".toList true xConfig.usPort
  check port.xRet
  let userID := pReqRoot.getString "userid".toList 65 true xConfig.pUserID
  check userID.xRet
  let passwd := pReqRoot.getString "passwd".toList 33 true xConfig.pPasswd
  check passwd.xRet
  let sender := pReqRoot.getString "sender".toList 33 true xConfig.pSender
  check sender.xRet
  let _ ← call ssid.value (.smtpSet ⟨enable.value, server.value, port.value, userID.value,
    passwd.value, sender.value⟩)

def ssidDel (pReqRoot : Json) : Cgi Unit := do
  let ssid := pReqRoot.getSSID false []
  check ssid.xRet
  let _ ← call ssid.value .ssidDel

def ssidVerify (pReqRoot : Json) : Cgi Unit := do
  let ssid := pReqRoot.getSSID false []
  check ssid.xRet
  let _ ← call ssid.value .ssidVerify

def statusGetInfo (pReqRoot : Json) : Cgi Unit := do
  let ssid := pReqRoot.getSSID false []
  check ssid.xRet
  let _ ← call ssid.value .statGetInfo

/-- A time of the two makes it a period. -/
def statusDel (setString : SetString) (pReqRoot : Json) : Cgi Unit := do
  let ssid := pReqRoot.getSSID false []
  check ssid.xRet
  let beginTime := pReqRoot.getTime setString "begin".toList false 0
  let endTime := pReqRoot.getTime setString "end".toList false 0
  if beginTime.xRet = retOK ∨ endTime.xRet = retOK then
    let _ ← call ssid.value (.statDel2 beginTime.value endTime.value)
  else
    let index := pReqRoot.getIndex true 0
    let count := pReqRoot.getCount false 0
    check (index.xRet ||| count.xRet)
    let _ ← call ssid.value (.statDel index.value count.value)

def statusGetList (pReqRoot : Json) : Cgi Unit := do
  let ssid := pReqRoot.getSSID false []
  check ssid.xRet
  let index := pReqRoot.getIndex true 0
  let count := pReqRoot.getCount false 20
  check (index.xRet ||| count.xRet)
  malloc count.value retOK
  let _ ← call ssid.value (.statGetList index.value count.value)

end Catchb.Cgi
