import Catchb.CgiDaemon
import Catchb.CgiSyslog

/-! The handlers that work on the machine itself. -/

namespace Catchb
open Lib

/-- The web server's settings. -/
structure Profile where
  pLocation : Field 63
  pUserID : Field 63
  pPasswd : Field 63
  ulTimeout : UInt32

namespace Cgi
open Syslog

/-- Only a timeout below 0 is taken. -/
def profileLine (xProfile : Profile) (pBuffer : Text) : Profile :=
  if pBuffer.head? = some '#' then xProfile
  else
    let pTag := sscanf pBuffer
    let pPtr := pBuffer.drop pTag.length
    if pTag = "location:".toList then { xProfile with pLocation := .copy 63 (trim pPtr) }
    else if pTag = "userid:".toList then { xProfile with pUserID := .copy 63 (trim pPtr) }
    else if pTag = "passwd:".toList then { xProfile with pPasswd := .copy 63 (trim pPtr) }
    else if pTag = "timeout:".toList ∧ atol pPtr < 0 then
      { xProfile with ulTimeout := .ofInt (atol pPtr) }
    else xProfile

def profileGet : Cgi Profile := do
  match ← popen "/etc/init.d/webadmin get".toList with
  | none => Program.fail retError
  | some output =>
    pure ((fgets 512 [] output).foldl profileLine ⟨.empty 63, .empty 63, .empty 63, 0⟩)

/-- The assignment of a variable, where there is something to assign. -/
def assignment (name value : Text) : Text :=
  if value = [] then [] else name ++ '=' :: value ++ [' ']

/-- `LOCATION=%s USERID=%s PASSWD=%s TIMEOUT=%u  /etc/init.d/webadmin update` -/
def profileCommand (xProfile : Profile) : Text :=
  assignment "LOCATION".toList xProfile.pLocation.val ++
    assignment "USERID".toList xProfile.pUserID.val ++
    assignment "PASSWD".toList xProfile.pPasswd.val ++
    "TIMEOUT=".toList ++ Nat.toDigits 10 xProfile.ulTimeout.toNat ++
    "  /etc/init.d/webadmin update".toList

/-- `-1` is what a failure returns. -/
def profileSet (xProfile : Profile) : Cgi Unit := do
  match ← popen (profileCommand xProfile) with
  | none => check (.ofInt (-1))
  | some _ => check retOK

def ssidCreate (pReqRoot : Json) : Cgi Unit := do
  let id := pReqRoot.getUserID false []
  check id.xRet
  let passwd := pReqRoot.getPasswd false []
  check passwd.xRet
  let xProfile ← profileGet
  if xProfile.pUserID.val ≠ id.value ∨ xProfile.pPasswd.val ≠ passwd.value then check retError
  else
    let _ ← call [] (.ssidCreate id.value passwd.value)

def sysGetInfo (pReqRoot : Json) : Cgi Unit := do
  let _ ← verified pReqRoot
  let _ ← measure

def sysGetInfoConfig (pReqRoot : Json) : Cgi Unit := do
  let ssid := pReqRoot.getSSID false []
  check ssid.xRet
  let _ ← call ssid.value .statGetInfo

/-- Where nothing is to be changed, the result is that of the last reading. -/
def sysSetInfoConfig (pReqRoot : Json) : Cgi Unit := do
  let ssid := pReqRoot.getSSID false []
  check ssid.xRet
  let xInfo : SystemInfo ← call ssid.value .statGetInfo
  let count := pReqRoot.getCount false 0
  let interval := pReqRoot.getInterval false 0
  let ulMaxCount := if count.xRet = retOK then count.value else xInfo.ulMaxCount
  let ulInterval := if interval.xRet = retOK then interval.value else xInfo.ulInterval
  let ulFields : UInt32 := (if ulMaxCount ≠ xInfo.ulMaxCount then 2 else 0) |||
    (if ulInterval ≠ xInfo.ulInterval then 1 else 0)
  if ulFields ≠ 0 then
    let _ ← call ssid.value (.statSetInfo ⟨ulFields, ulInterval, ulMaxCount⟩)
  else check interval.xRet

def sysCheckPasswd (pReqRoot : Json) : Cgi Unit := do
  let _ ← verified pReqRoot
  let xProfile ← profileGet
  let passwd := pReqRoot.getPasswd false []
  check passwd.xRet
  if xProfile.pPasswd.val ≠ passwd.value then check retError else check retOK

def sysSetPasswd (pReqRoot : Json) : Cgi Unit := do
  let ssid := pReqRoot.getSSID false []
  check ssid.xRet
  let passwd := pReqRoot.getPasswd false []
  check passwd.xRet
  let newPasswd := pReqRoot.getNewPasswd false []
  check newPasswd.xRet
  let _ ← call ssid.value .ssidVerify
  let xProfile ← profileGet
  if xProfile.pPasswd.val ≠ passwd.value then check retError
  else if newPasswd.value.length < 8 then check retError
  else profileSet { xProfile with pPasswd := .copy 63 newPasswd.value }

/-- That the daemon cannot be started again is no failure. -/
def sysSetTime (setString : SetString) (pReqRoot : Json) : Cgi Unit := do
  let ssid := pReqRoot.getSSID false []
  check ssid.xRet
  let time := pReqRoot.getTime setString "time".toList false 0
  check time.xRet
  let _ ← call ssid.value .ssidVerify
  let xRet ← setTime time.value
  check xRet
  let _ ← popen "/etc/init.d/catchb restart".toList

/-- `FTM_CGI_POST_SYS_reboot` and `FTM_CGI_POST_SYS_shutdown`. The comparison of the password, which
stands between the two steps, is not compiled. -/
def sysExec (pCommand : Text) (pReqRoot : Json) : Cgi Unit := do
  let ssid := pReqRoot.getSSID false []
  check ssid.xRet
  match ← popen pCommand with
  | none => check retError
  | some _ => check retOK

def sysReboot (pReqRoot : Json) : Cgi Unit := sysExec "reboot".toList pReqRoot

def sysShutdown (pReqRoot : Json) : Cgi Unit := sysExec "shutdown".toList pReqRoot

def netGet (pReqRoot : Json) : Cgi Unit := do
  let _ ← verified pReqRoot
  let xRet ← measure
  check xRet
  let _ ← measure

/-- `    option %8s %s` -/
def netOption (name value : Text) : Text :=
  "    option ".toList ++ name.leftpad 8 ' ' ++ ' ' :: value ++ ['\n']

def netConfig (pIP pNetmask pGateway : Text) : Text :=
  "config interface\n".toList ++ netOption "type".toList "wan".toList ++
    netOption "name".toList "wan".toList ++ netOption "proto".toList "static".toList ++
    netOption "ipaddr".toList pIP ++ netOption "netmask".toList pNetmask ++
    netOption "gateway".toList pGateway ++ netOption "port0".toList "eth0".toList ++
    netOption "port1".toList "eth1".toList

def netSet (pReqRoot : Json) : Cgi Unit := do
  let _ ← verified pReqRoot
  let ip := pReqRoot.getString "ip".toList 24 false []
  check ip.xRet
  let netmask := pReqRoot.getString "netmask".toList 24 false []
  check netmask.xRet
  let gateway := pReqRoot.getString "gateway".toList 24 false []
  check gateway.xRet
  let apply := pReqRoot.getBool "apply".toList true 0
  check apply.xRet
  match ← fopen "/tmp/network.usr".toList (netConfig ip.value netmask.value gateway.value) with
  | none => check retError
  | some _ =>
    match ← popen "cp /tmp/network.usr /etc/config/".toList with
    | none => check retError
    | some _ =>
      if apply.value ≠ 0 then
        match ← popen "/etc/init.d/wan restart".toList with
        | none => check retError
        | some _ => check retOK
      else check retOK

/-- A file, and its length as it is sent beside it. `xTime` is what names the copy. -/
def upload (pTmpPath : Text) (xTime : Int) (pData : Option Text) (nLength : Int) : Cgi Unit := do
  match pData with
  | none => check retInvalidArguments
  | some pData =>
    if nLength = 0 then check retInvalidArguments
    else
      let pFileName := "tmp_".toList ++ (toString xTime).toList
      let pFullPathName := (pTmpPath ++ '/' :: pFileName).take 1022
      match ← fopen pFullPathName (pData.take nLength.toNat) with
      | none => check retInvalidArguments
      | some nWriteLen => if nWriteLen ≠ nLength then check retInvalidArguments else check retOK

end Cgi
end Catchb
