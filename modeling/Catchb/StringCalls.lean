import Catchb.Json

/-! What `FTM_JSON_getString` writes where its caller wants the string. -/

namespace Catchb
open Lib

/-- A call of `FTM_JSON_getString`, and the size of the array that it copies into. -/
structure StringCall where
  pTitle : Text
  ulMaxLen : Nat
  bEmptyAllow : Bool
  size : Nat

/-- What the array holds after a call, and what has been written behind it. -/
structure Stored where
  xRet : RetCode
  pValue : Text
  overrun : Text

/-- `strcpy` writes the string and its NUL, wherever the array ends. -/
def Stored.strcpy (pValue valuestring : Text) : Stored :=
  let bytes := valuestring ++ ['\x00']
  ⟨retOK, bytes.take pValue.length ++ pValue.drop bytes.length, bytes.drop pValue.length⟩

namespace StringCall

def getString (call : StringCall) (pRoot : Json) (pValue : Text) : Stored :=
  match pRoot.getObjectItem call.pTitle with
  | none => ⟨if call.bEmptyAllow then retOK else retObjectNotFound, pValue, []⟩
  | some (.string valuestring) =>
    if valuestring.length > call.ulMaxLen then ⟨retInvalidArguments, pValue, []⟩
    else .strcpy pValue valuestring
  | some _ => ⟨retInvalidArguments, pValue, []⟩

def getSSID (bEmptyAllow : Bool) (size : Nat) : StringCall :=
  ⟨"ssid".toList, 16, bEmptyAllow, size⟩

def getName (bEmptyAllow : Bool) (size : Nat) : StringCall :=
  ⟨"name".toList, 32, bEmptyAllow, size⟩

def getModel (bEmptyAllow : Bool) (size : Nat) : StringCall :=
  ⟨"model".toList, 32, bEmptyAllow, size⟩

def getID (bEmptyAllow : Bool) (size : Nat) : StringCall :=
  ⟨"id".toList, 64, bEmptyAllow, size⟩

def getUserID (bEmptyAllow : Bool) (size : Nat) : StringCall :=
  ⟨"userid".toList, 64, bEmptyAllow, size⟩

def getPasswd (bEmptyAllow : Bool) (size : Nat) : StringCall :=
  ⟨"passwd".toList, 32, bEmptyAllow, size⟩

def getNewPasswd (bEmptyAllow : Bool) (size : Nat) : StringCall :=
  ⟨"new_passwd".toList, 32, bEmptyAllow, size⟩

def getIP (bEmptyAllow : Bool) (size : Nat) : StringCall :=
  ⟨"ip".toList, 24, bEmptyAllow, size⟩

def getComment (bEmptyAllow : Bool) (size : Nat) : StringCall :=
  ⟨"comment".toList, 64, bEmptyAllow, size⟩

def getHash (bEmptyAllow : Bool) (size : Nat) : StringCall :=
  ⟨"hash".toList, 48, bEmptyAllow, size⟩

def getSwitchID (bEmptyAllow : Bool) (size : Nat) : StringCall :=
  ⟨"switchid".toList, 64, bEmptyAllow, size⟩

def cgiCalls : List StringCall :=
  [⟨"cmd".toList, 33, false, 33⟩]  -- service

def alarmCalls : List StringCall :=
  [getSSID false 17, getName false 33, ⟨"email".toList, 128, true, 129⟩,  -- ALARM_add
     ⟨"message".toList, 1024, true, 1025⟩,
   ⟨"ssid".toList, 16, false, 17⟩, ⟨"name".toList, 32, true, 33⟩,  -- ALARM_del
   ⟨"ssid".toList, 16, false, 17⟩, ⟨"name".toList, 32, false, 33⟩,  -- ALARM_get
   ⟨"ssid".toList, 16, false, 17⟩,  -- ALARM_getList
   ⟨"ssid".toList, 16, false, 17⟩, ⟨"name".toList, 32, false, 33⟩,  -- ALARM_set
   ⟨"ssid".toList, 16, false, 17⟩,  -- ALARM_getInfo
   ⟨"ssid".toList, 16, false, 17⟩,  -- ALARM_getConfig
   ⟨"ssid".toList, 16, false, 17⟩, ⟨"server".toList, 257, true, 257⟩,  -- ALARM_setConfig
     ⟨"userid".toList, 65, true, 65⟩, ⟨"passwd".toList, 33, true, 33⟩,
     ⟨"sender".toList, 33, true, 33⟩]

def cctvCalls : List StringCall :=
  [getSSID false 17, getID false 65, getIP true 25, getSwitchID true 65,  -- CCTV_add
     getComment true 65,
   getSSID false 17, getID false 65,  -- CCTV_del
   getSSID false 17, getID false 65,  -- CCTV_get
   getSSID false 17, getID false 65, getIP false 25, getSwitchID false 65,  -- CCTV_set
     getComment false 65,
   getSSID false 17,  -- CCTV_getIDList
   getSSID false 17, getID false 65,  -- CCTV_setPolicy
   getSSID false 17, getID false 65, getHash false 49]  -- CCTV_reset

def logCalls : List StringCall :=
  [getSSID false 17,  -- LOG_getInfo
   getSSID false 17,  -- LOG_del
   getSSID false 17, getID true 65, getIP true 25,  -- LOG_getList
   getSSID false 17, getID true 65, getIP true 25]  -- LOG_getCount2

def syslogCalls : List StringCall :=
  [getSSID false 17, getID false 65, getIP true 25, getComment true 65,  -- SYSLOG_add
   getSSID false 17, getID false 65,  -- SYSLOG_del
   getSSID false 17, getID false 65,  -- SYSLOG_get
   getSSID false 17, getID false 65, getIP false 25, getComment false 65,  -- SYSLOG_set
   getSSID false 17]  -- SYSLOG_getIDList

def netCalls : List StringCall :=
  [getSSID false 17,  -- NET_get
   getSSID false 17, ⟨"ip".toList, 24, false, 25⟩, ⟨"netmask".toList, 24, false, 25⟩,  -- NET_set
     ⟨"gateway".toList, 24, false, 25⟩]

def ssidCalls : List StringCall :=
  [getUserID false 65, getPasswd false 33,  -- SSID_create
   getSSID false 17,  -- SSID_del
   getSSID false 17]  -- SSID_verify

def statusCalls : List StringCall :=
  [getSSID false 17,  -- STATUS_setInfo
   getSSID false 17,  -- STATUS_getInfo
   getSSID false 17,  -- STATUS_del
   getSSID false 17]  -- STATUS_getList

def switchCalls : List StringCall :=
  [getSSID false 17, getID false 65, getModel false 33, getIP true 25,  -- SWITCH_add
     getUserID true 33, getPasswd true 33, getComment true 65,
   getSSID false 17, getID false 65,  -- SWITCH_del
   getSSID false 17, getID false 65,  -- SWITCH_get
   getSSID false 17, getID false 65, getModel false 33, getIP false 25,  -- SWITCH_set
     getUserID false 33, getPasswd false 33, getComment false 65,
   getSSID false 17,  -- SWITCH_getIDList
   getSSID false 17]  -- SWITCH_getModelList

def sysCalls : List StringCall :=
  [getSSID false 17,  -- SYS_getInfo
   getSSID false 17,  -- SYS_getInfoConfig
   getSSID false 17,  -- SYS_setInfoConfig
   getSSID false 17, getPasswd false 33,  -- SYS_checkPasswd
   getSSID false 17, getPasswd false 33, getNewPasswd false 33,  -- SYS_setPasswd
   getSSID false 17,  -- SYS_setTime
   getSSID false 17,  -- SYS_upload
   getSSID false 17,  -- SYS_reboot
   getSSID false 17]  -- SYS_shutdown

def utilsCalls : List StringCall :=
  [⟨"type".toList, 256, false, 256⟩,  -- getLogType
   ⟨"policy".toList, 256, false, 256⟩]  -- getPolicy

/-- Every call of the program. -/
def stringCalls : List StringCall :=
  cgiCalls ++ alarmCalls ++ cctvCalls ++ logCalls ++ syslogCalls ++ netCalls ++ ssidCalls ++
    statusCalls ++ switchCalls ++ sysCalls ++ utilsCalls

end StringCall
end Catchb
