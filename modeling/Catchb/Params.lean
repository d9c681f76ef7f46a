import Catchb.Lib.Layout

/-! The requests and responses that the clients and the server exchange. -/

namespace Catchb
open Lib CType

/-- In the enumeration's order. -/
inductive Cmd
  | unknown
  | cctvAdd
  | cctvDel
  | cctvSetProperties
  | cctvGetProperties
  | cctvGetCount
  | cctvGetIDList
  | cctvGetList
  | cctvSetPolicy
  | cctvReset
  | switchAdd
  | switchDel
  | switchSetProperties
  | switchGetProperties
  | switchGetCount
  | switchGetIDList
  | switchGetList
  | logGetInfo
  | logGetCount
  | logGetList
  | logDel
  | alarmAdd
  | alarmDel
  | alarmGetCount
  | alarmGet
  | alarmSet
  | alarmGetNameList
  | smtpSet
  | smtpGet
  | statGetInfo
  | statSetInfo
  | statGetCount
  | statGetList
  | statDel
  | statDel2
  | ssidCreate
  | ssidDel
  | ssidVerify
  | logGetCount2
  | switchGetModelList
  deriving DecidableEq, Repr

namespace Params

def sessionID : CType := char.array 17
def id : CType := char.array 65
def ip : CType := char.array 25
def hash : CType := char.array 49
def comment : CType := char.array 65
def name : CType := char.array 33
def passwd : CType := char.array 33
def email : CType := char.array 129
def alarmMessage : CType := char.array 1025

def cctvConfig : CType := struct [id, ip, id, comment, uint32, hash, uint32]
def switchConfig : CType := struct [id, name, ip, char, name, passwd, comment]
def switchModelInfo : CType := struct [uint32, name]
def log : CType := struct [uint32, uint32, id, ip, hash, uint32]
def alarm : CType := struct [name, email, alarmMessage]
def smtpConfig : CType := struct [char, char.array 257, uint16, id, passwd, name]
def systemInfo : CType := struct [uint32, struct [uint32, uint32, uint32, uint32, uint32]]
def time : CType := struct [struct [long, long]]
def statistics : CType :=
  struct [time, double, struct [uint32, uint32], struct [uint32, uint32]]

/-- The command, the length and the session ID. -/
def req : CType := struct [uint32, uint32, sessionID]

/-- The command, the length and the result. -/
def resp : CType := struct [uint32, uint32, uint32]

/-- What each command's request has behind the common part. -/
def reqFields : Cmd → List CType
  | .cctvAdd => [id, ip, id, comment]
  | .cctvDel | .cctvGetProperties => [id]
  | .cctvSetProperties => [id, uint32, cctvConfig]
  | .cctvGetIDList | .cctvGetList => [uint32, uint32]
  | .cctvSetPolicy => [id, uint32]
  | .cctvReset => [id, hash]
  | .switchAdd => [switchConfig]
  | .switchDel | .switchGetProperties => [id]
  | .switchSetProperties => [id, uint32, switchConfig]
  | .switchGetIDList | .switchGetList | .switchGetModelList => [uint32, uint32]
  | .logGetCount2 => [uint32, id, ip, uint32, uint32, uint32]
  | .logGetList => [uint32, id, ip, uint32, uint32, uint32, uint32, uint32]
  | .logDel => [uint32, uint32]
  | .alarmAdd => [name, email, alarmMessage]
  | .alarmDel | .alarmGet => [name]
  | .alarmSet => [name, alarm, uint32]
  | .alarmGetNameList => [uint32, uint32]
  | .smtpSet => [smtpConfig]
  | .statSetInfo => [systemInfo]
  | .statGetList | .statDel | .statDel2 => [uint32, uint32]
  | .ssidCreate => [id, passwd]
  | .unknown | .cctvGetCount | .switchGetCount | .logGetInfo | .logGetCount | .alarmGetCount
  | .smtpGet | .statGetInfo | .statGetCount | .ssidDel | .ssidVerify => []

def respFields : Cmd → List CType
  | .cctvGetProperties => [cctvConfig]
  | .cctvGetIDList | .switchGetIDList => [uint32, id.array 0]
  | .cctvGetList => [uint32, cctvConfig.array 0]
  | .switchGetProperties => [switchConfig]
  | .switchGetList => [uint32, switchConfig.array 0]
  | .switchGetModelList => [uint32, switchModelInfo.array 0]
  | .cctvGetCount | .switchGetCount | .logGetCount | .logGetCount2 | .alarmGetCount
  | .statGetCount => [uint32]
  | .logGetInfo | .logDel | .statDel | .statDel2 => [uint32, uint32, uint32]
  | .logGetList => [uint32, uint32, log.array 0]
  | .alarmGet => [uint32, alarm]
  | .alarmSet => [alarm]
  | .alarmGetNameList => [uint32, name.array 0]
  | .smtpSet | .smtpGet => [smtpConfig]
  | .statSetInfo | .statGetInfo => [systemInfo]
  | .statGetList => [uint32, uint32, statistics.array 0]
  | .ssidCreate => [sessionID]
  | .unknown | .cctvAdd | .cctvDel | .cctvSetProperties | .cctvSetPolicy | .cctvReset | .switchAdd
  | .switchDel | .switchSetProperties | .alarmAdd | .alarmDel | .ssidDel | .ssidVerify => []

def reqParams (c : Cmd) : CType := struct (req :: reqFields c)
def respParams (c : Cmd) : CType := struct (resp :: respFields c)

theorem req_le (c : Cmd) : req.size ≤ (reqParams c).size := head_le_struct _ _
theorem resp_le (c : Cmd) : resp.size ≤ (respParams c).size := head_le_struct _ _

example : cctvConfig.size = 280 ∧ alarm.size = 1187 ∧ statistics.size = 32 := by decide

end Params
end Catchb
