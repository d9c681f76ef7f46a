import Catchb.Lib.Text

namespace Catchb
open Lib

abbrev ID := Field 64
abbrev IP := Field 24
abbrev Comment := Field 64
abbrev Hash := Field 48
abbrev ModelName := Field 32
abbrev UserName := Field 32

/-- The return codes the modelled functions use. -/
inductive Ret
  | ok
  | error
  | notEnoughMemory
  | objectNotFound
  | invalidArguments
  | configLoadFailed
  | dbExecError
  | objectAlreadyExist
  | dbAlreadyExist
  | dbTableNotExist
  | listNotInsertable
  | socketClosed
  | listEmpty
  | notInitialized
  | timeout
  | bufferTooSmall
  | smtpcError
  | socketCreationFailed
  | failedToReadFile
  | invalidJsonFormat
  | invalidFormat
  deriving DecidableEq, Repr

inductive CctvStat
  | unregistered
  | unused
  | normal
  | abnormal
  deriving DecidableEq, Repr

/-- The enumeration's values. -/
def CctvStat.code : CctvStat → Int
  | .unregistered => 0
  | .unused => 1
  | .normal => 2
  | .abnormal => 3

structure CctvConfig where
  id : ID
  ip : IP
  switchID : ID
  comment : Comment
  time : UInt32
  hash : Hash
  stat : CctvStat
  deriving DecidableEq

/-- A camera object. `destroyed` marks memory that has been given back while a
list still holds its address. -/
structure Cctv where
  config : CctvConfig
  destroyed : Bool
  deriving DecidableEq

inductive AcPolicy
  | deny
  | allow
  deriving DecidableEq, Repr

structure SwitchConfig where
  id : ID
  model : ModelName
  ip : IP
  secure : Bool
  userID : UserName
  passwd : UserName
  comment : Comment
  deriving DecidableEq

structure SwitchAc where
  index : Nat
  ip : IP
  policy : AcPolicy
  deriving DecidableEq

inductive LogType
  | normal
  | error
  deriving DecidableEq, Repr

structure Log where
  type : LogType
  time : UInt32
  id : ID
  ip : IP
  stat : CctvStat
  hash : Hash
  deriving DecidableEq

/-- The message a status change sends to the notifier. -/
structure SendAlarm where
  type : LogType
  id : ID
  ip : IP
  time : UInt32
  newStat : CctvStat
  hash : Hash
  originalStat : CctvStat
  deriving DecidableEq

/-- The detector's message. -/
structure SwitchControl where
  switchID : ID
  targetIP : IP
  policy : AcPolicy
  deriving DecidableEq

end Catchb
