import Catchb.Json

/-! The configuration: its sections, their defaults, and the file they are kept in. -/

namespace Catchb
open Lib

namespace Json

/-- `valuestring`. What is no string has the address 0 there, and to read it is undefined. -/
def valuestring : Json → Option Text
  | .string t => some t
  | _ => none

def valueint : Json → UInt32
  | .number n => n
  | .bool true => 1
  | _ => 0

/-- What is not in the file keeps its value. -/
def item {α : Type} (pRoot : Json) (pTitle : String) (value : α) (read : Json → Option α) :
    Option α :=
  match pRoot.getObjectItem pTitle.toList with
  | none => some value
  | some pItem => read pItem

def field (n : Nat) (pItem : Json) : Option (Field n) := pItem.valuestring.map (Field.copy n)

/-- A copy that may fill the array. What is read of it is undefined if it has no end there. -/
def bare (n : Nat) (pItem : Json) : Option (Field n) :=
  pItem.valuestring.bind (fun t => if h : t.length ≤ n then some ⟨t, h⟩ else none)

/-- The words of a flag; another word leaves it as it is. -/
def onOff (equal : Text → Text → Bool) (value : Bool) (t : Text) : Bool :=
  if equal t "on".toList || equal t "yes".toList then true
  else if equal t "off".toList || equal t "no".toList then false
  else value

def flag (equal : Text → Text → Bool) (value : Bool) (pItem : Json) : Option Bool :=
  pItem.valuestring.map (onOff equal value)

def yesNo (b : Bool) : Json := .string (if b then "yes".toList else "no".toList)

def text {n : Nat} (t : Field n) : Json := .string t.val

def create (items : List (String × Json)) : Json :=
  .object (items.map (fun item => (item.1.toList, item.2)))

end Json

/-- `strcmp(a, b) == 0`. -/
def strcmp (a b : Text) : Bool := a == b

structure SystemConfig where
  ulUpdateInterval : UInt32
  ulCount : UInt32
  ulInterval : UInt32
  deriving DecidableEq

namespace SystemConfig

def default : SystemConfig := ⟨10000, 100, 10000⟩

/-- A `valueint` is signed. -/
def within (low high : Nat) (n : UInt32) : Bool := low ≤ n.toNat && n.toNat ≤ high

def bounded (low high : Nat) (value : UInt32) (pItem : Json) : Option UInt32 :=
  match pItem with
  | .number n => some (if within low high n then n else value)
  | _ => some value

def load (c : SystemConfig) (pRoot : Json) : Option SystemConfig :=
  pRoot.item "statistics" c (fun pSection => do
    let ulCount ← pSection.item "count" c.ulCount (bounded 100 100 c.ulCount)
    let ulInterval ← pSection.item "interval" c.ulInterval (bounded 10000 3600000 c.ulInterval)
    return { c with ulCount, ulInterval })

def save (c : SystemConfig) : Json :=
  .create [("statistics", .create [("count", .number c.ulCount),
    ("interval", .number c.ulInterval)])]

end SystemConfig

structure DBConfig where
  pFileName : Field 544
  pLogFileName : Field 544
  deriving DecidableEq

namespace DBConfig

def default : DBConfig :=
  ⟨Field.copy _ "/db/catchb_data.db".toList, Field.copy _ "/db/catchb_log.db".toList⟩

def file (value : Field 544) (pItem : Json) : Option (Field 544) :=
  match pItem with
  | .string t => some (Field.copy _ t)
  | _ => some value

def load (c : DBConfig) (pRoot : Json) : Option DBConfig := do
  let pFileName ← pRoot.item "data file" c.pFileName (file c.pFileName)
  let pLogFileName ← pRoot.item "log file" c.pLogFileName (file c.pLogFileName)
  return { pFileName, pLogFileName }

def save (c : DBConfig) : Json :=
  .create [("data file", .text c.pFileName), ("log file", .text c.pLogFileName)]

end DBConfig

/-- The first `ulPortCount` ports. -/
abbrev PortList := {ports : List UInt16 // ports.length ≤ 32}

structure AnalyzerConfig where
  pIFName : Field 31
  pPortList : PortList
  ulIPCheckInterval : UInt32
  bEnable : Bool
  ulErrorRate : UInt32
  deriving DecidableEq

namespace AnalyzerConfig

def default : AnalyzerConfig where
  pIFName := Field.copy _ "wan".toList
  pPortList := ⟨[80, 135, 139, 443, 445, 554, 4520, 49152], by decide⟩
  ulIPCheckInterval := 60000
  bEnable := false
  ulErrorRate := 10

/-- Of more than 32 ports the first are taken. -/
def ports (items : List Json) : PortList :=
  ⟨(items.map (fun pItem => pItem.valueint.toUInt16)).take 32, List.length_take_le ..⟩

def loadTest (c : AnalyzerConfig) (pSection : Json) : Option AnalyzerConfig := do
  let bEnable ← pSection.item "enable" c.bEnable (Json.flag strcmp c.bEnable)
  let ulErrorRate ← pSection.item "error_rate" c.ulErrorRate (fun pItem =>
    some (if SystemConfig.within 0 100 pItem.valueint then pItem.valueint else c.ulErrorRate))
  return { c with bEnable, ulErrorRate }

def loadInterval (value : UInt32) (pItem : Json) : Option UInt32 :=
  some (if SystemConfig.within 10000 0x7FFFFFFF pItem.valueint then pItem.valueint else value)

/-- What comes behind the ports. -/
def loadRest (c : AnalyzerConfig) (pRoot : Json) : Option AnalyzerConfig := do
  let ulIPCheckInterval ←
    pRoot.item "interval" c.ulIPCheckInterval (loadInterval c.ulIPCheckInterval)
  let c := { c with ulIPCheckInterval }
  pRoot.item "test" c c.loadTest

/-- Ports that are no array end the reading of the section. -/
def load (c : AnalyzerConfig) (pRoot : Json) : Option AnalyzerConfig := do
  let pIFName ← pRoot.item "ifname" c.pIFName (Json.bare 31)
  let c := { c with pIFName }
  match pRoot.getObjectItem "port".toList with
  | none => c.loadRest pRoot
  | some (.array items) => loadRest { c with pPortList := ports items } pRoot
  | some _ => return c

/-- The interface is not written. -/
def save (c : AnalyzerConfig) : Json :=
  .create [("port", .array (c.pPortList.val.map (fun port => .number port.toUInt32))),
    ("interval", .number c.ulIPCheckInterval),
    ("test", .create [("enable", .yesNo c.bEnable), ("error_rate", .number c.ulErrorRate)])]

end AnalyzerConfig

inductive SyslogMode
  | none
  | changed
  | level
  deriving DecidableEq

structure NotifierSyslogConfig where
  bEnable : Bool
  xMode : SyslogMode
  xLogLevel : LogType
  deriving DecidableEq

namespace NotifierSyslogConfig

def default : NotifierSyslogConfig := ⟨true, .level, .error⟩

def mode (value : SyslogMode) (t : Text) : SyslogMode :=
  if strcasecmp t "changed".toList then .changed
  else if strcasecmp t "level".toList then .level
  else value

def logLevel (value : LogType) (t : Text) : LogType :=
  if strcasecmp t "error".toList then .error
  else if strcasecmp t "info".toList then .normal
  else value

def load (c : NotifierSyslogConfig) (pRoot : Json) : Option NotifierSyslogConfig := do
  let bEnable ← pRoot.item "enable" c.bEnable (Json.flag strcasecmp c.bEnable)
  let xMode ← pRoot.item "mode" c.xMode (fun pItem => pItem.valuestring.map (mode c.xMode))
  let xLogLevel ←
    pRoot.item "level" c.xLogLevel (fun pItem => pItem.valuestring.map (logLevel c.xLogLevel))
  return { bEnable, xMode, xLogLevel }

def modeWord : SyslogMode → Text
  | .none => "none".toList
  | .changed => "changed".toList
  | .level => "level".toList

def levelWord : LogType → Text
  | .normal => "info".toList
  | .error => "error".toList

def save (c : NotifierSyslogConfig) : Json :=
  .create [("enable", .yesNo c.bEnable), ("mode", .string (modeWord c.xMode)),
    ("level", .string (levelWord c.xLogLevel))]

end NotifierSyslogConfig

structure NotifierSmtpConfig where
  bEnable : Bool
  pServer : Field 256
  usPort : UInt16
  pUserID : Field 64
  pPasswd : Field 32
  pSender : Field 32
  deriving DecidableEq

namespace NotifierSmtpConfig

def default : NotifierSmtpConfig where
  bEnable := false
  pServer := Field.copy _ "smtp.catchb.com".toList
  usPort := 25
  pUserID := Field.copy _ "admin@catchb.com".toList
  pPasswd := Field.copy _ "admin".toList
  pSender := Field.copy _ "catchb@catchb.com".toList

def load (c : NotifierSmtpConfig) (pRoot : Json) : Option NotifierSmtpConfig := do
  let bEnable ← pRoot.item "enable" c.bEnable (Json.flag strcasecmp c.bEnable)
  let pServer ← pRoot.item "server" c.pServer (Json.field 256)
  let usPort ← pRoot.item "port" c.usPort (fun pItem => some pItem.valueint.toUInt16)
  let pUserID ← pRoot.item "userid" c.pUserID (Json.field 64)
  let pPasswd ← pRoot.item "passwd" c.pPasswd (Json.field 32)
  return { c with bEnable, pServer, usPort, pUserID, pPasswd }

/-- The sender is neither written nor read. -/
def save (c : NotifierSmtpConfig) : Json :=
  .create [("enable", .yesNo c.bEnable), ("server", .text c.pServer),
    ("port", .number c.usPort.toUInt32), ("userid", .text c.pUserID), ("passwd", .text c.pPasswd)]

end NotifierSmtpConfig

structure NotifierConfig where
  xSyslog : NotifierSyslogConfig
  xSMTP : NotifierSmtpConfig
  deriving DecidableEq

namespace NotifierConfig

def default : NotifierConfig := ⟨.default, .default⟩

def load (c : NotifierConfig) (pRoot : Json) : Option NotifierConfig := do
  let xSyslog ← pRoot.item "syslog" c.xSyslog c.xSyslog.load
  let xSMTP ← pRoot.item "smtp" c.xSMTP c.xSMTP.load
  return { xSyslog, xSMTP }

def save (c : NotifierConfig) : Json :=
  .create [("syslog", c.xSyslog.save), ("smtp", c.xSMTP.save)]

end NotifierConfig

structure LoggerConfig where
  pPath : Field 512
  pMain : Field 256
  ulRetentionPeriod : UInt32
  deriving DecidableEq

namespace LoggerConfig

/-- The paths are those of cleared memory. -/
def default : LoggerConfig := ⟨Field.empty _, Field.empty _, 30⟩

def load (c : LoggerConfig) (pRoot : Json) : Option LoggerConfig := do
  let ulRetentionPeriod ← pRoot.item "retention" c.ulRetentionPeriod (fun pItem =>
    match pItem with
    | .number n => some n
    | _ => some c.ulRetentionPeriod)
  return { c with ulRetentionPeriod }

def save (c : LoggerConfig) : Json := .create [("retention", .number c.ulRetentionPeriod)]

end LoggerConfig

structure ServerConfig where
  usPort : UInt16
  ulMaxSession : UInt32
  ulBufferLen : UInt32
  ulSSIDTimeout : UInt32
  deriving DecidableEq

namespace ServerConfig

def default : ServerConfig := ⟨8800, 10, 4096, 300⟩

def load (c : ServerConfig) (pRoot : Json) : Option ServerConfig := do
  let number := fun (pItem : Json) => some pItem.valueint
  let usPort ← pRoot.item "port" c.usPort (fun pItem => some pItem.valueint.toUInt16)
  let ulMaxSession ← pRoot.item "session_count" c.ulMaxSession number
  let ulBufferLen ← pRoot.item "buffer_size" c.ulBufferLen number
  let ulSSIDTimeout ← pRoot.item "ssid" c.ulSSIDTimeout (fun pSection =>
    pSection.item "timeout" c.ulSSIDTimeout number)
  return { usPort, ulMaxSession, ulBufferLen, ulSSIDTimeout }

def save (c : ServerConfig) : Json :=
  .create [("port", .number c.usPort.toUInt32), ("session_count", .number c.ulMaxSession),
    ("buffer_size", .number c.ulBufferLen),
    ("ssid", .create [("timeout", .number c.ulSSIDTimeout)])]

end ServerConfig

structure ClientConfig where
  pIP : Field 15
  usPort : UInt16
  bAutoConnect : Bool
  pTmpPath : Field 512
  deriving DecidableEq

namespace ClientConfig

def default : ClientConfig :=
  ⟨Field.copy _ "127.0.0.1".toList, 8800, false, Field.copy _ "/mnt/".toList⟩

def auto (value : Bool) (pItem : Json) : Option Bool :=
  match pItem with
  | .string t =>
    some (if strcasecmp t "yes".toList || strcasecmp t "on".toList then true
      else if strcasecmp t "no".toList || strcasecmp t "off".toList then false
      else value)
  | .number n => some (n != 0)
  | _ => some value

def load (c : ClientConfig) (pRoot : Json) : Option ClientConfig := do
  let pIP ← pRoot.item "ip" c.pIP (Json.bare 15)
  let usPort ← pRoot.item "port" c.usPort (fun pItem => some pItem.valueint.toUInt16)
  let bAutoConnect ← pRoot.item "auto" c.bAutoConnect (auto c.bAutoConnect)
  let pTmpPath ← pRoot.item "tmp_path" c.pTmpPath (Json.field 512)
  return { pIP, usPort, bAutoConnect, pTmpPath }

def save (c : ClientConfig) : Json :=
  .create [("ip", .text c.pIP), ("port", .number c.usPort.toUInt32),
    ("auto", .number (if c.bAutoConnect then 1 else 0)), ("tmp_path", .text c.pTmpPath)]

end ClientConfig

structure TraceFieldConfig where
  bEnable : Bool
  bDynamic : Bool
  ulSize : UInt32
  deriving DecidableEq

namespace TraceFieldConfig

def word (value : Bool) (pItem : Json) : Option Bool :=
  match pItem with
  | .string t => some (Json.onOff strcmp value t)
  | _ => some value

def size (value : UInt32) (pItem : Json) : Option UInt32 :=
  match pItem with
  | .number n => some n
  | _ => some value

def load (c : TraceFieldConfig) (pRoot : Json) : Option TraceFieldConfig := do
  let bEnable ← pRoot.item "enable" c.bEnable (word c.bEnable)
  let bDynamic ← pRoot.item "dynamic" c.bDynamic (word c.bDynamic)
  let ulSize ← pRoot.item "size" c.ulSize (size c.ulSize)
  return { bEnable, bDynamic, ulSize }

def save (c : TraceFieldConfig) : Json :=
  .create [("enable", .yesNo c.bEnable), ("dynamic", .yesNo c.bDynamic),
    ("size", .number c.ulSize)]

end TraceFieldConfig

structure TraceTypeConfig where
  bEnable : Bool
  pFileName : Field 256
  xTime : TraceFieldConfig
  xFunction : TraceFieldConfig
  xLine : TraceFieldConfig
  xModule : TraceFieldConfig
  xLevel : TraceFieldConfig
  deriving DecidableEq

/-- The names of the traced modules, which the process keeps outside its configuration. -/
abbrev ModuleNames := {names : List (Field 31) // names.length ≤ 32}

namespace ModuleNames

def initial : ModuleNames :=
  ⟨["cgi", "server", "config"].map (fun t => Field.copy 31 t.toList), by decide⟩

/-- What comes behind 32 names is dropped. -/
def append (names : ModuleNames) (more : List (Field 31)) : ModuleNames :=
  ⟨(names.val ++ more).take 32, List.length_take_le ..⟩

def save (names : ModuleNames) : Json := .array (names.val.map Json.text)

/-- `valuestring` is read of an item that has a place. -/
def copies (room : Nat) (items : List Json) : Option (List (Field 31)) :=
  (items.take room).mapM (Json.field 31)

def load (names : ModuleNames) (pItem : Json) : Option ModuleNames :=
  match pItem with
  | .array items => (copies (32 - names.val.length) items).map names.append
  | _ => some names

end ModuleNames

namespace TraceTypeConfig

def plain (bEnable : Bool) (pFileName : String) : TraceTypeConfig where
  bEnable := true
  pFileName := Field.copy _ pFileName.toList
  xTime := ⟨bEnable, false, 20⟩
  xFunction := ⟨bEnable, false, 24⟩
  xLine := ⟨bEnable, false, 4⟩
  xModule := ⟨bEnable, false, 8⟩
  xLevel := ⟨bEnable, false, 4⟩

def load (c : TraceTypeConfig) (pRoot : Json) : Option TraceTypeConfig := do
  let bEnable ← pRoot.item "enable" c.bEnable (TraceFieldConfig.word c.bEnable)
  let xTime ← pRoot.item "time" c.xTime c.xTime.load
  let xFunction ← pRoot.item "function" c.xFunction c.xFunction.load
  let xLine ← pRoot.item "line" c.xLine c.xLine.load
  let xModule ← pRoot.item "module" c.xModule c.xModule.load
  let xLevel ← pRoot.item "level" c.xLevel c.xLevel.load
  return { c with bEnable, xTime, xFunction, xLine, xModule, xLevel }

/-- The names of the modules come behind the field of the same name. -/
def save (c : TraceTypeConfig) (names : ModuleNames) : Json :=
  .create [("enable", .yesNo c.bEnable), ("time", c.xTime.save), ("function", c.xFunction.save),
    ("line", c.xLine.save), ("module", c.xModule.save), ("level", c.xLevel.save),
    ("module", names.save)]

end TraceTypeConfig

structure TraceConfig where
  pPath : Field 512
  ulFileSize : UInt32
  xConsole : TraceTypeConfig
  xLog : TraceTypeConfig
  xInfo : TraceTypeConfig
  xWarn : TraceTypeConfig
  xError : TraceTypeConfig
  deriving DecidableEq

namespace TraceConfig

/-- The log files have the program's name. -/
def default : TraceConfig where
  pPath := Field.copy _ "/var/log".toList
  ulFileSize := 1024 * 1024
  xConsole := .plain false "console"
  xLog := .plain true "catchb.log"
  xInfo := .plain true "catchb.log"
  xWarn := .plain true "catchb.log"
  xError := .plain true "catchb.log"

/-- A common section is for all but the warnings. -/
def loadCommon (c : TraceConfig) (pSection : Json) : Option TraceConfig := do
  let xLog ← c.xLog.load pSection
  let xInfo ← c.xInfo.load pSection
  let xError ← c.xError.load pSection
  return { c with xLog, xInfo, xError }

def load (c : TraceConfig) (names : ModuleNames) (pRoot : Json) :
    Option (TraceConfig × ModuleNames) := do
  let c ← pRoot.item "common" c c.loadCommon
  let xLog ← pRoot.item "log" c.xLog c.xLog.load
  let xInfo ← pRoot.item "info" c.xInfo c.xInfo.load
  let xWarn ← pRoot.item "warn" c.xWarn c.xWarn.load
  let xError ← pRoot.item "error" c.xError c.xError.load
  let names ← pRoot.item "module" names names.load
  return ({ c with xLog, xInfo, xWarn, xError }, names)

def save (c : TraceConfig) (names : ModuleNames) : Json :=
  .create [("log", c.xLog.save names), ("info", c.xInfo.save names),
    ("warn", c.xWarn.save names), ("error", c.xError.save names), ("module", names.save)]

end TraceConfig

structure SwitchModelInfo where
  xModel : UInt32
  pName : Field 32
  deriving DecidableEq

structure SwitchModels where
  pPath : Field 512
  pList : List SwitchModelInfo
  deriving DecidableEq

namespace SwitchModels

/-- A node without an ID or a name is left out. -/
def loadModel (pNode : Json) : Option (List SwitchModelInfo) :=
  match pNode.getObjectItem "id".toList, pNode.getObjectItem "name".toList with
  | some pIDNode, some pNameNode =>
    (pNameNode.field 32).map (fun pName => [⟨pIDNode.valueint, pName⟩])
  | _, _ => some []

/-- What is no array is refused. -/
def loadModels (pList : List SwitchModelInfo) (pSubsection : Json) :
    Option (List SwitchModelInfo) :=
  match pSubsection with
  | .array items => (items.mapM loadModel).map (fun models => pList ++ models.flatten)
  | _ => some pList

def load (c : SwitchModels) (pSection : Json) : Option SwitchModels := do
  let pPath ← pSection.item "path" c.pPath (Json.bare 512)
  let pList ← pSection.item "model" c.pList (loadModels c.pList)
  return { pPath, pList }

def saveModel (pInfo : SwitchModelInfo) : Json :=
  .create [("id", .number pInfo.xModel), ("name", .text pInfo.pName)]

def save (c : SwitchModels) : Json :=
  .create [("path", .text c.pPath), ("model", .array (c.pList.map saveModel))]

end SwitchModels

structure Config where
  pFileName : Field 767
  xSystem : SystemConfig
  xSwitchModels : SwitchModels
  xDB : DBConfig
  xAnalyzer : AnalyzerConfig
  xNotifier : NotifierConfig
  xLogger : LoggerConfig
  xTrace : TraceConfig
  xServer : ServerConfig
  xClient : ClientConfig
  deriving DecidableEq

namespace Config

/-- `FTM_CONFIG_create`. -/
def default : Config where
  pFileName := Field.empty _
  xSystem := .default
  xSwitchModels := ⟨Field.empty _, []⟩
  xDB := .default
  xAnalyzer := .default
  xNotifier := .default
  xLogger := .default
  xTrace := .default
  xServer := .default
  xClient := .default

/-- The sections of a file that has been parsed. -/
def loadRoot (c : Config) (names : ModuleNames) (pRoot : Json) :
    Option (Config × ModuleNames) := do
  let xSystem ← pRoot.item "system" c.xSystem c.xSystem.load
  let xDB ← pRoot.item "database" c.xDB c.xDB.load
  let xAnalyzer ← pRoot.item "analyzer" c.xAnalyzer c.xAnalyzer.load
  let xNotifier ← pRoot.item "notifier" c.xNotifier c.xNotifier.load
  let xLogger ← pRoot.item "logger" c.xLogger c.xLogger.load
  let xServer ← pRoot.item "server" c.xServer c.xServer.load
  let xClient ← pRoot.item "client" c.xClient c.xClient.load
  let (xTrace, names) ← pRoot.item "trace" (c.xTrace, names) (c.xTrace.load names)
  let xSwitchModels ← pRoot.item "switch" c.xSwitchModels c.xSwitchModels.load
  let c := { c with xSystem, xDB, xAnalyzer, xNotifier, xLogger }
  return ({ c with xServer, xClient, xTrace, xSwitchModels }, names)

/-- The file's content is given as it is parsed. -/
def load (c : Config) (names : ModuleNames) (pFileName : Text) (pRoot : Json) :
    Option (Config × ModuleNames) :=
  { c with pFileName := Field.copy _ pFileName }.loadRoot names pRoot

/-- What is printed to the file. -/
def save (c : Config) (names : ModuleNames) : Json :=
  .create [("system", c.xSystem.save), ("database", c.xDB.save), ("analyzer", c.xAnalyzer.save),
    ("notifier", c.xNotifier.save), ("server", c.xServer.save), ("client", c.xClient.save),
    ("logger", c.xLogger.save), ("trace", c.xTrace.save names), ("switch", c.xSwitchModels.save)]

end Config
end Catchb
