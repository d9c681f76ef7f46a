import Catchb.Settings
import Catchb.Proofs.ConfigCycle

/-! When a request changes nothing in the file but what it names. -/

namespace Catchb.Proofs.PartialUpdate
open Lib ConfigCycle

section
variable {α : Type}

/-- What holds of the value that is there and of every value that is read holds of the new one. -/
theorem item_inv {p : α → Prop} {pRoot : Json} {t : String} {old v : α} {f : Json → Option α}
    (h : pRoot.item t old f = some v) (hold : p old) (hread : ∀ pItem, f pItem = some v → p v) :
    p v := by
  unfold Json.item at h
  split at h
  · exact Option.some.inj h ▸ hold
  · exact hread _ h

end

theorem bounded_within {low high : Nat} {old v : UInt32} {pItem : Json}
    (h : SystemConfig.bounded low high old pItem = some v)
    (hold : SystemConfig.within low high old = true) : SystemConfig.within low high v = true := by
  unfold SystemConfig.bounded at h
  split at h
  · rename_i n
    cases Option.some.inj h
    cases hn : SystemConfig.within low high n with
    | false => exact hold
    | true => exact hn
  · exact Option.some.inj h ▸ hold

theorem checked_within {low high : Nat} {old n v : UInt32}
    (h : some (if SystemConfig.within low high n then n else old) = some v)
    (hold : SystemConfig.within low high old = true) : SystemConfig.within low high v = true :=
  have hbounded : SystemConfig.bounded low high old (.number n) = some v := h
  bounded_within hbounded hold

theorem item_within {low high : Nat} {pRoot : Json} {t : String} {old v : UInt32}
    {f : Json → Option UInt32} (h : pRoot.item t old f = some v)
    (hold : SystemConfig.within low high old = true)
    (hread : ∀ pItem, f pItem = some v → SystemConfig.within low high v = true) :
    SystemConfig.within low high v = true :=
  item_inv (p := fun v => SystemConfig.within low high v = true) h hold hread

/-! Each section of a configuration that has only been loaded. -/

structure LoadedSystem (c : SystemConfig) : Prop where
  count : SystemConfig.within 100 100 c.ulCount = true
  interval : SystemConfig.within 10000 3600000 c.ulInterval = true
  update : c.ulUpdateInterval = 10000

theorem LoadedSystem.load {c d : SystemConfig} {pRoot : Json} (hd : LoadedSystem d)
    (h : d.load pRoot = some c) : LoadedSystem c := by
  refine item_inv h hd ?_
  intro pSection hread
  simp only [Option.bind_eq_bind, Option.bind_eq_some_iff] at hread
  obtain ⟨ulCount, hcount, ulInterval, hinterval, heq⟩ := hread
  cases heq
  exact ⟨item_within hcount hd.count (fun _ hr => bounded_within hr hd.count),
    item_within hinterval hd.interval (fun _ hr => bounded_within hr hd.interval), hd.update⟩

structure LoadedAnalyzer (c : AnalyzerConfig) : Prop where
  check : SystemConfig.within 10000 0x7FFFFFFF c.ulIPCheckInterval = true
  rate : SystemConfig.within 0 100 c.ulErrorRate = true

theorem LoadedAnalyzer.loadTest {c d : AnalyzerConfig} {pSection : Json} (hd : LoadedAnalyzer d)
    (h : d.loadTest pSection = some c) : LoadedAnalyzer c := by
  simp only [AnalyzerConfig.loadTest, Option.bind_eq_bind, Option.bind_eq_some_iff] at h
  obtain ⟨bEnable, -, ulErrorRate, hrate, heq⟩ := h
  cases heq
  exact ⟨hd.check, item_within hrate hd.rate (fun _ hr => checked_within hr hd.rate)⟩

theorem LoadedAnalyzer.loadRest {c d : AnalyzerConfig} {pRoot : Json} (hd : LoadedAnalyzer d)
    (h : d.loadRest pRoot = some c) : LoadedAnalyzer c := by
  simp only [AnalyzerConfig.loadRest, Option.bind_eq_bind, Option.bind_eq_some_iff] at h
  obtain ⟨ulIPCheckInterval, hcheck, htest⟩ := h
  have hnew : LoadedAnalyzer { d with ulIPCheckInterval } :=
    ⟨item_within hcheck hd.check (fun _ hr => checked_within hr hd.check), hd.rate⟩
  exact item_inv htest hnew (fun _ hr => hnew.loadTest hr)

theorem LoadedAnalyzer.load {c d : AnalyzerConfig} {pRoot : Json} (hd : LoadedAnalyzer d)
    (h : d.load pRoot = some c) : LoadedAnalyzer c := by
  simp only [AnalyzerConfig.load, Option.bind_eq_bind, Option.bind_eq_some_iff] at h
  obtain ⟨pIFName, -, h⟩ := h
  have hnew (pPortList : PortList) : LoadedAnalyzer { d with pIFName, pPortList } :=
    ⟨hd.check, hd.rate⟩
  split at h
  · exact (hnew d.pPortList).loadRest h
  · exact (hnew _).loadRest h
  · cases h
    exact hnew d.pPortList

theorem syslog_load {c d : NotifierSyslogConfig} {pRoot : Json} (hd : d.xMode ≠ .none)
    (h : d.load pRoot = some c) : c.xMode ≠ .none := by
  simp only [NotifierSyslogConfig.load, Option.bind_eq_bind, Option.bind_eq_some_iff] at h
  obtain ⟨bEnable, -, xMode, hmode, xLogLevel, -, heq⟩ := h
  cases heq
  refine item_inv (p := fun mode => mode ≠ .none) hmode hd ?_
  intro pItem hread
  obtain ⟨t, -, rfl⟩ := Option.map_eq_some_iff.mp hread
  unfold NotifierSyslogConfig.mode
  split
  · decide
  · split
    · decide
    · exact hd

theorem smtp_load {c d : NotifierSmtpConfig} {pRoot : Json} (h : d.load pRoot = some c) :
    c.pSender = d.pSender := by
  simp only [NotifierSmtpConfig.load, Option.bind_eq_bind, Option.bind_eq_some_iff] at h
  obtain ⟨bEnable, -, pServer, -, usPort, -, pUserID, -, pPasswd, -, heq⟩ := h
  cases heq
  rfl

structure LoadedNotifier (c : NotifierConfig) : Prop where
  mode : c.xSyslog.xMode ≠ .none
  sender : c.xSMTP.pSender = NotifierSmtpConfig.default.pSender

theorem LoadedNotifier.load {c d : NotifierConfig} {pRoot : Json} (hd : LoadedNotifier d)
    (h : d.load pRoot = some c) : LoadedNotifier c := by
  simp only [NotifierConfig.load, Option.bind_eq_bind, Option.bind_eq_some_iff] at h
  obtain ⟨xSyslog, hsyslog, xSMTP, hsmtp, heq⟩ := h
  cases heq
  exact ⟨item_inv (p := fun s => s.xMode ≠ .none) hsyslog hd.mode
      (fun _ hr => syslog_load hd.mode hr),
    item_inv (p := fun s => s.pSender = _) hsmtp hd.sender
      (fun _ hr => (smtp_load hr).trans hd.sender)⟩

theorem logger_load {c d : LoggerConfig} {pRoot : Json} (h : d.load pRoot = some c) :
    c.pPath = d.pPath ∧ c.pMain = d.pMain := by
  simp only [LoggerConfig.load, Option.bind_eq_bind, Option.bind_eq_some_iff] at h
  obtain ⟨ulRetentionPeriod, -, heq⟩ := h
  cases heq
  exact ⟨rfl, rfl⟩

theorem traceType_load {c d : TraceTypeConfig} {pRoot : Json} (h : d.load pRoot = some c) :
    c.pFileName = d.pFileName := by
  simp only [TraceTypeConfig.load, Option.bind_eq_bind, Option.bind_eq_some_iff] at h
  obtain ⟨bEnable, -, xTime, -, xFunction, -, xLine, -, xModule, -, xLevel, -, heq⟩ := h
  cases heq
  rfl

structure LoadedTrace (c : TraceConfig) : Prop where
  path : c.pPath = TraceConfig.default.pPath
  fileSize : c.ulFileSize = TraceConfig.default.ulFileSize
  console : c.xConsole = TraceConfig.default.xConsole
  log : c.xLog.pFileName = TraceConfig.default.xLog.pFileName
  info : c.xInfo.pFileName = TraceConfig.default.xInfo.pFileName
  warn : c.xWarn.pFileName = TraceConfig.default.xWarn.pFileName
  error : c.xError.pFileName = TraceConfig.default.xError.pFileName

theorem LoadedTrace.loadCommon {c d : TraceConfig} {pSection : Json} (hd : LoadedTrace d)
    (h : d.loadCommon pSection = some c) : LoadedTrace c := by
  simp only [TraceConfig.loadCommon, Option.bind_eq_bind, Option.bind_eq_some_iff] at h
  obtain ⟨xLog, hlog, xInfo, hinfo, xError, herror, heq⟩ := h
  cases heq
  exact { hd with
    log := (traceType_load hlog).trans hd.log
    info := (traceType_load hinfo).trans hd.info
    error := (traceType_load herror).trans hd.error }

theorem LoadedTrace.load {c d : TraceConfig} {names names' : ModuleNames} {pRoot : Json}
    (hd : LoadedTrace d) (h : d.load names pRoot = some (c, names')) : LoadedTrace c := by
  have hfile {t old new : TraceTypeConfig} {name : String}
      (h : pRoot.item name old old.load = some new) (hold : old.pFileName = t.pFileName) :
      new.pFileName = t.pFileName :=
    item_inv (p := fun new => new.pFileName = t.pFileName) h hold
      (fun _ hr => (traceType_load hr).trans hold)
  simp only [TraceConfig.load, Option.bind_eq_bind, Option.bind_eq_some_iff] at h
  obtain ⟨e, hcommon, xLog, hlog, xInfo, hinfo, xWarn, hwarn, xError, herror, _, -, heq⟩ := h
  cases heq
  have he : LoadedTrace e := item_inv hcommon hd (fun _ hr => hd.loadCommon hr)
  exact ⟨he.path, he.fileSize, he.console, hfile hlog he.log, hfile hinfo he.info,
    hfile hwarn he.warn, hfile herror he.error⟩

structure Loaded (c : Config) : Prop where
  system : LoadedSystem c.xSystem
  analyzer : LoadedAnalyzer c.xAnalyzer
  notifier : LoadedNotifier c.xNotifier
  logger : c.xLogger.pPath = Field.empty _ ∧ c.xLogger.pMain = Field.empty _
  trace : LoadedTrace c.xTrace

theorem Loaded.loadRoot {c d : Config} {names names' : ModuleNames} {pRoot : Json} (hd : Loaded d)
    (h : d.loadRoot names pRoot = some (c, names')) : Loaded c ∧ c.pFileName = d.pFileName := by
  simp only [Config.loadRoot, Option.bind_eq_bind, Option.bind_eq_some_iff] at h
  obtain ⟨xSystem, hsystem, xDB, -, xAnalyzer, hanalyzer, xNotifier, hnotifier, xLogger, hlogger,
    xServer, -, xClient, -, ⟨xTrace, more⟩, htrace, xSwitchModels, -, heq⟩ := h
  cases heq
  constructor
  · constructor
    · exact item_inv hsystem hd.system (fun _ hr => hd.system.load hr)
    · exact item_inv hanalyzer hd.analyzer (fun _ hr => hd.analyzer.load hr)
    · exact item_inv hnotifier hd.notifier (fun _ hr => hd.notifier.load hr)
    · refine item_inv (p := fun l => l.pPath = _ ∧ l.pMain = _) hlogger hd.logger ?_
      intro _ hr
      obtain ⟨hpath, hmain⟩ := logger_load hr
      exact ⟨hpath.trans hd.logger.1, hmain.trans hd.logger.2⟩
    · exact item_inv (p := fun t => LoadedTrace t.1) htrace hd.trace
        (fun _ hr => hd.trace.load hr)
  · rfl

/-- What the daemon makes of a file when it starts. -/
def start (pFileName : Text) (file : Json) : Option (Config × ModuleNames) :=
  Config.default.load .initial pFileName file

/-- The configuration with the fields that the request names. -/
def requested (c : Config) : SettingsRequest → Config
  | .smtpSet xSMTP => { c with xNotifier := { c.xNotifier with xSMTP } }
  | .statSetInfo xInfo _ => { c with xSystem := { c.xSystem with
      ulInterval := if xInfo.ulFields &&& 1 ≠ 0 then xInfo.ulInterval else c.xSystem.ulInterval
      ulCount := if xInfo.ulFields &&& 2 ≠ 0 then xInfo.ulMaxCount else c.xSystem.ulCount } }

/-- What a request needs so that its own fields reach the file and the client's section does. -/
def Reaches (c : Config) : SettingsRequest → Prop
  | .smtpSet xSMTP => xSMTP.pSender = NotifierSmtpConfig.default.pSender ∧
      StackConfig.cleared.xClient = c.xClient
  | .statSetInfo xInfo xConfig =>
      (xInfo.ulFields &&& 1 ≠ 0 → SystemConfig.within 10000 3600000 xInfo.ulInterval = true) ∧
      (xInfo.ulFields &&& 2 ≠ 0 → xInfo.ulMaxCount = 100) ∧
      xConfig.pList.models = some [] ∧ xConfig.xClient = c.xClient

section
variable {pFileName : Text} {c : Config} {names : ModuleNames}

end

end Catchb.Proofs.PartialUpdate
