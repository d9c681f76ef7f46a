import Catchb.Analyzer
import Catchb.Daemon

/-! The catchb thread's handlers of camera messages, and the server's requests that act on a camera's
switch. -/

namespace Catchb
open Lib

/-- What the outside decides while one message is handled: the clock, which allocations
succeed, and how the two databases take their statements. -/
structure CatchbRun where
  now : UInt32
  allocCCTV : Bool
  appendCCTV : Bool
  db : DbRun
  allocID : Bool
  appendID : Bool
  postControl : Bool
  sendAlarm : Bool
  logExec : Bool

/-- Nothing fails. -/
def CatchbRun.smooth : CatchbRun where
  now := 1
  allocCCTV := true
  appendCCTV := true
  db := ⟨true, none⟩
  allocID := true
  appendID := true
  postControl := true
  sendAlarm := true
  logExec := true

namespace Daemon

def attach (d : Daemon) (id : ID) (run : CatchbRun) : Ret × Daemon :=
  let (ret, analyzer) := Analyzer.attach d.analyzer id run.allocID run.appendID
  (ret, { d with analyzer })

def detach (d : Daemon) (id : ID) : Ret × Daemon :=
  let (ret, analyzer) := Analyzer.detach d.analyzer id
  (ret, { d with analyzer })

/-- A write through the camera pointer that `getCCTV` returns. -/
def setCCTV (d : Daemon) (id : ID) (f : CctvConfig → CctvConfig) : Daemon :=
  { d with cctvs := Keyed.update Cctv.key id (fun c => { c with config := f c.config }) d.cctvs }

def removeCCTV (d : Daemon) (id : ID) : Daemon :=
  { d with cctvs := Keyed.discard Cctv.key id d.cctvs }

def timed (run : CatchbRun) (config : CctvConfig) : CctvConfig :=
  if config.time = 0 then { config with time := run.now } else config

/-- A camera that cannot be attached is destroyed and stays in the list. -/
def onCreateCCTV (d : Daemon) (config : CctvConfig) (run : CatchbRun) : Ret × Daemon :=
  match d.getCCTV config.id with
  | some _ => (.objectAlreadyExist, d)
  | none =>
    let config := timed run config
    if !run.allocCCTV then (.notEnoughMemory, d)
    else if !run.appendCCTV then (.notEnoughMemory, d)
    else
      match DB.addCCTV d.table config run.db with
      | (.ok, table) =>
        match attach { d with table } config.id run with
        | (.ok, d) => (.ok, { d with cctvs := d.cctvs ++ [⟨config, false⟩] })
        | (ret, d) => (ret, { d with cctvs := d.cctvs ++ [⟨config, true⟩] })
      | (ret, _) => (ret, d)

def onDeleteCCTV (d : Daemon) (id : ID) (run : CatchbRun) : Ret × Daemon :=
  match d.getCCTV id with
  | none => (.objectNotFound, d)
  | some _ =>
    let d := (d.detach id).2.removeCCTV id
    (.ok, { d with table := (DB.deleteCCTV d.table id run.db).2 })

/-- The configuration that a camera found in the database starts with. -/
def foundConfig (config : CctvConfig) : CctvConfig :=
  if config.hash.val.length ≠ 0 then { config with stat := .unused } else config

def onFoundCCTVInDB (d : Daemon) (config : CctvConfig) (run : CatchbRun) : Ret × Daemon :=
  if !run.allocCCTV then (.notEnoughMemory, d)
  else if !run.appendCCTV then (.notEnoughMemory, d)
  else attach { d with cctvs := d.cctvs ++ [⟨foundConfig config, false⟩] } config.id run

def onRemovedCCTVInDB (d : Daemon) (id : ID) : Ret × Daemon :=
  match d.getCCTV id with
  | none => (.objectNotFound, d)
  | some cctv => (d.removeCCTV id).detach cctv.config.id

def onSetCCTVHash (d : Daemon) (id : ID) (hash : Hash) (run : CatchbRun) : Ret × Daemon :=
  match d.getCCTV id with
  | none => (.objectNotFound, d)
  | some cctv =>
    let d := d.setCCTV id (fun c => { c with hash := hash })
    match DB.updateCCTVHash d.table id hash run.db with
    | (.ok, table) => attach { d with table } cctv.config.id run
    | (ret, table) => (ret, { d with table })

def onCCTVRegister (d : Daemon) (id : ID) (hash : Hash) (run : CatchbRun) : Ret × Daemon :=
  match d.getCCTV id with
  | none => (.objectNotFound, d)
  | some _ =>
    let d := d.setCCTV id (fun c => { c with hash := hash })
    let (ret, table) := DB.updateCCTVHash d.table id hash run.db
    (ret, { d with table })

/-- The policy that a status change asks the detector for. -/
def controlOnStat : CctvStat → CctvStat → Option AcPolicy
  | .abnormal, .normal | .unused, .normal => some .allow
  | .normal, .abnormal | .unused, .abnormal => some .deny
  | .normal, .unregistered => some .allow
  | .abnormal, .unregistered => some .deny
  | _, _ => none

def logTypeOnStat : CctvStat → LogType
  | .normal => .normal
  | .abnormal | .unregistered | .unused => .error

/-- What the status handler leaves of a camera: losing the registration loses the hash. -/
def statConfig (stat : CctvStat) (config : CctvConfig) : CctvConfig :=
  match stat with
  | .unregistered => { config with hash := Field.empty 48, stat := stat }
  | _ => { config with stat := stat }

def onSetCCTVStat (d : Daemon) (id : ID) (stat : CctvStat) (time : UInt32) (hash : Hash)
    (run : CatchbRun) : Ret × Daemon :=
  match d.getCCTV id with
  | none => (.objectNotFound, d)
  | some cctv =>
    let old := cctv.config
    let new := statConfig stat old
    let type := logTypeOnStat stat
    let shown := if hash.val ≠ [] then hash else new.hash
    let d := match controlOnStat old.stat stat with
      | some policy => d.setControl old.switchID old.ip policy run.postControl
      | none => d
    let alarm : SendAlarm := ⟨type, id, old.ip, time, stat, shown, old.stat⟩
    let d := { d with alarms := if run.sendAlarm then d.alarms ++ [alarm] else d.alarms }
    let d := d.setCCTV id (statConfig stat)
    let log : Log := ⟨type, time, old.id, old.ip, stat, shown⟩
    if run.logExec then (.ok, { d with logs := d.logs ++ [log] }) else (.dbExecError, d)

def propertyConfig (new : CctvConfig) (flags : UInt32) (old : CctvConfig) : CctvConfig :=
  { old with
    ip := if DB.hasField flags DB.cctvFieldIP then new.ip else old.ip
    switchID := if DB.hasField flags DB.cctvFieldSwitchID then new.switchID else old.switchID
    comment := if DB.hasField flags DB.cctvFieldComment then new.comment else old.comment
    hash := if DB.hasField flags DB.cctvFieldHash then new.hash else old.hash
    stat := if DB.hasField flags DB.cctvFieldStat then new.stat else old.stat }

def onSetCCTVProperties (d : Daemon) (id : ID) (config : CctvConfig) (flags : UInt32)
    (run : CatchbRun) : Ret × Daemon :=
  match d.getCCTV id with
  | none => (.objectNotFound, d)
  | some _ =>
    let d := d.setCCTV id (propertyConfig config flags)
    let (ret, table) := DB.setCCTVProperties d.table id config flags run.db
    (ret, { d with table })

/-- The message loop's dispatch. -/
def handle (d : Daemon) (run : CatchbRun) : CctvMsg → Ret × Daemon
  | .create config => d.onCreateCCTV config run
  | .delete id => d.onDeleteCCTV id run
  | .found config => d.onFoundCCTVInDB config run
  | .removed id => d.onRemovedCCTVInDB id
  | .hashUpdated id hash => d.onSetCCTVHash id hash run
  | .setStat id stat time hash => d.onSetCCTVStat id stat time hash run
  | .setProperties id config flags => d.onSetCCTVProperties id config flags run
  | .register id hash => d.onCCTVRegister id hash run

/-- One turn of the message loop. -/
def handleNext (d : Daemon) (run : CatchbRun) : Daemon :=
  match d.msgQ with
  | [] => d
  | msg :: rest => ({ d with msgQ := rest }.handle run msg).2

end Daemon

structure ServerRun where
  now : UInt32
  ac : AcRun
  pushed : Bool

def ServerRun.smooth : ServerRun := ⟨1, .smooth, true⟩

namespace Daemon

def setPolicy (d : Daemon) (id : ID) (policy : AcPolicy) (run : ServerRun) : Ret × Daemon :=
  match d.getCCTV id with
  | none => (.objectNotFound, d)
  | some cctv =>
    match d.getSwitch cctv.config.switchID with
    | .error ret => (ret, d)
    | .ok sw =>
      let (ret, sw) := sw.addAC cctv.config.ip.val policy run.ac
      (ret, d.putSwitch sw)

def resetCCTV (d : Daemon) (id : ID) (run : ServerRun) : Ret × Daemon :=
  d.push (.setStat id .unregistered run.now (Field.empty 48)) run.pushed

/-- The entry that is added for an abnormal camera carries the camera's ID as its address. -/
def reset (d : Daemon) (id : ID) (hash : Hash) (run : ServerRun) : Ret × Daemon :=
  match d.getCCTV id with
  | none => (.objectNotFound, d)
  | some cctv =>
    if cctv.config.hash.val.length ≠ 0 && !strcasecmp cctv.config.hash.val hash.val then
      (.invalidArguments, d)
    else if cctv.config.stat = .abnormal then
      match d.getSwitch cctv.config.switchID with
      | .error _ => d.resetCCTV id run
      | .ok sw =>
        match sw.addAC cctv.config.id.val .allow run.ac with
        | (.ok, sw) => (d.putSwitch sw).resetCCTV id run
        | (ret, sw) => (ret, d.putSwitch sw)
    else d.resetCCTV id run

end Daemon

namespace DB
open Sql

/-- A text whose literals do not close may be several statements; `left` is the table when some
of them have run and the next one has failed. -/
def insertCCTV (t : Table) (config : CctvConfig) (run : DbRun) (left : Table) : Ret × Table :=
  match exec t (.insert (cctvValues config)) run with
  | some t' => (.ok, t')
  | none =>
    let half := run.answers && !(Stmt.insert (cctvValues config)).closed
    (.dbExecError, if half then left else t)

end DB

namespace Daemon

/-- `onCreateCCTV` over that insert. -/
def createCCTV (d : Daemon) (config : CctvConfig) (run : CatchbRun) (left : Sql.Table) :
    Ret × Daemon :=
  match d.getCCTV config.id with
  | some _ => (.objectAlreadyExist, d)
  | none =>
    let config := timed run config
    if !run.allocCCTV then (.notEnoughMemory, d)
    else if !run.appendCCTV then (.notEnoughMemory, d)
    else
      match DB.insertCCTV d.table config run.db left with
      | (.ok, table) =>
        match attach { d with table } config.id run with
        | (.ok, d) => (.ok, { d with cctvs := d.cctvs ++ [⟨config, false⟩] })
        | (ret, d) => (ret, { d with cctvs := d.cctvs ++ [⟨config, true⟩] })
      | (ret, table) => (ret, { d with table })

/-- An insert that fails as a whole leaves the table. -/
theorem createCCTV_table (d : Daemon) (config : CctvConfig) (run : CatchbRun) :
    d.createCCTV config run d.table = d.onCreateCCTV config run := by
  simp only [createCCTV, onCreateCCTV, DB.insertCCTV, DB.addCCTV, ite_self]
  cases DB.exec d.table (.insert (DB.cctvValues (timed run config))) run.db <;> rfl

end Daemon
end Catchb
