import Catchb.Handlers
import Catchb.Lib.Reconcile

/-! The catchb thread with its whole queue: cameras, switches, and the reconciliation of
both lists with the database. -/

namespace Catchb
open Lib Reconcile

/-- The messages of the catchb thread. -/
inductive CatchbMsg
  | cctv (msg : CctvMsg)
  | checkNewCCTV
  | checkNewSwitch
  | foundNewSwitch (config : SwitchConfig)
  | removedSwitch (id : ID)
  deriving DecidableEq

/-- `acTables` names the AC tables in the database. No function writes a row into one. -/
structure CatchbThread where
  daemon : Daemon
  msgQ : List CatchbMsg
  acTables : List Text

/-- What the database and the allocators answer while a list is compared with its table:
`count` is the number of rows, `rows` what the row callback copies of them afterwards. A
second query that fails copies none: its result is tested for a negative code, and the
database's codes are positive. -/
structure CheckRun (α : Type) where
  count : Option Nat
  alloc : Bool
  rows : List α
  pushed : Nat → Bool

/-- Nothing fails, and nothing changes between the two queries. -/
def CheckRun.reading {α : Type} (rows : List α) : CheckRun α where
  count := some rows.length
  alloc := true
  rows := rows
  pushed := fun _ => true

/-- How the database takes a change of its tables: whether it lists their names, and
whether the statement runs. -/
structure TableRun where
  listed : Bool
  runs : Bool

structure SwitchRun where
  listed : Bool
  create : TableRun
  destroy : TableRun
  alloc : Bool
  append : Bool
  addSwitch : Bool
  deleteSwitch : Bool

/-- Nothing fails. -/
def SwitchRun.smooth : SwitchRun := ⟨true, ⟨true, true⟩, ⟨true, true⟩, true, true, true, true⟩

/-- What the outside decides in one turn of the message loop. -/
structure TurnRun where
  cctv : CatchbRun
  checkCCTV : CheckRun CctvConfig
  checkSwitch : CheckRun SwitchConfig
  switch : SwitchRun

namespace DB

def acTableName (switchID : Text) : Text := "tb_sw_".toList ++ switchID ++ "_ac".toList

def isExistTable (tables : List Text) (name : Text) (listed : Bool) : Option Bool :=
  if listed then some (tables.contains name) else none

/-- A statement that fails is no error here either. -/
def createTable (tables : List Text) (name : Text) (run : TableRun) : Ret × List Text :=
  match isExistTable tables name run.listed with
  | some true => (.dbAlreadyExist, tables)
  | _ => (.ok, if run.runs then tables.insert name else tables)

def destroyTable (tables : List Text) (name : Text) (run : TableRun) : Ret × List Text :=
  match isExistTable tables name run.listed with
  | some true => (.ok, if run.runs then tables.filter (fun n => n ≠ name) else tables)
  | _ => (.dbTableNotExist, tables)

end DB

namespace CatchbThread

def start : CatchbThread := ⟨Daemon.start [] DB.createCCTVTable, [], []⟩

def post (t : CatchbThread) (msgs : List CatchbMsg) : CatchbThread :=
  { t with msgQ := t.msgQ ++ msgs }

/-- The messages whose push succeeds. -/
def pushed (pushed : Nat → Bool) (msgs : List CatchbMsg) : List CatchbMsg :=
  (msgs.zipIdx.filter (fun m => pushed m.2)).map Prod.fst

/-- Both comparisons of a list with its table. An empty table is not compared; the result
is that of the last lookup. -/
def checkNew {α : Type} (key : α → ID) (listed : List ID) (run : CheckRun α) :
    Ret × List (Change ID α) :=
  match run.count with
  | none => (.dbExecError, [])
  | some 0 => (.ok, [])
  | some count =>
    if !run.alloc then (.ok, [])
    else
      let rows := run.rows.take count
      let ret := match rows.getLast? with
        | none => Ret.ok
        | some row => if listed.contains (key row) then .ok else .objectNotFound
      (ret, diff key listed rows)

def cctvChange : Change ID CctvConfig → CatchbMsg
  | .removed id => .cctv (.removed id)
  | .found config => .cctv (.found config)

def onCheckNewCCTV (t : CatchbThread) (run : CheckRun CctvConfig) : Ret × CatchbThread :=
  let (ret, changes) := checkNew CctvConfig.id (t.daemon.cctvs.map Cctv.key) run
  (ret, t.post (pushed run.pushed (changes.map cctvChange)))

def switchChange : Change ID SwitchConfig → CatchbMsg
  | .removed id => .removedSwitch id
  | .found config => .foundNewSwitch config

def onCheckNewSwitch (t : CatchbThread) (run : CheckRun SwitchConfig) : Ret × CatchbThread :=
  let (ret, changes) := checkNew SwitchConfig.id (t.daemon.switches.map Switch.key) run
  (ret, t.post (pushed run.pushed (changes.map switchChange)))

def setSwitches (t : CatchbThread) (switches : List Switch) : CatchbThread :=
  { t with daemon := { t.daemon with switches } }

/-- `FTM_SWITCH_create` and the list's append. -/
def appendSwitch (t : CatchbThread) (config : SwitchConfig) (run : SwitchRun) :
    Ret × CatchbThread :=
  if !run.alloc then (.notEnoughMemory, t)
  else if !run.append then (.notEnoughMemory, t)
  else (.ok, t.setSwitches (t.daemon.switches ++ [⟨config, [], []⟩]))

/-- The AC table is looked for under the switch's ID and created under its IP. -/
def onFoundSwitchInDB (t : CatchbThread) (config : SwitchConfig) (run : SwitchRun) :
    Ret × CatchbThread :=
  match DB.isExistTable t.acTables (DB.acTableName config.id.val) run.listed with
  | some true => t.appendSwitch config run
  | _ =>
    match DB.createTable t.acTables (DB.acTableName config.ip.val) run.create with
    | (.ok, acTables) => { t with acTables }.appendSwitch config run
    | (ret, _) => (ret, t)

def removeSwitch (t : CatchbThread) (id : ID) : CatchbThread :=
  t.setSwitches (Keyed.discard Switch.key id t.daemon.switches)

def onRemovedSwitchInDB (t : CatchbThread) (id : ID) : Ret × CatchbThread :=
  match Keyed.get Switch.key id t.daemon.switches with
  | none => (.objectNotFound, t)
  | some _ => (.ok, t.removeSwitch id)

/-- The database's side of a new switch; a failure after the row's insertion deletes it,
and the result is that of the deletion. -/
def addSwitchTables (t : CatchbThread) (config : SwitchConfig) (run : SwitchRun) :
    Bool × Ret × List Text :=
  let name := DB.acTableName config.id.val
  let deleted := if run.deleteSwitch then Ret.ok else .dbExecError
  if !run.addSwitch then (false, .dbExecError, t.acTables)
  else
    let (ret, acTables) := match DB.isExistTable t.acTables name run.listed with
      | some true => DB.destroyTable t.acTables name run.destroy
      | _ => (.ok, t.acTables)
    if ret ≠ .ok then (false, deleted, acTables)
    else
      let (ret, acTables) := DB.createTable acTables name run.create
      if ret ≠ .ok then (false, deleted, acTables) else (true, .ok, acTables)

def addSwitch (t : CatchbThread) (config : SwitchConfig) (run : SwitchRun) : Ret × CatchbThread :=
  if config.id.val.length = 0 then (.invalidArguments, t)
  else
    match Keyed.get Switch.key config.id t.daemon.switches with
    | some _ => (.objectAlreadyExist, t)
    | none =>
      if !run.alloc then (.notEnoughMemory, t)
      else if !run.append then (.notEnoughMemory, t)
      else
        match t.addSwitchTables config run with
        | (true, ret, acTables) => (ret, ({ t with acTables }.appendSwitch config run).2)
        | (false, ret, acTables) => (ret, { t with acTables })

/-- The results of the database are dropped. -/
def delSwitch (t : CatchbThread) (id : ID) (run : SwitchRun) : Ret × CatchbThread :=
  match Keyed.get Switch.key id t.daemon.switches with
  | none => (.objectNotFound, t)
  | some _ =>
    let (_, acTables) := DB.destroyTable t.acTables (DB.acTableName id.val) run.destroy
    (.ok, { t with acTables }.removeSwitch id)

/-- The message loop's dispatch. -/
def handle (t : CatchbThread) (run : TurnRun) : CatchbMsg → Ret × CatchbThread
  | .cctv msg =>
    let (ret, daemon) := t.daemon.handle run.cctv msg
    (ret, { t with daemon })
  | .checkNewCCTV => t.onCheckNewCCTV run.checkCCTV
  | .checkNewSwitch => t.onCheckNewSwitch run.checkSwitch
  | .foundNewSwitch config => t.onFoundSwitchInDB config run.switch
  | .removedSwitch id => t.onRemovedSwitchInDB id

/-- One turn of the message loop. -/
def turn (t : CatchbThread) (run : TurnRun) : CatchbThread :=
  match t.msgQ with
  | [] => t
  | msg :: rest => ({ t with msgQ := rest }.handle run msg).2

end CatchbThread
end Catchb
