import Catchb.CheckNew
import Catchb.Lib.Catalog

/-! The switches with their database: the table of switches and the tables of their AC entries. -/

namespace Catchb
open Lib

/-- The table that a statement's text reaches where it names one without quotes, if the text is a
statement at all. A name of letters, digits and underlines names itself. -/
abbrev Engine := Text → Option Text

namespace DB
open Sql

def switchColumns : List Text :=
  ["_ID", "_MODEL", "_IP", "_USERID", "_PASSWD", "_SECURE", "_COMMENT"].map String.toList

/-- `tb_switch`. -/
structure SwitchTable where
  table : Table
  columns : table.columns = switchColumns
  key : table.key = "_ID".toList

theorem find_switchColumns : ∀ name ∈ switchColumns,
    switchColumns.find? (fun c => strcasecmp c name) = some name := by decide +kernel

theorem SwitchTable.column_eq (t : SwitchTable) {name : Text} (h : name ∈ switchColumns) :
    t.table.column name = some name := by
  rw [Table.column, t.columns]
  exact find_switchColumns name h

def createSwitchTable : SwitchTable := ⟨⟨switchColumns, "_ID".toList, []⟩, rfl, rfl⟩

/-- How the database takes one statement on the table of switches. Of a text whose literals do
not close, `other` is what it makes, and `left` what a failure halfway leaves. -/
structure SwitchStmt where
  answers : Bool
  other : Option SwitchTable
  left : SwitchTable

/-- Nothing fails. -/
def SwitchStmt.smooth : SwitchStmt := ⟨true, none, createSwitchTable⟩

def switchValues (config : SwitchConfig) (pEncryptedID pEncryptedPasswd : Text) :
    List (Text × Expr) :=
  [("_ID".toList, .quoted config.id.val), ("_MODEL".toList, .quoted config.model.val),
    ("_IP".toList, .quoted config.ip.val), ("_USERID".toList, .quoted pEncryptedID),
    ("_PASSWD".toList, .quoted pEncryptedPasswd),
    ("_SECURE".toList, .number (if config.secure then 1 else 0)),
    ("_COMMENT".toList, .quoted config.comment.val)]

theorem insert_schema {t t' : Table} {values : List (Text × Expr)}
    (h : Sql.insert t values = some t') : t'.columns = t.columns ∧ t'.key = t.key := by
  simp only [Sql.insert] at h
  split at h
  · cases h
    exact ⟨rfl, rfl⟩
  · cases h

def SwitchTable.insert (t : SwitchTable) (values : List (Text × Expr)) : Option SwitchTable :=
  match h : Sql.insert t.table values with
  | none => none
  | some t' => some ⟨t', (insert_schema h).1.trans t.columns, (insert_schema h).2.trans t.key⟩

def addSwitch (t : SwitchTable) (config : SwitchConfig) (pEncryptedID pEncryptedPasswd : Text)
    (run : SwitchStmt) : Ret × SwitchTable :=
  let values := switchValues config pEncryptedID pEncryptedPasswd
  if !run.answers then (.dbExecError, t)
  else if (Stmt.insert values).closed then
    match t.insert values with
    | some t' => (.ok, t')
    | none => (.dbExecError, t)
  else
    match run.other with
    | some t' => (.ok, t')
    | none => (.dbExecError, run.left)

def deleteSwitch (t : SwitchTable) (id : ID) (run : SwitchStmt) : Ret × SwitchTable :=
  if !run.answers then (.dbExecError, t)
  else if (Stmt.delete id.val).closed then (.ok, ⟨Sql.delete t.table id.val, t.columns, t.key⟩)
  else
    match run.other with
    | some t' => (.ok, t')
    | none => (.dbExecError, run.left)

end DB

/-- `acTables` has the rows of the AC tables as well. -/
structure SwitchStore where
  switches : List Switch
  table : DB.SwitchTable
  acTables : Catalog SwitchAc

namespace AcTables
variable (engine : Engine)

/-- The query of the names fails, or tells whether there is exactly this one. -/
def isExist (c : Catalog SwitchAc) (id : Text) (listed : Bool) : Option Bool :=
  DB.isExistTable c.names (DB.acTableName id) listed

/-- `CREATE TABLE`, which the engine refuses where the name is taken in any case. -/
def create (c : Catalog SwitchAc) (id : Text) (run : TableRun) : Ret × Catalog SwitchAc :=
  match isExist c id run.listed with
  | some true => (.dbAlreadyExist, c)
  | _ =>
    match engine (DB.acTableName id) with
    | some name => (.ok, if run.runs then c.create name else c)
    | none => (.ok, c)

def destroy (c : Catalog SwitchAc) (id : Text) (run : TableRun) : Ret × Catalog SwitchAc :=
  match isExist c id run.listed with
  | some true =>
    match engine (DB.acTableName id) with
    | some name => (.ok, if run.runs then c.drop name else c)
    | none => (.ok, c)
  | _ => (.dbTableNotExist, c)

/-- `SELECT`. -/
def select (c : Catalog SwitchAc) (id : Text) (answers : Bool) : Option (List SwitchAc) :=
  if answers then ((engine (DB.acTableName id)).bind c.find).map NamedTable.rows else none

def getACCount (c : Catalog SwitchAc) (id : Text) (answers : Bool) : Nat :=
  match select engine c id answers with
  | some rows => rows.length
  | none => 0

/-- A query that fails is no error, and copies nothing. -/
def getACList (c : Catalog SwitchAc) (id : Text) (ulMaxCount : Nat) (answers : Bool) :
    List SwitchAc :=
  match select engine c id answers with
  | some rows => rows.take ulMaxCount
  | none => []

variable {c : Catalog SwitchAc}

theorem isExist_listed (id : Text) :
    isExist c id true = some (decide (DB.acTableName id ∈ c.names)) := by
  simp [isExist, DB.isExistTable]

theorem isExist_unlisted (id : Text) : isExist c id false = none := rfl

/-- A creation is refused where the table is listed. -/
theorem create_ret (c : Catalog SwitchAc) (id : Text) (run : TableRun) :
    (create engine c id run).1 = .ok ↔ ¬(run.listed = true ∧ DB.acTableName id ∈ c.names) := by
  have hruns : (match engine (DB.acTableName id) with
      | some name => (Ret.ok, if run.runs then c.create name else c)
      | none => (.ok, c) : Ret × Catalog SwitchAc).1 = .ok := by
    cases engine (DB.acTableName id) <;> rfl
  unfold create
  cases hlisted : run.listed with
  | false =>
    rw [isExist_unlisted]
    exact iff_of_true hruns (fun h => nomatch h.1)
  | true =>
    rw [isExist_listed]
    by_cases hmem : DB.acTableName id ∈ c.names
    · rw [decide_eq_true hmem]
      exact iff_of_false nofun (fun h => h ⟨rfl, hmem⟩)
    · rw [decide_eq_false hmem]
      exact iff_of_true hruns (fun h => hmem h.2)

end AcTables

/-- What `FTM_SWITCH_create` gets of the memory: for the switch, for its list, and for each entry
and its place in the list. -/
structure CreateRun where
  alloc : Bool
  list : Bool
  allocAC : Nat → Bool
  appendAC : Nat → Bool

/-- The entries from the `i`-th on, which are copied from the array. Without an array the copy
reads from the address 0 and the process ends: `none`. The result of an append is dropped. -/
def createACs (pACs : Option (List SwitchAc)) (run : CreateRun) :
    Nat → Nat → Option (Except Ret (List SwitchAc))
  | _, 0 => some (.ok [])
  | i, ulACCount + 1 =>
    if !run.allocAC i then some (.error .notEnoughMemory)
    else
      match pACs with
      | none => none
      | some acs =>
        match createACs pACs run (i + 1) ulACCount with
        | some (.ok rest) => some (.ok ((if run.appendAC i then acs[i]?.toList else []) ++ rest))
        | failed => failed

/-- `FTM_SWITCH_create`. -/
def createSwitch (config : SwitchConfig) (pACs : Option (List SwitchAc)) (ulACCount : Nat)
    (run : CreateRun) : Option (Except Ret Switch) :=
  if !run.alloc then some (.error .notEnoughMemory)
  else if !run.list then some (.error .notEnoughMemory)
  else (createACs pACs run 0 ulACCount).map (Except.map (fun acs => ⟨config, acs, []⟩))

/-- What the outside decides while a switch is added. -/
structure AddRun where
  create : CreateRun
  append : Bool
  addSwitch : DB.SwitchStmt
  listed : Bool
  destroyAC : TableRun
  createAC : TableRun
  deleteSwitch : DB.SwitchStmt
  pEncryptedID : Text
  pEncryptedPasswd : Text

namespace SwitchStore

/-- The undo of a switch whose AC table has failed, and its result. -/
def undoSwitch (s : SwitchStore) (id : ID) (run : AddRun) : Ret × SwitchStore :=
  let (ret, table) := DB.deleteSwitch s.table id run.deleteSwitch
  (ret, { s with table })

/-- The old AC table goes, and the new one comes. -/
def renewACTable (engine : Engine) (acTables : Catalog SwitchAc) (id : ID) (run : AddRun) :
    Ret × Catalog SwitchAc :=
  let (ret, acTables) := match AcTables.isExist acTables id.val run.listed with
    | some true => AcTables.destroy engine acTables id.val run.destroyAC
    | _ => (.ok, acTables)
  if ret ≠ .ok then (ret, acTables) else AcTables.create engine acTables id.val run.createAC

/-- The switch's place in the list is undone at every error. -/
def addSwitch (engine : Engine) (s : SwitchStore) (config : SwitchConfig) (run : AddRun) :
    Ret × SwitchStore :=
  if config.id.val.length = 0 then (.invalidArguments, s)
  else
    match Keyed.get Switch.key config.id s.switches with
    | some _ => (.objectAlreadyExist, s)
    | none =>
      match createSwitch config none 0 run.create with
      | some (.ok sw) =>
        if !run.append then (.notEnoughMemory, s)
        else
          match DB.addSwitch s.table config run.pEncryptedID run.pEncryptedPasswd
              run.addSwitch with
          | (.ok, table) =>
            match renewACTable engine s.acTables config.id run with
            | (.ok, acTables) => (.ok, ⟨s.switches ++ [sw], table, acTables⟩)
            | (_, acTables) => { s with table, acTables }.undoSwitch config.id run
          | (ret, table) => (ret, { s with table })
      | some (.error ret) => (ret, s)
      | none => (.error, s)

end SwitchStore

/-- What the outside decides while a switch's AC entries are read and the switch is created. -/
structure LoadRun where
  listed : Bool
  countAC : Bool
  allocACs : Bool
  listAC : Bool
  createAC : TableRun
  create : CreateRun
  append : Bool

/-- The daemon's start: whether the table of switches is there, what is read of it, and what each
switch meets. -/
structure InitRun where
  exist : Bool
  check : CheckRun SwitchConfig
  load : Nat → LoadRun

namespace SwitchStore
variable (engine : Engine)

/-- The entries are those of the table of the switch's IP. The array they are read into is the
inner block's `pACs`; only their count is left of them, if there is memory for the array. -/
def readACs (c : Catalog SwitchAc) (ip : IP) (run : LoadRun) : Option Nat :=
  let ulCount := AcTables.getACCount engine c ip.val run.countAC
  if ulCount = 0 then some 0
  else if !run.allocACs then none
  else some (AcTables.getACList engine c ip.val ulCount run.listAC).length

/-- A switch is created with the outer block's `pACs`, which nothing sets, and goes to the end of
the list. -/
def enterSwitch (s : SwitchStore) (config : SwitchConfig) (ulACCount : Nat) (run : LoadRun) :
    Option (Ret × SwitchStore) :=
  match createSwitch config none ulACCount run.create with
  | none => none
  | some (.error ret) => some (ret, s)
  | some (.ok sw) =>
    if run.append then some (.ok, { s with switches := s.switches ++ [sw] })
    else some (.notEnoughMemory, s)

/-- One turn of the loop in `FTM_CATCHB_initProcess`. -/
def loadSwitch (s : SwitchStore) (config : SwitchConfig) (run : LoadRun) :
    Option (Ret × SwitchStore) :=
  match AcTables.isExist s.acTables config.id.val run.listed with
  | some true =>
    s.enterSwitch config ((readACs engine s.acTables config.ip run).getD 0) run
  | _ =>
    let (_, acTables) := AcTables.create engine s.acTables config.id.val run.createAC
    { s with acTables }.enterSwitch config 0 run

def onFoundSwitchInDB (s : SwitchStore) (config : SwitchConfig) (run : LoadRun) :
    Option (Ret × SwitchStore) :=
  match AcTables.isExist s.acTables config.id.val run.listed with
  | some true =>
    match readACs engine s.acTables config.ip run with
    | none => some (.notEnoughMemory, s)
    | some ulACCount => s.enterSwitch config ulACCount run
  | _ =>
    match AcTables.create engine s.acTables config.ip.val run.createAC with
    | (.ok, acTables) => { s with acTables }.enterSwitch config 0 run
    | (ret, acTables) => some (ret, { s with acTables })

/-- The two places that create a switch from the database. -/
inductive Source
  | init
  | found
  deriving DecidableEq

/-- `none` is a process that has ended. -/
def enter (o : Option SwitchStore) (e : Source × SwitchConfig × LoadRun) : Option SwitchStore :=
  o.bind (fun s =>
    (match e.1 with
    | .init => s.loadSwitch engine e.2.1 e.2.2
    | .found => s.onFoundSwitchInDB engine e.2.1 e.2.2).map Prod.snd)

/-- The switches that the start loads. -/
def InitRun.loads (run : InitRun) : List (Source × SwitchConfig × LoadRun) :=
  match run.exist, run.check.count with
  | true, some count =>
    if run.check.alloc then
      (run.check.rows.take count).zipIdx.map (fun r => (.init, r.1, run.load r.2))
    else []
  | _, _ => []

def start (table : DB.SwitchTable) (acTables : Catalog SwitchAc) : SwitchStore :=
  ⟨[], table, acTables⟩

def initProcess (table : DB.SwitchTable) (acTables : Catalog SwitchAc) (run : InitRun) :
    Option SwitchStore :=
  (InitRun.loads run).foldl (enter engine) (some (start table acTables))

end SwitchStore
end Catchb
