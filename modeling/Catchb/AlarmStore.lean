import Catchb.Smtpc
import Catchb.SwitchStore

/-! The alarms, in memory and in their table. -/

namespace Catchb
open Lib

namespace DB
open Sql

def pAlarmTableName : Text := "tb_alarm".toList

def alarmColumns : List Text := ["_NAME", "_EMAIL", "_MESSAGE"].map String.toList

/-- `tb_alarm`. -/
structure AlarmTable where
  table : Table
  columns : table.columns = alarmColumns
  key : table.key = "_NAME".toList

theorem find_alarmColumns : ∀ name ∈ alarmColumns,
    alarmColumns.find? (fun c => strcasecmp c name) = some name := by decide +kernel

theorem AlarmTable.column_eq (t : AlarmTable) {name : Text} (h : name ∈ alarmColumns) :
    t.table.column name = some name := by
  rw [Table.column, t.columns]
  exact find_alarmColumns name h

def createAlarmTable : AlarmTable := ⟨⟨alarmColumns, "_NAME".toList, []⟩, rfl, rfl⟩

def AlarmTable.insert (t : AlarmTable) (values : List (Text × Expr)) : Option AlarmTable :=
  match h : Sql.insert t.table values with
  | none => none
  | some t' => some ⟨t', (insert_schema h).1.trans t.columns, (insert_schema h).2.trans t.key⟩

def alarmValues (pAlarm : FtmAlarm) : List (Text × Expr) :=
  [("_NAME".toList, .quoted pAlarm.pName.val), ("_EMAIL".toList, .quoted pAlarm.pEmail.val),
    ("_MESSAGE".toList, .quoted pAlarm.pMessage.val)]

/-- The statement up to its semicolon, which it can do without. -/
def alarmQuery (pAlarm : FtmAlarm) : Text :=
  "INSERT INTO ".toList ++ pAlarmTableName ++ "(_NAME, _EMAIL, _MESSAGE) VALUES('".toList ++
    pAlarm.pName.val ++ "', '".toList ++ pAlarm.pEmail.val ++ "', '".toList ++
    pAlarm.pMessage.val ++ "')".toList

/-- The buffer holds the statement, and its literals close. -/
def plainAlarm (pAlarm : FtmAlarm) : Bool :=
  (alarmQuery pAlarm).length ≤ 1023 && (Stmt.insert (alarmValues pAlarm)).closed

/-- The result is tested for a negative code, and the database's codes are positive. `other` is
what the table is after a text that is not this statement. -/
def addAlarm (t : AlarmTable) (pAlarm : FtmAlarm) (other : AlarmTable) : Ret × AlarmTable :=
  (.ok, if plainAlarm pAlarm then (t.insert (alarmValues pAlarm)).getD t else other)

def strcpy (n : Nat) (t : Text) : Option (Field n) := if h : t.length ≤ n then some ⟨t, h⟩ else none

/-- One row of `SELECT *`. `none` is a row with a text that its array cannot hold. -/
def getAlarmListCB (r : Row) : Option FtmAlarm := do
  let pName ← strcpy 32 (r.cells "_NAME".toList)
  let pMessage ← strcpy 1024 (r.cells "_MESSAGE".toList)
  let pEmail ← strcpy 128 (r.cells "_EMAIL".toList)
  return { pName, pEmail, pMessage }

def getAlarmList (t : AlarmTable) (ulMaxCount : Nat) : Option (List FtmAlarm) :=
  (t.table.rows.take ulMaxCount).mapM getAlarmListCB

end DB

/-- `undefined` is set where an address is followed that nothing was stored at, or an array is
written past its end. -/
structure AlarmStore where
  pAlarmList : List FtmAlarm
  table : DB.AlarmTable
  undefined : Bool

namespace AlarmStore

def name (pAlarm : FtmAlarm) : Text := pAlarm.pName.val

/-- The alarm as the cleared memory takes it. -/
def newAlarm (pName pEmail pMessage : Text) : FtmAlarm :=
  ⟨Field.copy _ pName, Field.copy _ pEmail, Field.copy _ pMessage⟩

def addAlarm (pName pEmail pMessage : Text) (other : DB.AlarmTable) (s : AlarmStore) :
    Ret × AlarmStore :=
  let pAlarm := newAlarm pName pEmail pMessage
  match DB.addAlarm s.table pAlarm other with
  | (.ok, table) => (.ok, { s with pAlarmList := s.pAlarmList ++ [pAlarm], table })
  | (ret, table) => (ret, { s with table })

/-- The table is not told. -/
def delAlarm (pName : Text) (s : AlarmStore) : Ret × AlarmStore :=
  match Keyed.get name pName s.pAlarmList with
  | none => (.objectNotFound, s)
  | some _ => (.ok, { s with pAlarmList := Keyed.discard name pName s.pAlarmList })

/-- The loop runs while there is no next alarm. In an empty list it compares the name with one at
an address that was never set; in any other it ends at once. -/
def setAlarm (_pName : Text) (_pAlarm : FtmAlarm) (_ulFieldFlags : UInt32) (s : AlarmStore) :
    Ret × AlarmStore :=
  match s.pAlarmList with
  | [] => (.objectNotFound, { s with undefined := true })
  | _ :: _ => (.objectNotFound, s)

/-- The daemon ends, and starts with what the table holds. -/
def restart (s : AlarmStore) : AlarmStore :=
  let ulCount := s.table.table.rows.length
  match DB.getAlarmList s.table ulCount with
  | some pAlarmList => { s with pAlarmList }
  | none => { s with undefined := true }

end AlarmStore
end Catchb
