import Catchb.AlarmStore
import Catchb.Lib.Run

/-! When the alarms in memory are the rows of their table. -/

namespace Catchb.Proofs.AlarmMirror
open Lib AlarmStore Sql

def fields (pAlarm : FtmAlarm) : Text × Text × Text :=
  (pAlarm.pName.val, pAlarm.pEmail.val, pAlarm.pMessage.val)

def content (r : Row) : Text × Text × Text :=
  (r.cells "_NAME".toList, r.cells "_EMAIL".toList, r.cells "_MESSAGE".toList)

def contents (t : DB.AlarmTable) : List (Text × Text × Text) := t.table.rows.map content

/-- A store, with the names that were deleted and not added again. -/
structure History where
  store : AlarmStore
  deleted : List Text

inductive Op
  | add (pName pEmail pMessage : Text) (other : DB.AlarmTable)
  | del (pName : Text)
  | set (pName : Text) (pAlarm : FtmAlarm) (ulFieldFlags : UInt32)
  | restart

def start : History := ⟨⟨[], DB.createAlarmTable, false⟩, []⟩

def step (h : History) : Op → History
  | .add pName pEmail pMessage other =>
    match addAlarm pName pEmail pMessage other h.store with
    | (.ok, store) => ⟨store, h.deleted.filter (· ≠ name (newAlarm pName pEmail pMessage))⟩
    | (_, store) => ⟨store, h.deleted⟩
  | .del pName =>
    match delAlarm pName h.store with
    | (.ok, store) => ⟨store, pName :: h.deleted⟩
    | (_, store) => ⟨store, h.deleted⟩
  | .set pName pAlarm ulFieldFlags => ⟨(setAlarm pName pAlarm ulFieldFlags h.store).2, h.deleted⟩
  | .restart => ⟨h.store.restart, h.deleted⟩

/-- A new name goes in with texts that the statement takes as they are, or that the database, by
whatever else the text tells it, stores all the same. What is listed is not deleted, and nothing
is set in an empty list. -/
def Good (h : History) : Op → Prop
  | .add pName pEmail pMessage other =>
    let pAlarm := newAlarm pName pEmail pMessage
    name pAlarm ∉ h.store.pAlarmList.map name ∧
      (DB.plainAlarm pAlarm = true ∨
        ((h.store.pAlarmList ++ [pAlarm]).map fields).Perm (contents other))
  | .del pName => pName ∉ h.store.pAlarmList.map name
  | .set _ _ _ => h.store.pAlarmList ≠ []
  | .restart => True

section
variable {h : History} {s : AlarmStore} {t : DB.AlarmTable} {pAlarm : FtmAlarm}

/-- An alarm is added and deleted, and the daemon restarts. -/
def hall : List Op :=
  [.add "hall".toList "a@b.c".toList "Camera lost".toList DB.createAlarmTable, .del "hall".toList,
    .restart]

end
end Catchb.Proofs.AlarmMirror
