import Catchb.Lib.Sql
import Catchb.Types

namespace Catchb
open Lib

/-- How the database takes one statement. `answers` is false while it is locked or its disk
fails; `other` is what it makes of a statement whose literals do not close. -/
structure DbRun where
  answers : Bool
  other : Option Sql.Table

namespace DB
open Sql

def cctvColumns : List Text :=
  ["_ID", "_IP", "_SWITCH_ID", "_COMMENT", "_TIME", "HASH", "STAT"].map String.toList

def createCCTVTable : Table := ⟨cctvColumns, "_ID".toList, []⟩

def exec (t : Table) (s : Stmt) (run : DbRun) : Option Table :=
  if run.answers then Sql.exec t s run.other else none

def cctvValues (config : CctvConfig) : List (Text × Expr) :=
  [("_ID".toList, .quoted config.id.val), ("_IP".toList, .quoted config.ip.val),
    ("_SWITCH_ID".toList, .quoted config.switchID.val),
    ("_COMMENT".toList, .quoted config.comment.val),
    ("_TIME".toList, .number config.time.toBitVec.toInt),
    ("HASH".toList, .quoted []), ("STAT".toList, .number 0)]

def addCCTV (t : Table) (config : CctvConfig) (run : DbRun) : Ret × Table :=
  match exec t (.insert (cctvValues config)) run with
  | some t' => (.ok, t')
  | none => (.dbExecError, t)

def deleteCCTV (t : Table) (id : ID) (run : DbRun) : Ret × Table :=
  match exec t (.delete id.val) run with
  | some t' => (.ok, t')
  | none => (.error, t)

def hashClauses (hash : Hash) : List Clause := [.assign "HASH".toList (.quoted hash.val)]

/-- The result is tested for a negative code, and the database's codes are positive. -/
def updateCCTVHash (t : Table) (id : ID) (hash : Hash) (run : DbRun) : Ret × Table :=
  (.ok, (exec t (.update (hashClauses hash) id.val) run).getD t)

def cctvFieldIP : UInt32 := (1 : UInt32) <<< 1
def cctvFieldSwitchID : UInt32 := (1 : UInt32) <<< 2
def cctvFieldComment : UInt32 := (1 : UInt32) <<< 3
def cctvFieldHash : UInt32 := (1 : UInt32) <<< 5
def cctvFieldStat : UInt32 := (1 : UInt32) <<< 6

def hasField (flags field : UInt32) : Bool := flags &&& field != 0

/-- A field after the first place: the comma depends on the IP field alone. -/
def laterClause (flags field : UInt32) (column : Text) (value : Expr) : List Clause :=
  if hasField flags field then
    (if hasField flags cctvFieldIP then [.comma] else []) ++ [.assign column value]
  else []

def propertyClauses (config : CctvConfig) (flags : UInt32) : List Clause :=
  (if hasField flags cctvFieldIP then [.assign "_IP".toList (.quoted config.ip.val)] else []) ++
  laterClause flags cctvFieldSwitchID "_SWITCH_ID".toList (.quoted config.switchID.val) ++
  laterClause flags cctvFieldComment "_COMMENT".toList (.doubleQuoted config.comment.val) ++
  laterClause flags cctvFieldHash "_HASH".toList (.quoted config.hash.val) ++
  laterClause flags cctvFieldStat "_STAT".toList (.number config.stat.code)

def setCCTVProperties (t : Table) (id : ID) (config : CctvConfig) (flags : UInt32)
    (run : DbRun) : Ret × Table :=
  (.ok, (exec t (.update (propertyClauses config flags) id.val) run).getD t)

end DB
end Catchb
