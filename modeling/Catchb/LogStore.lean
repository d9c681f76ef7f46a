import Catchb.Types
import Mathlib.Data.Char
import Mathlib.Data.List.Lex

/-! The log table: the pages that are read of it, and what is deleted by position and by age. -/

namespace Catchb
open Lib

namespace DB

structure LogRow where
  rowid : Nat
  xType : UInt32
  ulTime : UInt32
  pID : ID
  pIP : IP
  xStat : CctvStat
  pHash : Hash
  deriving DecidableEq

/-- The time goes in with `%d`, and its column holds text. -/
def LogRow.time (r : LogRow) : Text := decimal r.ulTime.toBitVec.toInt

/-- `tb_log`, in the order of a scan. -/
structure LogTable where
  rows : List LogRow
  rowids : (rows.map LogRow.rowid).Pairwise (· < ·)

/-- A log type of 0, an unregistered camera and a time of 0 ask for nothing. -/
structure LogSelection where
  xType : UInt32
  pID : Option ID
  pIP : Option IP
  xStat : CctvStat
  ulStartTime : UInt32
  ulEndTime : UInt32

/-- One pair of parentheses. -/
inductive LogTest
  | type (xType : UInt32)
  | id (pID : ID)
  | ip (pIP : IP)
  | stat (xStat : CctvStat)
  | start (ulStartTime : UInt32)
  | stop (ulEndTime : UInt32)

def LogTest.text : LogTest → Text
  | .type xType => " (_TYPE = ".toList ++ decimal xType.toBitVec.toInt ++ ")".toList
  | .id pID => " (_ID = '".toList ++ pID.val ++ "')".toList
  | .ip pIP => " (_IP = '".toList ++ pIP.val ++ "')".toList
  | .stat xStat => " (_STAT = ".toList ++ decimal xStat.code ++ ")".toList
  | .start ulStartTime => " (".toList ++ decimal ulStartTime.toNat ++ " <= _TIME)".toList
  | .stop ulEndTime => " (_TIME <= ".toList ++ decimal ulEndTime.toNat ++ ")".toList

/-- What stands between two quotes, where a doubled quote is one. `none`: it ends before. -/
def literal : Text → Option Text
  | [] => some []
  | '\'' :: '\'' :: t => (literal t).map ('\'' :: ·)
  | '\'' :: _ => none
  | c :: t => (literal t).map (c :: ·)

def LogTest.closed : LogTest → Bool
  | .id pID => (literal pID.val).isSome
  | .ip pIP => (literal pIP.val).isSome
  | _ => true

/-- A number is compared with a column of texts as a text. -/
def LogTest.holds (r : LogRow) : LogTest → Bool
  | .type xType => r.xType == xType
  | .id pID => some r.pID.val == literal pID.val
  | .ip pIP => some r.pIP.val == literal pIP.val
  | .stat xStat => r.xStat == xStat
  | .start ulStartTime => decide (decimal ulStartTime.toNat ≤ r.time)
  | .stop ulEndTime => decide (r.time ≤ decimal ulEndTime.toNat)

def LogSelection.tests (s : LogSelection) : List LogTest :=
  (if s.xType ≠ 0 then [.type s.xType] else []) ++
  (s.pID.map LogTest.id).toList ++
  (s.pIP.map LogTest.ip).toList ++
  (if s.xStat ≠ .unregistered then [.stat s.xStat] else []) ++
  (if s.ulStartTime ≠ 0 then [.start s.ulStartTime] else []) ++
  (if s.ulEndTime ≠ 0 then [.stop s.ulEndTime] else [])

/-- What the buffer holds: the tests, or without one what the stack held before. -/
inductive LogCondition
  | tests (ts : List LogTest)
  | stack (t : Text)

def LogSelection.condition (s : LogSelection) (stack : Text) : LogCondition :=
  if s.tests.isEmpty then .stack stack else .tests s.tests

def LogCondition.text : LogCondition → Text
  | .tests ts => " AND".toList.intercalate (ts.map LogTest.text)
  | .stack t => t

/-- The rows that the condition is true of. An empty one is left out of the statement; what is no
list of tests that close is another text. -/
def LogCondition.select : LogCondition → Option (LogRow → Bool)
  | .tests ts => if ts.all LogTest.closed then some (fun r => ts.all (LogTest.holds r)) else none
  | .stack [] => some (fun _ => true)
  | .stack (_ :: _) => none

/-- What the statements do not settle: the database's answers to another text, and what `atoi`
makes of a number that is no `int`. -/
structure Sqlite where
  count : Text → Option UInt32
  rows : Text → UInt32 → UInt32 → List LogRow
  overflow : UInt32

def Sqlite.atoi (db : Sqlite) (n : Nat) : UInt32 :=
  if n < 0x80000000 then UInt32.ofNat n else db.overflow

def getElementCount2 (db : Sqlite) (t : LogTable) (pCondition : LogCondition) : Ret × UInt32 :=
  match pCondition.select with
  | some p => (.ok, db.atoi (t.rows.filter p).length)
  | none =>
    match db.count pCondition.text with
    | some ulCount => (.ok, ulCount)
    | none => (.dbExecError, 0)

def getLogCount2 (db : Sqlite) (t : LogTable) (s : LogSelection) (stack : Text) : Ret × UInt32 :=
  getElementCount2 db t (s.condition stack)

/-- `ORDER BY _TIME DESC`, with the rows of one time as they are scanned. -/
def LogRow.newer (a b : LogRow) : Bool :=
  decide (b.time < a.time) || (a.time == b.time && decide (a.rowid ≤ b.rowid))

/-- The rows of the condition whose time is one of the times that the inner query finds. -/
def LogTable.page (t : LogTable) (p : LogRow → Bool) (ulLimit ulOffset : Nat) : List LogRow :=
  let rows := t.rows.filter p
  let times := ((rows.drop ulOffset).take ulLimit).map LogRow.time
  (rows.filter (fun r => r.time ∈ times)).mergeSort LogRow.newer

/-- The rows that the callback copies. A failed count is 0, and of the statement's result only a
negative one, which there is none of, would be an error. -/
def getLogList (db : Sqlite) (t : LogTable) (s : LogSelection) (stack : Text)
    (ulIndex ulMaxCount : UInt32) : Ret × List LogRow :=
  let pCondition := s.condition stack
  let ulTotalCount := (getElementCount2 db t pCondition).2
  let (ulLimit, ulOffset) :=
    if ulTotalCount > ulIndex + ulMaxCount then
      (ulMaxCount, ulTotalCount - (ulIndex + ulMaxCount))
    else if ulTotalCount > ulIndex then (ulTotalCount - ulIndex, 0)
    else (0, 0)
  let rows :=
    match pCondition.select with
    | some p => t.page p ulLimit.toNat ulOffset.toNat
    | none => db.rows pCondition.text ulLimit ulOffset
  (.ok, rows.take ulMaxCount.toNat)

def LogTable.remove (t : LogTable) (p : LogRow → Bool) : LogTable where
  rows := t.rows.filter (fun r => !p r)
  rowids := t.rowids.sublist (List.filter_sublist.map _)

theorem LogTable.remove_eq_iff {t : LogTable} {p q : LogRow → Bool} :
    t.remove p = t.remove q ↔ ∀ r ∈ t.rows, p r = q r := by
  constructor
  · intro h r hr
    have hmem := congrArg (fun t' : LogTable => r ∈ t'.rows) h
    simpa [remove, hr, Bool.not_eq_eq_eq_not] using hmem
  · intro h
    have hrows : t.rows.filter (fun r => !p r) = t.rows.filter (fun r => !q r) :=
      List.filter_congr fun r hr => by rw [h r hr]
    simp only [remove, hrows]

theorem LogTable.eq_remove_iff {t : LogTable} {q : LogRow → Bool} :
    t = t.remove q ↔ ∀ r ∈ t.rows, q r = false := by
  have hnone : t.remove (fun _ => false) = t := by simp [remove]
  conv_lhs => lhs; rw [← hnone]
  rw [remove_eq_iff]
  exact forall₂_congr fun _ _ => eq_comm

/-- The inner query, without a limit for a count of 0. -/
def LogTable.times (t : LogTable) (p : LogRow → Bool) (ulIndex ulCount : UInt32) : List Text :=
  let rows := ((t.rows.filter p).mergeSort LogRow.newer).drop ulIndex.toNat
  (if ulCount = 0 then rows else rows.take ulCount.toNat).map LogRow.time

def idTests (pID : Option ID) : List LogTest := (pID.map LogTest.id).toList

/-- An offset without a limit is no statement, and a result above 0 is taken for a success. `other`
is the table after the text that an ID which does not close makes. -/
def deleteLogFrom (other t : LogTable) (pID : Option ID) (ulIndex ulCount : UInt32) :
    Ret × LogTable :=
  if (idTests pID).all LogTest.closed then
    if ulCount = 0 ∧ ulIndex ≠ 0 then (.ok, t)
    else
      let times := t.times (fun r => (idTests pID).all (LogTest.holds r)) ulIndex ulCount
      (.ok, t.remove (fun r => r.time ∈ times))
  else (.ok, other)

/-- A `time_t` of 32 bits or of 64. -/
inductive TimeT
  | long32 (x : BitVec 32)
  | long64 (x : BitVec 64)

def TimeT.value : TimeT → Int
  | .long32 x => x.toInt
  | .long64 x => x.toInt

/-- `xTime > ul`, where 32 bits are compared without their sign. -/
def TimeT.exceeds : TimeT → UInt32 → Bool
  | .long32 x, ul => ul.toBitVec.ult x
  | .long64 x, ul => decide ((ul.toNat : Int) < x.toInt)

/-- `xTime - ul`, kept in 32 bits. -/
def TimeT.minus : TimeT → UInt32 → UInt32
  | .long32 x, ul => ⟨x - ul.toBitVec⟩
  | .long64 x, ul => ⟨(x - ul.toBitVec.setWidth 64).setWidth 32⟩

def removeExpiredLog (xCurrentDate : TimeT) (ulRetentionPeriod : UInt32) (t : LogTable) :
    Ret × LogTable :=
  let ulRetentionTime := ulRetentionPeriod * 24 * 3600
  if xCurrentDate.exceeds ulRetentionTime then
    let ulExpirationDate := xCurrentDate.minus ulRetentionTime
    (.ok, t.remove (fun r => decide (r.time < decimal ulExpirationDate.toNat)))
  else (.ok, t)

end DB
end Catchb
