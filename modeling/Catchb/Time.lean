import Mathlib.Logic.Function.Basic
import Mathlib.Data.List.Basic

/-! Times, and the arithmetic on them. -/

namespace Catchb

/-- A `long` and a `time_t` have 32 bits on i686 and on the boards, 64 bits on a later host. -/
inductive DataModel
  | ilp32
  | lp64
  deriving DecidableEq

namespace DataModel

def width : DataModel → Nat
  | ilp32 => 32
  | lp64 => 64

/-- One more than the largest `long`. -/
def limit : DataModel → Nat
  | ilp32 => 0x80000000
  | lp64 => 0x8000000000000000

end DataModel

abbrev Long (m : DataModel) := BitVec m.width

/-- What a `long` keeps of a value. -/
def Long.store (m : DataModel) (value : Int) : Long m := .ofInt m.width value

/-- `FTM_TIME`, whose only member is a `struct timeval`. -/
@[ext] structure FtmTime (m : DataModel) where
  tv_sec : Long m
  tv_usec : Long m
  deriving DecidableEq

namespace FtmTime
variable {m : DataModel}

def add (pTime1 pTime2 : FtmTime m) : FtmTime m :=
  let usec := Long.store m (pTime1.tv_usec.toInt + pTime2.tv_usec.toInt)
  { tv_sec := .store m (pTime1.tv_sec.toInt + pTime2.tv_sec.toInt + usec.toInt.tdiv 1000000)
    tv_usec := .store m (usec.toInt.tmod 1000000) }

/-- The milliseconds are multiplied in 32 bits. -/
def addMS (pTime1 : FtmTime m) (ulTimeMS : UInt32) : FtmTime m :=
  let usec := Long.store m (pTime1.tv_usec.toInt + (ulTimeMS * 1000).toNat)
  { tv_sec := .store m (pTime1.tv_sec.toInt + usec.toInt.tdiv 1000000)
    tv_usec := .store m (usec.toInt.tmod 1000000) }

def addSecs (pTime1 : FtmTime m) (ulTimeS : UInt32) : FtmTime m :=
  { pTime1 with tv_sec := .store m (pTime1.tv_sec.toInt + ulTimeS.toNat) }

def addMins (pTime1 : FtmTime m) (ulTimeM : UInt32) : FtmTime m := pTime1.addSecs (ulTimeM * 60)

def addHours (pTime1 : FtmTime m) (ulTimeH : UInt32) : FtmTime m :=
  pTime1.addSecs (ulTimeH * 60 * 60)

def addDays (pTime1 : FtmTime m) (ulTimeD : UInt32) : FtmTime m :=
  pTime1.addSecs (ulTimeD * 60 * 60 * 24)

/-- The difference is taken of two signed counts of 64 bits. -/
def difference (pTime1 pTime2 : FtmTime m) : Int64 :=
  .ofInt (pTime1.tv_sec.toInt * 1000000 + pTime1.tv_usec.toInt) -
    .ofInt (pTime2.tv_sec.toInt * 1000000 + pTime2.tv_usec.toInt)

/-- What `sub` makes of the difference. -/
def ofDifference (m : DataModel) (nValueR : Int64) : FtmTime m :=
  if nValueR > 0 then
    { tv_sec := .store m (nValueR.toInt.tdiv 1000000)
      tv_usec := .store m (nValueR.toInt.tmod 1000000) }
  else ⟨0, 0⟩

def sub (pTime1 pTime2 : FtmTime m) : FtmTime m := ofDifference m (pTime1.difference pTime2)

/-- The functions below compare the microseconds with one amount and subtract one. -/
def subUS (pTime1 : FtmTime m) (compared subtracted : UInt64) : FtmTime m :=
  let ullTimeUS := UInt64.ofInt (pTime1.tv_sec.toInt * 1000000 + pTime1.tv_usec.toInt)
  let ullTimeUS := if ullTimeUS > compared then ullTimeUS - subtracted else 0
  { tv_sec := .store m (ullTimeUS / 1000000).toNat
    tv_usec := .store m (ullTimeUS % 1000000).toNat }

def subMS (pTime1 : FtmTime m) (ulTimeMS : UInt32) : FtmTime m :=
  pTime1.subUS (ulTimeMS.toUInt64 * 1000) (ulTimeMS.toUInt64 * 1000)

def subSecs (pTime1 : FtmTime m) (ulTimeS : UInt32) : FtmTime m :=
  pTime1.subUS (ulTimeS.toUInt64 * 1000000) (ulTimeS.toUInt64 * 1000000)

def subMins (pTime1 : FtmTime m) (ulTimeM : UInt32) : FtmTime m :=
  pTime1.subUS ((ulTimeM * 60).toUInt64 * 1000000) ((ulTimeM * 60).toUInt64 * 1000000)

/-- What is subtracted are milliseconds. -/
def subHours (pTime1 : FtmTime m) (ulTimeH : UInt32) : FtmTime m :=
  pTime1.subUS ((ulTimeH * 60 * 60).toUInt64 * 1000000) ((ulTimeH * 60 * 60).toUInt64 * 1000)

/-- The seconds are compared as milliseconds, and a day counts as a millisecond. -/
def subDays (pTime1 : FtmTime m) (ulTimeD : UInt32) : FtmTime m :=
  pTime1.subUS ((ulTimeD * 60 * 60 * 24).toUInt64 * 1000) (ulTimeD.toUInt64 * 1000)

end FtmTime

/-- Objects of type `FTM_TIME`, by their addresses. -/
abbrev Times (m : DataModel) := Nat → FtmTime m

namespace Times
variable {m : DataModel}
open Function

/-- The sum is made in a local variable. -/
def add (pTime1 pTime2 pTimeR : Nat) (mem : Times m) : Times m :=
  update mem pTimeR ((mem pTime1).add (mem pTime2))

/-- The members of the result are written one after the other. -/
def sub (pTime1 pTime2 pTimeR : Nat) (mem : Times m) : Times m :=
  let xTimeR := FtmTime.ofDifference m ((mem pTime1).difference (mem pTime2))
  let mem := update mem pTimeR { mem pTimeR with tv_sec := xTimeR.tv_sec }
  update mem pTimeR { mem pTimeR with tv_usec := xTimeR.tv_usec }

end Times
end Catchb
