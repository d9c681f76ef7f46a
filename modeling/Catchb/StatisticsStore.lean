import Catchb.LinkedList
import Catchb.Lib.Heap

/-! The statistics that the daemon keeps, each in a block of its own. -/

namespace Catchb
open Lib

structure FtmStatistics where
  tv_sec : UInt32
  tv_usec : UInt32
  /-- The bits of a `float`. -/
  fCPU : UInt32
  ulTotal : UInt32
  ulFree : UInt32
  ulRxBytes : UInt32
  ulTxBytes : UInt32
  deriving DecidableEq

/-- `ulCount` is the configuration's. The list's own blocks are always found. -/
structure StatisticsStore where
  ulCount : UInt32
  pStatisticsList : List Ptr
  heap : Heap Ptr FtmStatistics

namespace StatisticsStore

def create (ulCount : UInt32) : StatisticsStore :=
  ⟨ulCount, [], ⟨fun _ => ⟨0, 0, 0, 0, 0, 0, 0⟩, [], false⟩⟩

/-- A full list gives up its first block, which is filled again. -/
def addStatistics (pStatistics : FtmStatistics) (answer : Option Ptr) (s : StatisticsStore) :
    Ret × StatisticsStore :=
  if s.pStatisticsList.length < s.ulCount.toNat then
    match s.heap.malloc answer with
    | none => (.notEnoughMemory, s)
    | some (pNewStatistics, heap) =>
      (.ok, { s with
        pStatisticsList := s.pStatisticsList ++ [pNewStatistics]
        heap := heap.write pNewStatistics pStatistics })
  else
    match s.pStatisticsList with
    | [] => (.listEmpty, s)
    | pNewStatistics :: rest =>
      (.ok, { s with
        pStatisticsList := rest ++ [pNewStatistics]
        heap := s.heap.write pNewStatistics pStatistics })

/-- `FTM_LIST_removeAt` and `FTM_MEM_free`. -/
def release (ulIndex : Nat) (pStatistics : Ptr) (s : StatisticsStore) : StatisticsStore :=
  { s with
    pStatisticsList := s.pStatisticsList.eraseIdx ulIndex
    heap := s.heap.free pStatistics }

/-- One position is emptied so many times. -/
def delStatistics (ulIndex : Nat) : Nat → StatisticsStore → StatisticsStore
  | 0, s => s
  | n + 1, s =>
    match s.pStatisticsList[ulIndex]? with
    | none => s
    | some pStatistics => delStatistics ulIndex n (s.release ulIndex pStatistics)

/-- The loop of `FTM_CATCHB_delStatistics2`, with the turns that are left. -/
def delBetween (ulFirstTime ulLastTime : UInt32) : Nat → Nat → StatisticsStore → StatisticsStore
  | 0, _, s => s
  | n + 1, ulIndex, s =>
    match s.pStatisticsList[ulIndex]? with
    | none => s
    | some pStatistics =>
      let s := { s with heap := s.heap.touch pStatistics }
      let tv_sec := (s.heap.memory pStatistics).tv_sec
      if tv_sec < ulFirstTime then delBetween ulFirstTime ulLastTime n (ulIndex + 1) s
      else if tv_sec ≥ ulLastTime then s
      else delBetween ulFirstTime ulLastTime n ulIndex (s.release ulIndex pStatistics)

def delStatistics2 (ulFirstTime ulLastTime : UInt32) (s : StatisticsStore) : StatisticsStore :=
  delBetween ulFirstTime ulLastTime s.pStatisticsList.length 0 s

def getStatisticsList (ulIndex : Nat) : Nat → StatisticsStore → List FtmStatistics × StatisticsStore
  | 0, s => ([], s)
  | n + 1, s =>
    match s.pStatisticsList[ulIndex]? with
    | none => ([], s)
    | some pStatistics =>
      let s := { s with heap := s.heap.touch pStatistics }
      let (rest, s') := getStatisticsList (ulIndex + 1) n s
      (s.heap.memory pStatistics :: rest, s')

/-- The first block is given back so many times, and stays in the list. -/
def freeFirst : Nat → StatisticsStore → StatisticsStore
  | 0, s => s
  | n + 1, s =>
    match s.pStatisticsList with
    | [] => freeFirst n s
    | pStatistics :: _ => freeFirst n { s with heap := s.heap.free pStatistics }

/-- The configuration's count stays as it is. -/
def setStatisticsMaxCount (ulMaxCount : UInt32) (s : StatisticsStore) : StatisticsStore :=
  let ulCount := s.pStatisticsList.length
  if ulCount > ulMaxCount.toNat then freeFirst (ulCount - ulMaxCount.toNat) s else s

end StatisticsStore
end Catchb
