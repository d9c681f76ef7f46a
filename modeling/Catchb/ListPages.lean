import Catchb.LogStore
import Catchb.Service
import Catchb.StatisticsStore

/-! The lists that a client reads page by page. -/

namespace Catchb
open Lib Params

inductive Listing
  | stat
  | log

namespace Listing

def cmd : Listing → Cmd
  | stat => .statGetList
  | log => .logGetList

def elem : Listing → CType
  | stat => Params.statistics
  | log => Params.log

/-- Whether the loop ends at a page without elements. -/
def stops : Listing → Bool
  | stat => false
  | log => true

/-- The elements that a response of `FTM_PARAM_MAX_LEN` has room for. -/
def ulAllowedNumber (l : Listing) : UInt32 := roomFor 4096 l.cmd l.elem

end Listing

variable {α : Type}

/-- `request` is what a request for a page, from an index and with a maximum, comes back with: that
there is no memory for the response, that the server is not reached, or what it answers. -/
structure ListClient (α : Type) where
  hSock : Bool
  request : UInt32 → UInt32 → RetCode × List α

namespace ListClient

/-- The loop over the pages, with the turns that are left. What was read before a failure is in the
caller's list, but not counted. -/
def getPages (pClient : ListClient α) (l : Listing) :
    Nat → UInt32 → UInt32 → Option (RetCode × List α)
  | 0, _, _ => none
  | n + 1, ulIndex, ulMaxCount =>
    if ulMaxCount > 0 then
      let (xRet, page) := pClient.request ulIndex (clamp l.ulAllowedNumber ulMaxCount)
      if xRet ≠ retOK then some (xRet, [])
      else
        let ulRespCount := UInt32.ofNat page.length
        if l.stops ∧ ulRespCount = 0 then some (retOK, [])
        else
          (getPages pClient l n (ulIndex + ulRespCount) (ulMaxCount - ulRespCount)).map
            fun (xRet, rest) => (xRet, page ++ rest)
    else some (retOK, [])

/-- Without a result the loop has not ended after `n` turns. -/
def getList (pClient : ListClient α) (l : Listing) (n : Nat) (ulIndex ulMaxCount : UInt32) :
    Option (RetCode × List α) :=
  if !pClient.hSock then some (172, [])
  else if l.ulAllowedNumber ≥ ulMaxCount then some (pClient.request ulIndex ulMaxCount)
  else pClient.getPages l n ulIndex ulMaxCount

def statGetList (pClient : ListClient α) := pClient.getList .stat

def logGetList (pClient : ListClient α) := pClient.getList .log

end ListClient

/-- `FTM_SERVER_STAT_getList`, with the length of the server's buffers. -/
def StatisticsStore.answer (s : StatisticsStore) (ulBufferLen ulIndex ulCount : UInt32) :
    RetCode × List FtmStatistics :=
  let ulMaxCount := clamp (roomFor ulBufferLen .statGetList Params.statistics) ulCount
  (retOK, (s.getStatisticsList ulIndex.toNat ulMaxCount.toNat).1)

/-- `FTM_SERVER_LOG_getList` for a selection. The database's result is always OK. -/
def DB.LogTable.answer (t : DB.LogTable) (db : DB.Sqlite) (s : DB.LogSelection) (stack : Text)
    (ulBufferLen ulIndex ulCount : UInt32) : RetCode × List DB.LogRow :=
  let ulMaxCount := clamp (roomFor ulBufferLen .logGetList Params.log) ulCount
  (retOK, (DB.getLogList db t s stack ulIndex ulMaxCount).2)

/-- A server that has a list, whose elements it counts in a word. -/
structure ListServer (α : Type) where
  pList : List α
  counted : pList.length < UInt32.size
  ulBufferLen : UInt32

namespace ListServer

def room (s : ListServer α) (l : Listing) : Nat := (roomFor s.ulBufferLen l.cmd l.elem).toNat

/-- The answer is the part of the list that was asked for, as far as there is room for it. -/
def answer (s : ListServer α) (l : Listing) (ulIndex ulCount : UInt32) : RetCode × List α :=
  (retOK, (s.pList.drop ulIndex.toNat).take (min (s.room l) ulCount.toNat))

def client (s : ListServer α) (l : Listing) : ListClient α := ⟨true, s.answer l⟩

end ListServer
end Catchb
