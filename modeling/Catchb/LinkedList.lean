import Catchb.Types
import Mathlib.Logic.Function.Basic

namespace Catchb

/-- The build's targets have 32-bit addresses. 0 is `NULL`. -/
abbrev Ptr := UInt32

structure Entry (δ : Type) where
  pPrev : Ptr
  pNext : Ptr
  pData : Option δ

/-- `entries` is the memory and `xHead` the address of the list's own entry. `allocated` are
the addresses that `malloc` gave and `free` has not got back. -/
structure FtmList (δ κ : Type) where
  ulCount : UInt32
  xHead : Ptr
  entries : Ptr → Entry δ
  allocated : List Ptr
  pIter : Ptr
  fSeeker : Option (δ → κ → Bool)
  fComparator : Option (δ → δ → Int)

/-- Any other value of the enumeration's type is `unknown`. -/
inductive ListPos
  | front
  | rear
  | assending
  | desending
  | unknown
  deriving DecidableEq

namespace FtmList
variable {δ κ : Type}

def pNext (l : FtmList δ κ) (p : Ptr) : Ptr := (l.entries p).pNext
def pPrev (l : FtmList δ κ) (p : Ptr) : Ptr := (l.entries p).pPrev
def pData (l : FtmList δ κ) (p : Ptr) : Option δ := (l.entries p).pData

def setNext (l : FtmList δ κ) (p v : Ptr) : FtmList δ κ :=
  { l with entries := Function.update l.entries p { l.entries p with pNext := v } }

def setPrev (l : FtmList δ κ) (p v : Ptr) : FtmList δ κ :=
  { l with entries := Function.update l.entries p { l.entries p with pPrev := v } }

def init (l : FtmList δ κ) : FtmList δ κ :=
  { l with
    entries := Function.update l.entries l.xHead ⟨l.xHead, l.xHead, none⟩
    ulCount := 0 }

/-- An answer that is no free address stands for `NULL`. -/
def malloc (l : FtmList δ κ) (answer : Ptr) : Option Ptr :=
  if answer = 0 ∨ answer = l.xHead ∨ answer ∈ l.allocated then none else some answer

/-- The new entry at `p`, filled in. -/
def newEntry (l : FtmList δ κ) (p : Ptr) (entry : Entry δ) : FtmList δ κ :=
  { l with entries := Function.update l.entries p entry, allocated := p :: l.allocated }

def append (l : FtmList δ κ) (pItem : δ) (answer : Ptr) : Ret × FtmList δ κ :=
  match l.malloc answer with
  | none => (.notEnoughMemory, l)
  | some pEntry =>
    let l := l.newEntry pEntry ⟨l.pPrev l.xHead, l.xHead, some pItem⟩
    let l := l.setNext (l.pPrev l.xHead) pEntry
    let l := l.setPrev l.xHead pEntry
    (.ok, { l with ulCount := l.ulCount + 1 })

/-- No ring has more places than there are addresses. -/
def fuel : Nat := UInt32.size

/-- The loop along `pNext` up to the head or to an entry that stops it. `none` is a loop
that has not ended. -/
def scan (l : FtmList δ κ) (stop : Option δ → Bool) : Nat → Ptr → Option Ptr
  | 0, _ => none
  | n + 1, p =>
    if p = l.xHead then some p
    else if stop (l.pData p) then some p
    else scan l stop n (l.pNext p)

/-- The same loop, counting a position down. -/
def scanAt (l : FtmList δ κ) : Nat → Ptr → UInt32 → Option Ptr
  | 0, _, _ => none
  | n + 1, p, ulPosition =>
    if p = l.xHead then some p
    else if ulPosition = 0 then some p
    else scanAt l n (l.pNext p) (ulPosition - 1)

/-- The entry that a new one goes behind: the one before the first that the comparator
puts on the other side of the item. -/
def pPrevOf (l : FtmList δ κ) (pItem : δ) : ListPos → Except Ret (Option Ptr)
  | .front => .ok (some l.xHead)
  | .rear => .ok (some (l.pPrev l.xHead))
  | .assending =>
    match l.fComparator with
    | none => .error .listNotInsertable
    | some cmp =>
      .ok ((l.scan (fun d => d.any (fun e => cmp e pItem > 0)) fuel (l.pNext l.xHead)).map l.pPrev)
  | .desending =>
    match l.fComparator with
    | none => .error .listNotInsertable
    | some cmp =>
      .ok ((l.scan (fun d => d.any (fun e => cmp e pItem < 0)) fuel (l.pNext l.xHead)).map l.pPrev)
  | .unknown => .error .invalidArguments

def insertBehind (l : FtmList δ κ) (pPrev : Ptr) (pItem : δ) (answer : Ptr) : Ret × FtmList δ κ :=
  match l.malloc answer with
  | none => (.notEnoughMemory, l)
  | some pEntry =>
    let l := l.newEntry pEntry ⟨pPrev, l.pNext pPrev, some pItem⟩
    let l := l.setPrev (l.pNext pPrev) pEntry
    let l := l.setNext pPrev pEntry
    (.ok, { l with ulCount := l.ulCount + 1 })

def insert (l : FtmList δ κ) (pItem : δ) (xPos : ListPos) (answer : Ptr) :
    Option (Ret × FtmList δ κ) :=
  match l.pPrevOf pItem xPos with
  | .error ret => some (ret, l)
  | .ok pPrev => pPrev.map (fun p => l.insertBehind p pItem answer)

/-- The neighbours are linked and the entry is freed. -/
def unlink (l : FtmList δ κ) (pEntry : Ptr) : FtmList δ κ :=
  let pNext := l.pNext pEntry
  let l := l.setNext (l.pPrev pEntry) pNext
  let l := l.setPrev pNext (l.pPrev pEntry)
  { l with allocated := l.allocated.erase pEntry, ulCount := l.ulCount - 1 }

/-- Only this removal steps a waiting iterator back. -/
def remove [DecidableEq δ] (l : FtmList δ κ) (pItem : δ) : Option (Ret × FtmList δ κ) :=
  (l.scan (fun d => d = some pItem) fuel (l.pNext l.xHead)).map (fun pEntry =>
    if pEntry = l.xHead then (.objectNotFound, l)
    else
      let pIter := if l.pIter = pEntry then l.pPrev pEntry else l.pIter
      (.ok, { l.unlink pEntry with pIter }))

def removeAt (l : FtmList δ κ) (ulPosition : UInt32) : Option (Ret × FtmList δ κ) :=
  if ulPosition < l.ulCount then
    (l.scanAt fuel (l.pNext l.xHead) ulPosition).map (fun pEntry =>
      if pEntry = l.xHead then (.objectNotFound, l) else (.ok, l.unlink pEntry))
  else some (.objectNotFound, l)

def get (l : FtmList δ κ) (pKey : κ) : Option (Ret × Option δ) :=
  match l.fSeeker with
  | none => some (.objectNotFound, none)
  | some seek =>
    (l.scan (fun d => d.any (fun e => seek e pKey)) fuel (l.pNext l.xHead)).map (fun pEntry =>
      if pEntry = l.xHead then (.objectNotFound, none) else (.ok, l.pData pEntry))

def getFirst (l : FtmList δ κ) : Ret × Option δ :=
  if l.ulCount = 0 then (.listEmpty, none) else (.ok, l.pData (l.pNext l.xHead))

def getLast (l : FtmList δ κ) : Ret × Option δ :=
  if l.ulCount = 0 then (.listEmpty, none) else (.ok, l.pData (l.pPrev l.xHead))

def getAt (l : FtmList δ κ) (ulPosition : UInt32) : Option (Ret × Option δ) :=
  if ulPosition < l.ulCount then
    (l.scanAt fuel (l.pNext l.xHead) ulPosition).map (fun pEntry =>
      if pEntry = l.xHead then (.objectNotFound, none) else (.ok, l.pData pEntry))
  else some (.objectNotFound, none)

def count (l : FtmList δ κ) : Ret × UInt32 := (.ok, l.ulCount)

end FtmList

/-- The list with its iterator's flag. The iterator's place is `pIter`. -/
structure IterList (δ κ : Type) extends FtmList δ κ where
  bIterator : Bool

namespace IterList
variable {δ κ : Type}

def iteratorStart (l : IterList δ κ) : IterList δ κ :=
  { l with bIterator := true, pIter := l.xHead }

/-- At the end the iterator is left at the head, where it was before the first element. -/
def iteratorNext (l : IterList δ κ) : (Ret × Option δ) × IterList δ κ :=
  if l.bIterator then
    let pIter := l.pNext l.pIter
    if pIter = l.xHead then ((.objectNotFound, none), { l with pIter })
    else ((.ok, l.pData pIter), { l with pIter })
  else ((.notInitialized, none), l)

end IterList
end Catchb
