import Catchb.Lib.Circular
import Catchb.Types

namespace Catchb
open Lib

/-- `pBuffer` is the storage and `reach` is one past the last byte of it accessed so far. -/
structure Buffer where
  ulMaxSize : UInt32
  ulDataLen : UInt32
  ulFirst : UInt32
  ulLast : UInt32
  pBuffer : Nat → UInt8
  reach : Nat

namespace Buffer

/-- The allocated storage is zeroed. -/
def create (ulMaxSize : UInt32) : Buffer where
  ulMaxSize := ulMaxSize
  ulDataLen := 0
  ulFirst := 0
  ulLast := 0
  pBuffer := fun _ => 0
  reach := 0

/-- The bytes that are allocated behind the header. -/
def storage (ulMaxSize : UInt32) : Nat := ulMaxSize.toNat + 1024

/-- The bytes `off` to `off + n - 1` are accessed. -/
def touch (b : Buffer) (off n : Nat) : Buffer :=
  { b with reach := if n = 0 then b.reach else max b.reach (off + n) }

/-- `memcpy` into the storage. -/
def store (b : Buffer) (off : Nat) (data : List UInt8) : Buffer :=
  { b.touch off data.length with pBuffer := Circular.write b.pBuffer off data }

/-- `memcpy` out of the storage. -/
def load (b : Buffer) (off n : Nat) : List UInt8 × Buffer :=
  (Circular.read b.pBuffer off n, b.touch off n)

def getSize (b : Buffer) : UInt32 := b.ulDataLen

/-- The oldest bytes over the capacity are dropped. -/
def discard (b : Buffer) (ulDataLen : UInt32) : Buffer :=
  if b.ulMaxSize - 1 < b.ulDataLen + ulDataLen then
    let ulOverSize := (b.ulDataLen + ulDataLen) - (b.ulMaxSize - 1)
    { b with
      ulDataLen := b.ulDataLen - ulOverSize
      ulFirst := (b.ulFirst + ulOverSize) % b.ulMaxSize }
  else b

/-- The bytes are copied behind the newest one, in two pieces across the end. -/
def copyIn (b : Buffer) (pData : List UInt8) : Buffer :=
  let ulTemp := b.ulMaxSize - b.ulLast
  if ulTemp ≥ .ofNat pData.length then b.store b.ulLast.toNat pData
  else (b.store b.ulLast.toNat (pData.take ulTemp.toNat)).store 0 (pData.drop ulTemp.toNat)

def grow (b : Buffer) (ulDataLen : UInt32) : Buffer :=
  { b with
    ulDataLen := b.ulDataLen + ulDataLen
    ulLast := (b.ulLast + ulDataLen) % b.ulMaxSize }

def pushBack (b : Buffer) (pData : List UInt8) : Buffer :=
  let ulDataLen := UInt32.ofNat pData.length
  ((b.discard ulDataLen).copyIn pData).grow ulDataLen

def popFront (b : Buffer) (ulMaxLen : UInt32) : List UInt8 × Buffer :=
  if b.ulFirst = b.ulLast then ([], b)
  else
    let n := if b.ulDataLen < ulMaxLen then b.ulDataLen else ulMaxLen
    if b.ulFirst + n > b.ulMaxSize then
      let ulTemp := b.ulMaxSize - b.ulFirst
      let (head, b) := b.load b.ulFirst.toNat ulTemp.toNat
      let (tail, b) := b.load 0 (n - ulTemp).toNat
      (head ++ tail, { b with ulFirst := n - ulTemp, ulDataLen := b.ulDataLen - n })
    else
      let (data, b) := b.load b.ulFirst.toNat n.toNat
      (data, { b with ulFirst := b.ulFirst + n, ulDataLen := b.ulDataLen - n })

/-- The front index is taken as it is, so it may be one past the ring's last byte. -/
def getFirst (b : Buffer) : Ret × Option UInt8 × Buffer :=
  if b.ulDataLen = 0 then (.listEmpty, none, b)
  else (.ok, some (b.pBuffer b.ulFirst.toNat), b.touch b.ulFirst.toNat 1)

def getAt (b : Buffer) (ulIndex : UInt32) : Ret × Option UInt8 × Buffer :=
  if b.ulDataLen ≤ ulIndex then (.listEmpty, none, b)
  else
    let i := ((b.ulFirst + ulIndex) % b.ulMaxSize).toNat
    (.ok, some (b.pBuffer i), b.touch i 1)

end Buffer
end Catchb
