import Catchb.Buffer

namespace Catchb

/-- `pChannel` is whether there is a session channel, `pLock` how often the lock is held. -/
structure SshChannel where
  pChannel : Bool
  pBuffer : Buffer
  pLock : Nat

namespace SshChannel

def esc : UInt8 := 0x1B
def lf : UInt8 := 0x0A
def cr : UInt8 := 0x0D

def create : SshChannel := ⟨true, .create 4096, 0⟩

/-- One chunk in the receiving thread: an escape sequence that lies in it is skipped. -/
def pushChunk (b : Buffer) : List UInt8 → Buffer
  | c :: c₁ :: c₂ :: cs =>
    if c = esc then pushChunk b cs else pushChunk (b.pushBack [c]) (c₁ :: c₂ :: cs)
  | [c, c₁] => (b.pushBack [c]).pushBack [c₁]
  | [c] => b.pushBack [c]
  | [] => b

/-- A pass of the receiving thread; nothing received is the empty chunk. -/
def threadMain (ch : SshChannel) (chunk : List UInt8) : SshChannel :=
  { ch with pBuffer := pushChunk ch.pBuffer chunk }

/-- The loop of `read`, with its bound. A line feed is taken and ends it. -/
def readLoop : Nat → Buffer → Ret × List UInt8 × Buffer
  | 0, b => (.ok, [], b)
  | n + 1, b =>
    match b.getFirst with
    | (.ok, some nData, b) =>
      if nData = lf then (.ok, [], (b.popFront 1).2)
      else if nData = cr then readLoop n (b.popFront 1).2
      else
        let (byte, b) := b.popFront 1
        let (xRet, bytes, b) := readLoop n b
        (xRet, byte ++ bytes, b)
    | (xRet, _, b) => (xRet, [], b)

/-- The lock is not given back when the loop fails. -/
def read (ch : SshChannel) (ulBufferSize : UInt32) : Ret × List UInt8 × SshChannel :=
  if ch.pChannel = false then (.socketClosed, [], ch)
  else
    let ulRcvdLen := ch.pBuffer.getSize
    if ulRcvdLen = 0 then (.ok, [], ch)
    else
      let (xRet, bytes, b) := readLoop (min ulRcvdLen.toNat ulBufferSize.toNat) ch.pBuffer
      (xRet, bytes, { ch with
        pBuffer := b
        pLock := if xRet = .ok then ch.pLock else ch.pLock + 1 })

end SshChannel
end Catchb
