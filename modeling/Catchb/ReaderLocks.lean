import Catchb.ListLock
import Catchb.SetAC

/-! The readers of a telnet client and of an SSH channel, with their lock. -/

namespace Catchb
open SshChannel (esc lf cr)

/-- What a reader returns and what it writes, the buffer that it leaves, and its calls on the
lock. -/
structure ChannelReading where
  xRet : Ret
  bytes : List UInt8
  pBuffer : Buffer
  sem : List SemCall

namespace TelnetClient

/-- The common way out gives the lock back, also where it was not taken. -/
def finished (xRet : Ret) (bytes : List UInt8) (pBuffer : Buffer) (sem : List SemCall) :
    ChannelReading :=
  ⟨xRet, bytes, pBuffer, sem ++ [.post]⟩

/-- The receiving thread. -/
def lockedRecv (pClient : TelnetClient) (pData : List UInt8) : ChannelReading :=
  ⟨.ok, [], (pClient.recv pData).pBuffer, [.wait, .post]⟩

def read (pClient : TelnetClient) (ulBufferSize : UInt32) : ChannelReading :=
  if !pClient.pHandler then finished .socketClosed [] pClient.pBuffer []
  else
    let (bytes, b) := pClient.pBuffer.popFront ulBufferSize
    finished .ok bytes b [.wait]

/-- `readline` with its lock. -/
def lockedReadline (pClient : TelnetClient) (ulBufferSize : UInt32) : ChannelReading :=
  if !pClient.pHandler then finished .socketClosed [] pClient.pBuffer []
  else
    let ulRcvdLen := pClient.pBuffer.getSize
    if ulRcvdLen = 0 then finished .ok [] pClient.pBuffer [.wait]
    else
      match seek ulRcvdLen.toNat 0 ulRcvdLen pClient.pBuffer with
      | (xRet, none, b) => finished xRet [] b [.wait]
      | (_, some (ulRcvdLen, nData), b) =>
        let (bytes, b) := take (min ulRcvdLen.toNat ulBufferSize.toNat) nData 0 b
        finished .ok bytes b [.wait]

/-- Line breaks in front are taken, and the length counts them down. -/
def skipBreaks : Nat → Buffer → Ret × Nat × Buffer
  | 0, b => (.ok, 0, b)
  | n + 1, b =>
    match b.getFirst with
    | (.ok, some nData, b) =>
      if nData ≠ lf ∧ nData ≠ cr then (.ok, n + 1, b) else skipBreaks n (b.popFront 1).2
    | (xRet, _, b) => (xRet, n + 1, b)

/-- The bytes up to a line break or an escape character, which is left in the buffer. -/
def takeLine : Nat → Buffer → Ret × List UInt8 × Buffer
  | 0, b => (.ok, [], b)
  | n + 1, b =>
    match b.getFirst with
    | (.ok, some nData, b) =>
      if nData = lf ∨ nData = cr ∨ nData = esc then (.ok, [], b)
      else
        let (byte, b) := b.popFront 1
        let (xRet, bytes, b) := takeLine n b
        (xRet, byte ++ bytes, b)
    | (xRet, _, b) => (xRet, [], b)

/-- An escape sequence, which is returned alone, or the bytes in front of the next break. -/
def takeItem (ulRcvdLen : Nat) (ulBufferSize : UInt32) (b : Buffer) : Ret × List UInt8 × Buffer :=
  match b.getFirst with
  | (.ok, some nData, b) =>
    if nData = esc then
      if ulRcvdLen < 3 then (.ok, [], b)
      else
        let (bytes, b) := b.popFront 3
        (.ok, bytes, b)
    else takeLine (min ulRcvdLen ulBufferSize.toNat) b
  | (xRet, _, b) => (xRet, [], b)

def readline2 (pClient : TelnetClient) (ulBufferSize : UInt32) : ChannelReading :=
  if !pClient.pHandler then finished .socketClosed [] pClient.pBuffer []
  else
    let ulRcvdLen := pClient.pBuffer.getSize
    if ulRcvdLen = 0 then finished .ok [] pClient.pBuffer [.wait]
    else
      match skipBreaks ulRcvdLen.toNat pClient.pBuffer with
      | (.ok, ulRcvdLen, b) =>
        if ulRcvdLen = 0 then finished .ok [] b [.wait]
        else
          let (xRet, bytes, b) := takeItem ulRcvdLen ulBufferSize b
          finished xRet bytes b [.wait]
      | (xRet, _, b) => finished xRet [] b [.wait]

end TelnetClient

/-- `SshChannel.read` with its lock. The size is read before the lock is taken; `held` is the buffer
that is there when it is. Only the way behind the loop gives the lock back. -/
def SshChannel.lockedRead (ch : SshChannel) (held : Buffer) (ulBufferSize : UInt32) :
    ChannelReading :=
  if ch.pChannel = false then ⟨.socketClosed, [], ch.pBuffer, []⟩
  else
    let ulRcvdLen := ch.pBuffer.getSize
    if ulRcvdLen = 0 then ⟨.ok, [], ch.pBuffer, []⟩
    else
      let (xRet, bytes, b) := readLoop (min ulRcvdLen.toNat ulBufferSize.toNat) held
      ⟨xRet, bytes, b, if xRet = .ok then [.wait, .post] else [.wait]⟩

/-- A call of the threads that share a client. -/
inductive TelnetCall
  | recv (pData : List UInt8)
  | read (ulBufferSize : UInt32)
  | readline (ulBufferSize : UInt32)
  | readline2 (ulBufferSize : UInt32)
  | opened (resolved success : Bool)
  | close

/-- A client with the value of its lock's semaphore. -/
structure TelnetChannel extends TelnetClient where
  xLock : Nat

namespace TelnetChannel

/-- The end of a call. A call that waits for ever changes nothing. -/
def finish (c : TelnetChannel) (r : ChannelReading) : TelnetChannel :=
  match SemCall.run c.xLock r.sem with
  | none => c
  | some xLock => { c with pBuffer := r.pBuffer, xLock }

/-- Closing the connection ends the receiving thread. Where its host is not resolved, opening one
leaves the client as it is. -/
def step (c : TelnetChannel) : TelnetCall → TelnetChannel
  | .recv pData => if c.pHandler then c.finish (c.lockedRecv pData) else c
  | .read ulBufferSize => c.finish (c.read ulBufferSize)
  | .readline ulBufferSize => c.finish (c.lockedReadline ulBufferSize)
  | .readline2 ulBufferSize => c.finish (c.readline2 ulBufferSize)
  | .opened resolved success => if resolved then { c with pHandler := success } else c
  | .close => { c with pHandler := false }

def create : TelnetChannel := ⟨⟨false, .create 4096⟩, 1⟩

end TelnetChannel
end Catchb
