import Catchb.EventTimer
import Catchb.Lib.Loop
import Catchb.SshChannel
import Catchb.SwitchScript

/-! Bringing a script to a switch, over telnet and over SSH, and what is written to a device over
telnet. -/

namespace Catchb
open Lib

/-- In the C locale. -/
def isprint (c : Char) : Bool := 0x20 ≤ c.toNat && c.toNat ≤ 0x7E

/-- `strncasecmp(a, b, n) == 0`. -/
def strncasecmp (n : Nat) (a b : Text) : Bool := lower (a.take n) == lower (b.take n)

/-- `pHandler` is whether the connection is open. -/
structure TelnetClient where
  pHandler : Bool
  pBuffer : Buffer

namespace TelnetClient

/-- Data of the connection, without what the telnet library takes out of it. -/
def recv (pClient : TelnetClient) (pData : List UInt8) : TelnetClient :=
  { pClient with pBuffer := pClient.pBuffer.pushBack pData }

/-- The search for something other than a line feed. Each line feed also takes one from the
length, and none is taken out of the buffer. -/
def seek : Nat → UInt32 → UInt32 → Buffer → Ret × Option (UInt32 × UInt8) × Buffer
  | 0, _, _, b => (.ok, none, b)
  | n + 1, i, ulRcvdLen, b =>
    if i < ulRcvdLen then
      match b.getAt i with
      | (.ok, some nData, b) =>
        if nData ≠ SshChannel.lf then (.ok, some (ulRcvdLen, nData), b)
        else seek n (i + 1) (ulRcvdLen - 1) b
      | (xRet, _, b) => (xRet, none, b)
    else (.ok, none, b)

/-- The bytes up to a line feed, which is taken as well. All that follow an escape character are
skipped: `ulSkip` is never counted down. -/
def take : Nat → UInt8 → Nat → Buffer → List UInt8 × Buffer
  | 0, _, _, b => ([], b)
  | n + 1, nData, ulSkip, b =>
    let (byte, b) := b.popFront 1
    let nData := byte.headD nData
    if nData = SshChannel.lf then ([], b)
    else if nData = SshChannel.esc then take n nData 2 b
    else
      let (bytes, b) := take n nData ulSkip b
      (if ulSkip = 0 then nData :: bytes else bytes, b)

def readline (pClient : TelnetClient) (ulBufferSize : UInt32) : Ret × List UInt8 × TelnetClient :=
  if !pClient.pHandler then (.socketClosed, [], pClient)
  else
    let ulRcvdLen := pClient.pBuffer.getSize
    if ulRcvdLen = 0 then (.ok, [], pClient)
    else
      match seek ulRcvdLen.toNat 0 ulRcvdLen pClient.pBuffer with
      | (xRet, none, b) => (xRet, [], { pClient with pBuffer := b })
      | (_, some (ulRcvdLen, nData), b) =>
        let (bytes, b) := take (min ulRcvdLen.toNat ulBufferSize.toNat) nData 0 b
        (.ok, bytes, { pClient with pBuffer := b })

/-- What `readline` writes from the start of `pBuffer` on. Every way out of it writes a NUL. -/
def stored (pClient : TelnetClient) (ulBufferSize : UInt32) : List UInt8 :=
  (pClient.readline ulBufferSize).2.1 ++ [0]

/-- `FTM_TELNET_CLIENT_destroy` does not tell what went wrong. -/
def destroy : Ret := .ok

end TelnetClient

/-- What is read as a string, if it begins with something printable. -/
def printable (bytes : List UInt8) : Option Text :=
  match bytes.map (fun nData => Char.ofNat nData.toNat) with
  | [] => none
  | c :: rest => if isprint c then some (cstr (c :: rest)) else none

/-- The device's line begins with the prompt. -/
def SwsCmd.prompted (pLine : SwsCmd) (pReadLine : Text) : Bool :=
  strncasecmp pLine.pPrompt.val.length pReadLine pLine.pPrompt.val

/-- A turn of the loop: the printable line that is read, the script's line that waits for its
prompt, what is sent, and whether it gets to the device. -/
structure AcExchange where
  pReadLine : Option Text
  ulLine : Nat
  sent : List Text
  written : Bool
  deriving DecidableEq

inductive AcLogObject
  | telnet
  | ssh
  | acl
  deriving DecidableEq

structure AcLog where
  object : AcLogObject
  message : Text
  deriving DecidableEq

def AcLog.applied (bSuccess : Bool) : AcLog :=
  ⟨.acl, if bSuccess then "Applied the ACL policy to switch.".toList
    else "Failed to apply ACL policy.".toList⟩

/-- What a call returns, its exchanges with the device, and the logs that it adds. -/
structure AcOutcome where
  xRet : Ret
  exchanges : List AcExchange
  logs : List AcLog

/-- What a turn meets over telnet: the data that has come since, the clock when the timer starts
again and when it is checked, and whether the connection takes what is written. -/
structure TelnetTurn where
  received : List (List UInt8)
  now : Nat
  later : Nat
  written : Bool

structure TelnetLoop where
  ulLine : Nat
  pClient : TelnetClient
  xTimer : FtmTimer
  bSuccess : Bool

namespace TelnetLoop

def read (s : TelnetLoop) (turn : TelnetTurn) : Option Text × TelnetLoop :=
  let (_, bytes, pClient) := (turn.received.foldl TelnetClient.recv s.pClient).readline 512
  (printable bytes, { s with pClient })

/-- The result of `FTM_TELNET_CLIENT_writel` is not looked at. -/
def answer (pLine : SwsCmd) (s : TelnetLoop) : Option Text → List Text × TelnetLoop
  | none => ([], s)
  | some pReadLine =>
    if pLine.prompted pReadLine then ([pLine.pInput.val], { s with ulLine := s.ulLine + 1 })
    else ([], s)

def step (pLine : SwsCmd) (s : TelnetLoop) (turn : TelnetTurn) : Turn TelnetLoop AcExchange :=
  let (pReadLine, s₁) := s.read turn
  let (sent, s₂) := answer pLine s₁ pReadLine
  let xTimer := if pReadLine.isSome then .initMS turn.now 3000 else s₂.xTimer
  let expired := xTimer.isExpired turn.later
  { out := ⟨pReadLine, s.ulLine, sent, turn.written⟩
    next := { s₂ with xTimer, bSuccess := s₂.bSuccess && !expired }
    left := expired }

end TelnetLoop

/-- What a call over telnet meets. The timer starts before the connection is opened. -/
structure TelnetRun where
  created : Ret
  opened : Ret
  now : Nat
  turns : List TelnetTurn

namespace TelnetRun

def start (run : TelnetRun) : TelnetLoop := ⟨0, ⟨true, .create 4096⟩, .initMS run.now 3000, true⟩

def connectionFailed : AcLog := ⟨.telnet, "The telnet connection to switch failed.".toList⟩

def connected : AcLog := ⟨.telnet, "The telnet connected to switch.".toList⟩

/-- Once there is a client, the result is that of destroying it. -/
def setAC (run : TelnetRun) (pLines : List SwsCmd) : Option AcOutcome :=
  if run.created ≠ .ok then some ⟨run.created, [], [connectionFailed]⟩
  else if run.opened ≠ .ok then some ⟨TelnetClient.destroy, [], [connectionFailed]⟩
  else
    (loop (fun s => pLines[s.ulLine]?) TelnetLoop.step run.start run.turns).map
      fun (exchanges, s) =>
        ⟨TelnetClient.destroy, exchanges, [connected, AcLog.applied s.bSuccess]⟩

end TelnetRun

/-- How opening a channel again ends: `lost` where there is no channel left. -/
inductive Reopened
  | opened
  | closed
  | lost
  deriving DecidableEq

/-- What a turn meets over SSH. `i` is what an uninitialised counter holds. -/
structure SshTurn where
  received : List (List UInt8)
  reopened : Reopened
  now : Nat
  later : Nat
  written : Bool
  i : UInt32

/-- `opened` is whether the channel is open and its thread running. -/
structure SshLoop where
  ulLine : Nat
  pChannel : SshChannel
  opened : Bool
  xTimer : FtmTimer
  xRet : Ret
  bSuccess : Bool

/-- How the loop takes a line of the device. -/
inductive SshReply
  | prompt
  | authentication
  | anyKey
  | stars
  | existing
  | other
  deriving DecidableEq

def SshReply.of (pLine : SwsCmd) (pReadLine : Text) : SshReply :=
  if pLine.prompted pReadLine then .prompt
  else if strncasecmp 16 pReadLine "% Authentication".toList then .authentication
  else if strncasecmp 12 pReadLine "Press any key".toList then .anyKey
  else if strncasecmp 4 pReadLine "****".toList then .stars
  else if strncasecmp 20 pReadLine "%% Already exist flow".toList then .existing
  else .other

namespace SshLoop

/-- A channel that is not open receives nothing. -/
def read (s : SshLoop) (turn : SshTurn) : Option Text × SshLoop :=
  let received := if s.opened then turn.received.foldl SshChannel.threadMain s.pChannel
    else s.pChannel
  let (xRet, bytes, pChannel) := received.read 511
  (printable bytes, { s with pChannel, xRet })

def reopen (s : SshLoop) : Reopened → SshLoop
  | .opened => { s with opened := true }
  | .closed => { s with opened := false }
  | .lost => { s with opened := false, pChannel := { s.pChannel with pChannel := false } }

/-- What is sent, and the loop after it. The results of the writing and of the opening are not
looked at. -/
def answer (pLine : SwsCmd) (s : SshLoop) (turn : SshTurn) : SshReply → List Text × SshLoop
  | .prompt => ([pLine.pInput.val], { s with ulLine := s.ulLine + 1 })
  | .authentication => (["\n".toList], { s with ulLine := 0 })
  | .anyKey => ([[]], s)
  | .stars => ([[]], s.reopen turn.reopened)
  | .existing => (["exit".toList], s)
  | .other => ([], s)

/-- The timer is checked at the end of a turn. -/
def check (s : SshLoop) (turn : SshTurn) (exchange : AcExchange) : Turn SshLoop AcExchange :=
  if s.xTimer.isExpired turn.later then
    { out :=
        { exchange with sent := exchange.sent ++ List.replicate (3 - turn.i.toNat) "exit".toList }
      next := { s with bSuccess := false }
      left := true }
  else ⟨exchange, s, false⟩

/-- The loop is left as a success where the device says that the flow exists. -/
def step (pLine : SwsCmd) (s : SshLoop) (turn : SshTurn) : Turn SshLoop AcExchange :=
  let (pReadLine, s₁) := s.read turn
  let written := s.opened && turn.written
  match pReadLine with
  | none => s₁.check turn ⟨none, s.ulLine, [], written⟩
  | some pReadLine =>
    let reply := SshReply.of pLine pReadLine
    let (sent, s₂) := answer pLine s₁ turn reply
    let exchange := ⟨some pReadLine, s.ulLine, sent, written⟩
    if reply = .existing then ⟨exchange, s₂, true⟩
    else { s₂ with xTimer := .initMS turn.now 3000 }.check turn exchange

end SshLoop

/-- What a call over SSH meets. -/
structure SshRun where
  created : Ret
  connected : Ret
  channel : Ret
  opened : Ret
  now : Nat
  turns : List SshTurn

namespace SshRun

def start (run : SshRun) : SshLoop := ⟨0, .create, true, .initMS run.now 3000, .ok, true⟩

def connectionFailed : AcLog := ⟨.ssh, "The ssh connection to switch failed.".toList⟩

def connectedLog : AcLog := ⟨.ssh, "The ssh connected to switch.".toList⟩

/-- The result is that of the last reading, or of the opening where there is none. -/
def setAC (run : SshRun) (pLines : List SwsCmd) : Option AcOutcome :=
  if run.created ≠ .ok then some ⟨run.created, [], []⟩
  else if run.connected ≠ .ok then some ⟨run.connected, [], [connectionFailed]⟩
  else if run.channel ≠ .ok then some ⟨run.channel, [], [connectionFailed]⟩
  else if run.opened ≠ .ok then some ⟨run.opened, [], [connectionFailed]⟩
  else
    (loop (fun s => pLines[s.ulLine]?) SshLoop.step run.start run.turns).map
      fun (exchanges, s) => ⟨s.xRet, exchanges, [connectedLog, AcLog.applied s.bSuccess]⟩

end SshRun

/-- What a call returns, the characters that it writes into its buffer from the first on, and what
it hands to `telnet_send`. -/
structure TelnetSending where
  xRet : Ret
  pBuffer : Text
  sent : Option Text
  deriving DecidableEq

namespace TelnetClient

/-- `sizeof(pBuffer)`. -/
def bufferSize : Nat := 512

/-- The characters are counted as they are read, and a line feed or a carriage return is written as
the two of them. -/
def fill (bound : Nat) : Text → Nat → Text → Text
  | [], _, pBuffer => pBuffer
  | c :: pData, i, pBuffer =>
    if i < bound then
      if c = '\n' ∨ c = '\r' then fill bound pData (i + 1) (pBuffer ++ ['\r', '\n'])
      else fill bound pData (i + 1) (pBuffer ++ [c])
    else pBuffer

def send (bound : Nat) (ending : Text) (pClient : TelnetClient) (pData : Text) : TelnetSending :=
  if !pClient.pHandler then ⟨.socketClosed, [], none⟩
  else
    let pBuffer := fill bound pData 0 [] ++ ending
    ⟨.ok, pBuffer ++ ['\x00'], some pBuffer⟩

def write (pClient : TelnetClient) (pData : Text) : TelnetSending :=
  send (bufferSize - 1) [] pClient pData

def writel (pClient : TelnetClient) (pData : Text) : TelnetSending :=
  send (bufferSize - 3) ['\r', '\n'] pClient pData

end TelnetClient
end Catchb
