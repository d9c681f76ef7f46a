import Catchb.SetAC
import Catchb.Telnet

/-! A telnet client's thread: what comes in goes through the telnet library, which calls the client's
handler. -/

namespace Catchb
open Lib Telnet

/-- `sent` are the bytes that the socket has taken, in `calls` calls of `send`. -/
structure TelnetThread extends TelnetClient where
  telnet : Telnet
  doEcho : Bool
  sent : List UInt8
  calls : Nat
  bStop : Bool

/-- What `poll` and `recv` come to. -/
inductive Polled
  | timeout
  | failed
  | received (pBuffer : List UInt8)

namespace TelnetThread

def teloptEcho : UInt8 := 1

def telopts : List Telopt := [⟨teloptCompress2, .wont, .do_⟩, ⟨teloptMssp, .wont, .do_⟩]

/-- The bytes that are sent, with the calls so far: the result of each one is the socket's. The
caller does not look at the code that tells whether all were sent. -/
def sendAll (socket : Nat → Int) : Nat → Nat → List UInt8 → List UInt8 × Nat
  | 0, calls, _ => ([], calls)
  | n + 1, calls, pBuffer =>
    if pBuffer = [] then ([], calls)
    else
      let nSendLen := socket calls
      if nSendLen ≤ 0 then ([], calls + 1)
      else
        let (sent, calls) := sendAll socket n (calls + 1) (pBuffer.drop nSendLen.toNat)
        (pBuffer.take nSendLen.toNat ++ sent, calls)

def send (socket : Nat → Int) (pClient : TelnetThread) (pBuffer : List UInt8) : TelnetThread :=
  let (sent, calls) := sendAll socket pBuffer.length pClient.calls pBuffer
  { pClient with sent := pClient.sent ++ sent, calls := calls }

/-- The size of data is cut to 32 bits. -/
def eventHandler (socket : Nat → Int) (pClient : TelnetThread) : Event → TelnetThread
  | .data buffer size =>
    { pClient with
      toTelnetClient := pClient.toTelnetClient.recv (buffer.take (UInt32.ofNat size).toNat) }
  | .send buffer => pClient.send socket buffer
  | .negotiation .will telopt =>
    if telopt = teloptEcho then { pClient with doEcho := false } else pClient
  | .negotiation .wont telopt =>
    if telopt = teloptEcho then { pClient with doEcho := true } else pClient
  | _ => pClient

/-- A client whose connection has just been opened. -/
def opened : TelnetThread where
  pHandler := true
  pBuffer := .create 4096
  telnet := telnetInit telopts false
  doEcho := true
  sent := []
  calls := 0
  bStop := false

def process (socket : Nat → Int) (pClient : TelnetThread) (pBuffer : List UInt8) : TelnetThread :=
  let (telnet, events) := pClient.telnet.telnetRecv pBuffer
  events.foldl (eventHandler socket) { pClient with telnet := telnet }

/-- The thread ends with the connection. -/
def threadMain (socket : Nat → Int) : TelnetThread → List Polled → TelnetThread
  | pClient, [] => pClient
  | pClient, polled :: rest =>
    if pClient.bStop then pClient
    else
      match polled with
      | .timeout => threadMain socket pClient rest
      | .failed => { pClient with bStop := true }
      | .received pBuffer =>
        if pBuffer = [] then { pClient with bStop := true }
        else threadMain socket (pClient.process socket pBuffer) rest

end TelnetThread
end Catchb
