import Catchb.TelnetEvents

/-! The telnet library: the negotiation of options, the parser of what comes in, and what it sends.
It is built without zlib. -/

namespace Catchb
open Lib

namespace Telnet

/-- The states of RFC1143. -/
inductive Q
  | no
  | yes
  | wantNo
  | wantYes
  | wantNoOp
  | wantYesOp
  deriving DecidableEq

/-- What is supported of an option, here and at the other end. -/
structure Telopt where
  telopt : UInt8
  us : Command
  him : Command

structure Rfc1143 where
  telopt : UInt8
  us : Q
  him : Q
  deriving DecidableEq

inductive State
  | data
  | iac
  | negotiating (cmd : Command)
  | sb
  | sbData
  | sbDataIac
  deriving DecidableEq

end Telnet

open Telnet

/-- `buffer` are the bytes up to the write position of the subnegotiation's buffer. -/
structure Telnet where
  telopts : List Telopt
  proxy : Bool
  q : List Rfc1143
  qSize : UInt8
  buffer : List UInt8
  bufferSize : Nat
  state : State
  sbTelopt : UInt8

namespace Telnet

def telnetInit (telopts : List Telopt) (proxy : Bool) : Telnet where
  telopts := telopts
  proxy := proxy
  q := []
  qSize := 0
  buffer := []
  bufferSize := 0
  state := .data
  sbTelopt := 0

def checkTelopt (telnet : Telnet) (telopt : UInt8) (us : Bool) : Bool :=
  match telnet.telopts.find? (·.telopt = telopt) with
  | none => false
  | some entry => if us then entry.us = .will else entry.him = .do_

/-- The entries that count. -/
def entries (telnet : Telnet) : List Rfc1143 := telnet.q.take telnet.qSize.toNat

def getRfc1143 (telnet : Telnet) (telopt : UInt8) : Rfc1143 :=
  (telnet.entries.find? (·.telopt = telopt)).getD ⟨telopt, .no, .no⟩

/-- The table grows by four entries, of which the first one is used. The others are zeros. -/
def setRfc1143 (telnet : Telnet) (telopt : UInt8) (us him : Q) : Telnet :=
  match telnet.entries.findIdx? (·.telopt = telopt) with
  | some i => { telnet with q := telnet.q.set i ⟨telopt, us, him⟩ }
  | none =>
    { telnet with
      q := telnet.entries ++ ⟨telopt, us, him⟩ :: List.replicate 3 ⟨0, .no, .no⟩
      qSize := telnet.qSize + 4 }

def sendNegotiate (cmd : Command) (telopt : UInt8) : Event := .send [iac, cmd.byte, telopt]

/-- What a case of the negotiation does: the state that it sets, the command that it sends, the one
that it reports, and whether it reports an error. -/
structure Case where
  set : Option Q
  sent : Option Command
  event : Option Command
  error : Bool

def Case.none : Case := ⟨.none, .none, .none, false⟩

/-- A request to enable the option at the other end, or the confirmation of a DO. -/
def onWill (supported : Bool) : Q → Case
  | .no => if supported then ⟨some .yes, some .do_, some .will, false⟩ else ⟨none, some .dont, none, false⟩
  | .yes => .none
  | .wantNo => ⟨some .no, none, some .wont, true⟩
  | .wantNoOp => ⟨some .yes, none, some .will, true⟩
  | .wantYes => ⟨some .yes, none, some .will, false⟩
  | .wantYesOp => ⟨some .wantNo, some .dont, some .will, false⟩

/-- Nothing is sent for the request that waits behind a DONT. -/
def onWont : Q → Case
  | .no => .none
  | .yes => ⟨some .no, some .dont, some .wont, false⟩
  | .wantNo => ⟨some .no, none, some .wont, false⟩
  | .wantNoOp => ⟨some .wantYes, none, some .do_, false⟩
  | .wantYes | .wantYesOp => ⟨some .no, none, none, false⟩

/-- A request to enable the option at this end, or the confirmation of a WILL. -/
def onDo (supported : Bool) : Q → Case
  | .no => if supported then ⟨some .yes, some .will, some .do_, false⟩ else ⟨none, some .wont, none, false⟩
  | .yes => .none
  | .wantNo => ⟨some .no, none, some .dont, true⟩
  | .wantNoOp => ⟨some .yes, none, some .do_, true⟩
  | .wantYes => ⟨some .yes, none, some .do_, false⟩
  | .wantYesOp => ⟨some .wantNo, some .wont, some .do_, false⟩

def onDont : Q → Case
  | .no => .none
  | .yes => ⟨some .no, some .wont, some .dont, false⟩
  | .wantNo => ⟨some .no, none, some .wont, false⟩
  | .wantNoOp => ⟨some .wantYes, some .will, some .will, false⟩
  | .wantYes | .wantYesOp => ⟨some .no, none, none, false⟩

def protocolError : Command → Text
  | .will | .wont => "DONT answered by WILL".toList
  | .do_ | .dont => "WONT answered by DO".toList

/-- Whether a command is about this end of an option. -/
def Command.local_ : Command → Bool
  | .will | .wont => false
  | .do_ | .dont => true

def setSide (telnet : Telnet) (telopt : UInt8) (us : Bool) (state : Option Q) : Telnet :=
  match state with
  | none => telnet
  | some state =>
    let q := telnet.getRfc1143 telopt
    if us then telnet.setRfc1143 telopt state q.him else telnet.setRfc1143 telopt q.us state

def negotiateCase (telnet : Telnet) (cmd : Command) (telopt : UInt8) : Case :=
  let q := telnet.getRfc1143 telopt
  match cmd with
  | .will => onWill (telnet.checkTelopt telopt false) q.him
  | .wont => onWont q.him
  | .do_ => onDo (telnet.checkTelopt telopt true) q.us
  | .dont => onDont q.us

def Case.events (case : Case) (cmd : Command) (telopt : UInt8) : List Event :=
  case.sent.toList.map (sendNegotiate · telopt) ++ case.event.toList.map (.negotiation · telopt) ++
    if case.error then [protocolWarning (protocolError cmd)] else []

/-- `_negotiate`, with the command that the parser's state stands for. -/
def negotiate (telnet : Telnet) (cmd : Command) (telopt : UInt8) : Telnet × List Event :=
  if telnet.proxy then (telnet, [.negotiation cmd telopt])
  else
    let case := telnet.negotiateCase cmd telopt
    (telnet.setSide telopt cmd.local_ case.set, case.events cmd telopt)

/-- A request to enable an option, and whether it is sent. -/
def turnOn : Q → Option Q × Bool
  | .no => (some .wantYes, true)
  | .wantNo => (some .wantNoOp, false)
  | .wantYesOp => (some .wantYes, false)
  | _ => (none, false)

def turnOff : Q → Option Q × Bool
  | .yes => (some .wantNo, true)
  | .wantYes => (some .wantYesOp, false)
  | .wantNoOp => (some .wantNo, false)
  | _ => (none, false)

def requestCase (telnet : Telnet) (cmd : Command) (telopt : UInt8) : Option Q × Bool :=
  let q := telnet.getRfc1143 telopt
  match cmd with
  | .will => turnOn q.us
  | .wont => turnOff q.us
  | .do_ => turnOn q.him
  | .dont => turnOff q.him

def telnetNegotiate (telnet : Telnet) (cmd : Command) (telopt : UInt8) : Telnet × List Event :=
  if telnet.proxy then (telnet, [sendNegotiate cmd telopt])
  else
    let (state, sends) := telnet.requestCase cmd telopt
    (telnet.setSide telopt (!cmd.local_) state, if sends then [sendNegotiate cmd telopt] else [])

def bufferSizes : List Nat := [0, 512, 2048, 8192, 16384]

/-- Whether the byte is taken. A full buffer gets the size that follows its own in the table. -/
def bufferByte (telnet : Telnet) (byte : UInt8) : Bool × Telnet × List Event :=
  let pushed := fun telnet : Telnet => { telnet with buffer := telnet.buffer ++ [byte] }
  if telnet.buffer.length = telnet.bufferSize then
    let i := bufferSizes.idxOf telnet.bufferSize
    if bufferSizes.length - 1 ≤ i then
      (false, telnet, [.warning .overflow "subnegotiation buffer size limit reached".toList])
    else (true, pushed { telnet with bufferSize := bufferSizes.getD (i + 1) 0 }, [])
  else (true, pushed telnet, [])

def parse (telopt : UInt8) (buffer : List UInt8) : Parsed :=
  if telopt = teloptZmp then zmpTelnet buffer
  else if telopt = teloptTtype then ttypeTelnet buffer
  else if telopt = teloptEnviron ∨ telopt = teloptNewEnviron then environTelnet telopt buffer
  else if telopt = teloptMssp then msspTelnet buffer
  else ⟨false, buffer, 0, []⟩

/-- Whether the caller has to start again behind the subnegotiation. -/
def subnegotiate (telnet : Telnet) : Bool × Telnet × List Event :=
  let parsed := parse telnet.sbTelopt telnet.buffer
  (parsed.ret, { telnet with buffer := parsed.buffer },
    .subnegotiation telnet.sbTelopt telnet.buffer :: parsed.events)

/-- `i - start` as a `size_t`. -/
def sizeT (i start : Nat) : Nat := if start ≤ i then i - start else UInt64.size - (start - i)

/-- The bytes from `start` up to `i`. -/
def pass (buffer : List UInt8) (start i : Nat) : List Event :=
  if i ≠ start then [.data (buffer.drop start) (sizeT i start)] else []

def Command.ofByte (byte : UInt8) : Option Command :=
  [.will, .wont, .do_, .dont].find? (·.byte = byte)

/-- One byte of the loop, with the new `start`, or none where the rest is received again. `nested`
is the call that takes a byte as a command behind an unfinished subnegotiation. -/
def processByte (nested : Telnet → UInt8 → Telnet × List Event) (telnet : Telnet)
    (buffer : List UInt8) (i start : Nat) (byte : UInt8) : Telnet × List Event × Option Nat :=
  match telnet.state with
  | .data =>
    if byte = iac then ({ telnet with state := .iac }, pass buffer start i, some start)
    else (telnet, [], some start)
  | .iac =>
    if byte = sb then ({ telnet with state := .sb }, [], some start)
    else
      match Command.ofByte byte with
      | some cmd => ({ telnet with state := .negotiating cmd }, [], some start)
      | none =>
        ({ telnet with state := .data }, [if byte = iac then .data [byte] 1 else .iac byte],
          some (i + 1))
  | .negotiating cmd =>
    let (telnet, events) := telnet.negotiate cmd byte
    ({ telnet with state := .data }, events, some (i + 1))
  | .sb => ({ telnet with sbTelopt := byte, buffer := [], state := .sbData }, [], some start)
  | .sbData =>
    if byte = iac then ({ telnet with state := .sbDataIac }, [], some start)
    else if telnet.sbTelopt = teloptCompress ∧ byte = Command.will.byte then
      -- the byte behind is taken for the end of the subnegotiation
      ({ telnet with state := .data }, [], some (i + 2))
    else
      match telnet.bufferByte byte with
      | (true, telnet, events) => (telnet, events, some start)
      | (false, telnet, events) => ({ telnet with state := .data }, events, some (i + 1))
  | .sbDataIac =>
    if byte = se then
      let (ret, telnet, events) := { telnet with state := .data }.subnegotiate
      (telnet, events, if ret then none else some (i + 1))
    else if byte = iac then
      match telnet.bufferByte iac with
      | (true, telnet, events) => ({ telnet with state := .sbData }, events, some start)
      | (false, telnet, events) => ({ telnet with state := .data }, events, some (i + 1))
    else
      let warning := protocolWarning
        ("unexpected byte after IAC inside SB: ".toList ++ decimal byte.toNat)
      let (ret, telnet, events) := { telnet with state := .iac }.subnegotiate
      if ret then (telnet, warning :: events, none)
      else
        let (telnet, events') := nested telnet byte
        (telnet, warning :: events ++ events', some (i + 1))

/-- The loop from the byte at `i` on, whose last step passes on what is left. -/
def processLoop (nested : Telnet → UInt8 → Telnet × List Event) (telnet : Telnet)
    (buffer : List UInt8) (i start : Nat) : List UInt8 → Telnet × List Event
  | [] => (telnet, if telnet.state = .data then pass buffer start i else [])
  | byte :: rest =>
    match processByte nested telnet buffer i start byte with
    | (telnet, events, some start) =>
      let (telnet, events') := processLoop nested telnet buffer (i + 1) start rest
      (telnet, events ++ events')
    | (telnet, events, none) =>
      let (telnet, events') := processLoop nested telnet rest 0 0 rest
      (telnet, events ++ events')

/-- The inner call starts behind an IAC, where no further one is made. -/
def processNested (telnet : Telnet) (byte : UInt8) : Telnet × List Event :=
  processLoop (fun telnet _ => (telnet, [])) telnet [byte] 0 0 [byte]

def telnetRecv (telnet : Telnet) (buffer : List UInt8) : Telnet × List Event :=
  processLoop processNested telnet buffer 0 0 buffer

def telnetIac (cmd : UInt8) : List Event := [.send [iac, cmd]]

/-- The bytes that are not special go out together, each special one as its replacement. -/
def sendLoop (special : UInt8 → Option (List UInt8)) : List UInt8 → List UInt8 → List Event
  | prior, [] => if prior = [] then [] else [.send prior]
  | prior, byte :: rest =>
    match special byte with
    | some bytes =>
      (if prior = [] then [] else [.send prior]) ++ .send bytes :: sendLoop special [] rest
    | none => sendLoop special (prior ++ [byte]) rest

def telnetSend (buffer : List UInt8) : List Event :=
  sendLoop (fun byte => if byte = iac then some [iac, iac] else none) [] buffer

/-- What `telnet_printf` does with the formatted text. -/
def telnetPrintf (output : List UInt8) : List Event :=
  sendLoop (fun byte => if byte = iac then some [iac, iac] else if byte = 13 then some [13, 0]
    else if byte = 10 then some [13, 10] else none) [] output

def telnetBeginSb (telopt : UInt8) : List Event := [.send [iac, sb, telopt]]

def telnetFinishSb : List Event := telnetIac se

def telnetSubnegotiation (telopt : UInt8) (buffer : List UInt8) : List Event :=
  .send [iac, sb, telopt] :: telnetSend buffer ++ [.send [iac, se]]

def telnetBeginNewenviron (cmd : UInt8) : List Event :=
  telnetBeginSb teloptNewEnviron ++ telnetSend [cmd]

def telnetNewenvironValue (type : UInt8) (string : Option (List UInt8)) : List Event :=
  telnetSend [type] ++ (string.map telnetSend).getD []

def telnetTtypeSend : List Event := [.send [iac, sb, teloptTtype, ttypeSend, iac, se]]

/-- The name is sent as it is. -/
def telnetTtypeIs (ttype : List UInt8) : List Event :=
  [.send [iac, sb, teloptTtype, ttypeIs], .send ttype] ++ telnetFinishSb

def telnetZmpArg (arg : List UInt8) : List Event := telnetSend (arg ++ [0])

def telnetBeginZmp (cmd : List UInt8) : List Event :=
  telnetBeginSb teloptZmp ++ telnetZmpArg cmd

def telnetSendZmp (cmd : List UInt8) (args : List (List UInt8)) : List Event :=
  telnetBeginZmp cmd ++ args.flatMap telnetZmpArg ++ telnetFinishSb

end Telnet

structure TelnetLink where
  near : Telnet
  far : Telnet
  toFar : List UInt8
  toNear : List UInt8

/-- A call of the library that sends something. -/
inductive TelnetSend
  | negotiate (cmd : Command) (telopt : UInt8)
  | data (buffer : List UInt8)
  | printf (output : List UInt8)
  | subnegotiation (telopt : UInt8) (buffer : List UInt8)

def TelnetSend.run (telnet : Telnet) : TelnetSend → Telnet × List Event
  | negotiate cmd telopt => telnet.telnetNegotiate cmd telopt
  | data buffer => (telnet, telnetSend buffer)
  | printf output => (telnet, telnetPrintf output)
  | subnegotiation telopt buffer => (telnet, telnetSubnegotiation telopt buffer)

/-- An end makes a call, or receives as many bytes as there are up to `size`. -/
inductive LinkStep
  | near (call : TelnetSend)
  | far (call : TelnetSend)
  | toFar (size : UInt64)
  | toNear (size : UInt64)

namespace TelnetLink

/-- The bytes of the events that are to be sent. -/
def wire (events : List Event) : List UInt8 :=
  events.flatMap fun event => match event with | .send buffer => buffer | _ => []

def start (near far : List Telopt) : TelnetLink :=
  ⟨telnetInit near false, telnetInit far false, [], []⟩

/-- What the end that makes a step gets from the library. -/
def result (s : TelnetLink) : LinkStep → Telnet × List Event
  | .near call => call.run s.near
  | .far call => call.run s.far
  | .toFar size => s.far.telnetRecv (s.toFar.take size.toNat)
  | .toNear size => s.near.telnetRecv (s.toNear.take size.toNat)

def step (s : TelnetLink) (o : LinkStep) : TelnetLink :=
  let (telnet, events) := s.result o
  match o with
  | .near _ => { s with near := telnet, toFar := s.toFar ++ wire events }
  | .far _ => { s with far := telnet, toNear := s.toNear ++ wire events }
  | .toFar size =>
    { s with far := telnet, toFar := s.toFar.drop size.toNat, toNear := s.toNear ++ wire events }
  | .toNear size =>
    { s with near := telnet, toNear := s.toNear.drop size.toNat, toFar := s.toFar ++ wire events }

/-- The two ends in each other's place. -/
def swap (s : TelnetLink) : TelnetLink := ⟨s.far, s.near, s.toNear, s.toFar⟩

end TelnetLink

def LinkStep.swap : LinkStep → LinkStep
  | near call => far call
  | far call => near call
  | toFar size => toNear size
  | toNear size => toFar size
end Catchb
