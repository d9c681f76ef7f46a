import Catchb.Lib.InPlace
import Catchb.Lib.Circular
import Catchb.Lib.Text

/-! What the telnet library reports, and how it reads the subnegotiations that it knows. -/

namespace Catchb.Telnet
open Lib

def iac : UInt8 := 255

def sb : UInt8 := 250

def se : UInt8 := 240

/-- The four negotiation commands. -/
inductive Command
  | will
  | wont
  | do_
  | dont
  deriving DecidableEq

def Command.byte : Command → UInt8
  | .will => 251
  | .wont => 252
  | .do_ => 253
  | .dont => 254

/-- The options with a subnegotiation of their own. -/
def teloptTtype : UInt8 := 24
def teloptEnviron : UInt8 := 36
def teloptNewEnviron : UInt8 := 39
def teloptMssp : UInt8 := 70
def teloptCompress : UInt8 := 85
def teloptCompress2 : UInt8 := 86
def teloptZmp : UInt8 := 93

def ttypeIs : UInt8 := 0
def ttypeSend : UInt8 := 1

def environIs : UInt8 := 0
def environSend : UInt8 := 1
def environInfo : UInt8 := 2

def environVar : UInt8 := 0
def environValue : UInt8 := 1
def environEsc : UInt8 := 2
def environUservar : UInt8 := 3

def msspVar : UInt8 := 1
def msspVal : UInt8 := 2

inductive TelnetError
  | overflow
  | protocol
  deriving DecidableEq

/-- A variable of an environment, its name and its value as the strings that they point at. -/
structure EnvironVar where
  type : UInt8
  var : List UInt8
  value : List UInt8
  deriving DecidableEq

/-- A data event has the memory from its buffer on. An entry of an `mssp` event has no strings
where its pointers are null. -/
inductive Event
  | data (buffer : List UInt8) (size : Nat)
  | send (buffer : List UInt8)
  | iac (cmd : UInt8)
  | negotiation (cmd : Command) (telopt : UInt8)
  | subnegotiation (telopt : UInt8) (buffer : List UInt8)
  | zmp (argv : List (List UInt8))
  | ttype (cmd : UInt8) (name : Option (List UInt8))
  | environ (cmd : UInt8) (values : List EnvironVar)
  | mssp (values : List (Option (List UInt8 × List UInt8)))
  | warning (err : TelnetError) (msg : Text)
  deriving DecidableEq

/-- What a parser returns, what it leaves of the buffer, one past the last byte of it that it
accesses, and its events. -/
structure Parsed where
  ret : Bool
  buffer : List UInt8
  reach : Nat
  events : List Event
  deriving DecidableEq

/-- A C string. -/
def string (bytes : List UInt8) : List UInt8 := bytes.takeWhile (· ≠ 0)

/-- The string at an offset of the buffer. -/
def stringAt (size : Nat) (s : InPlace UInt8) (off : Nat) : List UInt8 :=
  string (Circular.read s.cells off size)

def isVar (byte : UInt8) : Bool := byte = environVar ∨ byte = environUservar

/-- The variables of a subnegotiation: one for each byte that begins one. -/
def environCount : List UInt8 → Nat
  | [] => 0
  | [c] => if isVar c then 1 else 0
  | c :: next :: rest =>
    if isVar c then environCount (next :: rest) + 1
    else if c = environEsc then environCount rest
    else environCount (next :: rest)

/-- The loop over the variables. Each one's name and value are stored by their offsets, the empty
string of a variable without a value apart. -/
def environLoop (size : Nat) : Nat → InPlace UInt8 → List (UInt8 × Nat × Option Nat) × InPlace UInt8
  | 0, s => ([], s)
  | count + 1, s =>
    let (type, s) := s.next
    let var := s.out
    let s := (s.copyUntil (fun c => isVar c || c = environValue) (· = environEsc) size size).put 0
    let byte := s.get
    if s.c < size ∧ byte.1 = environValue then
      let s := byte.2.skip
      let value := s.out
      let s := (s.copyUntil isVar (· = environEsc) size size).put 0
      let (values, s) := environLoop size count s
      ((type, var, some value) :: values, s)
    else
      let (values, s) := environLoop size count (if s.c < size then byte.2 else s)
      ((type, var, none) :: values, s)

/-- The reader starts at a byte of the buffer. -/
def reader (buffer : List UInt8) (c : Nat) : InPlace UInt8 := ⟨fun i => buffer.getD i 0, c, 0, c⟩

def environValues (size : Nat) (s : InPlace UInt8) (values : List (UInt8 × Nat × Option Nat)) :
    List EnvironVar :=
  values.map fun (type, var, value) =>
    ⟨type, stringAt size s var, (value.map (stringAt size s)).getD []⟩

def protocolWarning (msg : Text) : Event := .warning .protocol msg

def teloptWarning (type : UInt8) (msg : Text) : Event :=
  protocolWarning ("telopt ".toList ++ decimal type.toNat ++ msg)

/-- The strings are written over the buffer that they are read from. -/
def environTelnet (type : UInt8) (buffer : List UInt8) : Parsed :=
  let size := buffer.length
  let c := buffer.getD 0 0
  if size = 0 then ⟨false, buffer, 0, []⟩
  else if c ≠ environSend ∧ c ≠ environIs ∧ c ≠ environInfo then
    ⟨false, buffer, 1, [teloptWarning type " subneg has invalid command".toList]⟩
  else if size = 1 then ⟨true, buffer, 1, [.environ c []]⟩
  else if !isVar (buffer.getD 1 0) then
    ⟨false, buffer, 2, [teloptWarning type " subneg missing variable type".toList]⟩
  else if buffer.getLast? = some environEsc then
    ⟨false, buffer, size, [teloptWarning type " subneg ends with ESC".toList]⟩
  else
    let (values, s) := environLoop size (environCount (buffer.drop 1)) (reader buffer 1)
    ⟨true, Circular.read s.cells 0 size, max size s.reach, [.environ c (environValues size s values)]⟩

def msspMarker (byte : UInt8) : Bool := byte = msspVar ∨ byte = msspVal

/-- The loop over the strings, with the offset of the name that is waiting for a value. The byte
behind each string is read as the type of the next one, also behind the last. -/
def msspLoop (size : Nat) : Nat → Option Nat → UInt8 → InPlace UInt8 →
    Option (List (Nat × Nat)) × InPlace UInt8
  | 0, _, _, s => (some [], s)
  | n + 1, var, nextType, s =>
    if s.c < size then
      let last := s.out
      let s := (s.copyUntil msspMarker (fun _ => false) size size).put 0
      let (byte, next) := s.next
      if nextType = msspVar then msspLoop size n (some last) byte next
      else
        match if nextType = msspVal then var else none with
        | some var =>
          let (values, s) := msspLoop size n (some var) byte next
          (values.map ((var, last) :: ·), s)
        | none => (none, s)
    else (some [], s)

/-- `values[i]` for each pair, and null pointers in the entries behind them. -/
def msspValues (size count : Nat) (s : InPlace UInt8) (values : List (Nat × Nat)) :
    List (Option (List UInt8 × List UInt8)) :=
  values.map (fun (var, value) => some (stringAt size s var, stringAt size s value)) ++
    List.replicate (count - values.length) none

def msspTelnet (buffer : List UInt8) : Parsed :=
  let size := buffer.length
  if size = 0 then ⟨false, buffer, 0, []⟩
  else if buffer.getD 0 0 ≠ msspVar then
    ⟨false, buffer, 1, [protocolWarning "MSSP subnegotiation has invalid data".toList]⟩
  else
    let count := buffer.count msspVal
    match msspLoop size size none (buffer.getD 0 0) (reader buffer 1) with
    | (some values, s) =>
      ⟨false, Circular.read s.cells 0 size, max size s.reach, [.mssp (msspValues size count s values)]⟩
    | (none, s) =>
      ⟨false, Circular.read s.cells 0 size, max size s.reach,
        [protocolWarning "invalid MSSP subnegotiation data".toList]⟩

/-- A string and its NUL at a time. -/
def zmpArgv : Nat → List UInt8 → List (List UInt8)
  | 0, _ => []
  | n + 1, c =>
    if c = [] then [] else string c :: zmpArgv n (c.drop ((string c).length + 1))

def zmpTelnet (buffer : List UInt8) : Parsed :=
  if buffer.getLast? ≠ some 0 then
    ⟨false, buffer, buffer.length, [protocolWarning "incomplete ZMP frame".toList]⟩
  else ⟨false, buffer, buffer.length, [.zmp (zmpArgv buffer.length buffer)]⟩

/-- The name is a copy of the bytes behind the command. -/
def ttypeTelnet (buffer : List UInt8) : Parsed :=
  match buffer with
  | [] => ⟨false, buffer, 0, [protocolWarning "incomplete TERMINAL-TYPE request".toList]⟩
  | c :: name =>
    if c ≠ ttypeIs ∧ c ≠ ttypeSend then
      ⟨false, buffer, 1, [protocolWarning "TERMINAL-TYPE request has invalid type".toList]⟩
    else if c = ttypeIs then ⟨false, buffer, buffer.length, [.ttype ttypeIs (some (string name))]⟩
    else ⟨false, buffer, 1, [.ttype ttypeSend none]⟩

end Catchb.Telnet
