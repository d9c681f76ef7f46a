import Catchb.Stubs

/-! The receiving side of a session's thread, over a stream that may be cut anywhere. -/

namespace Catchb
open Lib Params

/-- A byte with its request's number and its place there. What the buffer was allocated with
has neither. -/
structure ReqByte where
  value : UInt8
  origin : Option (Nat × Nat)

/-- The bytes of a word, the lowest first. -/
def word (n : Nat) : List UInt8 :=
  [.ofNat n, .ofNat (n / 0x100), .ofNat (n / 0x10000), .ofNat (n / 0x1000000)]

def readWord (bytes : List UInt8) : Nat := bytes.foldr (fun b n => b.toNat + 0x100 * n) 0

namespace Request

def bytes (r : Request) : List UInt8 := word (sentCmd r.stub).code ++ r.body

/-- The bytes of the request that is the `k`th on its connection. -/
def tagged (r : Request) (k : Nat) : List ReqByte :=
  r.bytes.mapIdx (fun i value => ⟨value, some (k, i)⟩)

end Request

/-- `serviced` has, for each round of the thread, where the bytes came from that it read. -/
structure Session where
  pReqBuff : List ReqByte
  sent : List Request
  unread : List ReqByte
  serviced : List (List (Option (Nat × Nat)))

namespace Session

/-- The buffer is as it was allocated. -/
def create (pReqBuff : List UInt8) : Session :=
  ⟨pReqBuff.map (fun value => ⟨value, none⟩), [], [], []⟩

inductive Event
  | send (r : Request)
  /-- At most `n` bytes have arrived; `ssid` is what the check of the session ID returns. -/
  | recv (n : Nat) (ssid : RetCode)

def received (s : Session) (n : Nat) : List ReqByte := s.unread.take (min n s.pReqBuff.length)

def xCmd (pReq : List ReqByte) : Nat := readWord ((pReq.take 4).map ReqByte.value)

/-- A service reads the structure it takes its request to be. The common part is read to find
the service. -/
def readLen (xCmd : Nat) (ssid : RetCode) : Nat :=
  if xCmd ≠ Cmd.ssidCreate.code ∧ ssid ≠ retOK then req.size
  else
    match findCmdSet xCmd with
    | none => req.size
    | some pSet => (reqParams pSet.1).size

def origins (pReq : List ReqByte) (n : Nat) : List (Option (Nat × Nat)) :=
  (List.range n).map (fun i => pReq[i]?.bind ReqByte.origin)

/-- What is received lies over the front of what was there, and is a request whatever it is. -/
def step (s : Session) : Event → Session
  | .send r =>
    { s with sent := s.sent ++ [r], unread := s.unread ++ r.tagged s.sent.length }
  | .recv n ssid =>
    match s.received n with
    | [] => s
    | got =>
      let pReq := got ++ s.pReqBuff.drop got.length
      { s with
        pReqBuff := pReq
        unread := s.unread.drop got.length
        serviced := s.serviced ++ [origins pReq (readLen (xCmd pReq) ssid)] }

end Session
end Catchb
