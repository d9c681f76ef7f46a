import Mathlib.Data.List.Basic

/-! The client's end of a connection, against a server that answers when it likes. -/

namespace Catchb.Client

/-- A byte of a response, with the number of the call it answers and its place in the
response. -/
structure RespByte where
  call : Nat
  offset : Nat
  value : UInt8
  deriving DecidableEq

/-- `xRet` lies behind two words of the response's header. -/
def retOffset : Nat := 8
def retSize : Nat := 4

/-- What `FTM_CLIENT_request` returns. The bytes of a status are those of `pResp->xRet`: one
that was not received is still the caller's. -/
inductive Result
  | error
  | timeout
  | status (xRet : List (Option RespByte))
  deriving DecidableEq

/-- A call that has sent its request counts its polls down. -/
inductive Phase
  | idle
  | polling (nRespLen nTimeout : Nat)
  deriving DecidableEq

/-- `waiting` are the calls whose requests the server has not taken up, and `unread` is what
it answered and the client has not received. -/
structure Connection where
  nTimeout : Nat
  calls : Nat
  waiting : List Nat
  unread : List RespByte
  phase : Phase
  returned : List (Nat × Result)

/-- As `FTM_CLIENT_connect` leaves it. -/
def connect : Connection := ⟨5000, 0, [], [], .idle, []⟩

inductive Event
  /-- A call begins; `sends` is whether `send` succeeds. -/
  | request (nRespLen : Nat) (sends : Bool)
  /-- The server answers the oldest request it has. -/
  | respond (resp : List UInt8)
  /-- It lets that request go unanswered. -/
  | ignore
  /-- A round of the receive loop, for which at most `n` bytes have arrived. -/
  | poll (n : Nat)

def tag (call : Nat) (resp : List UInt8) : List RespByte :=
  resp.mapIdx (fun i v => ⟨call, i, v⟩)

/-- What `recv` finds when at most `n` bytes have arrived. -/
def received (c : Connection) (nRespLen n : Nat) : List RespByte :=
  c.unread.take (min n nRespLen)

def status (got : List RespByte) : List (Option RespByte) :=
  (List.range retSize).map (fun i => got[retOffset + i]?)

def step (c : Connection) : Event → Connection
  | .request nRespLen sends =>
    match c.phase with
    | .idle =>
      let call := c.calls + 1
      if sends then
        { c with
          calls := call
          waiting := c.waiting ++ [call]
          phase := .polling nRespLen c.nTimeout }
      else { c with calls := call, returned := c.returned ++ [(call, .error)] }
    | .polling _ _ => c
  | .respond resp =>
    match c.waiting with
    | [] => c
    | call :: rest => { c with waiting := rest, unread := c.unread ++ tag call resp }
  | .ignore => { c with waiting := c.waiting.tail }
  | .poll n =>
    match c.phase with
    | .idle => c
    | .polling nRespLen nTimeout =>
      if nTimeout - 1 = 0 then
        { c with phase := .idle, returned := c.returned ++ [(c.calls, .timeout)] }
      else if received c nRespLen n = [] then
        { c with phase := .polling nRespLen (nTimeout - 1) }
      else
        { c with
          unread := c.unread.drop (received c nRespLen n).length
          phase := .idle
          returned := c.returned ++ [(c.calls, .status (status (received c nRespLen n)))] }

end Catchb.Client
