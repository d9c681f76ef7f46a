import Catchb.EventTimer
import Catchb.Packet

/-! What a ping sends, and how it waits for its reply on the raw socket. -/

namespace Catchb

/-- A packet that `recvfrom` gives: `pBuff` is the memory from the IP header on, and `now` the
time at which it is there. -/
structure Datagram where
  pBuff : Packet
  cc : Nat
  sender : UInt32
  now : Nat

/-- What a call of `recvfrom` brings. -/
inductive Recv
  | packet (p : Datagram)
  | interrupted
  | failed

namespace Ping

/-- The packets that are sent. -/
def npackets : Nat := 2

def datalen : Nat := 56

def hlen (p : Datagram) : Nat := (p.pBuff 0).toNat % 16 * 4

def icmpType (p : Datagram) : UInt8 := p.pBuff (hlen p)

/-- `icmp_id`, as the bytes lie in memory. -/
def icmpId (p : Datagram) : Nat :=
  (p.pBuff (hlen p + 4)).toNat + 256 * (p.pBuff (hlen p + 5)).toNat

def ttl (p : Datagram) : Nat := (p.pBuff 8).toNat

/-- What `FTM_PING_printPacket` leaves in the caller's number. Its printing of IP options is left
out, and it does not look at the sender. -/
def printPacket (ident : UInt16) (p : Datagram) (num : Nat) : Nat :=
  if p.cc < datalen + 8 then num
  else if icmpType p = 0 then
    if icmpId p ≠ ident.toNat then num else ttl p
  else num

/-- The loop of `FTM_PING_check`, or none while it waits. -/
def receive (ident : UInt16) (xTimeout : FtmTimer) (fail_count result_num : Nat)
    (recvs : List Recv) : Option Nat :=
  if fail_count = 2 then some result_num
  else
    match recvs with
    | [] => none
    | .interrupted :: recvs => receive ident xTimeout fail_count result_num recvs
    | .failed :: recvs => receive ident xTimeout (fail_count + 1) result_num recvs
    | .packet p :: recvs =>
      let result_num := printPacket ident p result_num
      if npackets ≠ 0 ∨ xTimeout.isExpired p.now then some result_num
      else receive ident xTimeout fail_count result_num recvs

/-- From the first request on, which is sent at `started`. -/
def check (ident : UInt16) (started result_num : Nat) (recvs : List Recv) : Option Nat :=
  receive ident (.initS started 2) 0 result_num recvs

/-- The largest packet. -/
def maxPacket : Nat := 65536 - 60 - 8

/-- `u_short` as it lies in memory. -/
def halfword (x : UInt16) : List UInt8 := [x.toUInt8, (x >>> 8).toUInt8]

/-- The bytes in pairs, and an odd one at the end. An `int` holds the sum of a packet. -/
def addUp (sum : Nat) : List UInt8 → Nat
  | w₀ :: w₁ :: rest => addUp (sum + (w₀.toNat + 256 * w₁.toNat)) rest
  | [w₀] => sum + w₀.toNat
  | [] => sum

def checksum (addr : List UInt8) : UInt16 :=
  let sum := addUp 0 addr
  let sum := (sum >>> 16) + (sum &&& 0xffff)
  let sum := sum + (sum >>> 16)
  ~~~.ofNat sum

/-- `ICMP_ECHO`. -/
def icmpEcho : UInt8 := 8

def echo (cksum ident seq : UInt16) (data : List UInt8) : List UInt8 :=
  [icmpEcho, 0] ++ (halfword cksum ++ (halfword ident ++ (halfword seq ++ data)))

/-- The packet that `FTM_PING_sender` sends. The time and the pattern behind it are the data. -/
def sender (ident ntransmitted : UInt16) (data : List UInt8) : List UInt8 :=
  echo (checksum (echo 0 ident ntransmitted data)) ident ntransmitted data

end Ping
end Catchb
