import Catchb.Lib.Program

/-! Packets as they lie in memory, and programs that read them. -/

namespace Catchb
open Lib

/-- The memory from a packet's address on. -/
abbrev Packet := Nat → UInt8

inductive Fault
  /-- The turns that a loop was granted have been used up. -/
  | turns
  /-- A string is longer than its array. -/
  | overflow
  deriving DecidableEq

/-- Programs that read a packet byte by byte. -/
abbrev PacketReader := Program Nat (fun _ => UInt8) Fault

def read (i : Nat) : PacketReader UInt8 := .query i

/-- A header's field of two bytes. -/
def ntohs (i : Nat) : PacketReader Nat := do
  let high ← read i
  let low ← read (i + 1)
  pure (high.toNat * 256 + low.toNat)

namespace Packet

def word (pPacket : Packet) (i : Nat) : Nat :=
  (pPacket i).toNat * 256 + (pPacket (i + 1)).toNat

/-- The memory that a block of bytes lies in. -/
def memory (block : List UInt8) (behind : Packet) : Packet := fun i => block.getD i (behind i)

def copy (pPacket : Packet) (size : Nat) : List UInt8 := (List.range size).map pPacket

/-- The IP header is behind the 14 bytes of the Ethernet header. -/
def protocol (pPacket : Packet) : UInt8 := pPacket 23

def totLen (pPacket : Packet) : Nat := pPacket.word 16

def etherType (pPacket : Packet) : Nat := pPacket.word 12

section
variable {α : Type} (p : Packet) (i : Nat)

@[simp] theorem result_read (f : UInt8 → PacketReader α) :
    Program.result p (read i >>= f) = Program.result p (f (p i)) := rfl

@[simp] theorem asked_read (f : UInt8 → PacketReader α) :
    Program.asked p (read i >>= f) = i :: Program.asked p (f (p i)) := rfl

@[simp] theorem result_ntohs (f : Nat → PacketReader α) :
    Program.result p (ntohs i >>= f) = Program.result p (f (p.word i)) := rfl

@[simp] theorem asked_ntohs (f : Nat → PacketReader α) :
    Program.asked p (ntohs i >>= f) = i :: (i + 1) :: Program.asked p (f (p.word i)) := rfl

end
end Packet
end Catchb
