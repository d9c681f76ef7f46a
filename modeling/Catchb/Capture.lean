import Catchb.Config
import Catchb.Lib.Heap
import Catchb.Packet
import Catchb.LinkedList

/-! The packets that libpcap delivers, each stored in a block of its own, and the expression that
selects a camera's packets. -/

namespace Catchb
open Lib

/-- `ppCapturePackets` is the array's memory, if there is one. The heap is the packets'. -/
structure Pcap where
  ulCaptureCount : UInt32
  ulMaxCaptureCount : UInt32
  ppCapturePackets : Option (List (Option Ptr))
  ulPacketCount : UInt32
  heap : Heap Ptr (List UInt8)

namespace Pcap

/-- `FTM_PCAP_create`, with the memory set to zero. -/
def create : Pcap := ⟨0, 0, none, 0, ⟨fun _ => [], [], false⟩⟩

def undefined (s : Pcap) : Pcap := { s with heap := { s.heap with fault := true } }

/-- `ppCapturePackets[i] = p`. -/
def put (i : Nat) (p : Option Ptr) (s : Pcap) : Pcap :=
  match s.ppCapturePackets with
  | none => s.undefined
  | some packets =>
    if i < packets.length then { s with ppCapturePackets := some (packets.set i p) }
    else s.undefined

/-- A turn of the loop that frees the packets. -/
def freeAt (i : Nat) (s : Pcap) : Pcap :=
  match s.ppCapturePackets.bind (·[i]?) with
  | none => s.undefined
  | some none => s
  | some (some p) => put i none { s with heap := s.heap.free p }

def freePackets : Nat → Nat → Pcap → Pcap
  | 0, _, s => s
  | n + 1, i, s => freePackets n (i + 1) (s.freeAt i)

/-- The loop's index is an int. -/
def release (s : Pcap) : Pcap :=
  if s.ulCaptureCount.toNat ≤ 0x7fffffff then
    { freePackets s.ulCaptureCount.toNat 0 s with ulCaptureCount := 0 }
  else s.undefined

/-- Up to the loop of libpcap. `answer` is whether there is memory for another array. -/
def start (ulCount : UInt32) (answer : Bool) (s : Pcap) : Ret × Pcap :=
  let s := if s.ppCapturePackets.isSome then s.release else s
  if s.ulMaxCaptureCount ≠ ulCount then
    if answer then
      (.ok, { s with
        ppCapturePackets := some (List.replicate ulCount.toNat none)
        ulMaxCaptureCount := ulCount
        ulPacketCount := 0 })
    else
      (.notEnoughMemory, { s with ppCapturePackets := none, ulMaxCaptureCount := 0 })
  else
    (.ok, { s with ulPacketCount := 0 })

/-- How many bytes are copied, and the state afterwards. The header that comes with a packet, and
says how much of it was captured, is not used. -/
def callback (pPacket : Packet) (answer : Option Ptr) (s : Pcap) : Nat × Pcap :=
  let s := { s with ulPacketCount := s.ulPacketCount + 1 }
  if s.ulCaptureCount ≥ s.ulMaxCaptureCount then (0, s)
  else if pPacket.etherType ≠ 0x0800 then (0, s)
  else
    match s.heap.malloc answer with
    | none => (0, s)
    | some (pCapturedPacket, heap) =>
      let size := 14 + pPacket.totLen
      let heap := heap.write pCapturedPacket (pPacket.copy size)
      let s := put s.ulCaptureCount.toNat (some pCapturedPacket) { s with heap }
      (size, { s with ulCaptureCount := s.ulCaptureCount + 1 })

end Pcap

namespace CaptureFilter

def port (p : UInt16 × Nat) : Text :=
  (if p.2 = 0 then "src port ".toList else " || src port ".toList) ++ decimal p.1.toNat

def ports (pPortList : PortList) : Text :=
  if pPortList.val.length ≠ 0 then
    " || (ip proto 6 && (".toList ++ pPortList.val.zipIdx.flatMap port ++ " ))".toList
  else []

/-- What `FTM_ANALYZER_process` prints to its `pOptions[512]`. -/
def pOptions (xConfig : AnalyzerConfig) (pIP : IP) (pLocalIP : Text) : Text :=
  "src host ".toList ++ pIP.val ++ (" && dst host ".toList ++ pLocalIP) ++
    " && (ip proto 1".toList ++ ports xConfig.pPortList ++ ")".toList

end CaptureFilter
end Catchb
