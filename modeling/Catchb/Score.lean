import Catchb.Lib.Text
import Catchb.Packet
import Mathlib.Data.Rat.Defs

/-! The score of the packets that a camera has sent. Its points are exact rationals. -/

namespace Catchb
open Lib

/-- Which sections of the score have been added. -/
structure OSMatrix where
  bTTL : Bool := false
  bDF : Bool := false
  bTCPMSS : Bool := false
  bWindowScale : Bool := false
  bWindowSize : Bool := false
  bSynPacketSize : Bool := false
  bOptionsOrder : Bool := false
  bIPID : Bool := false

structure ScoreInfo where
  fValue : ℚ := 0
  xOSMatrix : OSMatrix := {}

/-- A section of the score is added once. -/
def ScoreInfo.once (pScoreInfo : ScoreInfo) (added : OSMatrix → Bool) (mark : OSMatrix → OSMatrix)
    (part : PacketReader ℚ) : PacketReader ScoreInfo :=
  if added pScoreInfo.xOSMatrix then pure pScoreInfo
  else do
    let points ← part
    pure ⟨pScoreInfo.fValue + points, mark pScoreInfo.xOSMatrix⟩

namespace FtmScore

def ttlPoints (ttl : Nat) : ℚ :=
  if ttl > 0 ∧ ttl ≤ 32 then 1 / 10
  else if ttl > 32 ∧ ttl ≤ 64 then 2 / 10
  else if ttl > 64 ∧ ttl ≤ 128 then 3 / 10
  else if ttl > 128 ∧ ttl ≤ 255 then 4 / 10
  else 0

def dfPoints (frag_off : Nat) : ℚ :=
  if frag_off &&& 0x4000 = 0 then 1 / 10
  else if frag_off &&& 0x4000 = 0x4000 then 2 / 10
  else 0

def processIP (pScoreInfo : ScoreInfo) : PacketReader ScoreInfo := do
  let _protocol ← read 23
  let ttl ← read 22
  let frag_off ← ntohs 20
  let pScoreInfo ← pScoreInfo.once (·.bTTL) (fun m => { m with bTTL := true })
    (pure (ttlPoints ttl.toNat))
  pScoreInfo.once (·.bDF) (fun m => { m with bDF := true }) (pure (dfPoints frag_off))

/-- A loop's switch over the option at an offset, where `visit` is what the loop does at each
kind: whether the options end there, and else the index behind it. -/
def switchOption {β : Type} (visit : UInt8 → Nat → β → PacketReader β) (i nOptionIndex : Nat)
    (x : β) : PacketReader (Option Nat × β) := do
  let kind ← read i
  if kind = 1 then
    let x ← visit kind i x
    pure (some (nOptionIndex + 1), x)
  else if kind = 2 ∨ kind = 3 ∨ kind = 4 ∨ kind = 8 then
    let x ← visit kind i x
    let length ← read (i + 1)
    pure (some (nOptionIndex + length.toNat), x)
  else
    pure (none, x)

/-- A loop over the TCP options. Its index stays far from an int's bounds in all the memory that
there can be behind a packet. -/
def options {β : Type} (ulIPHdrLen ulTCPOptLen : Nat) (visit : UInt8 → Nat → β → PacketReader β) :
    Nat → Nat → β → PacketReader β
  | 0, _, _ => .fail .turns
  | turns + 1, nOptionIndex, x =>
    if nOptionIndex < ulTCPOptLen then do
      let (next, x) ← switchOption visit (14 + ulIPHdrLen + 20 + nOptionIndex) nOptionIndex x
      match next with
      | some nOptionIndex => options ulIPHdrLen ulTCPOptLen visit turns nOptionIndex x
      | none => pure x
    else
      pure x

/-- In the first loop: `ulTCPMSS` and `nWindowScale`. -/
def scan (kind : UInt8) (i : Nat) (seen : Nat × Int) : PacketReader (Nat × Int) :=
  if kind = 2 then do
    let ulTCPMSS ← ntohs (i + 2)
    pure (ulTCPMSS, seen.2)
  else if kind = 3 then do
    let nWindowScale ← read (i + 2)
    pure (seen.1, nWindowScale.toNat)
  else
    pure seen

def letter (kind : UInt8) : Char :=
  if kind = 1 then 'N' else if kind = 2 then 'M' else if kind = 3 then 'W'
  else if kind = 4 then 'S' else 'T'

/-- In the second loop: `strcat` to `pOptions[20]`. -/
def order (kind : UInt8) (_i : Nat) (pOptions : Text) : PacketReader Text :=
  if pOptions.length < 19 then pure (pOptions ++ [letter kind]) else .fail .overflow

def mssPoints (ulTCPMSS : Nat) : Nat := if ulTCPMSS = 1380 then 1 else 0

def windowScalePoints (nWindowScale : Int) : Nat :=
  if nWindowScale = -1 then 2
  else if nWindowScale = 0 then 3
  else if nWindowScale = 1 then 4
  else if nWindowScale = 2 then 5
  else if nWindowScale = 5 ∨ nWindowScale = 6 ∨ nWindowScale = 7 then 6
  else if nWindowScale = 8 then 7
  else 0

/-- The points of the rows that hold. -/
def total (rows : List (Bool × Nat)) : Nat :=
  rows.foldl (fun points row => if row.1 then points + row.2 else points) 0

def windowSizePoints (ulTCPMSS : Nat) (window : Nat) : Nat :=
  let within (d x : Int) : Bool := (window : Int) ≤ x + d && (window : Int) ≥ x - d
  let near := within 70
  let top : Bool := (window : Int) ≤ 65535 && (window : Int) ≥ 65535 - 70
  let mss : Int := ulTCPMSS
  total [
    (within 50 mss, 10),
    (near 32736, 20),
    (within 50 512 || near 16384, 30),
    (near (mss * 11) || near (mss * 20), 40),
    (near (mss * 2) || near (mss * 3) || near (mss * 4), 50),
    (near 8192, 60),
    (near (mss * 44), 70),
    (near 8192, 80),
    (top || near 8192 || near 32767 || near 37300 || near 46080 || near 60352 ||
      near (mss * 44) || near (mss * 4) || near (mss * 6) || near (mss * 12) ||
      near (mss * 16) || near (mss * 26), 90),
    (near 44620, 100),
    (near 64512, 110),
    (near 64512, 120),
    (near 8192 || near (mss * 6), 130),
    (near 64512 || near (mss * 44), 140),
    (top || near 40320 || near 32767 || near (mss * 45), 150),
    (top || near 8192 || near 64512 || near 32767 || near (mss * 45) || near (mss * 44) ||
      near (mss * 12), 160),
    (top || near 32768 || near 16384, 170),
    (near 8192, 180),
    (near 16616, 190),
    (near (mss * 2), 200),
    (near 32768, 210),
    (near 32768 || top, 220),
    (near 33304, 230)]

def synPacketSizePoints (tot_len : Nat) : Nat :=
  if tot_len = 44 then 100
  else if tot_len = 48 then 200
  else if tot_len = 52 then 300
  else if tot_len = 60 then 400
  else 0

def optionsOrderPoints (pOptions : Text) : Nat :=
  let is (s : String) : Bool := pOptions = s.toList
  (if is "M" then 1000 else if is "MSTNW" then 2000 else 0) +
  total [
    (is "MNWNNTNNS", 3000),
    (is "MNNS" || is "MNWNNTNNS" || is "MNWNNS", 4000),
    (is "MNNS", 5000),
    (is "MNWNNS" || is "MNNS", 6000),
    (is "MWNNNS", 7000),
    (is "MW", 8000),
    (is "MNNN", 9000),
    (is "MWN", 10000),
    (is "MNNNN", 11000),
    (is "MNWNNT", 12000)]

def ipidPoints (id : Nat) : Nat := if id ≠ 0 then 10000 else 20000

/-- The sections that a TCP packet with SYN adds. -/
def processSyn (turns ulIPHdrLen ulTCPOptLen : Nat) (pScoreInfo : ScoreInfo) :
    PacketReader ScoreInfo := do
  let seen ← options ulIPHdrLen ulTCPOptLen scan turns 0 (0, -1)
  let pScoreInfo ← pScoreInfo.once (·.bTCPMSS) (fun m => { m with bTCPMSS := true })
    (pure (mssPoints seen.1))
  let pScoreInfo ← pScoreInfo.once (·.bWindowScale) (fun m => { m with bWindowScale := true })
    (pure (windowScalePoints seen.2))
  let pScoreInfo ← pScoreInfo.once (·.bWindowSize) (fun m => { m with bWindowSize := true }) do
    let window ← ntohs (14 + ulIPHdrLen + 14)
    pure (windowSizePoints seen.1 window)
  let pScoreInfo ← pScoreInfo.once (·.bSynPacketSize)
      (fun m => { m with bSynPacketSize := true }) do
    let tot_len ← ntohs 16
    pure (synPacketSizePoints tot_len)
  let pScoreInfo ← pScoreInfo.once (·.bOptionsOrder)
      (fun m => { m with bOptionsOrder := true }) do
    let pOptions ← options ulIPHdrLen ulTCPOptLen order turns 0 []
    pure (optionsOrderPoints pOptions)
  pScoreInfo.once (·.bIPID) (fun m => { m with bIPID := true }) do
    let id ← ntohs 18
    pure (ipidPoints id)

/-- `ulTCPHdrLen - 20`, for a header length in words of four bytes. -/
def tcpOptLen (doff : Nat) : Nat := (doff * 4 + 0x100000000 - 20) % 0x100000000

def processTCP (turns : Nat) (pScoreInfo : ScoreInfo) : PacketReader ScoreInfo := do
  let ihl ← read 14
  let ulIPHdrLen := ihl.toNat % 16 * 4
  let protocol ← read 23
  if protocol ≠ 6 then
    pure pScoreInfo
  else
    let doff ← read (14 + ulIPHdrLen + 12)
    let _source ← ntohs (14 + ulIPHdrLen)
    let _dest ← ntohs (14 + ulIPHdrLen + 2)
    let flags ← read (14 + ulIPHdrLen + 13)
    if flags &&& 2 = 0 then
      pure pScoreInfo
    else
      processSyn turns ulIPHdrLen (tcpOptLen (doff.toNat / 16)) pScoreInfo

/-- What `FTM_ANALIZER_PCAP_calcScore` adds for a packet. -/
def processPacket (turns : Nat) (pScoreInfo : ScoreInfo) (pPacket : Packet) :
    Except Fault ScoreInfo :=
  Program.result pPacket (processIP pScoreInfo >>= processTCP turns)

/-- A pass of its sorting loop: the header that the others are compared with stays the one of
the packet that the pass has begun with. -/
def exchange (pIPHdr1 : UInt8) (pPacket : Packet) : List Packet → Packet × List Packet
  | [] => (pPacket, [])
  | packet :: ppCapturePackets =>
    if pIPHdr1 > packet.protocol then
      let (first, rest) := exchange pIPHdr1 packet ppCapturePackets
      (first, pPacket :: rest)
    else
      let (first, rest) := exchange pIPHdr1 pPacket ppCapturePackets
      (first, packet :: rest)

def sortFrom : Nat → List Packet → List Packet
  | _, [] => []
  | 0, ppCapturePackets => ppCapturePackets
  | i + 1, pPacket :: ppCapturePackets =>
    let (first, rest) := exchange pPacket.protocol pPacket ppCapturePackets
    first :: sortFrom i rest

def sortPackets (ppCapturePackets : List Packet) : List Packet :=
  sortFrom ppCapturePackets.length ppCapturePackets

def calcScore (turns : Nat) (pScore : ScoreInfo) (ppCapturePackets : List Packet) :
    Except Fault ScoreInfo :=
  (sortPackets ppCapturePackets).foldlM (processPacket turns) pScore

end FtmScore
end Catchb
