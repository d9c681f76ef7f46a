import Catchb.Ping

/-! Whether a ping tells that its target has replied. -/

namespace Catchb.Proofs.PingVerdict
open Ping

variable {ident : UInt16} {target : UInt32} {started n num : Nat} {p : Datagram}
  {recvs : List Recv} {xTimeout : FtmTimer}

/-- An echo reply with the process's identifier, from the target. -/
def Genuine (ident : UInt16) (target : UInt32) (p : Datagram) : Prop :=
  hlen p + 8 ≤ p.cc ∧ icmpType p = 0 ∧ icmpId p = ident.toNat ∧ p.sender = target

/-- One comes before the timer has expired. -/
def Replied (ident : UInt16) (target : UInt32) (started : Nat) (recvs : List Recv) : Prop :=
  ∃ p, Recv.packet p ∈ recvs ∧ Genuine ident target p ∧
    (FtmTimer.initS started 2).isExpired p.now = false

/-- The caller, whose number was zero, finds another one there. -/
def Reported (ident : UInt16) (started : Nat) (recvs : List Recv) : Prop :=
  ∃ num, check ident started 0 recvs = some num ∧ num ≠ 0

def packet? : Recv → Option Datagram
  | .packet p => some p
  | _ => none

/-- The first packet. -/
def first (recvs : List Recv) : Option Datagram := recvs.findSome? packet?

def isFailed : Recv → Bool
  | .failed => true
  | _ => false

/-- The failures before it. -/
def failures (recvs : List Recv) : Nat :=
  (recvs.takeWhile (fun r => (packet? r).isNone)).countP isFailed

/-- A packet of any host with the identifier of this process, if it is long enough and has a
time to live. -/
def Counts (ident : UInt16) (p : Datagram) : Prop :=
  64 ≤ p.cc ∧ icmpType p = 0 ∧ icmpId p = ident.toNat ∧ ttl p ≠ 0

/-- The first packet counts, and it comes before a second failure. -/
def FirstCounts (ident : UInt16) (recvs : List Recv) : Prop :=
  failures recvs < 2 ∧ ∃ p, first recvs = some p ∧ Counts ident p

theorem receive_left (recvs : List Recv) : receive ident xTimeout 2 num recvs = some num := by
  unfold receive
  exact if_pos rfl

theorem receive_packet (hn : n < 2) : receive ident xTimeout n num (.packet p :: recvs) =
    some (printPacket ident p num) := by
  rw [receive, if_neg (Nat.ne_of_lt hn)]
  exact if_pos (.inl (by decide))

theorem receive_interrupted (hn : n < 2) :
    receive ident xTimeout n num (.interrupted :: recvs) = receive ident xTimeout n num recvs := by
  rw [receive, if_neg (Nat.ne_of_lt hn)]

theorem receive_failed (hn : n < 2) :
    receive ident xTimeout n num (.failed :: recvs) = receive ident xTimeout (n + 1) num recvs := by
  rw [receive, if_neg (Nat.ne_of_lt hn)]

/-- The loop looks at no packet but the first one. -/
theorem receive_eq (hn : n ≤ 2) : receive ident xTimeout n num recvs =
    if n + failures recvs < 2 then (first recvs).map (printPacket ident · num) else some num := by
  rcases Nat.lt_or_eq_of_le hn with hlt | rfl
  · induction recvs generalizing n with
    | nil =>
      rw [receive, if_neg (Nat.ne_of_lt hlt)]
      exact (if_pos hlt).symm
    | cons r recvs ih =>
      cases r with
      | packet p =>
        rw [receive_packet hlt]
        exact (if_pos hlt).symm
      | interrupted =>
        rw [receive_interrupted hlt]
        exact ih hn hlt
      | failed =>
        have hmore : n + failures (.failed :: recvs) = n + 1 + failures recvs := by
          have hcount : failures (.failed :: recvs) = failures recvs + 1 :=
            List.countP_cons_of_pos rfl
          omega
        rw [receive_failed hlt, hmore]
        rcases Nat.lt_or_eq_of_le hlt with hlt' | heq
        · exact ih hlt hlt'
        · have htwo : n + 1 = 2 := heq
          rw [htwo, receive_left, if_neg (by omega)]
  · rw [receive_left, if_neg (by omega)]

theorem printPacket_zero : printPacket ident p 0 ≠ 0 ↔ Counts ident p := by
  have hmin : datalen + 8 = 64 := rfl
  unfold printPacket Counts
  rw [hmin]
  split
  · rename_i hshort
    exact iff_of_false (not_not_intro rfl) (fun h => absurd h.1 (Nat.not_le.mpr hshort))
  · rename_i hlong
    split
    · rename_i htype
      split
      · rename_i hid
        exact iff_of_false (not_not_intro rfl) (fun h => hid h.2.2.1)
      · rename_i hid
        exact ⟨fun httl => ⟨Nat.not_lt.mp hlong, htype, not_not.mp hid, httl⟩, fun h => h.2.2.2⟩
    · rename_i htype
      exact iff_of_false (not_not_intro rfl) (fun h => htype h.2.1)

theorem reported_iff : Reported ident started recvs ↔ FirstCounts ident recvs := by
  unfold Reported FirstCounts check
  rw [receive_eq (Nat.zero_le 2), Nat.zero_add]
  constructor
  · intro ⟨num, hnum, hne⟩
    split at hnum
    · rename_i hfailures
      obtain ⟨p, hp, rfl⟩ := Option.map_eq_some_iff.mp hnum
      exact ⟨hfailures, p, hp, printPacket_zero.mp hne⟩
    · cases hnum
      exact absurd rfl hne
  · intro ⟨hfailures, p, hp, hcounts⟩
    refine ⟨printPacket ident p 0, ?_, printPacket_zero.mpr hcounts⟩
    rw [if_pos hfailures, hp]
    rfl

/-- The verdict is right exactly if the first packet counts where a reply has come in time, and
does not count where none has. -/
theorem verdict_iff (ident : UInt16) (target : UInt32) (started : Nat) (recvs : List Recv) :
    (Reported ident started recvs ↔ Replied ident target started recvs) ↔
      (FirstCounts ident recvs ↔ Replied ident target started recvs) := by
  rw [reported_iff]

/-- An ICMP packet of 84 bytes with an identifier of 1000. -/
def icmp (type : UInt8) (sender : UInt32) (now : Nat) : Datagram where
  pBuff := .memory ([0x45, 0, 0, 84, 0, 0, 0, 0, 64, 1] ++ List.replicate 10 0 ++
    [type, 0, 0, 0, 0xe8, 3]) (fun _ => 0)
  cc := 84
  sender
  now

/-- Another host's request comes before the target's reply, both in the first second. -/
theorem reply_missed : ¬(Reported 1000 0 [.packet (icmp 8 7 100), .packet (icmp 0 9 200)] ↔
    Replied 1000 9 0 [.packet (icmp 8 7 100), .packet (icmp 0 9 200)]) := by
  intro h
  have hgenuine : Genuine 1000 9 (icmp 0 9 200) := by
    unfold Genuine
    decide +kernel
  obtain ⟨num, hnum, hne⟩ := h.mpr ⟨icmp 0 9 200, .tail _ (.head _), hgenuine, by decide +kernel⟩
  have hzero : check 1000 0 0 [.packet (icmp 8 7 100), .packet (icmp 0 9 200)] = some 0 := by
    decide +kernel
  exact hne (Option.some.inj (hnum.symm.trans hzero))

end Catchb.Proofs.PingVerdict
