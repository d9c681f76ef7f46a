import Catchb.Proofs.Sections

/-! What the score reads of a stored packet. -/

namespace Catchb.Packet

variable (p : Packet)

/-- The offset of the TCP header. -/
def tcp : Nat := 14 + p.ulIPHdrLen

/-- Where what the first loop reads of an option ends. -/
def optionEnd (i : Nat) : Nat :=
  p.option i + if p.kind i = 2 then 4 else if p.kind i = 3 then 3 else if p.Long i then 2 else 1

end Catchb.Packet

namespace Catchb.Proofs.ScoreReads
open Lib FtmScore Program OptionWalk Sections

/-- All that is read lies in the first `size` bytes, and no string is too long. -/
def StaysInside (p : Packet) (size : Nat) : Prop :=
  ∀ turns pScoreInfo,
    (∀ i ∈ asked p (processIP pScoreInfo), i < size) ∧
    (∀ i ∈ asked p (processTCP turns pScoreInfo), i < size) ∧
    result p (processTCP turns pScoreInfo) ≠ .error .overflow

/-- The IP header is there up to its protocol, a TCP packet's header up to its flags, and with
SYN up to its window; then the options are there as far as they are read, and there are not
more than 19 of them. -/
def Covered (p : Packet) (size : Nat) : Prop :=
  24 ≤ size ∧ (p.protocol = 6 → p.tcp + 14 ≤ size ∧ (p.syn = true →
    p.tcp + 16 ≤ size ∧ (∀ i, p.Reached i → i < p.ulTCPOptLen → p.optionEnd i ≤ size) ∧
    ∀ l, p.path = some l → l.length ≤ 19))

section
variable {p : Packet} {size turns q i : Nat} {pScoreInfo : ScoreInfo}

theorem asked_processIP : asked p (processIP pScoreInfo) = [23, 22, 20, 21] := by
  obtain ⟨v, ⟨bTTL, bDF, _, _, _, _, _, _⟩⟩ := pScoreInfo
  cases bTTL <;> cases bDF <;> rfl

theorem asked_processTCP : asked p (processTCP turns pScoreInfo) =
    14 :: 23 :: if p.protocol = 6 then
      [p.tcp + 12, p.tcp, p.tcp + 1, p.tcp + 2, p.tcp + 3, p.tcp + 13] ++
        if p.syn then asked p (processSyn turns p.ulIPHdrLen p.ulTCPOptLen pScoreInfo) else []
    else [] := by
  unfold processTCP
  rw [Packet.asked_read, Packet.asked_read]
  change 14 :: 23 :: asked p (if p.protocol ≠ 6 then _ else _) = _
  by_cases hprotocol : p.protocol = 6
  · rw [if_neg (not_not_intro hprotocol), if_pos hprotocol, Packet.asked_read,
      Packet.asked_ntohs, Packet.asked_ntohs, Packet.asked_read]
    change 14 :: 23 :: [p.tcp + 12, p.tcp, p.tcp + 1, p.tcp + 2, p.tcp + 3, p.tcp + 13] ++
      asked p (if p.flags &&& 2 = 0 then _ else _) = _
    by_cases hflags : p.flags &&& 2 = 0
    · rw [if_pos hflags, if_neg (fun h => (Packet.syn_iff.mp h).2 hflags)]
      rfl
    · rw [if_neg hflags, if_pos (Packet.syn_iff.mpr ⟨hprotocol, hflags⟩)]
      rfl
  · rw [if_pos hprotocol, if_neg hprotocol]
    rfl

theorem long_two (h : p.kind i = 2) : p.Long i := .inl h

theorem long_three (h : p.kind i = 3) : p.Long i := .inr (.inl h)

theorem lt_optionEnd : p.option i < p.optionEnd i := by
  unfold Packet.optionEnd
  split
  · omega
  · split
    · omega
    · split <;> omega

/-- The loops read no further at an option, where `visit` does not. -/
theorem asked_switch_lt {β : Type} {visit : UInt8 → Nat → β → PacketReader β} {x : β}
    (hvisit : ∀ q ∈ asked p (visit (p.kind i) (p.option i) x), q < p.optionEnd i)
    (h : q ∈ asked p (switchOption visit (p.option i) i x)) : q < p.optionEnd i := by
  rcases mem_asked_switch h with rfl | h | ⟨hlong, rfl⟩
  · exact lt_optionEnd
  · exact hvisit q h
  · unfold Packet.optionEnd
    rw [if_pos hlong]
    split
    · omega
    · split <;> omega

theorem asked_scan_lt (x : Nat × Int) : ∀ q ∈ asked p (scan (p.kind i) (p.option i) x),
    q < p.optionEnd i := by
  unfold scan Packet.optionEnd
  intro q hq
  split at hq
  · rename_i htwo
    rw [if_pos htwo]
    rcases List.mem_cons.mp hq with rfl | hq
    · omega
    · cases List.mem_singleton.mp hq
      omega
  · rename_i htwo
    rw [if_neg htwo]
    split at hq
    · rename_i hthree
      rw [if_pos hthree]
      cases List.mem_singleton.mp hq
      omega
    · cases hq

theorem asked_order_lt (x : Text) : ∀ q ∈ asked p (order (p.kind i) (p.option i) x),
    q < p.optionEnd i := by
  unfold order
  intro q hq
  split at hq <;> cases hq

theorem asked_long (hlong : p.Long i) (x : Nat × Int) :
    asked p (switchOption scan (p.option i) i x) =
      p.option i :: (asked p (scan (p.kind i) (p.option i) x) ++ [p.option i + 1]) := by
  rw [switchOption, Packet.asked_read]
  change p.option i :: asked p (if p.kind i = 1 then _ else if p.Long i then _ else _) = _
  rw [if_neg (Packet.not_nop hlong), if_pos hlong, asked_bind_ok _ (result_scan p _ _ x)]
  rfl

/-- The first loop reads as far as that. -/
theorem asked_last (x : Nat × Int) :
    ∃ q ∈ asked p (switchOption scan (p.option i) i x), p.optionEnd i = q + 1 := by
  unfold Packet.optionEnd
  by_cases htwo : p.kind i = 2
  · rw [if_pos htwo, asked_long (long_two htwo), scan, if_pos htwo]
    exact ⟨p.option i + 3, .tail _ (.tail _ (.head _)), rfl⟩
  · rw [if_neg htwo]
    by_cases hthree : p.kind i = 3
    · rw [if_pos hthree, asked_long (long_three hthree), scan, if_neg htwo, if_pos hthree]
      exact ⟨p.option i + 2, .tail _ (.head _), rfl⟩
    · rw [if_neg hthree]
      by_cases hlong : p.Long i
      · rw [if_pos hlong, asked_long hlong]
        exact ⟨p.option i + 1, .tail _ (List.mem_append_right _ (.head _)), rfl⟩
      · rw [if_neg hlong, switchOption, Packet.asked_read]
        exact ⟨p.option i, .head _, rfl⟩

/-- Behind the first loop a packet with SYN has its window, its size and its options read. -/
theorem mem_asked_syn (h : q ∈ asked p (processSyn turns p.ulIPHdrLen p.ulTCPOptLen pScoreInfo)) :
    q ∈ asked p (options p.ulIPHdrLen p.ulTCPOptLen scan turns 0 (0, -1)) ∨
    q = p.tcp + 14 ∨ q = p.tcp + 15 ∨ q < 20 ∨
    q ∈ asked p (options p.ulIPHdrLen p.ulTCPOptLen order turns 0 []) := by
  have hword : ∀ {i : Nat} {f : Nat → ℚ}, q ∈ asked p (ntohs i >>= fun n => pure (f n)) →
      q = i ∨ q = i + 1 := by
    intro i f h
    rcases List.mem_cons.mp h with h | h
    · exact .inl h
    · exact .inr (List.mem_singleton.mp h)
  unfold processSyn at h
  rcases mem_asked_bind.mp h with h | ⟨_, -, h⟩
  · exact .inl h
  rcases mem_asked_bind.mp h with h | ⟨_, -, h⟩
  · cases mem_asked_once h
  rcases mem_asked_bind.mp h with h | ⟨_, -, h⟩
  · cases mem_asked_once h
  rcases mem_asked_bind.mp h with h | ⟨_, -, h⟩
  · rcases hword (mem_asked_once h) with h | h
    · exact .inr (.inl h)
    · exact .inr (.inr (.inl h))
  rcases mem_asked_bind.mp h with h | ⟨_, -, h⟩
  · have := hword (mem_asked_once h)
    omega
  rcases mem_asked_bind.mp h with h | ⟨_, -, h⟩
  · rcases mem_asked_bind.mp (mem_asked_once h) with h | ⟨_, -, h⟩
    · exact .inr (.inr (.inr (.inr h)))
    · cases h
  · have := hword (mem_asked_once h)
    omega

/-- A packet with SYN that has not been scored reads its window. -/
theorem window_asked {l : List Nat} (h : walk p.next turns 0 = some l) :
    p.tcp + 15 ∈ asked p (processSyn turns p.ulIPHdrLen p.ulTCPOptLen ⟨0, marks false false⟩) := by
  unfold processSyn
  rw [asked_bind_ok _ (result_scans h)]
  exact List.mem_append_right _ (.tail _ (.head _))

theorem covered_of_staysInside (h : StaysInside p size) : Covered p size := by
  have hprotocolByte : 23 < size := (h 0 {}).1 23 (by rw [asked_processIP]; exact .head _)
  refine ⟨hprotocolByte, fun hprotocol => ?_⟩
  have hheader : p.tcp + 13 < size := by
    refine (h 0 {}).2.1 _ ?_
    rw [asked_processTCP, if_pos hprotocol]
    exact .tail _ (.tail _ (List.mem_append_left _ (by simp)))
  refine ⟨hheader, fun hsyn => ?_⟩
  have hreads : ∀ turns pScoreInfo q,
      q ∈ asked p (processSyn turns p.ulIPHdrLen p.ulTCPOptLen pScoreInfo) → q < size := by
    intro turns pScoreInfo q hq
    refine (h turns pScoreInfo).2.1 q ?_
    rw [asked_processTCP, if_pos hprotocol, if_pos hsyn]
    exact .tail _ (.tail _ (List.mem_append_right _ hq))
  have hoptions : ∀ i, p.Reached i → i < p.ulTCPOptLen → p.optionEnd i ≤ size := by
    intro i hreached hi
    obtain ⟨turns, y, hsub⟩ := asked_options (x := (0, -1)) (scan_succeeds p) hreached hi
    obtain ⟨q, hq, hend⟩ := asked_last (p := p) (i := i) y
    rw [hend]
    exact hreads turns {} q (mem_asked_bind.mpr (.inl (hsub hq)))
  refine ⟨?_, hoptions, fun l hl => ?_⟩
  · cases hpath : p.path with
    | some l => exact hreads _ _ _ (window_asked hpath)
    | none =>
      -- endless options begin behind the window
      have hsome : 0 < p.ulTCPOptLen := by
        refine Decidable.byContradiction fun hover => ?_
        exact nomatch hpath.symm.trans (walk_none (next_over hover))
      have hfirst : p.option 0 < size :=
        Nat.lt_of_lt_of_le lt_optionEnd (hoptions 0 .refl hsome)
      have hbehind : p.option 0 = p.tcp + 20 := rfl
      omega
  · refine Decidable.byContradiction fun hlong => ?_
    refine (h (p.ulTCPOptLen + 1) ⟨0, marks false false⟩).2.2 ?_
    rw [result_processTCP, if_pos hsyn, result_syn_first 0 false hl, if_neg hlong]

theorem syn_fits (hoptions : ∀ l, p.path = some l → l.length ≤ 19) :
    result p (processSyn turns p.ulIPHdrLen p.ulTCPOptLen pScoreInfo) ≠ .error .overflow := by
  intro herror
  cases hwalk : walk p.next turns 0 with
  | none =>
    have hscan := turns_used_up (x := (0, -1)) (scan_succeeds p) hwalk
    rcases syn_error herror with h | ⟨⟨y, h⟩, -⟩
    · cases hscan.symm.trans h
    · cases hscan.symm.trans h
  | some l =>
    rcases syn_error herror with h | ⟨-, h⟩
    · cases (result_scans hwalk).symm.trans h
    · rw [result_orders hwalk, if_pos (hoptions l (Packet.path_of_walk hwalk))] at h
      cases h

theorem syn_inside (hwindow : p.tcp + 16 ≤ size) (hsize : 24 ≤ size)
    (hoptions : ∀ i, p.Reached i → i < p.ulTCPOptLen → p.optionEnd i ≤ size)
    (h : q ∈ asked p (processSyn turns p.ulIPHdrLen p.ulTCPOptLen pScoreInfo)) : q < size := by
  rcases mem_asked_syn h with h | h | h | h | h
  · obtain ⟨j, y, hreached, hj, hq⟩ := mem_asked_options h
    exact Nat.lt_of_lt_of_le (asked_switch_lt (asked_scan_lt y) hq) (hoptions j hreached hj)
  · omega
  · omega
  · omega
  · obtain ⟨j, y, hreached, hj, hq⟩ := mem_asked_options h
    exact Nat.lt_of_lt_of_le (asked_switch_lt (asked_order_lt y) hq) (hoptions j hreached hj)

theorem staysInside_of_covered (h : Covered p size) : StaysInside p size := by
  obtain ⟨hsize, htcp⟩ := h
  intro turns pScoreInfo
  refine ⟨fun q hq => ?_, fun q hq => ?_, ?_⟩
  · rw [asked_processIP] at hq
    simp only [List.mem_cons, List.not_mem_nil, or_false] at hq
    omega
  · rw [asked_processTCP] at hq
    by_cases hprotocol : p.protocol = 6
    · obtain ⟨hheader, hsyn⟩ := htcp hprotocol
      rw [if_pos hprotocol] at hq
      simp only [List.mem_cons, List.mem_append, List.not_mem_nil, or_false] at hq
      rcases hq with hq | hq | hq | hq
      · omega
      · omega
      · omega
      · by_cases hyes : p.syn = true
        · obtain ⟨hwindow, hoptions, -⟩ := hsyn hyes
          rw [if_pos hyes] at hq
          exact syn_inside hwindow hsize hoptions hq
        · rw [if_neg hyes] at hq
          cases hq
    · rw [if_neg hprotocol] at hq
      simp only [List.mem_cons, List.not_mem_nil, or_false] at hq
      omega
  · rw [result_processTCP]
    by_cases hyes : p.syn = true
    · rw [if_pos hyes]
      exact syn_fits ((htcp (Packet.protocol_of_syn hyes)).2 hyes).2.2
    · rw [if_neg hyes]
      nofun

/-- The copy of a delivered packet, with whatever lies behind it. -/
def stored (pPacket behind : Packet) : Packet :=
  .memory (pPacket.copy (14 + pPacket.totLen)) behind

/-- Scoring a stored packet stays inside it exactly if what it reads is covered. -/
theorem stays_inside_iff (pPacket behind : Packet) :
    StaysInside (stored pPacket behind) (14 + pPacket.totLen) ↔
      Covered (stored pPacket behind) (14 + pPacket.totLen) :=
  ⟨covered_of_staysInside, staysInside_of_covered⟩

end

/-- They are stored with the whole packet, and make a string of 20 characters. -/
theorem nops_overflow : ¬StaysInside (stored .nops .nops) (14 + Packet.nops.totLen) := by
  intro h
  have hpath : (stored .nops .nops).path = some (List.range 20) := by decide +kernel
  have hsyn : (stored .nops .nops).syn = true := by decide +kernel
  have htcp := (covered_of_staysInside h).2 (Packet.protocol_of_syn hsyn)
  have hfits := (htcp.2 hsyn).2.2 _ hpath
  rw [List.length_range] at hfits
  omega

end Catchb.Proofs.ScoreReads
