import Catchb.Proofs.OptionsEnd
import Catchb.Proofs.Sections

/-! Which packets a score comes from. -/

namespace Catchb.Proofs.ScoreLocality
open Lib FtmScore Program OptionWalk Sections OptionsEnd

/-- The value is what the first packet and the first TCP packet with SYN add. -/
def Local (packets : List Packet) : Prop :=
  ∃ turns pScoreInfo, packets.foldlM (processPacket turns) {} = .ok pScoreInfo ∧
    pScoreInfo.fValue = packets.head?.elim 0 Packet.ipPoints +
      (packets.find? Packet.syn).elim 0 (fun p => (p.tcpPoints : ℚ))

/-- The packets with SYN have options that end, and the first one's are not more than 19. -/
theorem local_iff (packets : List Packet) : Local packets ↔
    (∀ p ∈ packets, p.syn = true → ∀ i, p.Reached i → ¬ZeroLength p i) ∧
    ∀ p, packets.find? Packet.syn = some p → ∀ l, p.path = some l → l.length ≤ 19 := by
  have hscore : Local packets ↔ ∃ turns, AllPass turns false packets := by
    constructor
    · intro ⟨turns, pScoreInfo, hok, _⟩
      exact ⟨turns, ((score_ok_iff packets 0 false false).mp hok).1⟩
    · intro ⟨turns, hpass⟩
      refine ⟨turns, _, (score_ok_iff packets 0 false false).mpr ⟨hpass, rfl⟩, ?_⟩
      rw [gains_eq]
      exact zero_add _
  rw [hscore, enough_turns]
  simp only [path_ends_iff, forall_const]

/-- The options have the length that they need, and end where the header does. -/
def WellFormed (p : Packet) : Prop :=
  ∀ i, p.Reached i → i < p.ulTCPOptLen → p.Long i →
    2 ≤ p.optionLength i ∧ i + p.optionLength i ≤ p.ulTCPOptLen

theorem nops_kind {i : Nat} (hi : i < Packet.nops.ulTCPOptLen) : Packet.nops.kind i = 1 := by
  have hlen : Packet.nops.ulTCPOptLen = 20 := by decide +kernel
  have hkinds : ∀ i < 20, Packet.nops.kind i = 1 := by decide +kernel
  exact hkinds i (hlen ▸ hi)

/-- Twenty NOPs are well formed, but there is no value for them. -/
theorem nops_not_local : WellFormed .nops ∧ ¬Local [.nops] := by
  constructor
  · intro i _ hi hlong
    exact absurd (nops_kind hi) (Packet.not_nop hlong)
  · intro ⟨turns, pScoreInfo, hok, _⟩
    have hpath : Packet.nops.path = some (List.range 20) := by decide +kernel
    have hsyn : Packet.nops.syn = true := by decide +kernel
    obtain ⟨l, hl, hfits⟩ := ((score_ok_iff [.nops] 0 false false).mp hok).1.1 hsyn
    cases hpath.symm.trans (Packet.path_of_walk hl)
    exact absurd (hfits rfl) (by decide)

end Catchb.Proofs.ScoreLocality
