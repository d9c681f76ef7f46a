import Catchb.Proofs.OptionWalk

/-! Whether the loops over the TCP options come to an end. -/

namespace Catchb.Proofs.OptionsEnd
open Lib FtmScore Program OptionWalk

variable {p : Packet}

/-- Both loops are over after some number of turns. -/
def BothEnd (p : Packet) : Prop :=
  (∃ turns, result p (options p.ulIPHdrLen p.ulTCPOptLen scan turns 0 (0, -1)) ≠
    .error .turns) ∧
  (∃ turns, result p (options p.ulIPHdrLen p.ulTCPOptLen order turns 0 []) ≠ .error .turns)

/-- An option whose length byte is zero. -/
def ZeroLength (p : Packet) (i : Nat) : Prop :=
  i < p.ulTCPOptLen ∧ p.Long i ∧ p.optionLength i = 0

theorem path_ends_iff : (∃ l, p.path = some l) ↔ ∀ i, p.Reached i → ¬ZeroLength p i := by
  unfold ZeroLength
  simp only [← Packet.next_stands]
  exact Packet.path_ends_iff

theorem orders_end {l : List Nat} (h : p.path = some l) :
    result p (options p.ulIPHdrLen p.ulTCPOptLen order (p.ulTCPOptLen + 1) 0 []) ≠
      .error .turns := by
  rw [result_orders h]
  split <;> nofun

/-- The loops end exactly if they come to no option with a length of zero. -/
theorem options_end_iff (p : Packet) :
    BothEnd p ↔ ∀ i, p.Reached i → ¬ZeroLength p i := by
  rw [← path_ends_iff]
  constructor
  · intro ⟨⟨turns, hscan⟩, _⟩
    cases hwalk : walk p.next turns 0 with
    | none => exact absurd (turns_used_up (scan_succeeds p) hwalk) hscan
    | some l => exact ⟨l, Packet.path_of_walk hwalk⟩
  · intro ⟨l, hl⟩
    refine ⟨⟨p.ulTCPOptLen + 1, ?_⟩, p.ulTCPOptLen + 1, orders_end hl⟩
    rw [result_scans hl]
    nofun

/-- An MSS option whose length byte is zero. -/
def zeroLength : Packet := .withOptions [2, 0, 5, 0xb4]

/-- The first loop stays at that option however many turns it has. -/
theorem zero_length_endless : ¬BothEnd zeroLength := by
  intro ⟨⟨turns, hscan⟩, _⟩
  have hstands : zeroLength.next 0 = some 0 := by decide +kernel
  exact hscan (turns_used_up (scan_succeeds zeroLength) (walk_stuck .refl hstands turns))

end Catchb.Proofs.OptionsEnd
