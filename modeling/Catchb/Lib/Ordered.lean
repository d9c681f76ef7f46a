import Mathlib.Data.List.Pairwise
import Mathlib.Data.List.TakeWhile

/-! A place in an ordered sequence: behind the first elements, those that may stand before the new
one. -/

namespace Catchb.Lib.Ordered
variable {α : Type*} {R : α → α → Prop} {p : α → Bool} {x : α} {xs : List α}

/-- The order is kept where each element is told to be before or behind the new one. -/
theorem pairwise_place (htrans : ∀ a b c, R a b → R b c → R a c) (h : xs.Pairwise R)
    (hbefore : ∀ e ∈ xs, p e = true → R e x) (hbehind : ∀ e ∈ xs, p e = false → R x e) :
    (xs.takeWhile p ++ x :: xs.dropWhile p).Pairwise R := by
  induction xs with
  | nil => exact List.pairwise_singleton R x
  | cons e es ih =>
    obtain ⟨he, hes⟩ := List.pairwise_cons.mp h
    obtain ⟨hbe, hbes⟩ := List.forall_mem_cons.mp hbefore
    obtain ⟨hxe, hxes⟩ := List.forall_mem_cons.mp hbehind
    cases hp : p e with
    | true =>
      rw [List.takeWhile_cons_of_pos hp, List.dropWhile_cons_of_pos hp, List.cons_append]
      refine List.pairwise_cons.mpr ⟨fun a ha => ?_, ih hes hbes hxes⟩
      rw [List.mem_append, List.mem_cons] at ha
      rcases ha with ha | rfl | ha
      · exact he a (List.takeWhile_subset p ha)
      · exact hbe hp
      · exact he a (List.dropWhile_subset p ha)
    | false =>
      have hstop : ¬ p e = true := Bool.not_eq_true _ ▸ hp
      rw [List.takeWhile_cons_of_neg hstop, List.dropWhile_cons_of_neg hstop, List.nil_append]
      refine List.pairwise_cons.mpr ⟨fun a ha => ?_, h⟩
      rcases List.mem_cons.mp ha with rfl | ha
      · exact hxe hp
      · exact htrans x e a (hxe hp) (he a ha)

/-- In an ordered sequence, no element behind the place may stand before the new one. -/
theorem forall_dropWhile (htrans : ∀ a b c, R a b → R b c → R a c) (h : xs.Pairwise R)
    (hp : ∀ e ∈ xs, p e = true ↔ R e x) : ∀ e ∈ xs.dropWhile p, ¬ R e x := by
  induction xs with
  | nil => simp
  | cons e es ih =>
    obtain ⟨he, hes⟩ := List.pairwise_cons.mp h
    obtain ⟨hpe, hpes⟩ := List.forall_mem_cons.mp hp
    by_cases hgo : p e = true
    · rw [List.dropWhile_cons_of_pos hgo]
      exact ih hes hpes
    · rw [List.dropWhile_cons_of_neg hgo]
      have hex : ¬ R e x := fun hr => hgo (hpe.mpr hr)
      intro a ha
      rcases List.mem_cons.mp ha with rfl | ha
      · exact hex
      · exact fun hax => hex (htrans e a x (he a ha) hax)

end Catchb.Lib.Ordered
