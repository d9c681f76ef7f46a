import Mathlib.Data.List.Pairwise
import Mathlib.Logic.Function.Iterate

/-! A queue by deadlines, which compares them in whole units of the time that is left. -/

namespace Catchb.Lib.Deadline
variable {α σ : Type*} {unit now : Nat} {due : α → Nat} {x : α} {xs : List α}

/-- The whole units that are left, none once the deadline has passed. -/
def remaining (unit now : Nat) (due : α → Nat) (a : α) : Nat := (due a - now) / unit

/-- `a` may stand before `b`: it is due less than a unit after it, or less than a unit from now. -/
def Before (unit now : Nat) (due : α → Nat) (a b : α) : Prop :=
  due a < due b + unit ∨ due a < now + unit

theorem Before.later {now' : Nat} {a b : α} (h : Before unit now due a b) (hle : now ≤ now') :
    Before unit now' due a b := by
  cases h with
  | inl h => exact .inl h
  | inr h => exact .inr (by omega)

theorem before_of_remaining_le {a b : α} (hunit : 0 < unit)
    (h : remaining unit now due a ≤ remaining unit now due b) : Before unit now due a b := by
  have ha : due a - now < unit * ((due a - now) / unit + 1) := Nat.lt_mul_div_succ _ hunit
  have hb : unit * ((due b - now) / unit) ≤ due b - now := Nat.mul_div_le _ _
  have hle : unit * ((due a - now) / unit) ≤ unit * ((due b - now) / unit) :=
    Nat.mul_le_mul_left unit h
  rw [Nat.mul_succ] at ha
  by_cases hpast : due b ≤ now
  · exact .inr (by omega)
  · exact .inl (by omega)

/-- An element with more units left is due later, and so is what stands behind it. -/
theorem lt_of_remaining_lt {a b : α} (hunit : 0 < unit)
    (h : remaining unit now due a < remaining unit now due b) :
    due a < due b ∧ now + unit ≤ due b := by
  have ha : due a - now < unit * ((due a - now) / unit + 1) := Nat.lt_mul_div_succ _ hunit
  have hb : unit * ((due b - now) / unit) ≤ due b - now := Nat.mul_div_le _ _
  have hle : unit * ((due a - now) / unit + 1) ≤ unit * ((due b - now) / unit) :=
    Nat.mul_le_mul_left unit h
  have hone : unit ≤ unit * ((due a - now) / unit + 1) := Nat.le_mul_of_pos_right unit (Nat.succ_pos _)
  omega

/-- The new element goes before the first one that has more units left. -/
theorem pairwise_insert (hunit : 0 < unit) (h : xs.Pairwise (Before unit now due))
    {p : α → Bool}
    (hp : ∀ e ∈ xs, p e = true ↔ remaining unit now due e ≤ remaining unit now due x) :
    (xs.takeWhile p ++ x :: xs.dropWhile p).Pairwise (Before unit now due) := by
  induction xs with
  | nil => exact List.pairwise_singleton _ _
  | cons e es ih =>
    obtain ⟨he, hes⟩ := List.pairwise_cons.mp h
    obtain ⟨hpe, hpes⟩ := List.forall_mem_cons.mp hp
    by_cases hstay : p e = true
    · rw [List.takeWhile_cons_of_pos hstay, List.dropWhile_cons_of_pos hstay, List.cons_append]
      refine List.pairwise_cons.mpr ⟨fun a ha => ?_, ih hes hpes⟩
      rw [List.mem_append, List.mem_cons] at ha
      rcases ha with ha | rfl | ha
      · exact he a (List.takeWhile_subset p ha)
      · exact before_of_remaining_le hunit (hpe.mp hstay)
      · exact he a (List.dropWhile_subset p ha)
    · rw [List.takeWhile_cons_of_neg hstay, List.dropWhile_cons_of_neg hstay, List.nil_append]
      obtain ⟨hdue, hfar⟩ := lt_of_remaining_lt hunit (Nat.lt_of_not_le fun hle =>
        hstay (hpe.mpr hle))
      refine List.pairwise_cons.mpr ⟨fun a ha => ?_, h⟩
      rcases List.mem_cons.mp ha with rfl | ha
      · exact .inl (by omega)
      · -- what `e` may stand before is due less than a unit before it
        have hea : due e < due a + unit := (he a ha).resolve_right (by omega)
        exact .inl (by omega)

/-- Where the first deadline is at least a unit away, none has passed. -/
theorem none_due {hd : α} {tl : List α} (h : (hd :: tl).Pairwise (Before unit now due))
    (hunit : 0 < unit) (hfar : now + unit ≤ due hd) : ∀ e ∈ hd :: tl, now < due e := by
  intro e he
  rcases List.mem_cons.mp he with rfl | he
  · omega
  · have hbefore : due hd < due e + unit :=
      ((List.pairwise_cons.mp h).1 e he).resolve_right (by omega)
    omega

/-- A loop whose every turn keeps an invariant and lowers a measure comes to its end. -/
theorem ends_of_measure {step : σ → Option σ} (inv : σ → Prop) (m : σ → Nat)
    (h : ∀ s s', inv s → step s = some s' → inv s' ∧ m s' < m s) {s : σ} (hs : inv s) :
    ∃ n, (fun o : Option σ => o.bind step)^[n] (some s) = none := by
  induction hm : m s using Nat.strongRecOn generalizing s with
  | ind k ih =>
    cases hnext : step s with
    | none => exact ⟨1, hnext⟩
    | some s' =>
      obtain ⟨hs', hlt⟩ := h s s' hs hnext
      obtain ⟨n, hn⟩ := ih (m s') (hm ▸ hlt) hs' rfl
      refine ⟨n + 1, ?_⟩
      rw [Function.iterate_succ_apply, Option.bind_some, hnext, hn]

end Catchb.Lib.Deadline
