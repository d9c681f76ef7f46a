import Mathlib.Logic.Relation

/-! Walks from place to place, where each place names the next one. -/

namespace Catchb.Lib
variable {α : Type*}

/-- The places that a walk leaves, if it has enough fuel to come to its end. -/
def walk (next : α → Option α) : Nat → α → Option (List α)
  | 0, _ => none
  | fuel + 1, a =>
    match next a with
    | none => some []
    | some b => (walk next fuel b).map (a :: ·)

/-- A walk from one place comes to the other. -/
def Reaches (next : α → Option α) : α → α → Prop :=
  Relation.ReflTransGen (fun a b => next a = some b)

section
variable {next : α → Option α} {a b c : α} {l : List α} {fuel : Nat}

theorem walk_none (h : next a = none) : walk next (fuel + 1) a = some [] := by
  rw [walk, h]

theorem walk_some (h : next a = some b) :
    walk next (fuel + 1) a = (walk next fuel b).map (a :: ·) := by
  rw [walk, h]

/-- More fuel changes nothing. -/
theorem walk_mono {more : Nat} (h : walk next fuel a = some l) (hle : fuel ≤ more) :
    walk next more a = some l := by
  induction fuel generalizing a l more with
  | zero => cases h
  | succ fuel ih =>
    obtain ⟨more, rfl⟩ := Nat.exists_eq_add_of_le' (Nat.le_trans (Nat.le_add_left 1 fuel) hle)
    cases hnext : next a with
    | none => rwa [walk_none hnext] at h ⊢
    | some b =>
      rw [walk_some hnext] at h ⊢
      obtain ⟨rest, hrest, rfl⟩ := Option.map_eq_some_iff.mp h
      rw [ih hrest (Nat.le_of_succ_le_succ hle)]
      rfl

/-- A walk does not end if it comes to a place that it does not leave. -/
theorem walk_stuck (h : Reaches next a b) (hb : next b = some b) (fuel : Nat) :
    walk next fuel a = none := by
  induction fuel generalizing a with
  | zero => rfl
  | succ fuel ih =>
    obtain rfl | ⟨c, hc, hcb⟩ := Relation.ReflTransGen.cases_head h
    · rw [walk_some hb, ih h]
      rfl
    · rw [walk_some hc, ih hcb]
      rfl

section Measure
variable {left : α → Nat}

theorem walk_ends (hnext : ∀ a b, next a = some b → b = a ∨ left b < left a)
    (h : ∀ b, Reaches next a b → next b ≠ some b) : ∃ l, walk next (left a + 1) a = some l := by
  induction hleft : left a using Nat.strongRecOn generalizing a with
  | ind n ih =>
    cases hstep : next a with
    | none => exact ⟨[], walk_none hstep⟩
    | some b =>
      have hlt : left b < left a := by
        refine (hnext a b hstep).resolve_left ?_
        rintro rfl
        exact h b .refl hstep
      have hrest : ∀ c, Reaches next b c → next c ≠ some c := fun c hc => h c (.head hstep hc)
      obtain ⟨l, hl⟩ := ih (left b) (hleft ▸ hlt) hrest rfl
      refine ⟨a :: l, ?_⟩
      rw [walk_some hstep, walk_mono hl (hleft ▸ hlt)]
      rfl

/-- Where a step goes nearer to the end or nowhere, a walk ends exactly if it never comes to a
place that it does not leave. -/
theorem walk_ends_iff (hnext : ∀ a b, next a = some b → b = a ∨ left b < left a) :
    (∃ fuel l, walk next fuel a = some l) ↔ ∀ b, Reaches next a b → next b ≠ some b := by
  constructor
  · intro ⟨fuel, l, hl⟩ b hab hb
    rw [walk_stuck hab hb] at hl
    cases hl
  · intro h
    obtain ⟨l, hl⟩ := walk_ends hnext h
    exact ⟨left a + 1, l, hl⟩

/-- There the fuel that is enough is known beforehand. -/
theorem walk_enough (hnext : ∀ a b, next a = some b → b = a ∨ left b < left a)
    (h : walk next fuel a = some l) : walk next (left a + 1) a = some l := by
  obtain ⟨l', hl'⟩ := walk_ends hnext ((walk_ends_iff hnext).mp ⟨fuel, l, h⟩)
  have hmore := walk_mono h (Nat.le_max_left fuel (left a + 1))
  rw [walk_mono hl' (Nat.le_max_right fuel (left a + 1))] at hmore
  exact hl'.trans hmore

end Measure
end
end Catchb.Lib
