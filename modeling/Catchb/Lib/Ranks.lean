import Mathlib.Data.List.Basic
import Mathlib.Order.Lattice

/-! Where an element stands in a descending list, told by how many others are above it. -/

namespace Catchb.Lib.Ranks
variable {α κ : Type*} [LinearOrder κ]

def Descending (key : α → κ) (xs : List α) : Prop := xs.Pairwise (fun a b => key b ≤ key a)

def above (key : α → κ) (xs : List α) (a : α) : ℕ := xs.countP (fun b => key a < key b)

def upto (key : α → κ) (xs : List α) (a : α) : ℕ := xs.countP (fun b => key a ≤ key b)

/-- The positions from `i` to before `j`. -/
def slice (i j : ℕ) (xs : List α) : List α := (xs.take j).drop i

/-- All that share the key of `a` stand between the positions. -/
def Inside (key : α → κ) (xs : List α) (i j : ℕ) (a : α) : Prop :=
  i ≤ above key xs a ∧ upto key xs a ≤ j

def Outside (key : α → κ) (xs : List α) (i j : ℕ) (a : α) : Prop :=
  upto key xs a ≤ i ∨ j ≤ above key xs a

variable {key : α → κ} {xs ys : List α} {a b : α} {i j : ℕ}

theorem above_perm (h : xs.Perm ys) (a : α) : above key xs a = above key ys a := h.countP_eq _

theorem upto_perm (h : xs.Perm ys) (a : α) : upto key xs a = upto key ys a := h.countP_eq _

theorem mem_take_or_drop (i : ℕ) (ha : a ∈ xs) : a ∈ xs.take i ∨ a ∈ xs.drop i := by
  rwa [← List.take_append_drop i xs, List.mem_append] at ha

theorem mem_slice_of_not_mem (ha : a ∈ xs) (hi : a ∉ xs.take i) (hj : a ∉ xs.drop j) :
    a ∈ slice i j xs := by
  have htake := (mem_take_or_drop j ha).resolve_right hj
  refine (mem_take_or_drop i htake).resolve_left fun h => hi ?_
  rw [List.take_take] at h
  exact List.take_subset_take_left xs (Nat.min_le_left i j) h

theorem mem_drop_of_mem_slice (ha : a ∈ slice i j xs) : a ∈ xs.drop i := by
  rw [slice, List.drop_take] at ha
  exact List.mem_of_mem_take ha

theorem mem_take_of_mem_slice (ha : a ∈ slice i j xs) : a ∈ xs.take j := List.mem_of_mem_drop ha

theorem mem_of_mem_slice (ha : a ∈ slice i j xs) : a ∈ xs :=
  List.mem_of_mem_take (mem_take_of_mem_slice ha)

/-- What stands before a position is not below what stands from it on. -/
theorem Descending.key_le (hs : Descending key xs) (ha : a ∈ xs.take i) (hb : b ∈ xs.drop i) :
    key b ≤ key a := by
  rw [Descending, ← List.take_append_drop i xs, List.pairwise_append] at hs
  exact hs.2.2 a ha b hb

theorem countP_take_drop (p : α → Bool) (i : ℕ) (xs : List α) :
    xs.countP p = (xs.take i).countP p + (xs.drop i).countP p := by
  rw [← List.countP_append, List.take_append_drop]

theorem above_lt_of_mem_take (hs : Descending key xs) (ha : a ∈ xs.take i) :
    above key xs a < i := by
  have hdrop : (xs.drop i).countP (fun b => decide (key a < key b)) = 0 := by
    rw [List.countP_eq_zero]
    intro b hb
    simpa using hs.key_le ha hb
  have htake : (xs.take i).countP (fun b => decide (key a < key b)) < (xs.take i).length := by
    refine Nat.lt_of_le_of_ne List.countP_le_length fun h => ?_
    simpa using List.countP_eq_length.mp h a ha
  rw [above, countP_take_drop _ i, hdrop]
  exact Nat.lt_of_lt_of_le htake (List.length_take_le i xs)

theorem lt_upto_of_mem_drop (hs : Descending key xs) (ha : a ∈ xs.drop j) :
    j < upto key xs a := by
  have hlt : j < xs.length := by
    by_contra hle
    rw [List.drop_of_length_le (Nat.not_lt.mp hle)] at ha
    cases ha
  have htake : (xs.take j).countP (fun b => decide (key a ≤ key b)) = (xs.take j).length := by
    rw [List.countP_eq_length]
    intro b hb
    simpa using hs.key_le hb ha
  have hdrop : 0 < (xs.drop j).countP (fun b => decide (key a ≤ key b)) :=
    List.countP_pos_iff.mpr ⟨a, ha, by simp⟩
  rw [upto, countP_take_drop _ j, htake, List.length_take, Nat.min_eq_left hlt.le]
  omega

theorem mem_slice_of_inside (hs : Descending key xs) (ha : a ∈ xs) (h : Inside key xs i j a) :
    a ∈ slice i j xs := by
  refine mem_slice_of_not_mem ha (fun hi => ?_) (fun hj => ?_)
  · exact absurd (above_lt_of_mem_take hs hi) (Nat.not_lt.mpr h.1)
  · exact absurd (lt_upto_of_mem_drop hs hj) (Nat.not_lt.mpr h.2)

theorem not_mem_slice_of_outside (hs : Descending key xs) (h : Outside key xs i j a) :
    a ∉ slice i j xs := by
  intro ha
  rcases h with h | h
  · exact absurd (lt_upto_of_mem_drop hs (mem_drop_of_mem_slice ha)) (Nat.not_lt.mpr h)
  · exact absurd (above_lt_of_mem_take hs (mem_take_of_mem_slice ha)) (Nat.not_lt.mpr h)

/-- The slice cuts no key. -/
def Whole (key : α → κ) (i j : ℕ) (xs : List α) : Prop :=
  ∀ a ∈ slice i j xs, ∀ b ∈ xs, key b = key a → b ∈ slice i j xs

theorem Whole.inside (hw : Whole key i j xs) (hs : Descending key xs) (hn : xs.Nodup)
    (ha : a ∈ slice i j xs) : Inside key xs i j a := by
  have hdrop := mem_drop_of_mem_slice ha
  have htake := mem_take_of_mem_slice ha
  constructor
  · have hlt : i < xs.length := by
      by_contra hle
      rw [List.drop_of_length_le (Nat.not_lt.mp hle)] at hdrop
      cases hdrop
    have hall : (xs.take i).countP (fun b => decide (key a < key b)) = (xs.take i).length := by
      rw [List.countP_eq_length]
      intro b hb
      refine decide_eq_true (lt_of_le_of_ne (hs.key_le hb hdrop) fun heq => ?_)
      have hb' := hw a ha b (List.mem_of_mem_take hb) heq.symm
      exact List.disjoint_take_drop hn (Nat.le_refl i) hb (mem_drop_of_mem_slice hb')
    rw [above, countP_take_drop _ i, hall, List.length_take]
    omega
  · have hnone : (xs.drop j).countP (fun b => decide (key a ≤ key b)) = 0 := by
      rw [List.countP_eq_zero]
      intro b hb hle
      have heq := le_antisymm (hs.key_le htake hb) (of_decide_eq_true hle)
      have hb' := hw a ha b (List.mem_of_mem_drop hb) heq
      exact List.disjoint_take_drop hn (Nat.le_refl j) (mem_take_of_mem_slice hb') hb
    rw [upto, countP_take_drop _ j, hnone]
    exact List.countP_le_length.trans (List.length_take_le j xs)

/-- Between two positions with something between them stands what is in the slice. -/
theorem exists_between (hs : Descending key xs) (hij : i < j) (ha : a ∈ xs.take i)
    (hb : b ∈ xs.drop j) : ∃ c ∈ slice i j xs, key b ≤ key c ∧ key c ≤ key a := by
  have hlt : j < xs.length := by
    by_contra hle
    rw [List.drop_of_length_le (Nat.not_lt.mp hle)] at hb
    cases hb
  have hc : xs[i] ∈ slice i j xs := by
    rw [slice, List.drop_eq_getElem_cons (by rw [List.length_take]; omega), List.getElem_take]
    exact List.mem_cons_self
  exact ⟨xs[i], hc, hs.key_le (mem_take_of_mem_slice hc) hb,
    hs.key_le ha (mem_drop_of_mem_slice hc)⟩

theorem Whole.outside (hw : Whole key i j xs) (hs : Descending key xs) (hn : xs.Nodup)
    (hij : i < j ∨ xs.length ≤ i) (ha : a ∈ xs) (hout : a ∉ slice i j xs) :
    Outside key xs i j a := by
  have hother {c : α} (hc : c ∈ slice i j xs) : key a ≠ key c := fun heq => hout (hw c hc a ha heq)
  rcases hij with hij | hle
  · by_cases hj : a ∈ xs.drop j
    · right
      have hlt : j < xs.length := by
        by_contra hle
        rw [List.drop_of_length_le (Nat.not_lt.mp hle)] at hj
        cases hj
      have hall : (xs.take j).countP (fun b => decide (key a < key b)) = (xs.take j).length := by
        rw [List.countP_eq_length]
        intro b hb
        refine decide_eq_true (lt_of_le_of_ne (hs.key_le hb hj) fun heq => ?_)
        by_cases hi : b ∈ xs.take i
        · obtain ⟨c, hc, hac, hcb⟩ := exists_between hs hij hi hj
          exact hother hc (le_antisymm hac (heq ▸ hcb))
        · exact hother (mem_slice_of_not_mem (List.mem_of_mem_take hb) hi
            (List.disjoint_take_drop hn (Nat.le_refl j) hb)) heq
      rw [above, countP_take_drop _ j, hall, List.length_take]
      omega
    · left
      have hi : a ∈ xs.take i := by
        by_contra hi
        exact hout (mem_slice_of_not_mem ha hi hj)
      have hnone : (xs.drop i).countP (fun b => decide (key a ≤ key b)) = 0 := by
        rw [List.countP_eq_zero]
        intro b hb hle
        have heq := le_antisymm (of_decide_eq_true hle) (hs.key_le hi hb)
        by_cases hbj : b ∈ xs.drop j
        · obtain ⟨c, hc, hbc, hca⟩ := exists_between hs hij hi hbj
          exact hother hc (le_antisymm (heq ▸ hbc) hca)
        · have hbi : b ∉ xs.take i := fun h => List.disjoint_take_drop hn (Nat.le_refl i) h hb
          exact hother (mem_slice_of_not_mem (List.mem_of_mem_drop hb) hbi hbj) heq
      rw [upto, countP_take_drop _ i, hnone]
      exact List.countP_le_length.trans (List.length_take_le i xs)
  · exact .inl (List.countP_le_length.trans hle)

section Agree
variable {ν : Type*} [LinearOrder ν] {num : α → ν}

/-- Two orders put every element, with those of its key, on one side of each position. -/
def Agree (key : α → κ) (num : α → ν) (xs : List α) (i j : ℕ) : Prop :=
  ∀ a ∈ xs, Inside key xs i j a ∧ Inside num xs i j a ∨ Outside key xs i j a ∧ Outside num xs i j a

theorem Inside.perm (h : Inside key xs i j a) (hp : xs.Perm ys) : Inside key ys i j a := by
  rwa [Inside, ← above_perm hp, ← upto_perm hp]

theorem Outside.perm (h : Outside key xs i j a) (hp : xs.Perm ys) : Outside key ys i j a := by
  rwa [Outside, ← above_perm hp, ← upto_perm hp]

/-- Two arrangements that have equal keys at the same elements have one slice, which cuts no key,
just when the counts agree. -/
theorem slices_iff_agree (hx : Descending key xs) (hy : Descending num ys) (hp : xs.Perm ys)
    (hn : xs.Nodup) (hsame : ∀ a b, key a = key b ↔ num a = num b)
    (hij : i < j ∨ xs.length ≤ i) :
    (∀ a, a ∈ slice i j xs ↔ a ∈ slice i j ys) ∧ Whole num i j ys ↔ Agree key num xs i j := by
  have hny := hp.nodup_iff.mp hn
  constructor
  · rintro ⟨hmem, hwhole⟩ a ha
    have hwhole' : Whole key i j xs := by
      intro b hb c hc heq
      rw [hmem] at hb ⊢
      exact hwhole b hb c (hp.mem_iff.mp hc) ((hsame c b).mp heq)
    by_cases hin : a ∈ slice i j xs
    · exact .inl ⟨hwhole'.inside hx hn hin,
        (hwhole.inside hy hny ((hmem a).mp hin)).perm hp.symm⟩
    · refine .inr ⟨hwhole'.outside hx hn hij ha hin, ?_⟩
      rw [hp.length_eq] at hij
      exact (hwhole.outside hy hny hij (hp.mem_iff.mp ha) (mt (hmem a).mpr hin)).perm hp.symm
  · intro hagree
    have hmem : ∀ a, a ∈ slice i j xs ↔ a ∈ slice i j ys := by
      intro a
      by_cases ha : a ∈ xs
      · rcases hagree a ha with ⟨hkey, hnum⟩ | ⟨hkey, hnum⟩
        · exact ⟨fun _ => mem_slice_of_inside hy (hp.mem_iff.mp ha) (hnum.perm hp),
            fun _ => mem_slice_of_inside hx ha hkey⟩
        · exact ⟨fun h => absurd h (not_mem_slice_of_outside hx hkey),
            fun h => absurd h (not_mem_slice_of_outside hy (hnum.perm hp))⟩
      · exact ⟨fun h => absurd (mem_of_mem_slice h) ha,
          fun h => absurd (hp.mem_iff.mpr (mem_of_mem_slice h)) ha⟩
    refine ⟨hmem, ?_⟩
    intro a ha b hb heq
    rcases hagree a (hp.mem_iff.mpr (mem_of_mem_slice ha)) with ⟨-, hin⟩ | ⟨-, hout⟩
    · refine mem_slice_of_inside hy hb ?_
      have hin' := hin.perm hp
      rwa [Inside, above, upto, ← heq] at hin'
    · exact absurd ha (not_mem_slice_of_outside hy (hout.perm hp))

end Agree
end Catchb.Lib.Ranks
