import Mathlib.Data.List.Basic

/-! A sequence laid out in the first `m` cells of a memory, wrapping at the end. -/

namespace Catchb.Lib.Circular
variable {α : Type*} {mem : Nat → α} {m first last off n i j : Nat} {q d : List α}

def read (mem : Nat → α) (off n : Nat) : List α := (List.range n).map (fun i => mem (off + i))

def write (mem : Nat → α) (off : Nat) (d : List α) : Nat → α :=
  fun i => if off ≤ i then d.getD (i - off) (mem i) else mem i

/-- From `first` on, the cells hold the sequence. -/
def Holds (m : Nat) (mem : Nat → α) (first : Nat) (q : List α) : Prop :=
  ∀ i, i < q.length → q[i]? = some (mem ((first + i) % m))

/-- The sequence of `n` cells from `first` on. -/
def sequence (m : Nat) (mem : Nat → α) (first n : Nat) : List α :=
  (List.range n).map (fun i => mem ((first + i) % m))

theorem length_sequence : (sequence m mem first n).length = n := by
  rw [sequence, List.length_map, List.length_range]

theorem sequence_eq_iff : sequence m mem first n = q ↔ n = q.length ∧ Holds m mem first q := by
  constructor
  · rintro rfl
    refine ⟨length_sequence.symm, fun i hi => ?_⟩
    rw [length_sequence] at hi
    rw [sequence, List.getElem?_map, List.getElem?_range hi, Option.map_some]
  · rintro ⟨rfl, hq⟩
    refine List.ext_getElem? fun i => ?_
    by_cases hi : i < q.length
    · rw [sequence, List.getElem?_map, List.getElem?_range hi, Option.map_some, hq i hi]
    · rw [List.getElem?_eq_none (by rw [length_sequence]; omega),
        List.getElem?_eq_none (by omega)]

theorem holds_mod : Holds m mem (first % m) q ↔ Holds m mem first q := by
  simp only [Holds, Nat.mod_add_mod]

theorem holds_drop_iff {k : Nat} : Holds m mem (first + k) (q.drop k) ↔
    ∀ p, k ≤ p → p < q.length → q[p]? = some (mem ((first + p) % m)) := by
  constructor
  · intro h p hk hp
    have hcell := h (p - k) (by rw [List.length_drop]; omega)
    rwa [List.getElem?_drop, Nat.add_assoc, Nat.add_sub_cancel' hk] at hcell
  · intro h i hi
    rw [List.length_drop] at hi
    rw [List.getElem?_drop, h (k + i) (by omega) (by omega), Nat.add_assoc]

theorem holds_drop (h : Holds m mem first q) (k : Nat) : Holds m mem (first + k) (q.drop k) :=
  holds_drop_iff.mpr fun p _ hp => h p hp

theorem mod_ne (hij : i < j) (hj : j < i + m) : (first + i) % m ≠ (first + j) % m := by
  intro he
  have hz := Nat.sub_mod_eq_zero_of_mod_eq he.symm
  have hsub : first + j - (first + i) = j - i := by omega
  rw [hsub, Nat.mod_eq_of_lt (by omega)] at hz
  omega

/-- New cells behind the sequence, the others as they were. -/
theorem holds_append {mem' : Nat → α} (h : Holds m mem first q)
    (hfits : q.length + d.length ≤ m) (hnew : Holds m mem' (first + q.length) d)
    (hold : ∀ x, x < m → (∀ j, j < d.length → x ≠ (first + q.length + j) % m) → mem' x = mem x) :
    Holds m mem' first (q ++ d) := by
  intro i hi
  rw [List.length_append] at hi
  by_cases hq : i < q.length
  · have hkeep : mem' ((first + i) % m) = mem ((first + i) % m) := by
      apply hold _ (Nat.mod_lt _ (by omega))
      intro j hj
      rw [Nat.add_assoc]
      exact mod_ne (by omega) (by omega)
    rw [List.getElem?_append_left hq, h i hq, hkeep]
  · have hd := hnew (i - q.length) (by omega)
    rw [List.getElem?_append_right (by omega), hd]
    congr 3
    omega

theorem write_inside (hi : i < d.length) : d[i]? = some (write mem off d (off + i)) := by
  simp [write, hi]

theorem write_outside (hi : i < off ∨ off + d.length ≤ i) : write mem off d i = mem i := by
  unfold write
  split
  · rw [List.getD_eq_getElem?_getD, List.getElem?_eq_none (by omega), Option.getD_none]
  · rfl

/-- A copy in two pieces across the end. -/
def writeWrapped (m : Nat) (mem : Nat → α) (last : Nat) (d : List α) : Nat → α :=
  if d.length ≤ m - last then write mem last d
  else write (write mem last (d.take (m - last))) 0 (d.drop (m - last))

/-- A copy of less than what the ring's end is passed twice with leaves its last bytes in place. -/
theorem writeWrapped_window {p : Nat} (hlast : last < m) (hd : last + d.length ≤ 2 * m)
    (hp : p < d.length) (hwindow : d.length ≤ p + m) :
    d[p]? = some (writeWrapped m mem last d ((last + p) % m)) := by
  unfold writeWrapped
  split
  · rw [Nat.mod_eq_of_lt (by omega)]
    exact write_inside hp
  · by_cases hw : p < m - last
    · rw [Nat.mod_eq_of_lt (by omega), write_outside (by rw [List.length_drop]; omega)]
      have hin : (d.take (m - last))[p]? =
          some (write mem last (d.take (m - last)) (last + p)) :=
        write_inside (by rw [List.length_take]; omega)
      rwa [List.getElem?_take_of_lt hw] at hin
    · have hx : (last + p) % m = 0 + (p - (m - last)) := by
        rw [Nat.mod_eq_sub_mod (by omega), Nat.mod_eq_of_lt (by omega)]
        omega
      have hin : (d.drop (m - last))[p - (m - last)]? =
          some (write (write mem last (d.take (m - last))) 0 (d.drop (m - last))
            (0 + (p - (m - last)))) :=
        write_inside (by rw [List.length_drop]; omega)
      rw [List.getElem?_drop, Nat.add_sub_cancel' (by omega)] at hin
      rw [hx, hin]

theorem writeWrapped_holds (hlast : last < m) (hd : d.length ≤ m) :
    Holds m (writeWrapped m mem last d) last d := by
  intro i hi
  exact writeWrapped_window hlast (by omega) hi (by omega)

/-- What is left over is written from the first cell on, and is not wrapped again. -/
theorem writeWrapped_past {x : Nat} (hx : m - last + x < d.length) :
    some (writeWrapped m mem last d x) = d[m - last + x]? := by
  have hin : (d.drop (m - last))[x]? =
      some (write (write mem last (d.take (m - last))) 0 (d.drop (m - last)) (0 + x)) :=
    write_inside (by rw [List.length_drop]; omega)
  rw [writeWrapped, if_neg (by omega), ← List.getElem?_drop, hin, Nat.zero_add]

theorem writeWrapped_outside {x : Nat} (hlast : last < m) (hx : x < m)
    (hne : ∀ j, j < d.length → x ≠ (last + j) % m) : writeWrapped m mem last d x = mem x := by
  have hlow : ∀ j, j < d.length → last + j < m → x ≠ last + j := by
    intro j hj hm he
    exact hne j hj (by rw [Nat.mod_eq_of_lt hm, he])
  unfold writeWrapped
  split
  · apply write_outside
    by_contra hin
    exact hlow (x - last) (by omega) (by omega) (by omega)
  · have hhigh : ∀ j, j < d.length → m ≤ last + j → x ≠ last + j - m := by
      intro j hj hm he
      refine hne j hj ?_
      rw [Nat.mod_eq_sub_mod hm, Nat.mod_eq_of_lt (by omega), he]
    rw [write_outside, write_outside]
    · rw [List.length_take]
      by_contra hin
      exact hlow (x - last) (by omega) (by omega) (by omega)
    · rw [List.length_drop]
      by_contra hin
      exact hhigh (x + m - last) (by omega) (by omega) (by omega)

theorem writeWrapped_beyond {x : Nat} (hlast : last ≤ m) (hd : d.length ≤ m) (hx : m ≤ x) :
    writeWrapped m mem last d x = mem x := by
  unfold writeWrapped
  split
  · exact write_outside (by omega)
  · rw [write_outside, write_outside]
    · rw [List.length_take]
      omega
    · rw [List.length_drop]
      omega

/-- Writing behind the sequence appends to it. -/
theorem holds_push (h : Holds m mem first q) (hfits : q.length + d.length ≤ m)
    (hlast : last < m) (hend : (first + q.length) % m = last) :
    Holds m (writeWrapped m mem last d) first (q ++ d) := by
  apply holds_append h hfits
  · rw [← holds_mod, hend]
    exact writeWrapped_holds hlast (by omega)
  · intro x hx hne
    apply writeWrapped_outside hlast hx
    intro j hj
    have hj' := hne j hj
    rwa [← Nat.mod_add_mod, hend] at hj'

/-- A copy out in two pieces across the end. -/
def readWrapped (m : Nat) (mem : Nat → α) (first n : Nat) : List α :=
  if first + n ≤ m then read mem first n
  else read mem first (m - first) ++ read mem 0 (n - (m - first))

theorem length_readWrapped (hn : first ≤ m) : (readWrapped m mem first n).length = n := by
  unfold readWrapped
  split
  · simp [read]
  · simp only [read, List.length_append, List.length_map, List.length_range]
    omega

theorem readWrapped_eq (h : Holds m mem first q) (hfirst : first ≤ m) (hq : q.length ≤ m)
    (hn : n ≤ q.length) : readWrapped m mem first n = q.take n := by
  apply List.ext_getElem?
  intro i
  by_cases hi : i < n
  · have hm : 0 < m := by omega
    rw [List.getElem?_take_of_lt hi, h i (by omega)]
    unfold readWrapped
    split
    · rw [Nat.mod_eq_of_lt (by omega)]
      simp [read, hi]
    · by_cases hw : i < m - first
      · rw [List.getElem?_append_left (by simpa [read] using hw), Nat.mod_eq_of_lt (by omega)]
        simp [read, hw]
      · have hx : (first + i) % m = i - (m - first) := by
          rw [Nat.mod_eq_sub_mod (by omega), Nat.mod_eq_of_lt (by omega)]
          omega
        rw [List.getElem?_append_right (by simpa [read] using hw), hx]
        have hlt : i - (m - first) < n - (m - first) := by omega
        simp [read, hlt]
  · rw [List.getElem?_eq_none (by rw [length_readWrapped hfirst]; omega),
      List.getElem?_eq_none (by rw [List.length_take]; omega)]

end Catchb.Lib.Circular
