import Catchb.Time
import Mathlib.Algebra.Ring.Int.Defs

/-! Adding and subtracting times, wherever the result is stored. -/

namespace Catchb.Proofs.TimeSums
open Function

variable {m : DataModel} {a b c : FtmTime m} {x y : Int}

/-- The microseconds that a time comes to. -/
def us (a : FtmTime m) : Int := a.tv_sec.toInt * 1000000 + a.tv_usec.toInt

/-- Normalised, and not negative. -/
structure Proper (a : FtmTime m) : Prop where
  sec : 0 ≤ a.tv_sec.toInt
  usec : 0 ≤ a.tv_usec.toInt
  less : a.tv_usec.toInt < 1000000

/-- A number of microseconds has the two forms that the functions use, the pair of a time and a
signed count of 64 bits. -/
structure Representable (m : DataModel) (x : Int) : Prop where
  pair : x / 1000000 < m.limit
  count : x < 0x8000000000000000

theorem limit_cases : m.limit = 0x80000000 ∨ m.limit = 0x8000000000000000 := by
  cases m
  · exact .inl rfl
  · exact .inr rfl

/-- With a `time_t` of 32 bits the pair alone decides. -/
theorem representable_of_pair (h : x / 1000000 < DataModel.ilp32.limit) :
    Representable .ilp32 x := by
  refine ⟨h, ?_⟩
  have hlimit : DataModel.ilp32.limit = 0x80000000 := rfl
  omega

theorem half_width : (2 : Int) ^ (m.width - 1) = m.limit := by
  cases m <;> rfl

theorem long_lt (n : Long m) : n.toInt < m.limit := by
  rw [← half_width]
  exact BitVec.toInt_lt

/-- A value of the right size is stored as it is. -/
theorem toInt_store (hmin : -(m.limit : Int) ≤ x) (hmax : x < m.limit) :
    (Long.store m x).toInt = x := by
  have hpos : 0 < m.width := by cases m <;> decide
  rw [← half_width] at hmin hmax
  exact BitVec.toInt_ofInt_eq_self hpos hmin hmax

theorem us_nonneg (ha : Proper a) : 0 ≤ us a := by
  obtain ⟨hsec, husec, -⟩ := ha
  unfold us
  omega

theorem us_div (ha : Proper a) : us a / 1000000 = a.tv_sec.toInt := by
  obtain ⟨-, husec, hless⟩ := ha
  unfold us
  omega

theorem us_mod (ha : Proper a) : us a % 1000000 = a.tv_usec.toInt := by
  obtain ⟨-, husec, hless⟩ := ha
  unfold us
  omega

theorem us_injective (ha : Proper a) (hb : Proper b) (h : us a = us b) : a = b := by
  have hsec : a.tv_sec.toInt = b.tv_sec.toInt := by rw [← us_div ha, h, us_div hb]
  have husec : a.tv_usec.toInt = b.tv_usec.toInt := by rw [← us_mod ha, h, us_mod hb]
  exact FtmTime.ext (BitVec.eq_of_toInt_eq hsec) (BitVec.eq_of_toInt_eq husec)

/-- The pair that a number of microseconds is stored as. -/
theorem proper_store (hmin : 0 ≤ x) (hpair : x / 1000000 < m.limit) :
    Proper (⟨.store m (x / 1000000), .store m (x % 1000000)⟩ : FtmTime m) ∧
      us (⟨.store m (x / 1000000), .store m (x % 1000000)⟩ : FtmTime m) = x := by
  have hlimit := limit_cases (m := m)
  have hsec := toInt_store (m := m) (x := x / 1000000) (by omega) hpair
  have husec := toInt_store (m := m) (x := x % 1000000) (by omega) (by omega)
  constructor
  · constructor
    · rw [hsec]
      omega
    · rw [husec]
      omega
    · rw [husec]
      omega
  · rw [us, hsec, husec]
    omega

/-- The carry is the one of the microseconds. -/
theorem add_eq_store (ha : Proper a) (hb : Proper b) :
    a.add b = ⟨.store m ((us a + us b) / 1000000), .store m ((us a + us b) % 1000000)⟩ := by
  have hlimit := limit_cases (m := m)
  obtain ⟨-, hausec, haless⟩ := ha
  obtain ⟨-, hbusec, hbless⟩ := hb
  have husec := toInt_store (m := m) (x := a.tv_usec.toInt + b.tv_usec.toInt) (by omega) (by omega)
  have hdiv : (us a + us b) / 1000000 = a.tv_sec.toInt + b.tv_sec.toInt +
      (a.tv_usec.toInt + b.tv_usec.toInt) / 1000000 := by
    unfold us
    omega
  have hmod : (us a + us b) % 1000000 = (a.tv_usec.toInt + b.tv_usec.toInt) % 1000000 := by
    unfold us
    omega
  unfold FtmTime.add
  simp only [husec]
  rw [Int.tdiv_eq_ediv_of_nonneg (by omega), Int.tmod_eq_emod_of_nonneg (by omega), hdiv, hmod]

theorem us_add (ha : Proper a) (hb : Proper b) (h : (us a + us b) / 1000000 < m.limit) :
    Proper (a.add b) ∧ us (a.add b) = us a + us b := by
  have hanonneg := us_nonneg ha
  have hbnonneg := us_nonneg hb
  rw [add_eq_store ha hb]
  exact proper_store (by omega) h

theorem add_comm (a b : FtmTime m) : a.add b = b.add a := by
  unfold FtmTime.add
  rw [Int.add_comm a.tv_usec.toInt, Int.add_comm a.tv_sec.toInt]

theorem add_assoc (ha : Proper a) (hb : Proper b) (hc : Proper c)
    (h : (us a + us b + us c) / 1000000 < m.limit) : (a.add b).add c = a.add (b.add c) := by
  have hanonneg := us_nonneg ha
  have hbnonneg := us_nonneg hb
  have hcnonneg := us_nonneg hc
  obtain ⟨hab, habus⟩ := us_add ha hb (by omega)
  obtain ⟨hbc, hbcus⟩ := us_add hb hc (by omega)
  have hleft := us_add hab hc (by rw [habus]; exact h)
  have hright := us_add ha hbc (by rw [hbcus, ← Int.add_assoc]; exact h)
  apply us_injective hleft.1 hright.1
  rw [hleft.2, hright.2, habus, hbcus, Int.add_assoc]

/-- Counts that fit 64 bits are subtracted exactly. -/
theorem difference_toInt (ha : Proper a) (hb : Proper b) (hacount : us a < 0x8000000000000000)
    (hbcount : us b < 0x8000000000000000) : (a.difference b).toInt = us a - us b := by
  have hanonneg := us_nonneg ha
  have hbnonneg := us_nonneg hb
  have hdiff : a.difference b = Int64.ofInt (us a - us b) := (Int64.ofInt_sub _ _).symm
  rw [hdiff]
  apply Int64.toInt_ofInt_of_le <;> omega

/-- What is left of a difference that is not negative. -/
theorem ofDifference_eq_store {nValueR : Int64} (h : 0 ≤ nValueR.toInt) :
    FtmTime.ofDifference m nValueR =
      ⟨.store m (nValueR.toInt / 1000000), .store m (nValueR.toInt % 1000000)⟩ := by
  unfold FtmTime.ofDifference
  split
  · rw [Int.tdiv_eq_ediv_of_nonneg h, Int.tmod_eq_emod_of_nonneg h]
  · rename_i hpos
    have hzero : nValueR.toInt = 0 := by
      rw [gt_iff_lt, Int64.lt_iff_toInt_lt, Int64.toInt_zero] at hpos
      omega
    rw [hzero]
    rfl

/-- Subtraction undoes addition. -/
theorem sub_add (ha : Proper a) (hb : Proper b) (h : Representable m (us a + us b)) :
    (a.add b).sub b = a := by
  have hanonneg := us_nonneg ha
  have hbnonneg := us_nonneg hb
  have hcount := h.count
  obtain ⟨hsum, hsumus⟩ := us_add ha hb h.pair
  have hdiff := difference_toInt hsum hb (by omega) (by omega)
  rw [hsumus, Int.add_sub_cancel] at hdiff
  have hless := long_lt a.tv_sec
  rw [← us_div ha] at hless
  have hstore := proper_store hanonneg hless
  rw [FtmTime.sub, ofDifference_eq_store (by omega), hdiff]
  exact us_injective hstore.1 ha hstore.2

section
variable {mem : Times m} {p q r d : Nat}

theorem add_result : (mem.add p q r) r = (mem p).add (mem q) := update_self ..

theorem add_other (h : d ≠ r) : (mem.add p q r) d = mem d := update_of_ne h ..

theorem sub_result : (mem.sub p q r) r = (mem p).sub (mem q) := by
  unfold Times.sub
  simp only [update_self]
  rfl

/-- The second operand of the subtraction is one that the sum has left in its place. -/
theorem sub_add_result {q' : Nat} (hp : Proper (mem p)) (hq : Proper (mem q))
    (h : Representable m (us (mem p) + us (mem q))) (hkept : q' ≠ r) (hsame : mem q' = mem q) :
    ((mem.add p q r).sub r q' d) d = mem p := by
  rw [sub_result, add_result, add_other hkept, hsame]
  exact sub_add hp hq h

theorem add_assoc_result {x x' : Nat} (hp : Proper (mem p)) (hq : Proper (mem q))
    (hr : Proper (mem r)) (h : (us (mem p) + us (mem q) + us (mem r)) / 1000000 < m.limit)
    (hx : r ≠ x) (hx' : p ≠ x') :
    ((mem.add p q x).add x r d) d = ((mem.add q r x').add p x' d) d := by
  rw [add_result, add_result, add_result, add_result, add_other hx, add_other hx']
  exact add_assoc hp hq hr h

/-- For any memory and any addresses of operands and results, equal ones included: subtraction
undoes addition, and additions commute and associate, as long as no result is stored over an
operand that is still to be read. -/
theorem sums_undone_and_reordered (mem : Times m) :
    (∀ p q q' r d : Nat, Proper (mem p) → Proper (mem q) →
      Representable m (us (mem p) + us (mem q)) → q' ≠ r → mem q' = mem q →
      ((mem.add p q r).sub r q' d) d = mem p ∧ Proper ((mem.add p q r) r) ∧
        Proper (((mem.add p q r).sub r q' d) d)) ∧
    (∀ p q r : Nat, mem.add p q r = mem.add q p r) ∧
    ∀ p q r x x' d : Nat, Proper (mem p) → Proper (mem q) → Proper (mem r) →
      (us (mem p) + us (mem q) + us (mem r)) / 1000000 < m.limit → r ≠ x → p ≠ x' →
      ((mem.add p q x).add x r d) d = ((mem.add q r x').add p x' d) d := by
  refine ⟨?_, ?_, ?_⟩
  · intro p q q' r d hp hq h hkept hsame
    have hback := sub_add_result (d := d) hp hq h hkept hsame
    have hsum := us_add hp hq h.pair
    rw [hback, add_result]
    exact ⟨rfl, hsum.1, hp⟩
  · intro p q r
    rw [Times.add, Times.add, add_comm]
  · intro p q r x x' d hp hq hr h hx hx'
    exact add_assoc_result hp hq hr h hx hx'

end

/-- Times of 1.6 s, at the even addresses, and of 2.7 s. -/
def twoTimes : Times .ilp32 := fun p => if p % 2 = 0 then ⟨1, 600000⟩ else ⟨2, 700000⟩

theorem proper_twoTimes (p : Nat) : Proper (twoTimes p) := by
  unfold twoTimes
  split
  · exact ⟨by decide, by decide, by decide⟩
  · exact ⟨by decide, by decide, by decide⟩

/-- The sum is stored over its first operand, and the difference over the second. -/
theorem two_times_undone :
    (((twoTimes.add 0 1 0).sub 0 1 1) 1 = twoTimes 0 ∧ Proper ((twoTimes.add 0 1 0) 0) ∧
      Proper (((twoTimes.add 0 1 0).sub 0 1 1) 1)) ∧
    twoTimes.add 0 1 0 = twoTimes.add 1 0 0 ∧
    ((twoTimes.add 0 1 0).add 0 2 0) 0 = ((twoTimes.add 1 2 1).add 0 1 0) 0 := by
  obtain ⟨hundone, hcomm, hassoc⟩ := sums_undone_and_reordered twoTimes
  have hp := proper_twoTimes
  refine ⟨hundone 0 1 1 0 1 (hp 0) (hp 1) ?_ (by decide) rfl, hcomm 0 1 0,
    hassoc 0 1 2 0 1 0 (hp 0) (hp 1) (hp 2) ?_ (by decide) (by decide)⟩
  · exact ⟨by decide, by decide⟩
  · decide

end Catchb.Proofs.TimeSums
