import Catchb.Lib.Text
import Mathlib.Data.Char
import Mathlib.Data.List.Lex

/-! Numbers in decimal, compared as texts. -/

namespace Catchb.Lib.Numerals
open Nat (ofDigitChars toDigits)

theorem decimal_injective : Function.Injective decimal := by
  intro i j h
  have hdigit {n : Nat} {u : Text} : toDigits 10 n ≠ '-' :: u := by
    intro heq
    have hmem : '-' ∈ toDigits 10 n := heq ▸ List.mem_cons_self
    cases Nat.isDigit_of_mem_toDigits (by decide) (by decide) hmem
  have hnat {m n : Nat} (heq : toDigits 10 m = toDigits 10 n) : m = n := by
    have hm := Nat.ofDigitChars_ten_toDigits (n := m)
    rwa [heq, Nat.ofDigitChars_ten_toDigits, eq_comm] at hm
  cases i with
  | ofNat m =>
    cases j with
    | ofNat n => exact congrArg Int.ofNat (hnat h)
    | negSucc n => exact absurd h hdigit
  | negSucc m =>
    cases j with
    | ofNat n => exact absurd h.symm hdigit
    | negSucc n => exact congrArg Int.negSucc (Nat.succ.inj (hnat (List.cons.inj h).2))

variable {cs ds : Text} {i j m n : Nat}

def Digits (cs : Text) : Prop := ∀ c ∈ cs, c.isDigit = true

theorem digit_lt_ten {c : Char} (hc : c.isDigit = true) : 48 ≤ c.toNat ∧ c.toNat ≤ 57 := by
  simpa [Char.isDigit, UInt32.le_iff_toNat_le] using hc

/-- A lead of one is not made up for by the digits that follow. -/
theorem ofDigitChars_lt_of_lt (hlen : cs.length = ds.length) (hcs : Digits cs) (h : i < j) :
    ofDigitChars 10 cs i < ofDigitChars 10 ds j := by
  induction cs generalizing ds i j with
  | nil =>
    obtain rfl := List.length_eq_zero_iff.mp hlen.symm
    simpa using h
  | cons c cs ih =>
    obtain ⟨d, ds, rfl⟩ := List.exists_cons_of_length_eq_add_one hlen.symm
    have hc := digit_lt_ten (hcs c List.mem_cons_self)
    rw [Nat.ofDigitChars_cons, Nat.ofDigitChars_cons]
    have hzero : '0'.toNat = 48 := rfl
    refine ih (Nat.succ.inj hlen) (fun x hx => hcs x (List.mem_cons_of_mem c hx)) ?_
    omega

/-- Digits of one length have the order of their numbers. -/
theorem ofDigitChars_lt_iff (hlen : cs.length = ds.length) (hcs : Digits cs) (hds : Digits ds) :
    ofDigitChars 10 cs i < ofDigitChars 10 ds i ↔ cs < ds := by
  induction cs generalizing ds i with
  | nil =>
    obtain rfl := List.length_eq_zero_iff.mp hlen.symm
    simp
  | cons c cs ih =>
    obtain ⟨d, ds, rfl⟩ := List.exists_cons_of_length_eq_add_one hlen.symm
    have hc := digit_lt_ten (hcs c List.mem_cons_self)
    have hd := digit_lt_ten (hds d List.mem_cons_self)
    have hcs' : Digits cs := fun x hx => hcs x (List.mem_cons_of_mem c hx)
    have hds' : Digits ds := fun x hx => hds x (List.mem_cons_of_mem d hx)
    have hlen' := Nat.succ.inj hlen
    have hzero : '0'.toNat = 48 := rfl
    rw [Nat.ofDigitChars_cons, Nat.ofDigitChars_cons, List.cons_lt_cons_iff]
    rcases Nat.lt_trichotomy c.toNat d.toNat with hlt | heq | hgt
    · refine iff_of_true (ofDigitChars_lt_of_lt hlen' hcs' (by omega)) (.inl hlt)
    · obtain rfl := Char.toNat_inj.mp heq
      rw [ih hlen' hcs' hds']
      simp
    · refine iff_of_false (Nat.not_lt.mpr (ofDigitChars_lt_of_lt hlen'.symm hds' (by omega)).le) ?_
      rintro (hlt | ⟨rfl, -⟩)
      · exact absurd hlt (not_lt.mpr hgt.le)
      · omega

theorem toDigits_lt_iff (hlen : (toDigits 10 m).length = (toDigits 10 n).length) :
    toDigits 10 m < toDigits 10 n ↔ m < n := by
  have hdigits (k : Nat) : Digits (toDigits 10 k) :=
    fun c hc => Nat.isDigit_of_mem_toDigits (by decide) (by decide) hc
  rw [← ofDigitChars_lt_iff hlen (hdigits m) (hdigits n) (i := 0), Nat.ofDigitChars_ten_toDigits,
    Nat.ofDigitChars_ten_toDigits]

end Catchb.Lib.Numerals
