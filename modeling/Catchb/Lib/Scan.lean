import Catchb.Lib.Numerals

/-! Texts read along a format of characters and numbers. -/

namespace Catchb.Lib.Scan
open Nat (ofDigitChars)
open Numerals

variable {κ : Type*}

/-- A blank stands for any white space. A number has a name, a largest width and a range. -/
inductive Item (κ : Type*)
  | literal (c : Char)
  | blank
  | number (name : κ) (width lo hi : Nat)

/-- The numbers that are read up to where the text leaves the format. -/
def scan : List (Item κ) → Text → List (κ × Nat)
  | .literal c :: fs, d :: t => if d = c then scan fs t else []
  | .blank :: fs, t => scan fs (t.dropWhile Char.isWhitespace)
  | .number name width lo hi :: fs, t =>
    let ds := (t.take width).takeWhile Char.isDigit
    let n := ofDigitChars 10 ds 0
    if ds ≠ [] ∧ lo ≤ n ∧ n ≤ hi then (name, n) :: scan fs (t.drop ds.length) else []
  | _, _ => []

/-- The digits of a number of some width and range. -/
structure Numeral (width lo hi : Nat) (ds : Text) : Prop where
  pos : 0 < width
  len : ds.length = width
  digits : Digits ds
  min : lo ≤ ofDigitChars 10 ds 0
  max : ofDigitChars 10 ds 0 ≤ hi

/-- The text follows the format throughout, with one blank for a blank and every number at its
largest width. -/
inductive Follows : List (Item κ) → Text → List (κ × Nat) → Prop
  | nil : Follows [] [] []
  | literal {fs t ns} (c : Char) (h : Follows fs t ns) : Follows (.literal c :: fs) (c :: t) ns
  | blank {fs t ns} (hstart : t.dropWhile Char.isWhitespace = t) (h : Follows fs t ns) :
    Follows (.blank :: fs) (' ' :: t) ns
  | number {fs t ns ds width lo hi} (name : κ) (hds : Numeral width lo hi ds)
    (h : Follows fs t ns) :
    Follows (.number name width lo hi :: fs) (ds ++ t) ((name, ofDigitChars 10 ds 0) :: ns)

variable {fs : List (Item κ)} {t : Text} {ns : List (κ × Nat)}

theorem takeWhile_digits {ds : Text} (hds : Digits ds) : ds.takeWhile Char.isDigit = ds :=
  List.takeWhile_eq_self_iff.mpr hds

theorem Numeral.ne_nil {width lo hi : Nat} {ds : Text} (h : Numeral width lo hi ds) : ds ≠ [] :=
  List.ne_nil_of_length_pos (h.len ▸ h.pos)

/-- White space ends before a number. -/
theorem Numeral.dropWhile {width lo hi : Nat} {ds : Text} (h : Numeral width lo hi ds) (t : Text) :
    (ds ++ t).dropWhile Char.isWhitespace = ds ++ t := by
  obtain ⟨c, cs, rfl⟩ := List.exists_cons_of_ne_nil h.ne_nil
  have hc := digit_lt_ten (h.digits c List.mem_cons_self)
  apply List.dropWhile_cons_of_neg
  intro hspace
  simp only [Char.isWhitespace, Bool.or_eq_true, decide_eq_true_eq] at hspace
  rcases hspace with ((rfl | rfl) | rfl) | rfl <;> exact absurd hc (by decide)

/-- A text that begins with a number splits behind its digits. -/
theorem exists_of_follows_number {name : κ} {width lo hi : Nat}
    (h : Follows (.number name width lo hi :: fs) t ns) :
    ∃ ds t' ns', Numeral width lo hi ds ∧ Follows fs t' ns' ∧ t = ds ++ t' ∧
      ns = (name, ofDigitChars 10 ds 0) :: ns' := by
  cases h with
  | number _ hds h => exact ⟨_, _, _, hds, h, rfl, rfl⟩

/-- A text that follows the format is read to its end. -/
theorem scan_of_follows (h : Follows fs t ns) : scan fs t = ns := by
  induction h with
  | nil => rfl
  | literal c h ih => rw [scan, if_pos rfl, ih]
  | blank hstart h ih =>
    have hblank : Char.isWhitespace ' ' = true := rfl
    rw [scan, List.dropWhile_cons_of_pos hblank, hstart, ih]
  | number name hds h ih =>
    have hne := hds.ne_nil
    obtain ⟨-, rfl, hdigits, hmin, hmax⟩ := hds
    simp only [scan, List.take_left, takeWhile_digits hdigits, List.drop_left]
    rw [if_pos ⟨hne, hmin, hmax⟩, ih]

/-- The number of characters of a text that follows the format. -/
def span : List (Item κ) → Nat
  | [] => 0
  | .number _ width _ _ :: fs => width + span fs
  | _ :: fs => 1 + span fs

theorem length_of_follows (h : Follows fs t ns) : t.length = span fs := by
  induction h with
  | nil => rfl
  | literal c h ih =>
    rw [List.length_cons, span, ih, Nat.add_comm]
    exact nofun
  | blank hstart h ih =>
    rw [List.length_cons, span, ih, Nat.add_comm]
    exact nofun
  | number name hds h ih => rw [List.length_append, span, ih, hds.len]

/-- The characters that stand between the numbers, with their places from `k` on. -/
def marks : Nat → List (Item κ) → List (Nat × Char)
  | _, [] => []
  | k, .literal c :: fs => (k, c) :: marks (k + 1) fs
  | k, .blank :: fs => (k, ' ') :: marks (k + 1) fs
  | k, .number _ width _ _ :: fs => marks (k + width) fs

/-- A text that follows the format has them in their places. -/
theorem getElem?_of_marks (h : Follows fs t ns) {k : Nat} {u : Text} (hk : u.length = k)
    {i : Nat} {c : Char} (hmem : (i, c) ∈ marks k fs) : (u ++ t)[i]? = some c := by
  induction h generalizing k u with
  | nil => cases hmem
  | literal d h ih =>
    rcases List.mem_cons.mp hmem with he | hmem
    · obtain ⟨rfl, rfl⟩ := Prod.mk.inj he
      rw [List.getElem?_append_right hk.le, hk, Nat.sub_self, List.getElem?_cons_zero]
    · have hnext := ih (u := u ++ [d]) (by rw [List.length_append, hk]; rfl) hmem
      rwa [List.append_assoc] at hnext
  | blank hstart h ih =>
    rcases List.mem_cons.mp hmem with he | hmem
    · obtain ⟨rfl, rfl⟩ := Prod.mk.inj he
      rw [List.getElem?_append_right hk.le, hk, Nat.sub_self, List.getElem?_cons_zero]
    · have hnext := ih (u := u ++ [' ']) (by rw [List.length_append, hk]; rfl) hmem
      rwa [List.append_assoc] at hnext
  | @number _ _ _ ds _ _ _ _ hds h ih =>
    have hnext := ih (u := u ++ ds) (by rw [List.length_append, hk, hds.len]) hmem
    rwa [List.append_assoc] at hnext

/-- A format of numbers alone is followed by digits. -/
theorem digits_of_follows (h : Follows fs t ns) {k : Nat} (hmarks : marks k fs = []) :
    Digits t := by
  induction h generalizing k with
  | nil => exact fun c hc => absurd hc List.not_mem_nil
  | literal c h ih => cases hmarks
  | blank hstart h ih => cases hmarks
  | number name hds h ih =>
    intro c hc
    rcases List.mem_append.mp hc with hc | hc
    · exact hds.digits c hc
    · exact ih hmarks c hc

end Catchb.Lib.Scan
