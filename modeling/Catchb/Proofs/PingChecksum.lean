import Catchb.Ping

/-! What the checksum of a ping tells of its packet. -/

namespace Catchb.Proofs.PingChecksum
open Ping

variable {xs ys : List UInt8}

def word (w₀ w₁ : UInt8) : Nat := w₀.toNat + 256 * w₁.toNat

theorem word_lt (w₀ w₁ : UInt8) : word w₀ w₁ < 65536 := by
  have h₀ := w₀.toNat_lt
  have h₁ := w₁.toNat_lt
  unfold word
  omega

theorem word_inj {a b a' b' : UInt8} (h : word a b = word a' b') : a = a' ∧ b = b' := by
  have ha := a.toNat_lt
  have ha' := a'.toNat_lt
  unfold word at h
  exact ⟨UInt8.toNat_inj.mp (by omega), UInt8.toNat_inj.mp (by omega)⟩

theorem word_halfword (x : UInt16) : word x.toUInt8 (x >>> 8).toUInt8 = x.toNat := by
  have hx := x.toNat_lt
  have hlow : x.toUInt8.toNat = x.toNat % 256 := rfl
  have hhigh : (x >>> 8).toUInt8.toNat = x.toNat / 256 % 256 := by
    rw [UInt16.toNat_toUInt8, UInt16.toNat_shiftRight, Nat.shiftRight_eq_div_pow]
    rfl
  rw [word, hlow, hhigh]
  omega

theorem addUp_add (k sum : Nat) (xs : List UInt8) : addUp (k + sum) xs = k + addUp sum xs := by
  fun_induction addUp sum xs with
  | case1 sum w₀ w₁ rest ih => rw [addUp, Nat.add_assoc, ih]
  | case2 sum w₀ => rw [addUp, Nat.add_assoc]
  | case3 sum => rw [addUp]

theorem addUp_cons (w₀ w₁ : UInt8) (xs : List UInt8) :
    addUp 0 (w₀ :: w₁ :: xs) = word w₀ w₁ + addUp 0 xs := by
  rw [addUp, Nat.add_comm 0, addUp_add, word]

/-- The pairs of a packet are those in front of an even offset and those behind it. -/
theorem addUp_append (h : xs.length % 2 = 0) (ys : List UInt8) :
    addUp 0 (xs ++ ys) = addUp 0 xs + addUp 0 ys := by
  induction xs using List.twoStepInduction with
  | nil => rw [List.nil_append, addUp, Nat.zero_add]
  | singleton w => cases h
  | cons_cons w₀ w₁ xs ih _ =>
    have hrest : xs.length % 2 = 0 := by
      rw [List.length_cons, List.length_cons] at h
      omega
    rw [List.cons_append, List.cons_append, addUp_cons, addUp_cons, ih hrest, Nat.add_assoc]

theorem addUp_le (xs : List UInt8) : addUp 0 xs ≤ 65535 * ((xs.length + 1) / 2) := by
  induction xs using List.twoStepInduction with
  | nil => exact Nat.le_refl 0
  | singleton w =>
    have hw := w.toNat_lt
    rw [addUp, List.length_singleton]
    omega
  | cons_cons w₀ w₁ xs ih _ =>
    have hw := word_lt w₀ w₁
    rw [addUp_cons, List.length_cons, List.length_cons]
    omega

/-- Adding the carries twice takes a sum modulo 65535, but no sum to zero. -/
theorem folded {sum : Nat} (hpos : 0 < sum) (hlt : sum < 2147483648) :
    (sum / 65536 + sum % 65536 + (sum / 65536 + sum % 65536) / 65536) % 65536 =
      (sum - 1) % 65535 + 1 := by
  obtain ⟨high, low, hlow, rfl⟩ : ∃ high low, low < 65536 ∧ sum = 65536 * high + low :=
    ⟨sum / 65536, sum % 65536, Nat.mod_lt _ (by decide), (Nat.div_add_mod _ _).symm⟩
  have hhigh : (65536 * high + low) / 65536 = high := by omega
  have hrest : (65536 * high + low) % 65536 = low := by omega
  have hmod : 65536 * high + low - 1 = 65535 * high + (high + low - 1) := by omega
  rw [hhigh, hrest, hmod, Nat.mul_add_mod]
  by_cases hcarry : high + low < 65536
  · have hnone : (high + low) / 65536 = 0 := Nat.div_eq_of_lt hcarry
    rw [hnone]
    omega
  · have hone : (high + low) / 65536 = 1 := by omega
    rw [hone]
    omega

/-- The complement of the folded sum. -/
theorem checksum_eq (h : xs.length ≤ 65536) : (checksum xs).toNat =
    65535 - if addUp 0 xs = 0 then 0 else (addUp 0 xs - 1) % 65535 + 1 := by
  have hle := addUp_le xs
  have hmask : addUp 0 xs &&& 0xffff = addUp 0 xs % 65536 := Nat.and_two_pow_sub_one_eq_mod _ 16
  have hpow : 2 ^ 16 = 65536 := rfl
  simp only [checksum, hmask, Nat.shiftRight_eq_div_pow, UInt16.toNat_not, UInt16.toNat_ofNat',
    UInt16.size, hpow]
  generalize addUp 0 xs = sum at hle
  by_cases hzero : sum = 0
  · subst hzero
    rfl
  · rw [if_neg hzero, folded (by omega) (by omega)]

/-- A checksum of zero means that the sum is a multiple of 65535, and not zero. -/
theorem checksum_zero_iff (h : xs.length ≤ 65536) :
    checksum xs = 0 ↔ addUp 0 xs ≠ 0 ∧ addUp 0 xs % 65535 = 0 := by
  rw [← UInt16.toNat_inj, checksum_eq h]
  have hzero : (0 : UInt16).toNat = 0 := rfl
  split <;> omega

theorem length_sender (ident seq : UInt16) (data : List UInt8) :
    (sender ident seq data).length = data.length + 8 := by
  simp [sender, echo, halfword]

/-- The words of a packet's header, and its data. -/
theorem addUp_echo (cksum ident seq : UInt16) (data : List UInt8) :
    addUp 0 (echo cksum ident seq data) =
      8 + (cksum.toNat + (ident.toNat + (seq.toNat + addUp 0 data))) := by
  simp only [echo, halfword, List.cons_append, List.nil_append, addUp_cons, word_halfword]
  rfl

/-- What is sent has a checksum of zero as a whole. -/
theorem sender_verifies (ident seq : UInt16) {data : List UInt8} (h : data.length + 8 ≤ maxPacket) :
    checksum (sender ident seq data) = 0 := by
  have hmax : maxPacket ≤ 65536 := by decide
  have hlen : ∀ cksum, (echo cksum ident seq data).length = data.length + 8 := by
    intro cksum
    simp [echo, halfword]
  have hsum := @checksum_eq (echo 0 ident seq data) (by rw [hlen]; omega)
  rw [checksum_zero_iff (by rw [sender, hlen]; omega), sender, addUp_echo, hsum, addUp_echo]
  have hzero : (0 : UInt16).toNat = 0 := rfl
  rw [hzero, if_neg (by omega)]
  generalize ident.toNat + (seq.toNat + addUp 0 data) = rest
  omega

/-- The first word of a packet is not zero, so that it stays when another one is. -/
theorem rest_pos {ident seq : UInt16} {data pre post : List UInt8} {a b : UInt8}
    (hsplit : sender ident seq data = pre ++ a :: b :: post) (heven : pre.length % 2 = 0)
    (hab : word a b = 65535) : 0 < addUp 0 pre := by
  match pre, heven with
  | [], _ =>
    obtain ⟨ha, -⟩ := List.cons_eq_cons.mp hsplit
    rw [← ha, word, show icmpEcho.toNat = 8 from rfl] at hab
    omega
  | w₀ :: w₁ :: pre, _ =>
    obtain ⟨hw, -⟩ := List.cons_eq_cons.mp hsplit
    rw [addUp_cons, ← hw, word, show icmpEcho.toNat = 8 from rfl]
    omega

/-- What is sent verifies, and still does with another word in it only where a word of zeros is
taken for one of ones, or the other way. -/
theorem changed_word_told (ident seq : UInt16) (data pre post : List UInt8) (a b a' b' : UInt8)
    (h : data.length + 8 ≤ maxPacket)
    (hsplit : sender ident seq data = pre ++ a :: b :: post) (heven : pre.length % 2 = 0)
    (hne : (a, b) ≠ (a', b')) :
    checksum (sender ident seq data) = 0 ∧
      (checksum (pre ++ a' :: b' :: post) = 0 ↔
        (a, b) = (0, 0) ∧ (a', b') = (255, 255) ∨ (a, b) = (255, 255) ∧ (a', b') = (0, 0)) := by
  have hmax : maxPacket ≤ 65536 := by decide
  have hzero := sender_verifies ident seq h
  refine ⟨hzero, ?_⟩
  have hlen : (pre ++ a :: b :: post).length = data.length + 8 := by rw [← hsplit, length_sender]
  have hlen' : (pre ++ a' :: b' :: post).length = data.length + 8 := by
    rw [List.length_append] at hlen ⊢
    exact hlen
  have hrest := rest_pos hsplit heven
  rw [checksum_zero_iff (by rw [length_sender]; omega), hsplit, addUp_append heven,
    addUp_cons] at hzero
  rw [checksum_zero_iff (by rw [hlen']; omega), addUp_append heven, addUp_cons]
  have hdiffer : word a b ≠ word a' b' := by
    intro hw
    obtain ⟨rfl, rfl⟩ := word_inj hw
    exact hne rfl
  have hzeros : ∀ c d, (c, d) = ((0 : UInt8), (0 : UInt8)) ↔ word c d = 0 := by
    intro c d
    refine ⟨fun he => by cases he; rfl, fun hw => ?_⟩
    obtain ⟨rfl, rfl⟩ := @word_inj _ _ 0 0 hw
    rfl
  have hones : ∀ c d, (c, d) = ((255 : UInt8), (255 : UInt8)) ↔ word c d = 65535 := by
    intro c d
    refine ⟨fun he => by cases he; rfl, fun hw => ?_⟩
    obtain ⟨rfl, rfl⟩ := @word_inj _ _ 255 255 hw
    rfl
  have hab := word_lt a b
  have hab' := word_lt a' b'
  rw [hzeros, hzeros, hones, hones]
  generalize word a b = w at *
  generalize word a' b' = w' at *
  generalize addUp 0 pre = front at *
  generalize addUp 0 post = back at *
  obtain ⟨hsum, hmod⟩ := hzero
  constructor
  · rintro ⟨hsum', hmod'⟩
    omega
  · rintro (⟨hw, hw'⟩ | ⟨hw, hw'⟩)
    · omega
    · have hfront := hrest hw
      omega

theorem changed_word_told_of_request :
    checksum (sender 1 2 [0x61, 0x62]) = 0 ∧
      (checksum ((sender 1 2 [0x61, 0x62]).take 8 ++ [0x62, 0x61]) = 0 ↔
        ((0x61 : UInt8), (0x62 : UInt8)) = (0, 0) ∧ ((0x62 : UInt8), (0x61 : UInt8)) = (255, 255) ∨
          ((0x61 : UInt8), (0x62 : UInt8)) = (255, 255) ∧
            ((0x62 : UInt8), (0x61 : UInt8)) = (0, 0)) :=
  changed_word_told 1 2 _ _ _ _ _ _ _ (by decide) (by decide) (by decide) (by decide)

end Catchb.Proofs.PingChecksum
