import Catchb.Aes

/-! Decryption inverts encryption. -/

namespace Catchb.Proofs.Cipher
open Lib Aes

theorem xor_cancel (a b : UInt8) : a ^^^ b ^^^ b = a := by
  rw [UInt8.xor_assoc, UInt8.xor_self, UInt8.xor_zero]

theorem word_xor_cancel (v w : Word) : v ^^^ w ^^^ w = v := by
  change Word.mk (v.b0 ^^^ w.b0 ^^^ w.b0) (v.b1 ^^^ w.b1 ^^^ w.b1) (v.b2 ^^^ w.b2 ^^^ w.b2)
    (v.b3 ^^^ w.b3 ^^^ w.b3) = v
  simp only [xor_cancel]

theorem state_xor_cancel (s t : State) : s ^^^ t ^^^ t = s := by
  change State.mk (s.c0 ^^^ t.c0 ^^^ t.c0) (s.c1 ^^^ t.c1 ^^^ t.c1) (s.c2 ^^^ t.c2 ^^^ t.c2)
    (s.c3 ^^^ t.c3 ^^^ t.c3) = s
  simp only [word_xor_cancel]

theorem addRoundKey_twice (words : List Word) (round : Nat) (s : State) :
    addRoundKey words round (addRoundKey words round s) = s := state_xor_cancel s _

/-- A fact of bytes that all numbers below 256 give. -/
theorem forall_byte {p : UInt8 → Prop} (h : ∀ n < 256, p (UInt8.ofNat n)) (x : UInt8) : p x := by
  rw [← UInt8.ofNat_toNat (x := x)]
  exact h x.toNat x.toNat_lt

theorem sbox_inverse (x : UInt8) : getSBoxInvert (getSBoxValue x) = x :=
  forall_byte (p := fun x => getSBoxInvert (getSBoxValue x) = x) (by decide +kernel) x

theorem invSubBytes_subBytes (s : State) : invSubBytes (subBytes s) = s := by
  simp only [invSubBytes, subBytes, State.map, Word.map, sbox_inverse]

theorem invShiftRows_shiftRows (s : State) : invShiftRows (shiftRows s) = s := rfl

theorem top_bit (x : UInt8) : x >>> 7 = 0 ∨ x >>> 7 = 1 := by
  have hlt := x.toNat_lt
  have hshift : (x >>> 7).toNat = x.toNat / 128 := by
    rw [UInt8.toNat_shiftRight, Nat.shiftRight_eq_div_pow]
    rfl
  obtain h | h : (x >>> 7).toNat = 0 ∨ (x >>> 7).toNat = 1 := by omega
  · exact .inl (UInt8.toNat_inj.mp h)
  · exact .inr (UInt8.toNat_inj.mp h)

theorem xor_cancel_left (a b : UInt8) : a ^^^ (a ^^^ b) = b := by
  rw [← UInt8.xor_assoc, UInt8.xor_self, UInt8.zero_xor]

theorem xor_left_comm (a b c : UInt8) : a ^^^ (b ^^^ c) = b ^^^ (a ^^^ c) := by
  rw [← UInt8.xor_assoc, UInt8.xor_comm a b, UInt8.xor_assoc]

/-- What `xtime` adds where the top bit is set. -/
theorem reduction_xor (a b : UInt8) : bit ((a ^^^ b) >>> 7) * (0x1b : UInt8) =
    (bit (a >>> 7) * (0x1b : UInt8)) ^^^ (bit (b >>> 7) * (0x1b : UInt8)) := by
  rw [UInt8.shiftRight_xor]
  rcases top_bit a with ha | ha <;> rcases top_bit b with hb | hb <;> rw [ha, hb] <;> rfl

theorem xtime_xor (a b : UInt8) : xtime (a ^^^ b) = xtime a ^^^ xtime b := by
  simp only [xtime, UInt8.shiftLeft_xor, reduction_xor]
  ac_rfl

/-- Multiplication by the bits of the second factor. -/
theorem multiply_bits {x y e0 e1 e2 e3 : UInt8} (h0 : bit y = e0) (h1 : bit (y >>> 1) = e1)
    (h2 : bit (y >>> 2) = e2) (h3 : bit (y >>> 3) = e3) (h4 : bit (y >>> 4) = 0) :
    multiply x y = (e0 * x) ^^^ (e1 * xtime x) ^^^ (e2 * xtime (xtime x)) ^^^
      (e3 * xtime (xtime (xtime x))) := by
  rw [multiply, h0, h1, h2, h3, h4, UInt8.zero_mul, UInt8.xor_zero]

theorem multiply_0e (x : UInt8) :
    multiply x 0x0e = xtime x ^^^ xtime (xtime x) ^^^ xtime (xtime (xtime x)) := by
  rw [@multiply_bits x 0x0e 0 1 1 1 rfl rfl rfl rfl rfl]
  simp

theorem multiply_0b (x : UInt8) :
    multiply x 0x0b = x ^^^ xtime x ^^^ xtime (xtime (xtime x)) := by
  rw [@multiply_bits x 0x0b 1 1 0 1 rfl rfl rfl rfl rfl]
  simp

theorem multiply_0d (x : UInt8) :
    multiply x 0x0d = x ^^^ xtime (xtime x) ^^^ xtime (xtime (xtime x)) := by
  rw [@multiply_bits x 0x0d 1 0 1 1 rfl rfl rfl rfl rfl]
  simp

theorem multiply_09 (x : UInt8) : multiply x 0x09 = x ^^^ xtime (xtime (xtime x)) := by
  rw [@multiply_bits x 0x09 1 0 0 1 rfl rfl rfl rfl rfl]
  simp

/-- One byte of a mixed column, from the byte, the next one and the sum of all. -/
def mixed (a b t : UInt8) : UInt8 := a ^^^ (xtime (a ^^^ b) ^^^ t)

/-- A row of the inverse matrix, sorted by powers of `xtime`. -/
theorem inverse_row (m n o p : UInt8) :
    multiply m 0x0e ^^^ multiply n 0x0b ^^^ multiply o 0x0d ^^^ multiply p 0x09 =
      xtime (xtime (xtime (m ^^^ n ^^^ o ^^^ p))) ^^^ xtime (xtime (m ^^^ o)) ^^^
        xtime (m ^^^ n) ^^^ (n ^^^ o ^^^ p) := by
  simp only [multiply_0e, multiply_0b, multiply_0d, multiply_09, xtime_xor]
  ac_rfl

/-- What is added twice goes out. -/
theorem unmix {a b c d t : UInt8} (ht : t = a ^^^ b ^^^ c ^^^ d) :
    multiply (mixed a b t) 0x0e ^^^ multiply (mixed b c t) 0x0b ^^^ multiply (mixed c d t) 0x0d ^^^
      multiply (mixed d a t) 0x09 = a := by
  have hthree : mixed b c t ^^^ mixed c d t ^^^ mixed d a t = a ^^^ xtime (a ^^^ b) := by
    simp only [mixed, ht, xtime_xor, UInt8.xor_assoc, UInt8.xor_comm, xor_left_comm,
      xor_cancel_left, UInt8.xor_self, UInt8.zero_xor]
  have hfour : mixed a b t ^^^ mixed b c t ^^^ mixed c d t ^^^ mixed d a t = t := by
    simp only [mixed, ht, xtime_xor, UInt8.xor_assoc, UInt8.xor_comm, xor_left_comm,
      xor_cancel_left, UInt8.xor_self, UInt8.xor_zero]
  have hfirst : mixed a b t ^^^ mixed b c t = a ^^^ b ^^^ xtime (a ^^^ c) := by
    simp only [mixed, ht, xtime_xor, UInt8.xor_assoc, UInt8.xor_comm, xor_left_comm,
      xor_cancel_left]
  have hodd : mixed a b t ^^^ mixed c d t = a ^^^ c ^^^ xtime t := by
    simp only [mixed, ht, xtime_xor, UInt8.xor_assoc, UInt8.xor_comm, xor_left_comm,
      xor_cancel_left]
  rw [inverse_row, hthree, hfour, hfirst, hodd]
  simp only [xtime_xor, UInt8.xor_assoc, UInt8.xor_comm, xor_left_comm, UInt8.xor_self,
    UInt8.xor_zero]

/-- The rows of a mixed column are one row, turned. -/
theorem invMixColumn_mixColumn (w : Word) : invMixColumn (mixColumn w) = w := by
  obtain ⟨a, b, c, d⟩ := w
  have h0 := @unmix a b c d _ rfl
  have h1 := @unmix b c d a (a ^^^ b ^^^ c ^^^ d) (by ac_rfl)
  have h2 := @unmix c d a b (a ^^^ b ^^^ c ^^^ d) (by ac_rfl)
  have h3 := @unmix d a b c (a ^^^ b ^^^ c ^^^ d) (by ac_rfl)
  simp only [mixed] at h0 h1 h2 h3
  simp only [invMixColumn, mixColumn, Word.mk.injEq]
  refine ⟨h0, ?_, ?_, ?_⟩
  · rw [UInt8.xor_comm] at h1
    simpa only [UInt8.xor_assoc] using h1
  · rw [UInt8.xor_assoc, UInt8.xor_comm] at h2
    simpa only [UInt8.xor_assoc] using h2
  · rw [UInt8.xor_assoc, UInt8.xor_assoc, UInt8.xor_comm] at h3
    simpa only [UInt8.xor_assoc] using h3

theorem invMixColumns_mixColumns (s : State) : invMixColumns (mixColumns s) = s := by
  simp only [invMixColumns, mixColumns, State.map, invMixColumn_mixColumn]

/-- Undoing the rounds from the last one leads back to where the first one began. -/
theorem invRounds (words : List Word) (rs : List Nat) (s : State) :
    rs.foldr (invCipherRound words) (shiftRows (subBytes (rs.foldl (cipherRound words) s))) =
      shiftRows (subBytes s) := by
  induction rs generalizing s with
  | nil => rfl
  | cons r rs ih =>
    rw [List.foldr_cons, List.foldl_cons, ih, invCipherRound, invShiftRows_shiftRows,
      invSubBytes_subBytes, cipherRound, addRoundKey_twice, invMixColumns_mixColumns]

theorem invCipher_cipher (words : List Word) (s : State) :
    invCipher words (cipher words s) = s := by
  rw [invCipher, cipher, addRoundKey_twice, invRounds, invShiftRows_shiftRows,
    invSubBytes_subBytes, addRoundKey_twice]

/-- Whole blocks are read back from their bytes. -/
theorem blocks_bytes (ss : List State) : blocks (words (ss.flatMap State.bytes)) = ss := by
  induction ss with
  | nil => rfl
  | cons s ss ih =>
    have hstep : blocks (words (s.bytes ++ ss.flatMap State.bytes)) =
        s :: blocks (words (ss.flatMap State.bytes)) := rfl
    rw [List.flatMap_cons, hstep, ih]

/-- The next four of a list of fours. -/
theorem four_cons {α : Type*} {l : List α} {n : Nat} (h : l.length = 4 * (n + 1)) :
    ∃ p q r s rest, l = p :: q :: r :: s :: rest ∧ rest.length = 4 * n := by
  match l with
  | p :: q :: r :: s :: rest =>
    refine ⟨p, q, r, s, rest, rfl, ?_⟩
    simp only [List.length_cons] at h
    omega
  | [] | [_] | [_, _] | [_, _, _] =>
    simp only [List.length_cons, List.length_nil] at h
    omega

theorem bytes_words {n : Nat} {bytes : List UInt8} (h : bytes.length = 4 * n) :
    (words bytes).length = n ∧ (words bytes).flatMap Word.bytes = bytes := by
  induction n generalizing bytes with
  | zero =>
    rw [List.eq_nil_of_length_eq_zero h]
    exact ⟨rfl, rfl⟩
  | succ n ih =>
    obtain ⟨p, q, r, s, rest, rfl, hrest⟩ := four_cons h
    obtain ⟨hlen, hbytes⟩ := ih hrest
    rw [words, List.length_cons, List.flatMap_cons, hlen, hbytes]
    exact ⟨rfl, rfl⟩

theorem bytes_blocks {n : Nat} {ws : List Word} (h : ws.length = 4 * n) :
    (blocks ws).flatMap State.bytes = ws.flatMap Word.bytes := by
  induction n generalizing ws with
  | zero =>
    rw [List.eq_nil_of_length_eq_zero h]
    rfl
  | succ n ih =>
    obtain ⟨p, q, r, s, rest, rfl, hrest⟩ := four_cons h
    rw [blocks, List.flatMap_cons, ih hrest]
    rfl

theorem blocks_isSome {ws : List Word} (h : ws.length = 4) : ∃ v, (blocks ws).head? = some v := by
  obtain ⟨p, q, r, s, rest, rfl, -⟩ := four_cons (n := 0) h
  exact ⟨⟨p, q, r, s⟩, rfl⟩

/-- A buffer of whole blocks is decrypted to what was encrypted. -/
theorem cbc_inverse {n : Nat} {input iv : List UInt8} (key : List UInt8)
    (hiv : iv.length = 16) (h : input.length = 16 * n) :
    cbcDecryptBuffer (cbcEncryptBuffer input key iv) key iv = input := by
  obtain ⟨v, hv⟩ := blocks_isSome (bytes_words (n := 4) hiv).1
  obtain ⟨hlen, hbytes⟩ := bytes_words (n := 4 * n) (show input.length = _ by omega)
  have hmix : ∀ s t : State, s ^^^ t ^^^ t = s := state_xor_cancel
  have hdec := invCipher_cipher (keyExpansion (words key))
  simp only [cbcDecryptBuffer, cbcEncryptBuffer, hv, Option.map_some, Option.getD_some,
    blocks_bytes, Chain.decrypt_encrypt hmix hdec]
  rw [bytes_blocks hlen, hbytes]

theorem length_bytes (ss : List State) : (ss.flatMap State.bytes).length = 16 * ss.length := by
  induction ss with
  | nil => rfl
  | cons s ss ih =>
    rw [List.flatMap_cons, List.length_append, List.length_cons, ih, Nat.mul_succ, Nat.add_comm]
    rfl

theorem length_blocks {n : Nat} {ws : List Word} (h : ws.length = 4 * n) :
    (blocks ws).length = n := by
  induction n generalizing ws with
  | zero =>
    rw [List.eq_nil_of_length_eq_zero h]
    rfl
  | succ n ih =>
    obtain ⟨p, q, r, s, rest, rfl, hrest⟩ := four_cons h
    rw [blocks, List.length_cons, ih hrest]

/-- Encryption keeps the length. -/
theorem length_cbcEncryptBuffer {n : Nat} {input iv : List UInt8} (key : List UInt8)
    (hiv : iv.length = 16) (h : input.length = 16 * n) :
    (cbcEncryptBuffer input key iv).length = input.length := by
  obtain ⟨v, hv⟩ := blocks_isSome (bytes_words (n := 4) hiv).1
  obtain ⟨hlen, -⟩ := bytes_words (n := 4 * n) (show input.length = _ by omega)
  simp only [cbcEncryptBuffer, hv, Option.map_some, Option.getD_some]
  rw [length_bytes, Chain.length_encrypt, length_blocks hlen, h]

end Catchb.Proofs.Cipher
