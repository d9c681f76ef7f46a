import Mathlib.Tactic.IntervalCases
import Catchb.Sha1

/-! What is lost of a digest when it is printed. -/

namespace Catchb.Proofs.HashDigits
open Lib Sha1

/-- All digits of a digest. -/
def digits (h : Digest) : Text := [h.a, h.b, h.c, h.d, h.e].flatMap (fun word => hex (ntohl word))

/-- The digests are told apart, and each is printed as a whole. -/
def Lossless (ulBufferSize : UInt32) (pValue : List Char) (h₁ h₂ : Digest) : Prop :=
  value ulBufferSize pValue h₁ ≠ value ulBufferSize pValue h₂ ∧
    value ulBufferSize pValue h₁ = digits h₁ ∧ value ulBufferSize pValue h₂ = digits h₂

/-- The digests differ in nothing but their last digit. -/
def SameButLast (h₁ h₂ : Digest) : Prop :=
  h₁.a = h₂.a ∧ h₁.b = h₂.b ∧ h₁.c = h₂.c ∧ h₁.d = h₂.d ∧
    (ntohl h₁.e).toNat / 16 = (ntohl h₂.e).toNat / 16

section
variable {x y : UInt32} {h₁ h₂ : Digest}

theorem hexDigit_inj (h : hexDigit x = hexDigit y) : x.toNat % 16 = y.toNat % 16 := by
  have hall : ∀ m < 16, ∀ n < 16, "0123456789abcdef".toList.getD m '0' =
      "0123456789abcdef".toList.getD n '0' → m = n := by decide
  exact hall _ (Nat.mod_lt _ (by decide)) _ (Nat.mod_lt _ (by decide)) h

/-- Seven digits have all but four bits of a word. -/
theorem take_hex_inj : (hex x).take 7 = (hex y).take 7 ↔ x.toNat / 16 = y.toNat / 16 := by
  have hdigit : ∀ bits : UInt32, 4 ≤ bits.toNat % 32 → x.toNat / 16 = y.toNat / 16 →
      hexDigit (x >>> bits) = hexDigit (y >>> bits) := by
    intro bits hbits h
    obtain ⟨k, hk⟩ := Nat.exists_eq_add_of_le hbits
    have hshift : ∀ z : UInt32, (z >>> bits).toNat = z.toNat / 16 / 2 ^ k := by
      intro z
      rw [UInt32.toNat_shiftRight, hk, Nat.shiftRight_eq_div_pow, Nat.pow_add,
        Nat.div_div_eq_div_mul]
    rw [hexDigit, hexDigit, hshift, hshift, h]
  simp only [hex, List.map_cons, List.map_nil, List.take_succ_cons, List.take_zero,
    List.cons.injEq, and_true]
  constructor
  · rintro ⟨h28, h24, h20, h16, h12, h8, h4⟩
    have d28 := hexDigit_inj h28
    have d24 := hexDigit_inj h24
    have d20 := hexDigit_inj h20
    have d16 := hexDigit_inj h16
    have d12 := hexDigit_inj h12
    have d8 := hexDigit_inj h8
    have d4 := hexDigit_inj h4
    have hx := x.toNat_lt
    have hy := y.toNat_lt
    simp only [UInt32.toNat_shiftRight, Nat.shiftRight_eq_div_pow, UInt32.reduceToNat,
      Nat.reduceMod, Nat.reducePow] at d28 d24 d20 d16 d12 d8 d4 hx hy
    omega
  · intro h
    exact ⟨hdigit 28 (by decide) h, hdigit 24 (by decide) h, hdigit 20 (by decide) h,
      hdigit 16 (by decide) h, hdigit 12 (by decide) h, hdigit 8 (by decide) h,
      hdigit 4 (by decide) h⟩

theorem hex_inj : hex x = hex y ↔ x = y := by
  constructor
  · intro h
    have hhigh := take_hex_inj.mp (congrArg (List.take 7) h)
    have hlast : hexDigit (x >>> 0) = hexDigit (y >>> 0) := by
      simp only [hex, List.map_cons, List.map_nil, List.cons.injEq] at h
      exact h.2.2.2.2.2.2.2.1
    have hlow := hexDigit_inj hlast
    rw [UInt32.shiftRight_zero, UInt32.shiftRight_zero] at hlow
    exact UInt32.toNat_inj.mp (by omega)
  · rintro rfl
    rfl

theorem getLsbD_ntohl (x : UInt32) {i : Nat} (hi : i < 8) :
    (ntohl x).toBitVec.getLsbD i = x.toBitVec.getLsbD (i + 24) ∧
    (ntohl x).toBitVec.getLsbD (i + 8) = x.toBitVec.getLsbD (i + 16) ∧
    (ntohl x).toBitVec.getLsbD (i + 16) = x.toBitVec.getLsbD (i + 8) ∧
    (ntohl x).toBitVec.getLsbD (i + 24) = x.toBitVec.getLsbD i := by
  unfold ntohl
  interval_cases i <;> simp

theorem ntohl_ntohl (x : UInt32) : ntohl (ntohl x) = x := by
  apply UInt32.toBitVec_inj.mp
  apply BitVec.eq_of_getLsbD_eq
  intro i hi
  have hlt : i % 8 < 8 := Nat.mod_lt _ (by decide)
  obtain ⟨hy0, hy8, hy16, hy24⟩ := getLsbD_ntohl (ntohl x) hlt
  obtain ⟨hx0, hx8, hx16, hx24⟩ := getLsbD_ntohl x hlt
  have hbyte : i = i % 8 + 0 ∨ i = i % 8 + 8 ∨ i = i % 8 + 16 ∨ i = i % 8 + 24 := by omega
  rcases hbyte with h | h | h | h
  · rw [h, Nat.add_zero, hy0, hx24]
  · rw [h, hy8, hx16]
  · rw [h, hy16, hx8]
  · rw [h, hy24, hx0]

theorem ntohl_inj : ntohl x = ntohl y ↔ x = y := by
  constructor
  · intro h
    rw [← ntohl_ntohl x, h, ntohl_ntohl]
  · rintro rfl
    rfl

/-- Only the last word finds less room than it needs. -/
theorem printDigest_eq (h : Digest) : printDigest h = hex (ntohl h.a) ++ (hex (ntohl h.b) ++
    (hex (ntohl h.c) ++ (hex (ntohl h.d) ++ (hex (ntohl h.e)).take 7))) := by
  have hroom : ∀ n x, 8 ≤ n → (hex x).take n = hex x := fun n x hn => List.take_of_length_le hn
  simp [printDigest, print, hroom]

theorem nul_not_mem_hex (x : UInt32) : '\x00' ∉ hex x := by
  have hall : ∀ n < 16, "0123456789abcdef".toList.getD n '0' ≠ '\x00' := by decide
  intro hmem
  obtain ⟨bits, -, h⟩ := List.mem_map.mp hmem
  exact hall _ (Nat.mod_lt _ (by decide)) h

/-- A buffer that is large enough for all digits gets what was printed. -/
theorem value_eq {ulBufferSize : UInt32} (hsize : 41 ≤ ulBufferSize) (pValue : List Char)
    (h : Digest) : value ulBufferSize pValue h = printDigest h := by
  have hle : 41 ≤ ulBufferSize.toNat := UInt32.le_iff_toNat_le.mp hsize
  have hlen := length_printDigest h
  apply cstr_strncpy pValue _ (by omega)
  rw [printDigest_eq]
  simp only [List.mem_append, nul_not_mem_hex, false_or]
  exact fun hmem => nul_not_mem_hex _ (List.mem_of_mem_take hmem)

theorem length_digits (h : Digest) : (digits h).length = 40 := by
  simp [digits]

theorem hex_append_inj {t u : Text} :
    hex (ntohl x) ++ t = hex (ntohl y) ++ u ↔ x = y ∧ t = u := by
  constructor
  · intro h
    have hlen : (hex (ntohl x)).length = (hex (ntohl y)).length := by rw [length_hex, length_hex]
    obtain ⟨hxy, htu⟩ := List.append_inj h hlen
    exact ⟨ntohl_inj.mp (hex_inj.mp hxy), htu⟩
  · rintro ⟨rfl, rfl⟩
    rfl

theorem printDigest_inj : printDigest h₁ = printDigest h₂ ↔ SameButLast h₁ h₂ := by
  rw [printDigest_eq, printDigest_eq, hex_append_inj, hex_append_inj, hex_append_inj,
    hex_append_inj, take_hex_inj, SameButLast]

/-- All digits would tell the digests apart. -/
theorem digits_inj : digits h₁ = digits h₂ ↔ h₁ = h₂ := by
  simp only [digits, List.flatMap_cons, List.flatMap_nil]
  rw [hex_append_inj, hex_append_inj, hex_append_inj, hex_append_inj, hex_append_inj]
  obtain ⟨a₁, b₁, c₁, d₁, e₁⟩ := h₁
  obtain ⟨a₂, b₂, c₂, d₂, e₂⟩ := h₂
  simp only [and_true, Digest.mk.injEq]

/-- No digest is printed as a whole, and those that differ in their last digit alone are printed
as one. -/
theorem digit_lost {ulBufferSize : UInt32} (hsize : 41 ≤ ulBufferSize) (pValue : List Char)
    (h₁ h₂ : Digest) : ¬Lossless ulBufferSize pValue h₁ h₂ ∧
      (value ulBufferSize pValue h₁ = value ulBufferSize pValue h₂ ↔ SameButLast h₁ h₂) := by
  have hvalue := value_eq hsize pValue
  constructor
  · rintro ⟨-, hwhole, -⟩
    have hlen := congrArg List.length hwhole
    rw [hvalue, length_printDigest, length_digits] at hlen
    cases hlen
  · rw [hvalue, hvalue, printDigest_inj]

end

/-- The digests `0` and `1`. -/
def zero : Digest := ⟨0, 0, 0, 0, 0⟩

def one : Digest := ⟨0, 0, 0, 0, 0x01000000⟩

theorem one_reads_zero : zero ≠ one ∧ value 64 [] zero = value 64 [] one :=
  ⟨by decide, (digit_lost (by decide) [] zero one).2.mpr ⟨rfl, rfl, rfl, rfl, rfl⟩⟩

/-- They are printed alike. -/
theorem distinct_digests_alike : ¬∀ (ulBufferSize : UInt32) (pValue : List Char) (h₁ h₂ : Digest),
    41 ≤ ulBufferSize → h₁ ≠ h₂ → Lossless ulBufferSize pValue h₁ h₂ := by
  intro h
  have hone := (h 64 [] zero one (by decide) (by decide)).1
  rw [value_eq (by decide), value_eq (by decide)] at hone
  exact hone (printDigest_inj.mpr ⟨rfl, rfl, rfl, rfl, rfl⟩)

end Catchb.Proofs.HashDigits
