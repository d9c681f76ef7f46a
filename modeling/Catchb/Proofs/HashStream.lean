import Mathlib.Algebra.GroupWithZero.Nat
import Catchb.Lib.Absorb
import Catchb.Sha1

/-! The digest of a message, however the message is passed on in pieces. -/

namespace Catchb.Proofs.HashStream
open Lib Sha1
open Absorb (blocks rest push)

/-- The function of a round. -/
def f (t : Nat) (b c d : UInt32) : UInt32 :=
  if t < 20 then (b &&& c) ||| (~~~b &&& d)
  else if t < 40 then b ^^^ c ^^^ d
  else if t < 60 then (b &&& c) ||| (b &&& d) ||| (c &&& d)
  else b ^^^ c ^^^ d

/-- The constant of a round. -/
def k (t : Nat) : UInt32 :=
  if t < 20 then 0x5A827999
  else if t < 40 then 0x6ED9EBA1
  else if t < 60 then 0x8F1BBCDC
  else 0xCA62C1D6

/-- The first words of the message schedule. -/
def schedule (block : List UInt8) : Nat → List UInt32
  | 0 => []
  | t + 1 =>
    let w := schedule block t
    let next := if t < 16 then (words block).getD t 0 else circularShift 1
      (w.getD (t - 3) 0 ^^^ w.getD (t - 8) 0 ^^^ w.getD (t - 14) 0 ^^^ w.getD (t - 16) 0)
    w ++ [next]

def compress (h : Digest) (block : List UInt8) : Digest :=
  let w := schedule block 80
  let s := (List.range 80).foldl (fun s t => round (f t) (k t) s (w.getD t 0)) h
  ⟨h.a + s.a, h.b + s.b, h.c + s.c, h.d + s.d, h.e + s.e⟩

/-- What is put behind a message of `n` bytes: a bit, zeros, and the number of its bits. -/
def padding (n : Nat) : List UInt8 :=
  0x80 :: List.replicate ((119 - n % 64) % 64) 0 ++
    (octets (.ofNat (8 * n / 2 ^ 32)) ++ octets (.ofNat (8 * n)))

/-- The digest of a message. -/
def digest (message : List UInt8) : Digest :=
  (blocks 64 (message ++ padding message.length)).foldl compress reset.digest

variable {c : Context} {m block : List UInt8} {w : List UInt32} {b : UInt8}

theorem length_words (bytes : List UInt8) : (words bytes).length = bytes.length / 4 := by
  induction bytes using words.induct with
  | case1 p q r s rest ih =>
    simp only [words, List.length_cons, ih]
    omega
  | case2 bytes h =>
    match bytes, h with
    | [], _ | [_], _ | [_, _], _ | [_, _, _], _ => simp [words]
    | p :: q :: r :: s :: rest, h => exact absurd rfl (h p q r s rest)

@[simp] theorem length_schedule (block : List UInt8) (t : Nat) : (schedule block t).length = t := by
  induction t with
  | zero => rfl
  | succ t ih => simp [schedule, ih]

/-- The first words of the schedule are those of the block. -/
theorem schedule_words (h : (words block).length = 16) {t : Nat} (ht : t ≤ 16) :
    schedule block t = (words block).take t := by
  induction t with
  | zero => rfl
  | succ t ih =>
    have hlt : t < (words block).length := by omega
    simp only [schedule, ih (Nat.le_of_succ_le ht), show t < 16 from ht, ↓reduceIte]
    rw [List.take_add_one, List.getD_eq_getElem?_getD, List.getElem?_eq_getElem hlt]
    rfl

/-- The others are computed from the sixteen words before. -/
theorem schedule_extend {t : Nat} (ht : 16 ≤ t) (n : Nat) :
    schedule block t ++ extend n ((schedule block t).drop (t - 16)) = schedule block (t + n) := by
  induction n generalizing t with
  | zero => simp [extend]
  | succ n ih =>
    have hget : ∀ i, ((schedule block t).drop (t - 16)).getD i 0 =
        (schedule block t).getD (t - 16 + i) 0 := by
      intro i
      simp [List.getD_eq_getElem?_getD, List.getElem?_drop]
    have hnext := ih (Nat.le_succ_of_le ht)
    have h13 : t - 16 + 13 = t - 3 := by omega
    have h8 : t - 16 + 8 = t - 8 := by omega
    have h2 : t - 16 + 2 = t - 14 := by omega
    have hone : t + 1 - 16 = t - 16 + 1 := by omega
    have hlen : t - 16 + 1 ≤ (schedule block t).length := by
      rw [length_schedule]
      omega
    simp only [schedule, show ¬t < 16 by omega, ↓reduceIte, hone,
      List.drop_append_of_le_length hlen] at hnext
    simp only [extend, hget, h13, h8, h2, Nat.add_zero, List.drop_drop]
    rw [List.append_cons, hnext]
    congr 1
    omega

theorem foldl_part {g : UInt32 → UInt32 → UInt32 → UInt32} {q : UInt32} (a n : Nat)
    (hlen : a + n ≤ w.length) (hg : ∀ t, a ≤ t → t < a + n → f t = g ∧ k t = q) (s : Digest) :
    ((w.drop a).take n).foldl (round g q) s =
      (List.range' a n).foldl (fun s t => round (f t) (k t) s (w.getD t 0)) s := by
  induction n generalizing a s with
  | zero => rfl
  | succ n ih =>
    have hlt : a < w.length := by omega
    obtain ⟨hf, hk⟩ := hg a (Nat.le_refl a) (by omega)
    have hget : w.getD a 0 = w[a] := by
      rw [List.getD_eq_getElem?_getD, List.getElem?_eq_getElem hlt]
      rfl
    rw [List.drop_eq_getElem_cons hlt, List.take_succ_cons, List.foldl_cons, List.range'_succ,
      List.foldl_cons, hf, hk, hget]
    exact ih (a + 1) (by omega) (fun t hat htn => hg t (by omega) (by omega)) _

/-- The first loop, and the others, by the numbers of their rounds. -/
theorem first_rounds (t : Nat) (_ : 0 ≤ t) (ht : t < 0 + 20) :
    f t = (fun b c d => (b &&& c) ||| (~~~b &&& d)) ∧ k t = 0x5A827999 := by
  rw [Nat.zero_add] at ht
  exact ⟨funext fun b => funext fun c => funext fun d => if_pos ht, if_pos ht⟩

theorem second_rounds (t : Nat) (h : 20 ≤ t) (ht : t < 20 + 20) :
    f t = (fun b c d => b ^^^ c ^^^ d) ∧ k t = 0x6ED9EBA1 := by
  have h20 : ¬t < 20 := Nat.not_lt.mpr h
  unfold f k
  simp [h20, ht]

theorem third_rounds (t : Nat) (h : 40 ≤ t) (ht : t < 40 + 20) :
    f t = (fun b c d => (b &&& c) ||| (b &&& d) ||| (c &&& d)) ∧ k t = 0x8F1BBCDC := by
  have h20 : ¬t < 20 := by omega
  have h40 : ¬t < 40 := Nat.not_lt.mpr h
  unfold f k
  simp [h20, h40, ht]

theorem fourth_rounds (t : Nat) (h : 60 ≤ t) (_ : t < 60 + 20) :
    f t = (fun b c d => b ^^^ c ^^^ d) ∧ k t = 0xCA62C1D6 := by
  have h20 : ¬t < 20 := by omega
  have h40 : ¬t < 40 := by omega
  have h60 : ¬t < 60 := Nat.not_lt.mpr h
  unfold f k
  simp [h20, h40, h60]

/-- The four loops are the rounds one after the other. -/
theorem processMessageBlock_compress (h : c.block.length = 64) :
    (processMessageBlock c).digest = compress c.digest c.block := by
  have hwords : (words c.block).length = 16 := by rw [length_words, h]
  have hfirst : schedule c.block 16 = words c.block := by
    rw [schedule_words hwords (Nat.le_refl 16), ← hwords, List.take_length]
  have hall : words c.block ++ extend 64 (words c.block) = schedule c.block 80 := by
    have hextend := @schedule_extend c.block _ (Nat.le_refl 16) 64
    rwa [Nat.sub_self, List.drop_zero, hfirst] at hextend
  have hrounds : List.range 80 =
      List.range' 0 20 ++ List.range' 20 20 ++ List.range' 40 20 ++ List.range' 60 20 := by
    decide
  have hlen := length_schedule c.block 80
  simp only [processMessageBlock, hall, compress, hrounds, List.foldl_append]
  generalize schedule c.block 80 = w at hlen
  have hlast : w.drop 60 = (w.drop 60).take 20 := by
    rw [List.take_of_length_le]
    rw [List.length_drop, hlen]
  rw [hlast, ← foldl_part 0 20 (by omega) first_rounds, ← foldl_part 20 20 (by omega) second_rounds,
    ← foldl_part 40 20 (by omega) third_rounds, ← foldl_part 60 20 (by omega) fourth_rounds,
    List.drop_zero]

/-- A context that has been given a message. -/
structure Fed (c : Context) (m : List UInt8) : Prop where
  computed : c.computed = false
  corrupted : c.corrupted = true ↔ 2 ^ 64 ≤ 8 * m.length
  low : c.corrupted = false → c.lengthLow = .ofNat (8 * m.length)
  high : c.corrupted = false → c.lengthHigh = .ofNat (8 * m.length / 2 ^ 32)
  state : c.corrupted = false →
    (c.digest, c.block) = ((blocks 64 m).foldl compress reset.digest, rest 64 m)

theorem reset_fed : Fed reset [] :=
  ⟨rfl, by simp [reset], fun _ => rfl, fun _ => rfl, fun _ => rfl⟩

/-- A byte goes into the block, which is processed when it is full. -/
theorem inputByte_state (hc : c.corrupted = false) :
    ((inputByte c b).digest, (inputByte c b).block) = push 64 compress (c.digest, c.block) b := by
  simp only [inputByte, hc, Bool.false_eq_true, ↓reduceIte, push]
  by_cases hfull : (c.block ++ [b]).length = 64
  · simp only [hfull, ↓reduceIte]
    refine Prod.ext ?_ rfl
    exact processMessageBlock_compress hfull
  · simp only [hfull, ↓reduceIte]

theorem inputByte_counts (hc : c.corrupted = false) :
    (inputByte c b).computed = c.computed ∧ (inputByte c b).lengthLow = c.lengthLow + 8 ∧
      (inputByte c b).lengthHigh =
        (if c.lengthLow + 8 = 0 then c.lengthHigh + 1 else c.lengthHigh) ∧
      (inputByte c b).corrupted =
        (c.lengthLow + 8 = 0 && (if c.lengthLow + 8 = 0 then c.lengthHigh + 1 else c.lengthHigh) = 0) := by
  simp only [inputByte, hc, Bool.false_eq_true, ↓reduceIte]
  split <;> exact ⟨rfl, rfl, rfl, rfl⟩

theorem ofNat_eq_zero {n : Nat} : UInt32.ofNat n = 0 ↔ 2 ^ 32 ∣ n := by
  rw [← UInt32.toNat_inj, UInt32.toNat_ofNat']
  exact (Nat.dvd_iff_mod_eq_zero).symm

/-- The two words of the length are one counter of the message's bits. -/
theorem inputByte_fed (h : Fed c m) (b : UInt8) : Fed (inputByte c b) (m ++ [b]) := by
  have hlength : (m ++ [b]).length = m.length + 1 := by simp
  by_cases hc : c.corrupted = true
  · have hsame : inputByte c b = c := by simp [inputByte, hc]
    have hlong := h.corrupted.mp hc
    have hnot : c.corrupted ≠ false := by simp [hc]
    rw [hsame]
    refine ⟨h.computed, ?_, fun hf => absurd hf hnot, fun hf => absurd hf hnot,
      fun hf => absurd hf hnot⟩
    rw [hlength]
    exact ⟨fun _ => by omega, fun _ => hc⟩
  · have hc' : c.corrupted = false := by simpa using hc
    have hshort : ¬2 ^ 64 ≤ 8 * m.length := fun hlong => hc (h.corrupted.mpr hlong)
    obtain ⟨hcomputed, hlow, hhigh, hcorrupted⟩ := inputByte_counts (b := b) hc'
    have hlow' : c.lengthLow + 8 = .ofNat (8 * (m.length + 1)) := by
      rw [h.low hc', Nat.mul_add, UInt32.ofNat_add]
      rfl
    have hhigh' : (if c.lengthLow + 8 = 0 then c.lengthHigh + 1 else c.lengthHigh) =
        .ofNat (8 * (m.length + 1) / 2 ^ 32) := by
      rw [hlow', h.high hc']
      by_cases hzero : 2 ^ 32 ∣ 8 * (m.length + 1)
      · have hcarry : 8 * (m.length + 1) / 2 ^ 32 = 8 * m.length / 2 ^ 32 + 1 := by omega
        rw [if_pos (ofNat_eq_zero.mpr hzero), hcarry, UInt32.ofNat_add]
        rfl
      · have hcarry : 8 * (m.length + 1) / 2 ^ 32 = 8 * m.length / 2 ^ 32 := by omega
        rw [if_neg (fun h0 => hzero (ofNat_eq_zero.mp h0)), hcarry]
    refine ⟨hcomputed.trans h.computed, ?_, fun _ => ?_, fun _ => ?_, fun _ => ?_⟩
    · rw [hcorrupted, hlength, hhigh', hlow']
      simp only [Bool.and_eq_true, decide_eq_true_eq, ofNat_eq_zero]
      omega
    · rw [hlow, hlow', hlength]
    · rw [hhigh, hhigh', hlength]
    · have hfold := Absorb.foldl_push_nil compress (show 0 < 64 by decide)
      rw [inputByte_state hc', h.state hc', ← hfold reset.digest m, ← hfold reset.digest (m ++ [b]),
        List.foldl_append]
      rfl

theorem foldl_fed (h : Fed c m) (bytes : List UInt8) :
    Fed (bytes.foldl inputByte c) (m ++ bytes) := by
  induction bytes generalizing c m with
  | nil => simpa using h
  | cons b bytes ih =>
    have hrest := ih (inputByte_fed h b)
    rwa [List.append_assoc] at hrest

theorem foldl_corrupted (hc : c.corrupted = true) (bytes : List UInt8) :
    bytes.foldl inputByte c = c := by
  induction bytes with
  | nil => rfl
  | cons b bytes ih =>
    have hsame : inputByte c b = c := by simp [inputByte, hc]
    rw [List.foldl_cons, hsame, ih]

/-- A piece of a message. Nothing more is taken once the message is too long. -/
theorem input_fed (h : Fed c m) (piece : List UInt8) : Fed (input c piece) (m ++ piece) := by
  unfold input
  by_cases hnil : piece.length = 0
  · rw [if_pos hnil, List.eq_nil_of_length_eq_zero hnil, List.append_nil]
    exact h
  · have hfed := foldl_fed h piece
    rw [if_neg hnil]
    cases hc : c.corrupted with
    | false =>
      rw [h.computed]
      exact hfed
    | true =>
      have hsame : { c with corrupted := true } = c := by rw [← hc]
      rw [Bool.or_true, if_pos rfl, hsame]
      rwa [foldl_corrupted hc] at hfed

theorem pieces_fed (h : Fed c m) (pieces : List (List UInt8)) :
    Fed (pieces.foldl input c) (m ++ pieces.flatten) := by
  induction pieces generalizing c m with
  | nil => simpa using h
  | cons piece pieces ih =>
    have hrest := ih (input_fed h piece)
    rwa [List.append_assoc] at hrest

/-- The padding behind what is left of a message, with the length as it is counted. -/
def behind (c : Context) : List UInt8 :=
  0x80 :: List.replicate ((119 - c.block.length % 64) % 64) 0 ++
    (octets c.lengthHigh ++ octets c.lengthLow)

/-- The block that has no room for the length, and the one that has nothing else. -/
def filled (c : Context) : List UInt8 :=
  c.block ++ 0x80 :: List.replicate (63 - c.block.length) 0

def last (c : Context) : List UInt8 :=
  List.replicate 56 0 ++ (octets c.lengthHigh ++ octets c.lengthLow)

/-- Where the block has no room for the length, it takes a second block. -/
theorem padMessage_compress (hblock : c.block.length < 64) :
    (padMessage c).digest = (blocks 64 (c.block ++ behind c)).foldl compress c.digest := by
  have h64 : 0 < 64 := by decide
  have hone : ∀ last : List UInt8, last.length = 64 → blocks 64 last = [last] := by
    intro last hlast
    have hcons := Absorb.blocks_append h64 hlast []
    rwa [List.append_nil] at hcons
  have hmod : c.block.length % 64 = c.block.length := Nat.mod_eq_of_lt hblock
  by_cases hroom : c.block.length > 55
  · have hzeros : (119 - c.block.length % 64) % 64 = (63 - c.block.length) + 56 := by omega
    have hsplit : c.block ++ behind c = filled c ++ last c := by
      simp only [behind, filled, last, hzeros, List.replicate_add, List.cons_append,
        List.append_assoc]
    have hlast : (last c).length = 64 := by simp [last, octets]
    have hfilled : (filled c).length = 64 := by
      rw [filled, List.length_append, List.length_cons, List.length_replicate]
      omega
    have hpad : padMessage c = processMessageBlock
        { processMessageBlock { c with block := filled c } with block := last c } := by
      have hfill : 64 - (c.block.length + 1) = 63 - c.block.length := by omega
      simp [padMessage, fillTo, hroom, filled, last, hfill, processMessageBlock]
    rw [hpad, processMessageBlock_compress hlast, processMessageBlock_compress hfilled, hsplit,
      Absorb.blocks_append h64 hfilled, hone _ hlast]
    rfl
  · have hzeros : (119 - c.block.length % 64) % 64 = 55 - c.block.length := by omega
    have hlen : (c.block ++ behind c).length = 64 := by
      simp only [behind, hzeros, octets, List.length_append, List.length_cons, List.length_nil,
        List.length_replicate]
      omega
    have hpad : padMessage c = processMessageBlock { c with block := c.block ++ behind c } := by
      have hfill : 56 - (c.block.length + 1) = 55 - c.block.length := by omega
      simp only [padMessage, if_neg hroom, fillTo, behind, hzeros, List.length_append,
        List.length_singleton, hfill, List.append_assoc, List.cons_append, List.nil_append]
    rw [hpad, processMessageBlock_compress hlen, hone _ hlen]
    rfl

/-- A message is hashed as a whole, whatever the pieces are that it is passed on in, unless it has
too many bits for the counter. -/
theorem pieces_hashed (pieces : List (List UInt8)) : result (pieces.foldl input reset) =
    if 8 * pieces.flatten.length < 2 ^ 64 then some (digest pieces.flatten) else none := by
  have hfed : Fed (pieces.foldl input reset) pieces.flatten := pieces_fed reset_fed pieces
  generalize pieces.foldl input reset = c at hfed
  generalize pieces.flatten = m at hfed
  unfold result
  cases hc : c.corrupted with
  | true =>
    have hlong := hfed.corrupted.mp hc
    rw [if_pos rfl, if_neg (Nat.not_lt.mpr hlong)]
  | false =>
    have hshort : 8 * m.length < 2 ^ 64 := by
      by_contra hlong
      have htrue := hfed.corrupted.mpr (Nat.le_of_not_lt hlong)
      rw [hc] at htrue
      cases htrue
    obtain ⟨hdigest, hblock⟩ := Prod.mk.inj (hfed.state hc)
    have hlen : c.block.length < 64 := hblock ▸ Absorb.length_rest (by decide) m
    have hleft : c.block.length % 64 = m.length % 64 := by
      rw [hblock, rest, List.length_drop]
      omega
    have hbehind : behind c = padding m.length := by
      rw [behind, padding, hleft, hfed.low hc, hfed.high hc]
    rw [if_pos hshort, hfed.computed]
    simp only [Bool.false_eq_true, ↓reduceIte, Bool.not_false]
    rw [padMessage_compress hlen, hbehind, hdigest, hblock, digest,
      Absorb.foldl_blocks_append (by decide) _ m]

end Catchb.Proofs.HashStream
