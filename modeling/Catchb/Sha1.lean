import Catchb.Lib.Text

/-! The SHA-1 library under `FTM_HASH_SHA1`. -/

namespace Catchb.Sha1
open Lib

structure Digest where
  a : UInt32
  b : UInt32
  c : UInt32
  d : UInt32
  e : UInt32
  deriving DecidableEq

/-- `block` is the message block up to its index. -/
structure Context where
  digest : Digest
  lengthLow : UInt32
  lengthHigh : UInt32
  block : List UInt8
  computed : Bool
  corrupted : Bool

def circularShift (bits word : UInt32) : UInt32 := (word <<< bits) ||| (word >>> (32 - bits))

def reset : Context where
  digest := ⟨0x67452301, 0xEFCDAB89, 0x98BADCFE, 0x10325476, 0xC3D2E1F0⟩
  lengthLow := 0
  lengthHigh := 0
  block := []
  computed := false
  corrupted := false

/-- Four octets make a word, the first one highest. -/
def words : List UInt8 → List UInt32
  | p :: q :: r :: s :: rest =>
    ((p.toUInt32 <<< 24) ||| (q.toUInt32 <<< 16) ||| (r.toUInt32 <<< 8) ||| s.toUInt32) ::
      words rest
  | _ => []

/-- `W[t]` for the next `n` values of `t`, from `W[t-16]`, ..., `W[t-1]`. -/
def extend : Nat → List UInt32 → List UInt32
  | 0, _ => []
  | n + 1, w =>
    let next := circularShift 1 (w.getD 13 0 ^^^ w.getD 8 0 ^^^ w.getD 2 0 ^^^ w.getD 0 0)
    next :: extend n (w.drop 1 ++ [next])

def round (f : UInt32 → UInt32 → UInt32 → UInt32) (k : UInt32) (s : Digest) (w : UInt32) :
    Digest :=
  let temp := circularShift 5 s.a + f s.b s.c s.d + s.e + w + k
  ⟨temp, s.a, circularShift 30 s.b, s.c, s.d⟩

def processMessageBlock (context : Context) : Context :=
  let w := words context.block
  let w := w ++ extend 64 w
  let h := context.digest
  let s := (w.take 20).foldl (round (fun b c d => (b &&& c) ||| (~~~b &&& d)) 0x5A827999) h
  let s := ((w.drop 20).take 20).foldl (round (fun b c d => b ^^^ c ^^^ d) 0x6ED9EBA1) s
  let s := ((w.drop 40).take 20).foldl
    (round (fun b c d => (b &&& c) ||| (b &&& d) ||| (c &&& d)) 0x8F1BBCDC) s
  let s := (w.drop 60).foldl (round (fun b c d => b ^^^ c ^^^ d) 0xCA62C1D6) s
  { context with
    digest := ⟨h.a + s.a, h.b + s.b, h.c + s.c, h.d + s.d, h.e + s.e⟩
    block := [] }

def inputByte (context : Context) (byte : UInt8) : Context :=
  if context.corrupted then context
  else
    let lengthLow := context.lengthLow + 8
    let lengthHigh := if lengthLow = 0 then context.lengthHigh + 1 else context.lengthHigh
    let next := { context with
      block := context.block ++ [byte]
      lengthLow := lengthLow
      lengthHigh := lengthHigh
      corrupted := lengthLow = 0 && lengthHigh = 0 }
    if next.block.length = 64 then processMessageBlock next else next

def input (context : Context) (message : List UInt8) : Context :=
  if message.length = 0 then context
  else if context.computed || context.corrupted then { context with corrupted := true }
  else message.foldl inputByte context

def octets (x : UInt32) : List UInt8 :=
  [(x >>> 24).toUInt8, (x >>> 16).toUInt8, (x >>> 8).toUInt8, x.toUInt8]

/-- Zeros up to an index of the block. -/
def fillTo (n : Nat) (context : Context) : Context :=
  { context with block := context.block ++ List.replicate (n - context.block.length) 0 }

def padMessage (context : Context) : Context :=
  let marked := { context with block := context.block ++ [0x80] }
  let filled :=
    if context.block.length > 55 then fillTo 56 (processMessageBlock (fillTo 64 marked))
    else fillTo 56 marked
  processMessageBlock { filled with
    block := filled.block ++ octets filled.lengthHigh ++ octets filled.lengthLow }

def result (context : Context) : Option Digest :=
  if context.corrupted then none
  else if !context.computed then some (padMessage context).digest
  else some context.digest

/-- `ntohl` on a little-endian machine. -/
def ntohl (x : UInt32) : UInt32 :=
  (x <<< 24) ||| ((x &&& (0xFF00 : UInt32)) <<< 8) ||| ((x >>> 8) &&& (0xFF00 : UInt32)) ||| (x >>> 24)

def hexDigit (x : UInt32) : Char := "0123456789abcdef".toList.getD (x.toNat % 16) '0'

/-- `%08x`. -/
def hex (x : UInt32) : Text :=
  [28, 24, 20, 16, 12, 8, 4, 0].map (fun bits : UInt32 => hexDigit (x >>> bits))

/-- One word more in a buffer of 41 characters, printed with one character less room than
there is. -/
def print (buff : Text) (word : UInt32) : Text :=
  buff ++ (hex (ntohl word)).take (41 - buff.length - 1 - 1)

def printDigest (h : Digest) : Text := [h.a, h.b, h.c, h.d, h.e].foldl print []

def byte (c : Char) : UInt8 := UInt8.ofNat c.toNat

/-- `FTM_HASH_SHA1` into a zeroed buffer of 64 characters. -/
def hashSHA1 (data : Text) : Field 63 :=
  match result (input reset (data.map byte)) with
  | none => Field.empty 63
  | some digest => Field.copy 63 (printDigest digest)

/-- What `FTM_HASH_SHA1` leaves of a digest as a string in a buffer of `ulBufferSize` characters;
`pValue` is the memory from the buffer on. -/
def value (ulBufferSize : UInt32) (pValue : List Char) (digest : Digest) : Text :=
  cstr (strncpy ulBufferSize.toNat pValue (printDigest digest))

@[simp] theorem length_hex (x : UInt32) : (hex x).length = 8 := rfl

/-- The room runs out one digit before the end. -/
theorem length_printDigest (h : Digest) : (printDigest h).length = 39 := by
  simp [printDigest, print]

theorem inputByte_lengthLow (context : Context) (b : UInt8) (hc : context.corrupted = false) :
    (inputByte context b).lengthLow = context.lengthLow + 8 := by
  simp only [inputByte, hc, Bool.false_eq_true, ↓reduceIte]
  split <;> rfl

theorem inputByte_corrupted {context : Context} (b : UInt8) (hc : context.corrupted = false)
    (hl : context.lengthLow + 8 ≠ 0) : (inputByte context b).corrupted = false := by
  simp only [inputByte, hc, Bool.false_eq_true, ↓reduceIte, hl, decide_false, Bool.false_and]
  split <;> rfl

/-- The length counter does not run over on a message that fits it. -/
theorem foldl_inputByte_corrupted {message : List UInt8} {context : Context}
    (hc : context.corrupted = false)
    (hl : context.lengthLow.toNat + 8 * message.length < UInt32.size) :
    (message.foldl inputByte context).corrupted = false := by
  induction message generalizing context with
  | nil => exact hc
  | cons b message ih =>
    rw [List.length_cons] at hl
    have hnext : (context.lengthLow + 8).toNat = context.lengthLow.toNat + 8 := by
      have hfits : context.lengthLow.toNat + 8 < UInt32.size := by omega
      rw [UInt32.toNat_add]
      exact Nat.mod_eq_of_lt hfits
    have hne : context.lengthLow + 8 ≠ 0 := by
      intro h0
      rw [h0] at hnext
      simp at hnext
    apply ih (inputByte_corrupted b hc hne)
    rw [inputByte_lengthLow context b hc, hnext]
    omega

theorem length_hashSHA1 {data : Text} (h : 8 * data.length < UInt32.size) :
    (hashSHA1 data).val.length = 39 := by
  have hcor : (input reset (data.map byte)).corrupted = false := by
    unfold input
    split
    · rfl
    · exact foldl_inputByte_corrupted rfl (by simpa [reset] using h)
  obtain ⟨digest, hd⟩ : ∃ digest, result (input reset (data.map byte)) = some digest := by
    simp only [result, hcor, Bool.false_eq_true, ↓reduceIte]
    split
    · exact ⟨_, rfl⟩
    · exact ⟨_, rfl⟩
  simp [hashSHA1, hd, Field.copy, length_printDigest]

end Catchb.Sha1
