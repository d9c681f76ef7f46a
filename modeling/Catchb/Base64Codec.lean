import Catchb.Smtpc
import Mathlib.Logic.Function.Basic

/-! The coding of bytes in Base64, and back. -/

namespace Catchb.Base64Codec
open Lib Base64

/-- The characters that end an encoding, by the length of the data modulo 3. -/
def pModTable : List Nat := [0, 2, 1]

/-- Up to three bytes are taken, and four characters written. -/
def encodeLoop : List UInt8 → Text
  | [] => []
  | [a] => Base64.digits (a.toNat <<< 16)
  | [a, b] => Base64.digits (a.toNat <<< 16 ||| b.toNat <<< 8)
  | a :: b :: c :: rest =>
    Base64.digits (a.toNat <<< 16 ||| b.toNat <<< 8 ||| c.toNat) ++ encodeLoop rest

/-- The last characters are written over. -/
def encode (pData : List UInt8) (ulBuffLen : UInt32) : Except Ret (Text × UInt32) :=
  let ulDataLen := UInt32.ofNat pData.length
  let ulOutputLen := 4 * ((ulDataLen + 2) / 3)
  if ulBuffLen < ulOutputLen then .error .bufferTooSmall
  else
    let ends := List.range (pModTable.getD (ulDataLen % 3).toNat 0)
    let pBuff := ends.foldl (fun pBuff i => pBuff.set (ulOutputLen - 1 - .ofNat i).toNat '=')
      (encodeLoop pData)
    .ok (pBuff, ulOutputLen)

/-- `pDecodingTable`, which is indexed by a character's byte. -/
abbrev DecodingTable := UInt8 → Nat

def blank : DecodingTable := fun _ => 0

def build (pDecodingTable : DecodingTable) : DecodingTable :=
  Function.update ((List.range 64).foldl
    (fun t i => Function.update t (.ofNat (pEncodingTable.getD i 'A').toNat) i) pDecodingTable) 0 1

/-- The entry of the terminator says whether the table is built. -/
def built (pDecodingTable : DecodingTable) : DecodingTable :=
  if pDecodingTable 0 = 0 then build pDecodingTable else pDecodingTable

/-- What a call returns and writes, and the indices at which it reads the data. -/
structure Decoding where
  ret : Ret
  reads : List UInt32
  pBuff : List UInt8
  pulOutputLen : Option UInt32
  deriving DecidableEq

/-- An unknown character counts as zero, as does a `=` wherever it stands. -/
def sextet (pDecodingTable : DecodingTable) (c : Char) : Nat :=
  if c = '=' then 0 else pDecodingTable (.ofNat c.toNat)

def group (pDecodingTable : DecodingTable) (a b c d : Char) : Nat :=
  sextet pDecodingTable a <<< 18 ||| sextet pDecodingTable b <<< 12 |||
    sextet pDecodingTable c <<< 6 ||| sextet pDecodingTable d

def bytes (ulValue : Nat) : List UInt8 :=
  [16, 8, 0].map (fun shift => .ofNat (ulValue >>> shift % 256))

/-- The bytes that are written, and the reads, from the indices `i` and `j` on. -/
def decodeLoop (pDecodingTable : DecodingTable) (pData : UInt32 → Char)
    (ulDataLen ulOutputLen : UInt32) : Nat → UInt32 → UInt32 → List UInt8 × List UInt32
  | 0, _, _ => ([], [])
  | turns + 1, i, j =>
    if i < ulDataLen then
      let ulValue := group pDecodingTable (pData i) (pData (i + 1)) (pData (i + 2)) (pData (i + 3))
      let written := (bytes ulValue).take (min 3 (ulOutputLen - j).toNat)
      let rest := decodeLoop pDecodingTable pData ulDataLen ulOutputLen turns (i + 4) (j + 3)
      (written ++ rest.1, i :: (i + 1) :: (i + 2) :: (i + 3) :: rest.2)
    else ([], [])

/-- The two characters before the end are looked at, whatever the length. -/
def outputLen (pData : UInt32 → Char) (ulDataLen : UInt32) : UInt32 :=
  let ulOutputLen := ulDataLen / 4 * 3
  let ulOutputLen := if pData (ulDataLen - 1) = '=' then ulOutputLen - 1 else ulOutputLen
  if pData (ulDataLen - 2) = '=' then ulOutputLen - 1 else ulOutputLen

/-- `pData` is the memory from the string on. -/
def decode (pDecodingTable : DecodingTable) (pData : UInt32 → Char) (ulDataLen ulBuffLen : UInt32) :
    Decoding × DecodingTable :=
  let table := built pDecodingTable
  if ulDataLen % 4 ≠ 0 then (⟨.invalidArguments, [], [], none⟩, table)
  else
    let ends := [ulDataLen - 1, ulDataLen - 2]
    let ulOutputLen := outputLen pData ulDataLen
    if ulBuffLen < ulOutputLen then (⟨.bufferTooSmall, ends, [], none⟩, table)
    else
      let written := decodeLoop table pData ulDataLen ulOutputLen ulDataLen.toNat 0 0
      (⟨.ok, ends ++ written.2, written.1, some ulOutputLen⟩, table)

structure DecodeCall where
  pData : UInt32 → Char
  ulDataLen : UInt32
  ulBuffLen : UInt32

/-- The table is static, and blank as the program starts. -/
def tableAfter (calls : List DecodeCall) : DecodingTable :=
  calls.foldl (fun t call => (decode t call.pData call.ulDataLen call.ulBuffLen).2) blank

/-- The string that a call is given. -/
def text (pData : UInt32 → Char) (ulDataLen : UInt32) : Text :=
  (List.range ulDataLen.toNat).map (fun i => pData (.ofNat i))

end Catchb.Base64Codec
