import Catchb.Aes
import Catchb.SwitchStore

/-! The logins of the switches, which the database holds encrypted. -/

namespace Catchb
open Lib

/-- What a `char x[33]` array of a login holds, in bytes. -/
abbrev Secret := {t : List UInt8 // t.length ≤ 32 ∧ 0 ∉ t}

/-- A block on the stack, as the calls before have left it. -/
abbrev StackBlock := Vector UInt8 128

namespace Credentials

def pEncryptKey : List UInt8 :=
  [0x00, 0x01, 0x02, 0x03, 0x04, 0x05, 0x06, 0x07, 0x08, 0x09, 0x0a, 0x0b, 0x0c, 0x0d, 0x0f, 0x00]

def pPasswdIV : List UInt8 := "passwordpassword".toList.map (fun c => UInt8.ofNat c.toNat)

def pUserIDIV : List UInt8 := "userid00userid00".toList.map (fun c => UInt8.ofNat c.toNat)

/-- `%02x`. -/
def hexByte (b : UInt8) : Text := [Nat.digitChar (b.toNat / 16), Nat.digitChar (b.toNat % 16)]

def encrypt (pIV pPasswd : List UInt8) (ulBufferLen : Nat) : Except Ret Text :=
  let ulBlockLen := (pPasswd.length + 15) / 16 * 16
  if ulBufferLen ≤ ulBlockLen * 2 then .error .bufferTooSmall
  else
    let pBlock := pPasswd ++ List.replicate (ulBlockLen - pPasswd.length) 0
    .ok ((Aes.cbcEncryptBuffer pBlock pEncryptKey pIV).flatMap hexByte)

def hexDigit (c : Char) : Option UInt8 :=
  if '0' ≤ c ∧ c ≤ '9' then some (UInt8.ofNat (c.toNat - '0'.toNat))
  else if 'a' ≤ c ∧ c ≤ 'f' then some (UInt8.ofNat (c.toNat - 'a'.toNat + 10))
  else if 'A' ≤ c ∧ c ≤ 'F' then some (UInt8.ofNat (c.toNat - 'A'.toNat + 10))
  else none

def hexBytes : Text → Option (List UInt8)
  | h :: l :: rest =>
    match hexDigit h, hexDigit l, hexBytes rest with
    | some h, some l, some bytes => some ((h <<< 4 ||| l) :: bytes)
    | _, _, _ => none
  | _ => some []

/-- `strncpy` stops at the first terminator, wherever in the memory it stands. -/
def strncpy (n : Nat) (bytes : List UInt8) : List UInt8 := (bytes.takeWhile (· ≠ 0)).take n

/-- Only the part of `pDecryptedBlock` that is decrypted is cleared before. -/
def decrypt (pIV : List UInt8) (pBuffer : Text) (pDecryptedBlock : StackBlock)
    (ulPasswdLen : Nat) : Except Ret (List UInt8) :=
  let ulBlockLen := pBuffer.length / 2
  if pBuffer.length % 32 ≠ 0 then .error .invalidArguments
  else
    match hexBytes pBuffer with
    | none => .error .invalidArguments
    | some pBlock =>
      let decrypted := Aes.cbcDecryptBuffer pBlock pEncryptKey pIV
      .ok (strncpy ulPasswdLen (decrypted ++ pDecryptedBlock.toList.drop ulBlockLen))

def encryptPasswd : List UInt8 → Nat → Except Ret Text := encrypt pPasswdIV

def decryptPasswd : Text → StackBlock → Nat → Except Ret (List UInt8) := decrypt pPasswdIV

def encryptUserID : List UInt8 → Nat → Except Ret Text := encrypt pUserIDIV

def decryptUserID : Text → StackBlock → Nat → Except Ret (List UInt8) := decrypt pUserIDIV

end Credentials

structure Login where
  userID : Secret
  passwd : Secret

namespace DB
open Credentials Sql

/-- A buffer that was cleared before it is filled, where it is. -/
def filled {α : Type*} (buffer : Except Ret (List α)) : List α := buffer.toOption.getD []

def encryptedID (pUser : List UInt8) : Text := filled (encryptUserID pUser 65)

def encryptedPasswd (pPasswd : List UInt8) : Text := filled (encryptPasswd pPasswd 65)

/-- The row that `INSERT` makes of a switch. -/
def loginRow (t : SwitchTable) (r : Row) (config : SwitchConfig) (login : Login) : Row :=
  t.table.assign r
    (switchValues config (encryptedID login.userID.val) (encryptedPasswd login.passwd.val))

/-- What `FTM_DB_getSwitchListCB` makes of the two columns. Each call finds its own stack. -/
def getLogin (r : Row) (userStack passwdStack : StackBlock) : List UInt8 × List UInt8 :=
  (filled (decryptUserID (r.cells "_USERID".toList) userStack 32),
    filled (decryptPasswd (r.cells "_PASSWD".toList) passwdStack 32))

end DB
end Catchb
