import Catchb.Credentials
import Catchb.Proofs.Cipher

/-! When a login comes back from the database as it went in. -/

namespace Catchb.Proofs.Logins
open Lib Credentials DB

theorem hexByte_digits (b : UInt8) : ∃ h l, hexByte b = [h, l] ∧
    ∃ x y, hexDigit h = some x ∧ hexDigit l = some y ∧ (x <<< 4 ||| y) = b := by
  refine ⟨_, _, rfl, UInt8.ofNat (b.toNat / 16), UInt8.ofNat (b.toNat % 16), ?_⟩
  exact Cipher.forall_byte (p := fun b => hexDigit (Nat.digitChar (b.toNat / 16)) =
      some (UInt8.ofNat (b.toNat / 16)) ∧ hexDigit (Nat.digitChar (b.toNat % 16)) =
      some (UInt8.ofNat (b.toNat % 16)) ∧
      (UInt8.ofNat (b.toNat / 16) <<< 4 ||| UInt8.ofNat (b.toNat % 16)) = b) (by decide +kernel) b

/-- Bytes are read back from their digits. -/
theorem hexBytes_hex (bytes : List UInt8) : hexBytes (bytes.flatMap hexByte) = some bytes := by
  induction bytes with
  | nil => rfl
  | cons b bytes ih =>
    obtain ⟨h, l, hhex, x, y, hx, hy, hb⟩ := hexByte_digits b
    rw [List.flatMap_cons, hhex]
    change hexBytes (h :: l :: bytes.flatMap hexByte) = some (b :: bytes)
    simp only [hexBytes, hx, hy, ih, hb]

theorem length_hex (bytes : List UInt8) :
    (bytes.flatMap hexByte).length = 2 * bytes.length := by
  induction bytes with
  | nil => rfl
  | cons b bytes ih =>
    rw [List.flatMap_cons, List.length_append, ih, List.length_cons, Nat.mul_succ, Nat.add_comm]
    rfl

/-- The text with the zeros that fill its last block. -/
def padded (t : List UInt8) : List UInt8 :=
  t ++ List.replicate ((t.length + 15) / 16 * 16 - t.length) 0

theorem length_padded (t : List UInt8) : (padded t).length = (t.length + 15) / 16 * 16 := by
  rw [padded, List.length_append, List.length_replicate]
  omega

/-- What is decrypted is the filled text, with the stack's bytes behind it. -/
theorem decrypt_encrypt {iv : List UInt8} (hiv : iv.length = 16) (t : Secret) (stack : StackBlock) :
    ∃ buffer, encrypt iv t.val 65 = .ok buffer ∧ decrypt iv buffer stack 32 =
      .ok (strncpy 32 (padded t.val ++ stack.toList.drop (padded t.val).length)) := by
  have hpad : (padded t.val).length = 16 * ((t.val.length + 15) / 16) := by
    rw [length_padded, Nat.mul_comm]
  have hlen := Cipher.length_cbcEncryptBuffer pEncryptKey hiv hpad
  refine ⟨(Aes.cbcEncryptBuffer (padded t.val) pEncryptKey iv).flatMap hexByte, ?_, ?_⟩
  · have hfits : ¬65 ≤ (t.val.length + 15) / 16 * 16 * 2 := by
      have := t.property.1
      omega
    exact if_neg hfits
  · have hwhole : ¬2 * (padded t.val).length % 32 ≠ 0 := by omega
    simp only [decrypt, length_hex, hlen, if_neg hwhole, hexBytes_hex,
      Cipher.cbc_inverse pEncryptKey hiv hpad, Nat.mul_div_cancel_left _ (show 0 < 2 by decide)]

/-- Text without terminators is what is copied of it and of what follows it. -/
theorem strncpy_append {n : Nat} {t : List UInt8} (h0 : 0 ∉ t) (rest : List UInt8) :
    strncpy n (t ++ rest) = (t ++ rest.takeWhile (· ≠ 0)).take n := by
  have ht : ∀ b ∈ t, decide (b ≠ 0) = true := by
    intro b hb
    exact decide_eq_true (fun h => h0 (h ▸ hb))
  rw [Credentials.strncpy, List.takeWhile_append_of_pos ht]

theorem take_append_eq_iff {α : Type*} {n : Nat} {t : List α} (h : t.length ≤ n) (u : List α) :
    (t ++ u).take n = t ↔ t.length = n ∨ u = [] := by
  rw [List.take_append, List.take_of_length_le h, List.append_right_eq_self, List.take_eq_nil_iff]
  exact or_congr_left (by omega)

/-- The array ends with the text, the filling holds a zero, or the stack has one behind the text. -/
def Ends (t : Secret) (stack : StackBlock) : Prop :=
  t.val.length = 32 ∨ t.val.length % 16 ≠ 0 ∨ stack.toList[t.val.length]? = some 0

theorem takeWhile_eq_nil_iff {bytes : List UInt8} :
    bytes.takeWhile (· ≠ 0) = [] ↔ bytes.head? = none ∨ bytes.head? = some 0 := by
  cases bytes with
  | nil => simp
  | cons b bytes => simp [List.takeWhile_cons]

theorem strncpy_eq_iff (t : Secret) (stack : StackBlock) :
    strncpy 32 (padded t.val ++ stack.toList.drop (padded t.val).length) = t.val ↔
      Ends t stack := by
  rw [length_padded, padded, List.append_assoc, strncpy_append t.property.2,
    take_append_eq_iff t.property.1, takeWhile_eq_nil_iff, Ends]
  refine or_congr_right ?_
  by_cases hmod : t.val.length % 16 = 0
  · have hwhole : (t.val.length + 15) / 16 * 16 = t.val.length := by omega
    have hin : t.val.length < stack.toList.length := by
      rw [Vector.length_toList]
      have := t.property.1
      omega
    rw [hwhole, Nat.sub_self, List.replicate_zero, List.nil_append, List.head?_drop,
      List.getElem?_eq_getElem hin]
    simp [hmod]
  · obtain ⟨k, hk⟩ : ∃ k, (t.val.length + 15) / 16 * 16 - t.val.length = k + 1 :=
      ⟨(t.val.length + 15) / 16 * 16 - t.val.length - 1, by omega⟩
    rw [hk, List.replicate_succ]
    simp [hmod]

theorem read_back_iff {iv : List UInt8} (hiv : iv.length = 16) (t : Secret) (stack : StackBlock) :
    filled (decrypt iv (filled (encrypt iv t.val 65)) stack 32) = t.val ↔ Ends t stack := by
  obtain ⟨buffer, henc, hdec⟩ := decrypt_encrypt hiv t stack
  rw [henc, filled, filled, Except.toOption, Option.getD_some, hdec]
  exact strncpy_eq_iff t stack

theorem loginRow_cells (t : SwitchTable) (r : Sql.Row) (config : SwitchConfig) (login : Login) :
    (loginRow t r config login).cells "_USERID".toList = encryptedID login.userID.val ∧
      (loginRow t r config login).cells "_PASSWD".toList =
        encryptedPasswd login.passwd.val := by
  let values := switchValues config (encryptedID login.userID.val) (encryptedPasswd login.passwd.val)
  have hnames : values.map Prod.fst = switchColumns := rfl
  have hcol : ∀ a ∈ values, t.table.column a.1 = some a.1 := by
    intro a ha
    exact t.column_eq (hnames ▸ List.mem_map_of_mem ha)
  have hnd : (values.map Prod.fst).Nodup := by
    rw [hnames]
    decide +kernel
  have hcell := @Sql.cells_assign t.table values hcol hnd
  have huser : ("_USERID".toList, .quoted (encryptedID login.userID.val)) ∈ values := by
    simp [values, switchValues]
  have hpasswd : ("_PASSWD".toList, .quoted (encryptedPasswd login.passwd.val)) ∈ values := by
    simp [values, switchValues]
  exact ⟨hcell huser r, hcell hpasswd r⟩

/-- A login is read back from the row that holds it exactly if both of its strings end where their
last block or the array does not need it, or where the stack happens to hold a zero. -/
theorem login_read_back_iff (t : SwitchTable) (r : Sql.Row) (config : SwitchConfig) (login : Login)
    (userStack passwdStack : StackBlock) :
    getLogin (loginRow t r config login) userStack passwdStack =
        (login.userID.val, login.passwd.val) ↔
      Ends login.userID userStack ∧ Ends login.passwd passwdStack := by
  obtain ⟨huser, hpasswd⟩ := loginRow_cells t r config login
  rw [getLogin, huser, hpasswd, Prod.mk.injEq]
  exact and_congr (read_back_iff rfl login.userID userStack)
    (read_back_iff rfl login.passwd passwdStack)

/-- A switch without a login. -/
def noLogin : Login := ⟨⟨[], by decide⟩, ⟨[], by decide⟩⟩

def openSwitch : SwitchConfig :=
  ⟨Field.copy 64 "SW1".toList, Field.empty 32, Field.copy 24 "10.0.0.1".toList, false,
    Field.empty 32, Field.empty 32, Field.empty 64⟩

/-- A stack that other calls have written to. -/
def usedStack : StackBlock := Vector.replicate 128 0x41

theorem empty_login_changed :
    getLogin (loginRow createSwitchTable ⟨1, fun _ => []⟩ openSwitch noLogin) usedStack usedStack ≠
      (noLogin.userID.val, noLogin.passwd.val) := by
  intro h
  obtain ⟨huser, -⟩ := loginRow_cells createSwitchTable ⟨1, fun _ => []⟩ openSwitch noLogin
  rw [getLogin, huser, Prod.mk.injEq] at h
  have hends : Ends noLogin.userID usedStack := (read_back_iff rfl noLogin.userID usedStack).mp h.1
  simp [Ends, noLogin, usedStack] at hends

end Catchb.Proofs.Logins
