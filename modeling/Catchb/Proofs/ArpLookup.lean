import Catchb.Fingerprint

/-! Whether the hardware address that is looked up is that of the address asked for. -/

namespace Catchb.Proofs.ArpLookup
open Lib

/-- A row of the table: a line whose first column is the IP address and whose fourth column is the
hardware address. -/
def Row (table : List Char) (ip mac : Text) : Prop :=
  ∃ line ∈ table.splitOn '\n', (strtok ' ' line)[0]? = some ip ∧ (strtok ' ' line)[3]? = some mac

/-- The hardware address of the target's row is found, or the output is left as it is. A table that
cannot be opened has no rows. -/
def LooksUp (file : Option (List Char)) (targetIP : Text) (pMAC : List Char) : Prop :=
  let r := arpParsing file targetIP pMAC
  (∃ table mac, file = some table ∧ Row table targetIP mac ∧ r.1 = .ok ∧ cstr r.2 = mac) ∨
    (∀ table mac, file = some table → ¬Row table targetIP mac) ∧ r.1 ≠ .ok ∧ r.2 = pMAC

/-- The first line, as far as it is read at once, that has the target's text anywhere in it has the
hardware address in its fourth column. -/
def FirstHit (table : List Char) (targetIP mac : Text) : Prop :=
  ∃ pre line post, (fgets 128 [] table).map cstr = pre ++ line :: post ∧
    (∀ l ∈ pre, strstr l targetIP = false) ∧ strstr line targetIP = true ∧
    (strtok ' ' line)[3]? = some mac

section
variable {table : List Char} {targetIP mac : Text} {pMAC : List Char}

theorem firstHit_iff : FirstHit table targetIP mac ↔ macField table targetIP = some mac := by
  constructor
  · rintro ⟨pre, line, post, hlines, hpre, hline, hmac⟩
    have hfind : ((fgets 128 [] table).map cstr).find? (fun line => strstr line targetIP) =
        some line := by
      rw [List.find?_eq_some_iff_append]
      exact ⟨hline, pre, post, hlines, fun l hl => by rw [hpre l hl]; rfl⟩
    rw [macField, hfind]
    exact hmac
  · intro h
    unfold macField at h
    split at h
    · cases h
    · rename_i line hfind
      obtain ⟨hline, pre, post, hlines, hpre⟩ := List.find?_eq_some_iff_append.mp hfind
      exact ⟨pre, line, post, hlines, fun l hl => by simpa using hpre l hl, hline, h⟩

theorem arpParsing_hit (h : macField table targetIP = some mac) (pMAC : List Char) :
    arpParsing (some table) targetIP pMAC = (.ok, memcpy 48 pMAC mac) := by
  simp only [arpParsing, h]

theorem arpParsing_miss (h : macField table targetIP = none) (pMAC : List Char) :
    arpParsing (some table) targetIP pMAC = (.ok, pMAC) := by
  simp only [arpParsing, h]

/-- A table that can be read is never answered with an error. -/
theorem arpParsing_ok (table : List Char) (targetIP : Text) (pMAC : List Char) :
    (arpParsing (some table) targetIP pMAC).1 = .ok := by
  cases h : macField table targetIP with
  | none => rw [arpParsing_miss h]
  | some mac => rw [arpParsing_hit h]

theorem looksUp_some_iff : LooksUp (some table) targetIP pMAC ↔
    Row table targetIP (cstr (arpParsing (some table) targetIP pMAC).2) := by
  have hok := arpParsing_ok table targetIP pMAC
  constructor
  · rintro (⟨table', mac, heq, hrow, -, hmac⟩ | ⟨-, hret, -⟩)
    · cases heq
      rw [hmac]
      exact hrow
    · exact absurd hok hret
  · exact fun hrow => .inl ⟨table, _, rfl, hrow, hok, rfl⟩

/-- A column is a word. -/
theorem Row.word (h : Row table targetIP mac) : mac ≠ [] ∧ ' ' ∉ mac := by
  obtain ⟨line, -, -, hmac⟩ := h
  obtain ⟨hsplit, hne⟩ := List.mem_filter.mp (List.mem_of_getElem? hmac)
  exact ⟨by simpa using hne, not_mem_of_mem_splitOn hsplit⟩

/-- Memory that nothing was copied to, or not to the end, may hold anything. -/
theorem row_of_looksUp (h : ∀ pMAC, LooksUp (some table) targetIP pMAC) :
    ∃ mac, Row table targetIP mac ∧ mac.length < 48 ∧ FirstHit table targetIP mac := by
  have hrow := fun pMAC => looksUp_some_iff.mp (h pMAC)
  cases hmac : macField table targetIP with
  | none =>
    have hempty := hrow []
    rw [arpParsing_miss hmac] at hempty
    exact absurd rfl hempty.word.1
  | some mac =>
    have h0 := not_mem_macField hmac
    simp only [arpParsing_hit hmac] at hrow
    have hlen : mac.length < 48 := by
      by_contra hlong
      have hblank := hrow (List.replicate 48 ' ' ++ [' '])
      rw [cstr_memcpy_long _ h0 (Nat.not_lt.mp hlong), List.drop_left' List.length_replicate]
        at hblank
      exact hblank.word.2 (List.mem_append_right _ List.mem_cons_self)
    have hfound := hrow []
    rw [cstr_memcpy_short [] h0 hlen] at hfound
    exact ⟨mac, hfound, hlen, firstHit_iff.mpr hmac⟩

theorem looksUp_of_row (hrow : Row table targetIP mac) (hlen : mac.length < 48)
    (hhit : FirstHit table targetIP mac) (pMAC : List Char) :
    LooksUp (some table) targetIP pMAC := by
  have hmac := firstHit_iff.mp hhit
  rw [looksUp_some_iff, arpParsing_hit hmac, cstr_memcpy_short pMAC (not_mem_macField hmac) hlen]
  exact hrow

/-- Whatever the caller's memory holds, the target's hardware address is looked up if and only if
the table cannot be opened, or the target has a row and the first line with the target's text in it
gives the hardware address of that row. -/
theorem looks_up_iff (file : Option (List Char)) (targetIP : Text) :
    (∀ pMAC, LooksUp file targetIP pMAC) ↔ ∀ table, file = some table →
      ∃ mac, Row table targetIP mac ∧ mac.length < 48 ∧ FirstHit table targetIP mac := by
  cases file with
  | none =>
    refine iff_of_true (fun pMAC => .inr ⟨?_, ?_, rfl⟩) ?_
    · exact fun table mac heq => nomatch heq
    · exact fun heq => nomatch heq
    · exact fun table heq => nomatch heq
  | some table =>
    constructor
    · intro h table' heq
      cases heq
      exact row_of_looksUp h
    · intro h
      obtain ⟨mac, hrow, hlen, hhit⟩ := h table rfl
      exact looksUp_of_row hrow hlen hhit

end

/-- The only host is `192.168.0.10`. -/
def tenth : List Char := "192.168.0.10 0x1 0x2 aa:bb:cc:dd:ee:ff * eth0\n".toList

/-- Its hardware address is given for `192.168.0.1`. -/
theorem other_host_answered :
    arpParsing (some tenth) "192.168.0.1".toList [] =
        (.ok, "aa:bb:cc:dd:ee:ff".toList ++ ['\x00']) ∧
      ¬LooksUp (some tenth) "192.168.0.1".toList [] := by
  refine ⟨rfl, fun h => ?_⟩
  obtain ⟨line, hline, hip, -⟩ := looksUp_some_iff.mp h
  have hlines : tenth.splitOn '\n' = [tenth.dropLast, []] := by decide
  rw [hlines, List.mem_cons, List.mem_singleton] at hline
  rcases hline with rfl | rfl
  · exact absurd hip (by decide)
  · cases hip

end Catchb.Proofs.ArpLookup
