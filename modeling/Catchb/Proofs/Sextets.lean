import Catchb.Base64Codec
import Mathlib.Data.List.Nodup

/-! The values that are written as three bytes, and as four characters. -/

namespace Catchb.Proofs.Sextets
open Lib Base64 Base64Codec

/-! A value of four sextets, which is one of three bytes. -/

def entry (i : Nat) : Char := pEncodingTable.getD i 'A'

/-- The table once it is built. -/
abbrev full : DecodingTable := build blank

/-- The codes of the table's characters. -/
theorem codes_eq : pEncodingTable.map Char.toNat =
    [65, 66, 67, 68, 69, 70, 71, 72, 73, 74, 75, 76, 77, 78, 79, 80, 81, 82, 83, 84, 85, 86, 87, 88,
      89, 90, 97, 98, 99, 100, 101, 102, 103, 104, 105, 106, 107, 108, 109, 110, 111, 112, 113, 114,
      115, 116, 117, 118, 119, 120, 121, 122, 48, 49, 50, 51, 52, 53, 54, 55, 56, 57, 43, 47] := by
  rfl

theorem length_table : pEncodingTable.length = 64 := by
  rw [← List.length_map Char.toNat, codes_eq]
  rfl

theorem nodup_codes : (pEncodingTable.map Char.toNat).Nodup := by
  rw [codes_eq]
  decide

theorem entry_eq {i : Nat} (h : i < pEncodingTable.length) : entry i = pEncodingTable[i] :=
  (List.getElem_eq_getD 'A').symm

theorem idxOf_entry {i : Nat} (h : i < 64) : pEncodingTable.idxOf (entry i) = i := by
  rw [← length_table] at h
  rw [entry_eq h, nodup_codes.of_map.idxOf_getElem]

theorem exists_entry {c : Char} (h : c ∈ pEncodingTable) : ∃ i < 64, c = entry i := by
  obtain ⟨i, hi, rfl⟩ := List.getElem_of_mem h
  refine ⟨i, ?_, (entry_eq hi).symm⟩
  rwa [length_table] at hi

theorem entry_mem {i : Nat} (h : i < 64) : entry i ∈ pEncodingTable := by
  rw [← length_table] at h
  rw [entry_eq h]
  exact List.getElem_mem h

/-- The code of an entry is a byte that is neither 0 nor a `=`. -/
theorem code_entry {i : Nat} (h : i < 64) :
    (entry i).toNat ≠ 0 ∧ (entry i).toNat ≠ 61 ∧ (entry i).toNat < 256 := by
  have hmem : (entry i).toNat ∈ pEncodingTable.map Char.toNat :=
    List.mem_map_of_mem (entry_mem h)
  have hall : ∀ n ∈ pEncodingTable.map Char.toNat, n ≠ 0 ∧ n ≠ 61 ∧ n < 256 := by
    rw [codes_eq]
    decide
  exact hall _ hmem

theorem entry_ne_pad {i : Nat} (h : i < 64) : entry i ≠ '=' :=
  fun heq => (code_entry h).2.1 (congrArg Char.toNat heq)

theorem pad_notMem : '=' ∉ pEncodingTable := by
  intro h
  obtain ⟨i, hi, heq⟩ := exists_entry h
  exact entry_ne_pad hi heq.symm

/-- An entry's byte is its own. -/
theorem byte_injective {i j : Nat} (hi : i < 64) (hj : j < 64)
    (h : UInt8.ofNat (entry j).toNat = .ofNat (entry i).toNat) : j = i := by
  have hcodes := congrArg UInt8.toNat h
  rw [UInt8.toNat_ofNat', UInt8.toNat_ofNat', Nat.mod_eq_of_lt (code_entry hj).2.2,
    Nat.mod_eq_of_lt (code_entry hi).2.2, Char.toNat_inj] at hcodes
  rw [← idxOf_entry hi, ← idxOf_entry hj, hcodes]

/-- The last write of a key stays. -/
theorem foldl_update {f : Nat → UInt8} {n i : Nat} (hi : i < n) (hf : ∀ j < n, f j = f i → j = i)
    (t : DecodingTable) :
    (List.range n).foldl (fun t i => Function.update t (f i) i) t (f i) = i := by
  induction n with
  | zero => exact absurd hi (Nat.not_lt_zero i)
  | succ n ih =>
    rw [List.range_succ, List.foldl_append, List.foldl_cons, List.foldl_nil]
    by_cases hn : f n = f i
    · obtain rfl := hf n (Nat.lt_succ_self n) hn
      rw [Function.update_self]
    · have hlt : i < n := Nat.lt_of_le_of_ne (Nat.le_of_lt_succ hi) fun h => hn (h ▸ rfl)
      rw [Function.update_of_ne (Ne.symm hn), ih hlt fun j hj => hf j (Nat.lt_succ_of_lt hj)]

theorem sextet_entry {i : Nat} (h : i < 64) : sextet full (entry i) = i := by
  have hzero : UInt8.ofNat (entry i).toNat ≠ 0 := by
    intro heq
    have hcode := congrArg UInt8.toNat heq
    rw [UInt8.toNat_ofNat', Nat.mod_eq_of_lt (code_entry h).2.2] at hcode
    exact (code_entry h).1 hcode
  rw [sextet, if_neg (entry_ne_pad h)]
  unfold full build
  rw [Function.update_of_ne hzero]
  exact foldl_update h (fun j hj => byte_injective h hj) blank

theorem sextet_pad : sextet full '=' = sextet full (entry 0) := by
  rw [sextet_entry (by decide)]
  rfl

theorem digits_eq (v : Nat) :
    Base64.digits v = [v / 262144 % 64, v / 4096 % 64, v / 64 % 64, v % 64].map entry := by
  simp only [Base64.digits, List.map_cons, List.map_nil, Nat.shiftRight_eq_div_pow, entry,
    Nat.reducePow, Nat.div_one]

theorem digits_mem (v : Nat) : ∀ c ∈ Base64.digits v, c ∈ pEncodingTable := by
  intro c hc
  rw [digits_eq] at hc
  obtain ⟨i, hi, rfl⟩ := List.mem_map.mp hc
  refine entry_mem ?_
  simp only [List.mem_cons, List.not_mem_nil, or_false] at hi
  omega

theorem bytes_eq (v : Nat) :
    bytes v = [v / 65536 % 256, v / 256 % 256, v % 256].map UInt8.ofNat := by
  simp only [bytes, List.map_cons, List.map_nil, Nat.shiftRight_eq_div_pow, Nat.reducePow,
    Nat.div_one]

theorem three_bytes (a b c : UInt8) :
    a.toNat <<< 16 ||| b.toNat <<< 8 ||| c.toNat = (a.toNat * 256 + b.toNat) * 256 + c.toNat := by
  have hb := b.toNat_lt
  have hc := c.toNat_lt
  have hab : a.toNat <<< 16 ||| b.toNat <<< 8 = (a.toNat <<< 8 + b.toNat) <<< 8 := by
    rw [← Nat.shiftLeft_add_eq_or_of_lt (by rw [Nat.shiftLeft_eq]; omega)]
    simp only [Nat.shiftLeft_eq]
    omega
  rw [hab, ← Nat.shiftLeft_add_eq_or_of_lt hc]
  simp only [Nat.shiftLeft_eq]

theorem shifted_three (a b c : UInt8) : a.toNat <<< 16 + b.toNat <<< 8 + c.toNat =
    (a.toNat * 256 + b.toNat) * 256 + c.toNat := by
  simp only [Nat.shiftLeft_eq]
  omega

theorem group_entries {p q r s : Nat} (hp : p < 64) (hq : q < 64) (hr : r < 64) (hs : s < 64) :
    group full (entry p) (entry q) (entry r) (entry s) = ((p * 64 + q) * 64 + r) * 64 + s := by
  unfold group
  rw [sextet_entry hp, sextet_entry hq, sextet_entry hr, sextet_entry hs]
  have hpq : p <<< 18 ||| q <<< 12 = (p <<< 6 + q) <<< 12 := by
    rw [← Nat.shiftLeft_add_eq_or_of_lt (by rw [Nat.shiftLeft_eq]; omega)]
    simp only [Nat.shiftLeft_eq]
    omega
  have hpqr : (p <<< 6 + q) <<< 12 ||| r <<< 6 = ((p <<< 6 + q) <<< 6 + r) <<< 6 := by
    rw [← Nat.shiftLeft_add_eq_or_of_lt (by rw [Nat.shiftLeft_eq]; omega)]
    simp only [Nat.shiftLeft_eq]
    omega
  rw [hpq, hpqr, ← Nat.shiftLeft_add_eq_or_of_lt hs]
  simp only [Nat.shiftLeft_eq]

/-- The value of a group is its bytes, and the characters of its value are the group. -/
theorem digits_group {p q r s : Nat} (hp : p < 64) (hq : q < 64) (hr : r < 64) (hs : s < 64) :
    Base64.digits (group full (entry p) (entry q) (entry r) (entry s)) =
      [entry p, entry q, entry r, entry s] := by
  rw [group_entries hp hq hr hs, digits_eq]
  have hp' : (((p * 64 + q) * 64 + r) * 64 + s) / 262144 % 64 = p := by omega
  have hq' : (((p * 64 + q) * 64 + r) * 64 + s) / 4096 % 64 = q := by omega
  have hr' : (((p * 64 + q) * 64 + r) * 64 + s) / 64 % 64 = r := by omega
  have hs' : (((p * 64 + q) * 64 + r) * 64 + s) % 64 = s := by omega
  rw [hp', hq', hr', hs']
  rfl

theorem group_digits {v : Nat} (hv : v < 16777216) :
    group full (entry (v / 262144 % 64)) (entry (v / 4096 % 64)) (entry (v / 64 % 64))
      (entry (v % 64)) = v := by
  rw [group_entries (by omega) (by omega) (by omega) (by omega)]
  omega

theorem ofNat_byte {a : UInt8} {n : Nat} (h : n = a.toNat) : UInt8.ofNat n = a := by
  rw [h, UInt8.ofNat_toNat]

theorem bytes_three (a b c : UInt8) :
    bytes ((a.toNat * 256 + b.toNat) * 256 + c.toNat) = [a, b, c] := by
  have ha := a.toNat_lt
  have hb := b.toNat_lt
  have hc := c.toNat_lt
  rw [bytes_eq]
  have ha' : ((a.toNat * 256 + b.toNat) * 256 + c.toNat) / 65536 % 256 = a.toNat := by omega
  have hb' : ((a.toNat * 256 + b.toNat) * 256 + c.toNat) / 256 % 256 = b.toNat := by omega
  have hc' : ((a.toNat * 256 + b.toNat) * 256 + c.toNat) % 256 = c.toNat := by omega
  simp only [List.map_cons, List.map_nil, ofNat_byte ha', ofNat_byte hb', ofNat_byte hc']

theorem exists_bytes {v : Nat} (hv : v < 16777216) :
    ∃ a b c : UInt8, v = (a.toNat * 256 + b.toNat) * 256 + c.toNat := by
  refine ⟨.ofNat (v / 65536), .ofNat (v / 256 % 256), .ofNat (v % 256), ?_⟩
  simp only [UInt8.toNat_ofNat']
  omega

theorem three_lt (a b c : UInt8) :
    (a.toNat * 256 + b.toNat) * 256 + c.toNat < 16777216 := by
  have ha := a.toNat_lt
  have hb := b.toNat_lt
  have hc := c.toNat_lt
  omega

/-! The bytes that a whole text holds, four characters after four. -/

def groups (t : DecodingTable) : Text → List UInt8
  | a :: b :: c :: d :: rest => bytes (group t a b c d) ++ groups t rest
  | _ => []

theorem length_bytes (v : Nat) : (bytes v).length = 3 :=
  rfl

theorem length_encodeBytes (d : List UInt8) :
    (encodeBytes d).length = 4 * ((d.length + 2) / 3) := by
  induction d using encodeBytes.induct with
  | case1 a b c rest ih =>
    rw [encodeBytes, List.length_append, ih]
    simp only [Base64.digits, List.length_map, List.length_cons, List.length_nil]
    omega
  | case2 a b => simp [encodeBytes, Base64.digits]
  | case3 a => simp [encodeBytes, Base64.digits]
  | case4 => rfl

theorem groups_digits {v : Nat} (hv : v < 16777216) (rest : Text) :
    groups full (Base64.digits v ++ rest) = bytes v ++ groups full rest := by
  rw [digits_eq]
  simp only [List.map_cons, List.map_nil, List.cons_append, List.nil_append, groups]
  rw [group_digits hv]

/-- A `=` stands for six bits of zero. -/
theorem groups_last {v : Nat} (hv : v < 16777216) (hzero : v % 64 = 0) :
    groups full ((Base64.digits v).take 3 ++ ['=']) = bytes v := by
  have hv' := group_digits hv
  rw [hzero, group, ← sextet_pad] at hv'
  rw [digits_eq]
  simp only [List.map_cons, List.map_nil, List.take_succ_cons, List.take_zero, List.cons_append,
    List.nil_append, groups, List.append_nil]
  rw [group, hv']

theorem groups_last_two {v : Nat} (hv : v < 16777216) (hzero : v % 4096 = 0) :
    groups full ((Base64.digits v).take 2 ++ ['=', '=']) = bytes v := by
  have hv' := group_digits hv
  have hlow : v % 64 = 0 := by omega
  have hnext : v / 64 % 64 = 0 := by omega
  rw [hlow, hnext, group, ← sextet_pad] at hv'
  rw [digits_eq]
  simp only [List.map_cons, List.map_nil, List.take_succ_cons, List.take_zero, List.cons_append,
    List.nil_append, groups, List.append_nil]
  rw [group, hv']

/-- What is encoded is read back, and the last group may hold bytes of zero besides. -/
theorem take_groups_encodeBytes (d : List UInt8) :
    (groups full (encodeBytes d)).take d.length = d := by
  induction d using encodeBytes.induct with
  | case1 a b c rest ih =>
    rw [encodeBytes, shifted_three, groups_digits (three_lt a b c), bytes_three]
    simp only [List.length_cons, List.cons_append, List.nil_append, List.take_succ_cons, ih]
  | case2 a b =>
    have hv : a.toNat <<< 16 + b.toNat <<< 8 =
        (a.toNat * 256 + b.toNat) * 256 + (0 : UInt8).toNat := by
      rw [← shifted_three, UInt8.toNat_zero, Nat.add_zero]
    rw [encodeBytes, hv, groups_last (three_lt a b 0) (by rw [UInt8.toNat_zero]; omega),
      bytes_three]
    rfl
  | case3 a =>
    have hv : a.toNat <<< 16 = (a.toNat * 256 + (0 : UInt8).toNat) * 256 + (0 : UInt8).toNat := by
      rw [← shifted_three, UInt8.toNat_zero, Nat.zero_shiftLeft, Nat.add_zero]
    rw [encodeBytes, hv, groups_last_two (three_lt a 0 0) (by rw [UInt8.toNat_zero]; omega),
      bytes_three]
    rfl
  | case4 => rfl

/-! What is an encoding. -/

/-- Characters of the table, with up to two `=` behind, four after four. -/
def Canonical (s : Text) : Prop :=
  s.length % 4 = 0 ∧
    ∃ body p, s = body ++ List.replicate p '=' ∧ p ≤ 2 ∧ ∀ c ∈ body, c ∈ pEncodingTable

/-- The texts are the same, but for the bits of the last character that no byte has. -/
def SameButTail (s e : Text) : Prop :=
  s = e ∨ ∃ body c c' p, s = body ++ c :: List.replicate p '=' ∧
    e = body ++ c' :: List.replicate p '=' ∧ p ≤ 2 ∧
      pEncodingTable.idxOf c >>> (2 * p) = pEncodingTable.idxOf c' >>> (2 * p)

theorem SameButTail.append (u : Text) {s e : Text} (h : SameButTail s e) :
    SameButTail (u ++ s) (u ++ e) := by
  obtain rfl | ⟨body, c, c', p, rfl, rfl, hp, hidx⟩ := h
  · exact .inl rfl
  · exact .inr ⟨u ++ body, c, c', p, (List.append_assoc ..).symm, (List.append_assoc ..).symm, hp,
      hidx⟩

/-- The number of `=` that the last two characters have. -/
def ended (s : Text) : Nat := (s.drop (s.length - 2)).count '='

theorem ended_le (s : Text) : ended s ≤ 2 := by
  refine Nat.le_trans List.count_le_length ?_
  rw [List.length_drop]
  omega

theorem ended_canonical {body : Text} {p : Nat} (hbody : ∀ c ∈ body, c ∈ pEncodingTable)
    (hp : p ≤ 2) : ended (body ++ List.replicate p '=') = p := by
  have hnot : (body.drop (body.length + p - 2)).count '=' = 0 := by
    refine List.count_eq_zero.mpr fun hmem => pad_notMem (hbody '=' (List.mem_of_mem_drop hmem))
  have hdrop : body.length + p - 2 - body.length = 0 := by omega
  rw [ended, List.length_append, List.length_replicate, List.drop_append, hdrop, List.drop_zero,
    List.count_append, hnot, List.count_replicate_self, Nat.zero_add]

theorem encode_last {i k m : Nat} (hi : i < 64) (hk : k < 64) (hm : m < 64) :
    SameButTail [entry i, entry k, entry m, '=']
      (encodeBytes ((bytes (group full (entry i) (entry k) (entry m) '=')).take 2)) := by
  have hzero : group full (entry i) (entry k) (entry m) '=' =
      ((i * 64 + k) * 64 + m) * 64 + 0 := by
    rw [group, sextet_pad, ← group, group_entries hi hk hm (by decide)]
  obtain ⟨a, b, c, hv⟩ := exists_bytes (v := ((i * 64 + k) * 64 + m) * 64 + 0) (by omega)
  have hc := c.toNat_lt
  have hi' : (a.toNat <<< 16 + b.toNat <<< 8) / 262144 % 64 = i := by
    simp only [Nat.shiftLeft_eq]
    omega
  have hk' : (a.toNat <<< 16 + b.toNat <<< 8) / 4096 % 64 = k := by
    simp only [Nat.shiftLeft_eq]
    omega
  have hm' : (a.toNat <<< 16 + b.toNat <<< 8) / 64 % 64 = m / 4 * 4 := by
    simp only [Nat.shiftLeft_eq]
    omega
  rw [hzero, hv, bytes_three]
  simp only [List.take_succ_cons, List.take_zero, encodeBytes, digits_eq, hi', hk', hm',
    List.map_cons]
  refine .inr ⟨[entry i, entry k], entry m, entry (m / 4 * 4), 1, rfl, rfl, by decide, ?_⟩
  rw [idxOf_entry hm, idxOf_entry (by omega), Nat.shiftRight_eq_div_pow, Nat.shiftRight_eq_div_pow]
  omega

theorem encode_last_two {i k : Nat} (hi : i < 64) (hk : k < 64) :
    SameButTail [entry i, entry k, '=', '=']
      (encodeBytes ((bytes (group full (entry i) (entry k) '=' '=')).take 1)) := by
  have hzero : group full (entry i) (entry k) '=' '=' = ((i * 64 + k) * 64 + 0) * 64 + 0 := by
    rw [group, sextet_pad, ← group, group_entries hi hk (by decide) (by decide)]
  obtain ⟨a, b, c, hv⟩ := exists_bytes (v := ((i * 64 + k) * 64 + 0) * 64 + 0) (by omega)
  have hb := b.toNat_lt
  have hc := c.toNat_lt
  have hi' : (a.toNat <<< 16) / 262144 % 64 = i := by
    simp only [Nat.shiftLeft_eq]
    omega
  have hk' : (a.toNat <<< 16) / 4096 % 64 = k / 16 * 16 := by
    simp only [Nat.shiftLeft_eq]
    omega
  rw [hzero, hv, bytes_three]
  simp only [List.take_succ_cons, List.take_zero, encodeBytes, digits_eq, hi', hk', List.map_cons]
  refine .inr ⟨[entry i], entry k, entry (k / 16 * 16), 2, rfl, rfl, by decide, ?_⟩
  rw [idxOf_entry hk, idxOf_entry (by omega), Nat.shiftRight_eq_div_pow, Nat.shiftRight_eq_div_pow]
  omega

/-- A whole group is given back by the three bytes that it holds. -/
theorem encode_group {i k m r : Nat} (hi : i < 64) (hk : k < 64) (hm : m < 64) (hr : r < 64)
    (rest : List UInt8) :
    encodeBytes (bytes (group full (entry i) (entry k) (entry m) (entry r)) ++ rest) =
      [entry i, entry k, entry m, entry r] ++ encodeBytes rest := by
  have hdigits := digits_group hi hk hm hr
  have hv := group_entries hi hk hm hr
  obtain ⟨a, b, c, heq⟩ :=
    exists_bytes (v := group full (entry i) (entry k) (entry m) (entry r)) (by omega)
  rw [heq] at hdigits
  rw [heq, bytes_three]
  simp only [List.cons_append, List.nil_append, encodeBytes]
  rw [shifted_three, hdigits]
  rfl

/-- The bytes of an encoding are encoded as it was, but for bits that no byte has. -/
theorem encode_groups {body : Text} {p : Nat} (hbody : ∀ c ∈ body, c ∈ pEncodingTable)
    (hp : p ≤ 2) (hlen : (body.length + p) % 4 = 0) :
    SameButTail (body ++ List.replicate p '=')
      (encodeBytes ((groups full (body ++ List.replicate p '=')).take
        ((body.length + p) / 4 * 3 - p))) := by
  induction body using groups.induct with
  | case1 a b c d rest ih =>
    have hrest : ∀ x ∈ rest, x ∈ pEncodingTable := fun x hx =>
      hbody x (List.mem_append_right [a, b, c, d] hx)
    obtain ⟨i, hi, rfl⟩ := exists_entry (hbody a (by simp))
    obtain ⟨k, hk, rfl⟩ := exists_entry (hbody b (by simp))
    obtain ⟨m, hm, rfl⟩ := exists_entry (hbody c (by simp))
    obtain ⟨r, hr, rfl⟩ := exists_entry (hbody d (by simp))
    simp only [List.length_cons] at hlen
    have htake : ((entry i :: entry k :: entry m :: entry r :: rest).length + p) / 4 * 3 - p =
        (bytes (group full (entry i) (entry k) (entry m) (entry r))).length +
          ((rest.length + p) / 4 * 3 - p) := by
      rw [length_bytes]
      simp only [List.length_cons]
      omega
    rw [htake]
    simp only [List.cons_append, groups]
    rw [List.take_length_add_append, encode_group hi hk hm hr]
    exact (ih hrest (by omega)).append [entry i, entry k, entry m, entry r]
  | case2 s h =>
    match s with
    | [] =>
      obtain rfl : p = 0 := by
        simp only [List.length_nil] at hlen
        omega
      exact .inl rfl
    | [a] =>
      simp only [List.length_cons, List.length_nil] at hlen
      omega
    | [a, b] =>
      obtain rfl : p = 2 := by
        simp only [List.length_cons, List.length_nil] at hlen
        omega
      obtain ⟨i, hi, rfl⟩ := exists_entry (hbody a (by simp))
      obtain ⟨k, hk, rfl⟩ := exists_entry (hbody b (by simp))
      have hgroups : groups full ([entry i, entry k] ++ List.replicate 2 '=') =
          bytes (group full (entry i) (entry k) '=' '=') :=
        List.append_nil _
      have htake : ([entry i, entry k].length + 2) / 4 * 3 - 2 = 1 := by simp
      rw [hgroups, htake]
      exact encode_last_two hi hk
    | [a, b, c] =>
      obtain rfl : p = 1 := by
        simp only [List.length_cons, List.length_nil] at hlen
        omega
      obtain ⟨i, hi, rfl⟩ := exists_entry (hbody a (by simp))
      obtain ⟨k, hk, rfl⟩ := exists_entry (hbody b (by simp))
      obtain ⟨m, hm, rfl⟩ := exists_entry (hbody c (by simp))
      have hgroups : groups full ([entry i, entry k, entry m] ++ List.replicate 1 '=') =
          bytes (group full (entry i) (entry k) (entry m) '=') :=
        List.append_nil _
      have htake : ([entry i, entry k, entry m].length + 1) / 4 * 3 - 1 = 2 := by simp
      rw [hgroups, htake]
      exact encode_last hi hk hm
    | a :: b :: c :: d :: rest => exact absurd rfl (h a b c d rest)

end Catchb.Proofs.Sextets
