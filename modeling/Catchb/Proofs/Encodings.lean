import Catchb.Proofs.Sextets

/-! Base64 gives back the bytes that it was given, and takes what is not Base64. -/

namespace Catchb.Proofs.Encodings
open Lib Base64 Base64Codec Sextets

/-! The loop of the encoder, and the characters that are written over. -/

theorem encodeLoop_length (d : List UInt8) :
    (encodeLoop d).length = 4 * ((d.length + 2) / 3) := by
  induction d using encodeLoop.induct with
  | case1 => rfl
  | case2 a => simp [encodeLoop, Base64.digits]
  | case3 a b => simp [encodeLoop, Base64.digits]
  | case4 a b c rest ih =>
    rw [encodeLoop, List.length_append, ih]
    simp only [Base64.digits, List.length_map, List.length_cons, List.length_nil]
    omega

/-- The number of the characters that end an encoding. -/
def padding (n : Nat) : Nat := (3 - n % 3) % 3

theorem pModTable_eq (n : Nat) : pModTable.getD (n % 3) 0 = padding n := by
  have hcases : n % 3 = 0 ∨ n % 3 = 1 ∨ n % 3 = 2 := by omega
  unfold padding
  obtain h | h | h := hcases <;> rw [h] <;> rfl

theorem padding_le (n : Nat) : padding n ≤ 2 := by
  unfold padding
  omega

theorem encodeBytes_eq (d : List UInt8) :
    encodeBytes d = (encodeLoop d).take (4 * ((d.length + 2) / 3) - padding d.length) ++
      List.replicate (padding d.length) '=' := by
  have hor (a b : UInt8) : a.toNat <<< 16 ||| b.toNat <<< 8 = a.toNat <<< 16 + b.toNat <<< 8 := by
    have hb := b.toNat_lt
    rw [Nat.shiftLeft_add_eq_or_of_lt]
    rw [Nat.shiftLeft_eq]
    omega
  induction d using encodeBytes.induct with
  | case1 a b c rest ih =>
    have hv : a.toNat <<< 16 + b.toNat <<< 8 + c.toNat =
        a.toNat <<< 16 ||| b.toNat <<< 8 ||| c.toNat := by
      rw [three_bytes, shifted_three]
    have hpad : padding (a :: b :: c :: rest).length = padding rest.length := by
      simp only [padding, List.length_cons]
      omega
    have htake : 4 * (((a :: b :: c :: rest).length + 2) / 3) - padding rest.length =
        (Base64.digits (a.toNat <<< 16 ||| b.toNat <<< 8 ||| c.toNat)).length +
          (4 * ((rest.length + 2) / 3) - padding rest.length) := by
      simp only [padding, Base64.digits, List.length_map, List.length_cons, List.length_nil]
      omega
    rw [encodeBytes, encodeLoop, hv, hpad, htake, List.take_length_add_append, ih,
      List.append_assoc]
  | case2 a b =>
    rw [encodeBytes, encodeLoop, hor]
    simp [padding]
  | case3 a =>
    rw [encodeBytes, encodeLoop]
    simp [padding]
  | case4 => rfl

/-- The last characters of a text are written over, from its end on. -/
theorem foldl_set_last (l : Text) (c : Char) {k : Nat} (hk : k ≤ l.length) :
    (List.range k).foldl (fun b i => b.set (l.length - 1 - i) c) l =
      l.take (l.length - k) ++ List.replicate k c := by
  induction k with
  | zero => simp
  | succ k ih =>
    have hlast : l.length - k = l.length - (k + 1) + 1 := by omega
    have hat : l.length - (k + 1) < l.length := by omega
    have hset : l.length - 1 - k = (l.take (l.length - (k + 1))).length := by
      rw [List.length_take]
      omega
    rw [List.range_succ, List.foldl_append, ih (by omega), List.foldl_cons, List.foldl_nil,
      hlast, List.take_succ_eq_append_getElem hat, List.append_assoc, hset,
      List.set_append_right _ _ (Nat.le_refl _), Nat.sub_self]
    rfl

/-- The counter of bytes is read as it was meant, up to the longest text. -/
theorem outputLen_toNat {n : Nat} (hn : n ≤ 3221225469) :
    (4 * ((UInt32.ofNat n + 2) / 3)).toNat = 4 * ((n + 2) / 3) := by
  simp only [UInt32.toNat_mul, UInt32.toNat_div, UInt32.toNat_add, UInt32.toNat_ofNat',
    UInt32.reduceToNat]
  omega

theorem encode_eq {d : List UInt8} {ulBuffLen : UInt32} (hd : d.length ≤ 3221225469)
    (hbuff : 4 * ((d.length + 2) / 3) ≤ ulBuffLen.toNat) :
    Base64Codec.encode d ulBuffLen =
      .ok (encodeBytes d, .ofNat (4 * ((d.length + 2) / 3))) := by
  have hout := outputLen_toNat hd
  have hlen := encodeLoop_length d
  have hlt : ¬ ulBuffLen < 4 * ((UInt32.ofNat d.length + 2) / 3) := by
    rw [UInt32.lt_iff_toNat_lt, hout]
    omega
  have hmod : (UInt32.ofNat d.length % 3).toNat = d.length % 3 := by
    simp only [UInt32.toNat_mod, UInt32.toNat_ofNat', UInt32.reduceToNat]
    omega
  have hpad : padding d.length ≤ (encodeLoop d).length := by
    rw [hlen]
    unfold padding
    omega
  have hset : ∀ b : Text, ∀ i ∈ List.range (padding d.length),
      b.set (4 * ((UInt32.ofNat d.length + 2) / 3) - 1 - .ofNat i).toNat '=' =
        b.set ((encodeLoop d).length - 1 - i) '=' := by
    intro b i hi
    have hi' : i < padding d.length := List.mem_range.mp hi
    have hle := padding_le d.length
    congr 1
    rw [UInt32.toNat_sub, UInt32.toNat_sub, hout, hlen, UInt32.toNat_ofNat']
    simp only [UInt32.reduceToNat]
    omega
  have hlong : 4 * ((UInt32.ofNat d.length + 2) / 3) = .ofNat (4 * ((d.length + 2) / 3)) := by
    rw [← hout, UInt32.ofNat_toNat]
  unfold Base64Codec.encode
  rw [if_neg hlt, hmod, pModTable_eq]
  refine congrArg Except.ok (Prod.ext ?_ hlong)
  show List.foldl _ _ _ = _
  rw [List.foldl_ext _ _ _ hset, foldl_set_last _ _ hpad, hlen, encodeBytes_eq]

/-! The loop of the decoder. -/

section Decoding

variable {t : DecodingTable} {pData : UInt32 → Char} {ulDataLen ulOutputLen : UInt32}

/-- The characters from an index on. -/
def cells (pData : UInt32 → Char) (i : UInt32) (m : Nat) : Text :=
  (List.range m).map (fun k => pData (i + .ofNat k))

theorem cells_succ (i : UInt32) (m : Nat) :
    cells pData i (m + 1) = pData i :: cells pData (i + 1) m := by
  unfold cells
  rw [List.range_succ_eq_map, List.map_cons, List.map_map]
  refine congrArg₂ List.cons (congrArg pData (UInt32.add_zero i)) (List.map_congr_left ?_)
  intro k _
  refine congrArg pData ?_
  rw [Nat.succ_eq_add_one, UInt32.ofNat_add, UInt32.add_comm (.ofNat k), ← UInt32.add_assoc]
  rfl

theorem cells_add_four (i : UInt32) (m : Nat) :
    cells pData i (m + 4) =
      pData i :: pData (i + 1) :: pData (i + 2) :: pData (i + 3) :: cells pData (i + 4) m := by
  have htwo : i + 1 + 1 = i + 2 := UInt32.add_assoc i 1 1
  have hthree : i + 2 + 1 = i + 3 := UInt32.add_assoc i 2 1
  have hfour : i + 3 + 1 = i + 4 := UInt32.add_assoc i 3 1
  rw [cells_succ, cells_succ, cells_succ, cells_succ, htwo, hthree, hfour]

theorem text_eq : Base64Codec.text pData ulDataLen = cells pData 0 ulDataLen.toNat := by
  unfold Base64Codec.text cells
  simp only [UInt32.zero_add]

theorem length_text (pData : UInt32 → Char) (ulDataLen : UInt32) :
    (Base64Codec.text pData ulDataLen).length = ulDataLen.toNat := by
  rw [Base64Codec.text, List.length_map, List.length_range]

theorem drop_text (hn : 2 ≤ ulDataLen.toNat) :
    (Base64Codec.text pData ulDataLen).drop (ulDataLen.toNat - 2) =
      [pData (ulDataLen - 2), pData (ulDataLen - 1)] := by
  obtain ⟨m, hm⟩ : ∃ m, ulDataLen.toNat = m + 2 := ⟨ulDataLen.toNat - 2, by omega⟩
  have hlt := ulDataLen.toNat_lt
  have htwo : UInt32.ofNat m = ulDataLen - 2 := by
    refine UInt32.toNat_inj.mp ?_
    rw [UInt32.toNat_sub, UInt32.toNat_ofNat', hm, show (2 : UInt32).toNat = 2 from rfl]
    omega
  have hone : UInt32.ofNat (m + 1) = ulDataLen - 1 := by
    refine UInt32.toNat_inj.mp ?_
    rw [UInt32.toNat_sub, UInt32.toNat_ofNat', hm, show (1 : UInt32).toNat = 1 from rfl]
    omega
  rw [Base64Codec.text, hm, Nat.add_sub_cancel, List.range_succ, List.range_succ, List.append_assoc,
    List.map_append, List.drop_left' (by rw [List.length_map, List.length_range])]
  simp only [List.cons_append, List.nil_append, List.map_cons, List.map_nil, htwo, hone]

/-- The bytes of whole groups are written, as far as the output goes. -/
theorem decodeLoop_written {turns q : Nat} {i j : UInt32} (hturns : q ≤ turns)
    (hi : i.toNat + 4 * q = ulDataLen.toNat) (hj : j.toNat + 3 * q < UInt32.size)
    (hlow : j.toNat + 3 * q ≤ ulOutputLen.toNat + 2)
    (hhigh : ulOutputLen.toNat ≤ j.toNat + 3 * q) :
    (decodeLoop t pData ulDataLen ulOutputLen turns i j).1 =
      (groups t (cells pData i (4 * q))).take (ulOutputLen.toNat - j.toNat) := by
  induction turns generalizing q i j with
  | zero =>
    obtain rfl : q = 0 := Nat.le_zero.mp hturns
    exact List.take_nil.symm
  | succ turns ih =>
    unfold decodeLoop
    cases q with
    | zero =>
      have hend : ¬ i < ulDataLen := by
        rw [UInt32.lt_iff_toNat_lt]
        omega
      rw [if_neg hend]
      exact List.take_nil.symm
    | succ q =>
      have hsize : UInt32.size = 4294967296 := rfl
      have hn := ulDataLen.toNat_lt
      have hlt : i < ulDataLen := by
        rw [UInt32.lt_iff_toNat_lt]
        omega
      have hi4 : (i + 4).toNat = i.toNat + 4 := by
        rw [UInt32.toNat_add, show (4 : UInt32).toNat = 4 from rfl]
        omega
      have hj3 : (j + 3).toNat = j.toNat + 3 := by
        rw [UInt32.toNat_add, show (3 : UInt32).toNat = 3 from rfl]
        omega
      have hleft : (ulOutputLen - j).toNat = ulOutputLen.toNat - j.toNat :=
        UInt32.toNat_sub_of_le _ _ (UInt32.le_iff_toNat_le.mpr (by omega))
      have hrest := ih (i := i + 4) (j := j + 3) (Nat.le_of_succ_le_succ hturns) (by omega)
        (by omega) (by omega) (by omega)
      rw [if_pos hlt]
      simp only
      rw [hrest, hj3, hleft, Nat.mul_succ, cells_add_four, groups, List.take_append, length_bytes,
        ← Nat.sub_sub]
      refine congrArg (· ++ _) ?_
      rw [← length_bytes (group t (pData i) (pData (i + 1)) (pData (i + 2)) (pData (i + 3))),
        Nat.min_comm, ← List.take_take, List.take_length]

theorem decodeLoop_reads {turns q : Nat} {i j : UInt32}
    (hi : i.toNat + 4 * q = ulDataLen.toNat) :
    ∀ r ∈ (decodeLoop t pData ulDataLen ulOutputLen turns i j).2, r < ulDataLen := by
  induction turns generalizing q i j with
  | zero => exact fun r hr => absurd hr List.not_mem_nil
  | succ turns ih =>
    unfold decodeLoop
    split
    case isTrue hlt =>
      rw [UInt32.lt_iff_toNat_lt] at hlt
      obtain ⟨q, rfl⟩ : ∃ p, q = p + 1 := Nat.exists_eq_add_one.mpr (by omega)
      have hn := ulDataLen.toNat_lt
      have hin (k : UInt32) (hk : k.toNat < 4) : i + k < ulDataLen := by
        rw [UInt32.lt_iff_toNat_lt, UInt32.toNat_add]
        omega
      have hi4 : (i + 4).toNat = i.toNat + 4 := by
        rw [UInt32.toNat_add, show (4 : UInt32).toNat = 4 from rfl]
        omega
      intro r hr
      simp only [List.mem_cons] at hr
      obtain rfl | rfl | rfl | rfl | hr := hr
      · exact UInt32.lt_iff_toNat_lt.mpr hlt
      · exact hin 1 (by decide)
      · exact hin 2 (by decide)
      · exact hin 3 (by decide)
      · exact ih (q := q) (by omega) r hr
    case isFalse => exact fun r hr => absurd hr List.not_mem_nil

end Decoding

/-! A call as a whole. -/

section Calls

variable {t : DecodingTable} {pData : UInt32 → Char} {ulDataLen ulBuffLen : UInt32}

theorem mod_four_iff : ulDataLen % 4 = 0 ↔ ulDataLen.toNat % 4 = 0 := by
  rw [← UInt32.toNat_inj, UInt32.toNat_mod]
  rfl

theorem decode_snd : (decode t pData ulDataLen ulBuffLen).2 = built t := by
  unfold decode
  simp only
  split
  · rfl
  · split <;> rfl

/-- The calls before find the table blank, or built already. -/
theorem tableAfter_cases (calls : List DecodeCall) :
    tableAfter calls = blank ∨ tableAfter calls = full := by
  induction calls using List.reverseRecOn with
  | nil => exact .inl rfl
  | append_singleton calls call ih =>
    right
    rw [tableAfter, List.foldl_append, List.foldl_cons, List.foldl_nil, decode_snd, ← tableAfter]
    obtain h | h := ih <;> rw [h] <;> rfl

theorem built_tableAfter (calls : List DecodeCall) : built (tableAfter calls) = full := by
  obtain h | h := tableAfter_cases calls <;> rw [h] <;> rfl

/-- The characters of the string are counted as the code counts them from its end. -/
theorem decodedLen_toNat (hn : 4 ≤ ulDataLen.toNat) :
    (outputLen pData ulDataLen).toNat =
      ulDataLen.toNat / 4 * 3 - ended (Base64Codec.text pData ulDataLen) := by
  have hlen := length_text pData ulDataLen
  have hlt := ulDataLen.toNat_lt
  have hquot : (ulDataLen / 4 * 3).toNat = ulDataLen.toNat / 4 * 3 := by
    rw [UInt32.toNat_mul, UInt32.toNat_div, show (4 : UInt32).toNat = 4 from rfl,
      show (3 : UInt32).toNat = 3 from rfl]
    omega
  have hone : (ulDataLen / 4 * 3 - 1).toNat = ulDataLen.toNat / 4 * 3 - 1 := by
    rw [UInt32.toNat_sub, hquot, show (1 : UInt32).toNat = 1 from rfl]
    omega
  have htwo : (ulDataLen / 4 * 3 - 1 - 1).toNat = ulDataLen.toNat / 4 * 3 - 2 := by
    rw [UInt32.toNat_sub, hone, show (1 : UInt32).toNat = 1 from rfl]
    omega
  rw [ended, hlen, drop_text (by omega), outputLen]
  by_cases h1 : pData (ulDataLen - 1) = '=' <;> by_cases h2 : pData (ulDataLen - 2) = '=' <;>
    simp [h1, h2, hquot, hone, htwo]

theorem lt_of_mem_ends {i : UInt32} (hn : 2 ≤ ulDataLen.toNat)
    (hi : i ∈ [ulDataLen - 1, ulDataLen - 2]) : i < ulDataLen := by
  have hback (k : UInt32) (hk : k.toNat ≤ 2) (hpos : 0 < k.toNat) : ulDataLen - k < ulDataLen := by
    have hle : k ≤ ulDataLen := UInt32.le_iff_toNat_le.mpr (by omega)
    rw [UInt32.lt_iff_toNat_lt, UInt32.toNat_sub_of_le _ _ hle]
    omega
  obtain rfl | hi := List.mem_cons.mp hi
  · exact hback 1 (by decide) (by decide)
  · obtain rfl := List.mem_singleton.mp hi
    exact hback 2 (by decide) (by decide)

/-- A call that is given whole groups reads them, and the two characters before their end, and it
writes the bytes that they hold. -/
theorem decode_groups (calls : List DecodeCall) (pData : UInt32 → Char)
    (ulDataLen ulBuffLen : UInt32) (hn : ulDataLen ≠ 0) (hfour : ulDataLen.toNat % 4 = 0)
    (hbuff : ulDataLen.toNat / 4 * 3 ≤
      ulBuffLen.toNat + ended (Base64Codec.text pData ulDataLen)) :
    let s := Base64Codec.text pData ulDataLen
    let r := (decode (tableAfter calls) pData ulDataLen ulBuffLen).1
    r.ret = .ok ∧ r.pBuff = (groups full s).take (ulDataLen.toNat / 4 * 3 - ended s) ∧
      r.pulOutputLen.map UInt32.toNat = some (ulDataLen.toNat / 4 * 3 - ended s) ∧
        ∀ i ∈ r.reads, i < ulDataLen := by
  intro s r
  have hpos : ulDataLen.toNat ≠ 0 := fun h => hn (UInt32.toNat_inj.mp h)
  have hlt := ulDataLen.toNat_lt
  have hout : (outputLen pData ulDataLen).toNat = ulDataLen.toNat / 4 * 3 - ended s :=
    decodedLen_toNat (by omega)
  have hended : ended s ≤ 2 := ended_le s
  have hmod : ¬ ulDataLen % 4 ≠ 0 := not_not.mpr (mod_four_iff.mpr hfour)
  have henough : ¬ ulBuffLen < outputLen pData ulDataLen := by
    rw [UInt32.lt_iff_toNat_lt, hout]
    show ¬ ulBuffLen.toNat < ulDataLen.toNat / 4 * 3 - ended s
    have hbuff' : ulDataLen.toNat / 4 * 3 ≤ ulBuffLen.toNat + ended s := hbuff
    omega
  have hr : r = ⟨.ok, [ulDataLen - 1, ulDataLen - 2] ++
      (decodeLoop full pData ulDataLen (outputLen pData ulDataLen) ulDataLen.toNat 0 0).2,
      (decodeLoop full pData ulDataLen (outputLen pData ulDataLen) ulDataLen.toNat 0 0).1,
      some (outputLen pData ulDataLen)⟩ := by
    show (decode (tableAfter calls) pData ulDataLen ulBuffLen).1 = _
    unfold decode
    rw [built_tableAfter]
    simp only [if_neg hmod, if_neg henough]
  have hzero : (0 : UInt32).toNat = 0 := rfl
  have hwhole : 4 * (ulDataLen.toNat / 4) = ulDataLen.toNat := by omega
  have hfrom : (0 : UInt32).toNat + 4 * (ulDataLen.toNat / 4) = ulDataLen.toNat := by
    rw [hzero, Nat.zero_add, hwhole]
  have hwritten :
      (decodeLoop full pData ulDataLen (outputLen pData ulDataLen) ulDataLen.toNat 0 0).1 = _ :=
    decodeLoop_written (by omega) hfrom (by rw [hzero, UInt32.size]; omega)
      (by rw [hzero]; omega) (by rw [hzero]; omega)
  rw [hwhole, ← text_eq, hzero, Nat.sub_zero, hout] at hwritten
  rw [hr]
  refine ⟨rfl, hwritten, ?_, ?_⟩
  · rw [Option.map_some, hout]
  · intro i hi
    obtain hi | hi := List.mem_append.mp hi
    · exact lt_of_mem_ends (by omega) hi
    · exact decodeLoop_reads hfrom i hi

/-- What a call needs for the bytes of its string. -/
theorem decode_small (calls : List DecodeCall) (hn : 4 ≤ ulDataLen.toNat)
    (hfour : ulDataLen.toNat % 4 = 0)
    (hbuff : ulBuffLen.toNat + ended (Base64Codec.text pData ulDataLen) <
      ulDataLen.toNat / 4 * 3) :
    (decode (tableAfter calls) pData ulDataLen ulBuffLen).1 =
      ⟨.bufferTooSmall, [ulDataLen - 1, ulDataLen - 2], [], none⟩ := by
  have hmod : ¬ ulDataLen % 4 ≠ 0 := not_not.mpr (mod_four_iff.mpr hfour)
  have hsmall : ulBuffLen < outputLen pData ulDataLen := by
    rw [UInt32.lt_iff_toNat_lt, decodedLen_toNat hn]
    omega
  unfold decode
  simp only [if_neg hmod, if_pos hsmall]

end Calls

theorem encodeLoop_mem (d : List UInt8) : ∀ c ∈ encodeLoop d, c ∈ pEncodingTable := by
  induction d using encodeLoop.induct with
  | case1 => exact fun c hc => absurd hc List.not_mem_nil
  | case2 a => exact digits_mem _
  | case3 a b => exact digits_mem _
  | case4 a b c rest ih =>
    intro x hx
    rw [encodeLoop] at hx
    obtain hx | hx := List.mem_append.mp hx
    · exact digits_mem _ x hx
    · exact ih x hx

theorem ended_encodeBytes (d : List UInt8) : ended (encodeBytes d) = padding d.length := by
  rw [encodeBytes_eq]
  exact ended_canonical (fun c hc => encodeLoop_mem d c (List.mem_of_mem_take hc)) (padding_le _)

/-- Bytes that are encoded are decoded as they were, whatever calls came before. -/
theorem decode_encode (calls : List DecodeCall) {d : List UInt8} (hd : d ≠ [])
    (hlen : d.length ≤ 3 * 0x3FFFFFFF) {ulBuffLen ulDecodeLen : UInt32}
    (hbuff : 4 * ((d.length + 2) / 3) ≤ ulBuffLen.toNat) (hroom : d.length ≤ ulDecodeLen.toNat) :
    ∃ e ulDataLen, Base64Codec.encode d ulBuffLen = .ok (e, ulDataLen) ∧
      e.length = 4 * ((d.length + 2) / 3) ∧ ulDataLen.toNat = e.length ∧
        ∀ pData, Base64Codec.text pData ulDataLen = e →
          let r := (decode (tableAfter calls) pData ulDataLen ulDecodeLen).1
          r.ret = .ok ∧ r.pBuff = d ∧ r.pulOutputLen.map UInt32.toNat = some d.length := by
  have hpos : 0 < d.length := List.length_pos_of_ne_nil hd
  have htoNat : (UInt32.ofNat (4 * ((d.length + 2) / 3))).toNat = 4 * ((d.length + 2) / 3) := by
    rw [UInt32.toNat_ofNat']
    omega
  refine ⟨_, _, encode_eq hlen hbuff, length_encodeBytes d, ?_, ?_⟩
  · rw [htoNat, length_encodeBytes]
  · intro pData htext r
    have hended := ended_encodeBytes d
    have hleft : 4 * ((d.length + 2) / 3) / 4 * 3 - padding d.length = d.length := by
      unfold padding
      omega
    have hle := padding_le d.length
    obtain ⟨hret, hwritten, hout, -⟩ := decode_groups calls pData
      (.ofNat (4 * ((d.length + 2) / 3))) ulDecodeLen
      (fun h => absurd (htoNat.symm.trans (congrArg UInt32.toNat h)) (by
        rw [show (0 : UInt32).toNat = 0 from rfl]
        omega))
      (by rw [htoNat]; omega) (by rw [htoNat, htext, hended]; omega)
    rw [htoNat, htext, hended, hleft] at hwritten hout
    exact ⟨hret, hwritten.trans (take_groups_encodeBytes d), hout⟩

theorem two_bytes_back :
    ∃ e ulDataLen, Base64Codec.encode [0x4D, 0xFF] 4 = .ok (e, ulDataLen) ∧
      e.length = 4 ∧ ulDataLen.toNat = e.length ∧
        ∀ pData, Base64Codec.text pData ulDataLen = e →
          let r := (decode (tableAfter [⟨fun _ => 'A', 4, 3⟩]) pData ulDataLen 2).1
          r.ret = .ok ∧ r.pBuff = [0x4D, 0xFF] ∧ r.pulOutputLen.map UInt32.toNat = some 2 :=
  decode_encode [⟨fun _ => 'A', 4, 3⟩] (d := [0x4D, 0xFF]) (by decide) (by decide) (by decide)
    (by decide)

/-- What a decoder does that keeps to its string, and to Base64. -/
def Guarded (r : Decoding) (s : Text) : Prop :=
  (∀ i ∈ r.reads, i.toNat < s.length) ∧
    (r.ret = .ok → Canonical s ∧ ∃ e ulLen, Base64Codec.encode r.pBuff 0xFFFFFFFF = .ok (e, ulLen) ∧
      SameButTail s e)

theorem decode_refused (t : DecodingTable) {pData : UInt32 → Char} {ulDataLen ulBuffLen : UInt32}
    (hfour : ulDataLen.toNat % 4 ≠ 0) :
    (decode t pData ulDataLen ulBuffLen).1 = ⟨.invalidArguments, [], [], none⟩ := by
  have hmod : ulDataLen % 4 ≠ 0 := fun h => hfour (mod_four_iff.mp h)
  unfold decode
  simp only [if_pos hmod]

/-- The end of the string is looked at where its length is a multiple of four, be it zero. -/
theorem decode_reads_end (t : DecodingTable) {pData : UInt32 → Char} {ulDataLen ulBuffLen : UInt32}
    (hfour : ulDataLen % 4 = 0) :
    ulDataLen - 1 ∈ (decode t pData ulDataLen ulBuffLen).1.reads := by
  unfold decode
  rw [if_neg (not_not.mpr hfour)]
  dsimp only
  split <;> exact List.mem_cons_self

/-- The bytes of a string of Base64 are encoded in it, but for bits that no byte has. -/
theorem encode_decoded {s : Text} (hs : Canonical s) (hlt : s.length < UInt32.size) :
    ∃ e ulLen, Base64Codec.encode ((groups full s).take (s.length / 4 * 3 - ended s)) 0xFFFFFFFF =
      .ok (e, ulLen) ∧ SameButTail s e := by
  obtain ⟨hfour, body, p, rfl, hp, hbody⟩ := hs
  have hlen : ((groups full (body ++ List.replicate p '=')).take
      ((body ++ List.replicate p '=').length / 4 * 3 - ended (body ++ List.replicate p '='))).length
        ≤ (body ++ List.replicate p '=').length / 4 * 3 := by
    rw [List.length_take]
    omega
  have hsize : UInt32.size = 4294967296 := rfl
  refine ⟨_, _, encode_eq (by omega) ?_, ?_⟩
  · rw [show (0xFFFFFFFF : UInt32).toNat = 4294967295 from rfl]
    omega
  · rw [ended_canonical hbody hp]
    simp only [List.length_append, List.length_replicate] at hfour ⊢
    exact encode_groups hbody hp hfour

/-- An empty string is read before its start, and any other characters pass for Base64. -/
theorem guarded_iff (calls : List DecodeCall) (pData : UInt32 → Char)
    (ulDataLen ulBuffLen : UInt32) :
    let s := Base64Codec.text pData ulDataLen
    Guarded (decode (tableAfter calls) pData ulDataLen ulBuffLen).1 s ↔
      s ≠ [] ∧ (s.length % 4 ≠ 0 ∨ ulBuffLen.toNat + ended s < s.length / 4 * 3 ∨ Canonical s) := by
  intro s
  have hlen : s.length = ulDataLen.toNat := length_text pData ulDataLen
  have hlt := ulDataLen.toNat_lt
  have hnil : s ≠ [] ↔ ulDataLen.toNat ≠ 0 := by
    rw [← hlen, ne_eq, ne_eq, List.length_eq_zero_iff]
  rw [hnil, hlen]
  by_cases hfour : ulDataLen.toNat % 4 = 0
  case neg =>
    rw [decode_refused _ hfour]
    refine iff_of_true ⟨fun i hi => absurd hi List.not_mem_nil, nofun⟩ ⟨by omega, .inl hfour⟩
  by_cases hzero : ulDataLen.toNat = 0
  case pos =>
    obtain rfl : ulDataLen = 0 := UInt32.toNat_inj.mp hzero
    refine iff_of_false (fun h => ?_) (fun h => h.1 hzero)
    have hread := h.1 _ (decode_reads_end _ rfl)
    rw [hlen] at hread
    exact absurd hread (by decide)
  by_cases hsmall : ulBuffLen.toNat + ended s < ulDataLen.toNat / 4 * 3
  case pos =>
    rw [decode_small calls (by omega) hfour hsmall]
    refine iff_of_true ⟨?_, nofun⟩ ⟨hzero, .inr (.inl hsmall)⟩
    intro i hi
    rw [hlen]
    exact UInt32.lt_iff_toNat_lt.mp (lt_of_mem_ends (by omega) hi)
  · have hn : ulDataLen ≠ 0 := fun h => hzero (congrArg UInt32.toNat h)
    obtain ⟨hret, hwritten, -, hreads⟩ := decode_groups calls pData ulDataLen ulBuffLen hn hfour
      (Nat.le_of_not_lt hsmall)
    constructor
    · exact fun h => ⟨hzero, .inr (.inr (h.2 hret).1)⟩
    · rintro ⟨-, hrest⟩
      have hcanonical := hrest.resolve_left (not_not.mpr hfour) |>.resolve_left hsmall
      refine ⟨fun i hi => ?_, fun _ => ⟨hcanonical, ?_⟩⟩
      · rw [hlen]
        exact UInt32.lt_iff_toNat_lt.mp (hreads i hi)
      · rw [hwritten, ← hlen]
        exact encode_decoded hcanonical (hlen ▸ hlt)

theorem empty_read_and_marks_accepted :
    ¬ Guarded (decode (tableAfter []) (fun _ => 'A') 0 0).1 [] ∧
      ¬ Guarded (decode (tableAfter []) (fun _ => '!') 4 3).1 "!!!!".toList := by
  constructor
  · intro h
    exact absurd (h.1 0xFFFFFFFF (decode_reads_end _ rfl)) (by decide)
  · intro h
    have hret : (decode (tableAfter []) (fun _ => '!') 4 3).1.ret = .ok :=
      (decode_groups [] _ 4 3 (by decide) rfl (Nat.le_add_right 3 _)).1
    obtain ⟨⟨-, body, p, hs, -, hbody⟩, -⟩ := h.2 hret
    have hmem : '!' ∈ body ++ List.replicate p '=' := hs ▸ List.mem_cons_self
    obtain hmem | hmem := List.mem_append.mp hmem
    · exact absurd (hbody '!' hmem) (by decide)
    · exact absurd (List.eq_of_mem_replicate hmem) (by decide)

end Catchb.Proofs.Encodings
