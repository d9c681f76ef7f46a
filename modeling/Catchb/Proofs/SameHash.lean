import Catchb.Fingerprint

/-! Two passes over one camera that see the same. -/

namespace Catchb.Proofs.SameHash
open Lib Sample

/-- The camera's own row: the line whose first field is its address. -/
def arpRow (arp : Option (List Char)) (ip : IP) : Option Text :=
  arp.bind (fun file =>
    (file.splitOn '\n').find? (fun line => (strtok ' ' line).head? = some ip.val))

/-- The two passes see the same row, or none, the same ports and the same score. -/
def Alike (ip : IP) (one two : Sight) : Prop :=
  arpRow one.arp ip = arpRow two.arp ip ∧ one.ports = two.ports ∧ one.score = two.score

/-- The field that a pass takes for the camera's hardware address. -/
def field (ip : IP) (sight : Sight) : Option Text :=
  sight.arp.bind (fun file => macField file ip.val)

/-- Both passes find the field, find the same, and it fits the array. -/
def SameField (ip : IP) (one two : Sight) : Prop :=
  ∃ mac, field ip one = some mac ∧ field ip two = some mac ∧ mac.length < 48

section Mac
variable {ip : IP} {sight one two : Sight} {mac : Text}

theorem mac_unwritten (h : field ip sight = none) (pMAC : List Char) :
    sight.mac ip pMAC = cstr pMAC := by
  unfold field at h
  cases ha : sight.arp with
  | none => simp [Sight.mac, arpParsing, ha]
  | some file =>
    have hf : macField file ip.val = none := by simpa [ha] using h
    simp [Sight.mac, arpParsing, ha, hf]

theorem mac_written (h : field ip sight = some mac) (pMAC : List Char) :
    sight.mac ip pMAC = cstr (memcpy 48 pMAC mac) := by
  obtain ⟨file, ha, hf⟩ := Option.bind_eq_some_iff.mp h
  simp [Sight.mac, arpParsing, ha, hf]

theorem field_terminated (h : field ip sight = some mac) : '\x00' ∉ mac := by
  obtain ⟨file, -, hf⟩ := Option.bind_eq_some_iff.mp h
  exact not_mem_macField hf

/-- A pass whose hardware address does not depend on the memory has found a short field. -/
theorem field_of_mac_const (h : ∀ m m', sight.mac ip m = sight.mac ip m') :
    ∃ mac, field ip sight = some mac ∧ mac.length < 48 := by
  cases hf : field ip sight with
  | none =>
    have hne := h [] ['a']
    rw [mac_unwritten hf, mac_unwritten hf] at hne
    exact absurd hne (by decide)
  | some mac =>
    have h0 := field_terminated hf
    by_cases hl : mac.length < 48
    · exact ⟨mac, rfl, hl⟩
    · have hlong : 48 ≤ mac.length := by omega
      have hne := h (List.replicate 48 'a') (List.replicate 49 'a')
      rw [mac_written hf, mac_written hf, cstr_memcpy_long _ h0 hlong,
        cstr_memcpy_long _ h0 hlong] at hne
      exact absurd (List.append_cancel_left hne) (by decide)

theorem mac_of_short_field (hf : field ip sight = some mac) (hl : mac.length < 48)
    (pMAC : List Char) : sight.mac ip pMAC = mac := by
  rw [mac_written hf, cstr_memcpy_short pMAC (field_terminated hf) hl]

theorem mac_eq_iff : (∀ m m', one.mac ip m = two.mac ip m') ↔ SameField ip one two := by
  constructor
  · intro h
    obtain ⟨mac, hf, hl⟩ := field_of_mac_const (fun m m' => (h m []).trans (h m' []).symm)
    obtain ⟨mac', hf', hl'⟩ := field_of_mac_const (fun m m' => (h [] m).symm.trans (h [] m'))
    have he := h [] []
    rw [mac_of_short_field hf hl, mac_of_short_field hf' hl'] at he
    exact ⟨mac, hf, he ▸ hf', hl⟩
  · rintro ⟨mac, hf, hf', hl⟩ m m'
    rw [mac_of_short_field hf hl, mac_of_short_field hf' hl]

end Mac

section Data
variable {ip : IP} {one two : Sight} {mac mac' : Text} {ports : Ports} {score : Score}

/-- What is hashed gives the hardware address away. -/
theorem hashData_mac_inj :
    hashData ip mac ports score = hashData ip mac' ports score ↔ mac = mac' := by
  constructor
  · intro h
    have hip : ipText ip mac = ipText ip mac' :=
      List.append_cancel_right (List.append_cancel_right h)
    exact List.append_cancel_left (List.append_cancel_right hip)
  · rintro rfl
    rfl

theorem data_eq_iff (h : Alike ip one two) :
    (∀ m m', one.data ip m = two.data ip m') ↔ SameField ip one two := by
  obtain ⟨-, hp, hs⟩ := h
  simp only [Sight.data, hp, hs, hashData_mac_inj]
  exact mac_eq_iff

theorem length_portEntry (port : UInt16 × Bool) : (portEntry port).length ≤ 13 := by
  have hd : (decimal port.1.toNat).length ≤ 5 := by
    have hlt : port.1.toNat < 10 ^ 5 := Nat.lt_trans port.1.toNat_lt (by decide)
    exact (Nat.length_toDigits_le_iff (by decide) (by decide)).mpr hlt
  have hs : (if port.2 then "open" else "close").toList.length ≤ 5 := by
    split <;> decide
  have hm : " - ".toList.length = 3 := rfl
  simp only [portEntry, List.length_append, hm]
  omega

theorem length_intercalate (sep : Text) {ws : List Text} {n : Nat} (hn : ∀ w ∈ ws, w.length ≤ n) :
    (sep.intercalate ws).length ≤ (sep.length + n) * ws.length := by
  induction ws with
  | nil => simp
  | cons w ws ih =>
    have hw := hn w List.mem_cons_self
    have hrest := ih (fun v hv => hn v (List.mem_cons_of_mem _ hv))
    cases ws with
    | nil =>
      rw [List.intercalate_singleton]
      simp
      omega
    | cons v vs =>
      rw [List.intercalate_cons_cons, List.length_append, List.length_append,
        List.length_cons, Nat.mul_succ]
      omega

theorem length_ipText : (ipText ip mac).length = 15 + ip.val.length + mac.length := by
  unfold ipText
  repeat rw [List.length_append]
  change 6 + ip.val.length + 8 + mac.length + 1 = _
  omega

theorem length_portText : (portText ports).length ≤ 489 := by
  have h13 : ∀ w ∈ ports.val.map portEntry, w.length ≤ 13 := by
    intro w hw
    obtain ⟨port, -, rfl⟩ := List.mem_map.mp hw
    exact length_portEntry port
  have hlen := length_intercalate ", ".toList h13
  rw [List.length_map] at hlen
  change _ ≤ (2 + 13) * _ at hlen
  have hcount := ports.property
  unfold portText
  repeat rw [List.length_append]
  change 8 + _ + 1 ≤ _
  omega

theorem length_scoreText : (scoreText score).length = 10 + score.val.length := by
  unfold scoreText
  repeat rw [List.length_append]
  change 9 + score.val.length + 1 = _
  omega

/-- With a short field the whole text fits its buffer. -/
theorem length_hashData (hl : mac.length < 48) : (hashData ip mac ports score).length < 1024 := by
  have hip := ip.property
  have hscore := score.property
  have hports := @length_portText ports
  unfold hashData
  rw [List.length_append, List.length_append, length_ipText, length_scoreText]
  omega

end Data

section Verdict
variable {one two : Sight} {config : CctvConfig} {test : TestConfig} {time p : UInt32}
variable {m : List Char}

theorem pass_registers (sight : Sight) (h : config.hash.val = []) :
    (sight.pass m config test time p).message =
      some (.register config.id (Field.copy 48 (sight.hashValue config.ip m).val)) := by
  simp [Sight.pass, Pass.begin, Pass.message, h]

/-- With test mode off a pass that computes the stored hash finds the camera normal. -/
theorem pass_normal (sight : Sight) (ht : test.enable = false) (hne : config.hash.val ≠ [])
    (he : config.hash.val = (sight.hashValue config.ip m).val) :
    (sight.pass m config test time p).message =
      some (.setStat config.id .normal time
        (Field.copy 48 (sight.hashValue config.ip m).val)) := by
  have hm : (sight.pass m config test time p).Matches := by
    rw [Pass.matches_iff]
    simp [Sight.pass, Pass.begin, TestConfig.fails, ht, he]
  have hc : (sight.pass m config test time p).config = config := by
    unfold Sight.pass Pass.begin
    split <;> rfl
  have ho : (sight.pass m config test time p).obs =
      ⟨time, true, sight.hashValue config.ip m, p⟩ := by
    unfold Sight.pass Pass.begin
    split <;> rfl
  have hlen : config.hash.val.length ≠ 0 := fun h0 => hne (List.length_eq_zero_iff.mp h0)
  simp only [Pass.message, hm, hc, ho, hlen, Bool.not_true, Bool.false_eq_true, ↓reduceIte]

/-- Whenever one pass registers the camera, the other, with test mode off, finds it normal. -/
def ReportsNormal (ip : IP) (one two : Sight) : Prop :=
  ∀ (m m' : List Char) (config : CctvConfig) (test test' : TestConfig) (time p time' p' : UInt32),
    config.ip = ip → config.hash.val = [] → test'.enable = false → ∃ hash,
      (one.pass m config test time p).message = some (.register config.id hash) ∧
      ∀ stat, (two.pass m' { config with hash := hash, stat := stat } test' time' p').message =
        some (.setStat config.id .normal time' hash)

theorem length_hashValue {ip : IP} {mac : Text} (hf : field ip one = some mac)
    (hl : mac.length < 48) : (one.hashValue ip m).val.length = 39 := by
  have hd : (one.data ip m).length < 1024 := by
    rw [Sight.data, mac_of_short_field hf hl]
    exact length_hashData hl
  have hfits : 1024 * 8 < UInt32.size := by decide
  apply Sha1.length_hashSHA1
  omega

theorem reportsNormal {ip : IP} (hmac : SameField ip one two)
    (hash : ∀ m m', one.hashValue ip m = two.hashValue ip m') : ReportsNormal ip one two := by
  rintro m m' config test test' time p time' p' rfl he ht
  obtain ⟨mac, hf, -, hl⟩ := hmac
  have hlen : (one.hashValue config.ip m).val.length = 39 := length_hashValue hf hl
  have hstored : (Field.copy 48 (one.hashValue config.ip m).val).val =
      (two.hashValue config.ip m').val := by
    rw [← hash m m', Field.copy]
    exact List.take_of_length_le (by omega)
  refine ⟨Field.copy 48 (one.hashValue config.ip m).val, pass_registers one he, ?_⟩
  intro stat
  have hne : (Field.copy 48 (one.hashValue config.ip m).val).val ≠ [] := by
    intro h0
    rw [hstored, ← hash m m'] at h0
    rw [h0] at hlen
    cases hlen
  rw [hash m m'] at hne hstored ⊢
  exact pass_normal two ht hne hstored

end Verdict

/-- What is hashed is the same for all memories exactly when both passes find the camera's
hardware address in one short field; and then the hash value and the verdict are. -/
theorem same_fingerprint_iff (ip : IP) (one two : Sight) (h : Alike ip one two) :
    ((∀ m m', one.data ip m = two.data ip m') ↔ SameField ip one two) ∧
      (SameField ip one two →
        (∀ m m', one.hashValue ip m = two.hashValue ip m') ∧ ReportsNormal ip one two) := by
  refine ⟨data_eq_iff h, ?_⟩
  intro hmac
  have hash : ∀ m m', one.hashValue ip m = two.hashValue ip m' := by
    intro m m'
    exact congrArg Sha1.hashSHA1 ((data_eq_iff h).mpr hmac m m')
  exact ⟨hash, reportsNormal hmac hash⟩

/-- The table with its heading. -/
def arpFile (rows : String) : List Char :=
  "IP address HW type Flags HW address Mask Device\n".toList ++ rows.toList

def porchSight (rows : String) : Sight :=
  ⟨some (arpFile rows), ⟨[(80, true), (554, false)], by decide⟩, ⟨"100.0".toList, by decide⟩⟩

def porchRow : String := "10.0.0.7 0x1 0x2 00:1b:c5:04:a0:11 * eth0\n"

/-- Another machine answers meanwhile. -/
def moreRows : String := porchRow ++ "10.0.0.9 0x1 0x2 00:1b:c5:04:a0:2f * eth0\n"

def porchMac : Text := "00:1b:c5:04:a0:11".toList

theorem porch_alike : Alike porch.ip (porchSight porchRow) (porchSight moreRows) := by
  unfold Alike
  decide +kernel

theorem porch_field : field porch.ip (porchSight porchRow) = some porchMac := by decide +kernel

theorem porch_field_more : field porch.ip (porchSight moreRows) = some porchMac := by
  decide +kernel

theorem listed_fingerprint_same :
    (∀ m m', (porchSight porchRow).hashValue porch.ip m =
      (porchSight moreRows).hashValue porch.ip m') ∧
      ReportsNormal porch.ip (porchSight porchRow) (porchSight moreRows) :=
  (same_fingerprint_iff porch.ip (porchSight porchRow) (porchSight moreRows) porch_alike).2
    ⟨porchMac, porch_field, porch_field_more, by decide⟩

/-- The camera's row has left the table, and the same sights give two hash values. -/
theorem absent_row_leaks_memory : ¬ ∀ (ip : IP) (one two : Sight) (m m' : List Char),
    Alike ip one two → one.hashValue ip m = two.hashValue ip m' := by
  intro h
  have hv := h porch.ip (porchSight "") (porchSight "") "b4".toList "7f".toList ⟨rfl, rfl, rfl⟩
  exact absurd hv (by decide +kernel)

end Catchb.Proofs.SameHash
