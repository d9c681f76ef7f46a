import Catchb.Proofs.OptionWalk
import Mathlib.Tactic.Ring

/-! What the sections of the score add, and that they add it together. -/

namespace Catchb.Packet
open FtmScore Proofs.OptionWalk

variable (p : Packet)

/-- The sections of the IP header. -/
def ipPoints : ℚ := ttlPoints (p 22).toNat + dfPoints (p.word 20)

/-- What the first loop has seen behind the last option. -/
def seen : Nat × Int :=
  (p.path.getD []).foldl (fun x i => Proofs.OptionWalk.seen p (p.kind i) (p.option i) x) (0, -1)

def letters : List Char := (p.path.getD []).map (fun i => letter (p.kind i))

/-- The sections of a TCP packet with SYN. -/
def tcpPoints : Nat :=
  mssPoints p.seen.1 + windowScalePoints p.seen.2 +
    windowSizePoints p.seen.1 (p.word (14 + p.ulIPHdrLen + 14)) +
    synPacketSizePoints (p.word 16) + optionsOrderPoints p.letters + ipidPoints (p.word 18)

end Catchb.Packet

namespace Catchb.Proofs.Sections
open Lib FtmScore Program OptionWalk

variable {p : Packet} {turns : Nat} {pScoreInfo : ScoreInfo} {added : OSMatrix → Bool}
  {mark : OSMatrix → OSMatrix} {part : PacketReader ℚ}

theorem result_once : result p (pScoreInfo.once added mark part) =
    if added pScoreInfo.xOSMatrix then .ok pScoreInfo
    else (result p part).map
      (fun points => ⟨pScoreInfo.fValue + points, mark pScoreInfo.xOSMatrix⟩) := by
  unfold ScoreInfo.once
  split
  · rfl
  · rw [result_bind]
    rfl

theorem mem_asked_once {q : Nat} (h : q ∈ asked p (pScoreInfo.once added mark part)) :
    q ∈ asked p part := by
  unfold ScoreInfo.once at h
  split at h
  · cases h
  · rcases mem_asked_bind.mp h with h | ⟨points, -, h⟩
    · exact h
    · cases h

theorem once_error {e : Fault} (h : result p (pScoreInfo.once added mark part) = .error e) :
    result p part = .error e := by
  rw [result_once] at h
  split at h
  · cases h
  · cases hpart : result p part with
    | ok points =>
      rw [hpart] at h
      cases h
    | error e' =>
      rw [hpart] at h
      cases h
      rfl

/-- The sections of each kind are marked together. -/
def marks (ip tcp : Bool) : OSMatrix := ⟨ip, ip, tcp, tcp, tcp, tcp, tcp, tcp⟩

theorem result_processIP (v : ℚ) (ip tcp : Bool) :
    result p (processIP ⟨v, marks ip tcp⟩) =
      .ok ⟨if ip then v else v + p.ipPoints, marks true tcp⟩ := by
  cases ip with
  | true => rfl
  | false =>
    have hsum : v + p.ipPoints = v + ttlPoints (p 22).toNat + dfPoints (p.word 20) :=
      (add_assoc _ _ _).symm
    rw [hsum]
    rfl

/-- Once they have been added, only the first loop runs. -/
theorem result_syn_again (v : ℚ) (ip : Bool) :
    result p (processSyn turns p.ulIPHdrLen p.ulTCPOptLen ⟨v, marks ip true⟩) =
      (result p (options p.ulIPHdrLen p.ulTCPOptLen scan turns 0 (0, -1))).map
        (fun _ => ⟨v, marks ip true⟩) := by
  rw [processSyn, result_bind]
  rfl

theorem result_new {α : Type} {v points : ℚ} {m : OSMatrix} (hnew : added m = false)
    (hpart : result p part = .ok points) (f : ScoreInfo → PacketReader α) :
    result p (ScoreInfo.once ⟨v, m⟩ added mark part >>= f) =
      result p (f ⟨v + points, mark m⟩) := by
  rw [result_bind, result_once, if_neg (by rw [hnew]; exact Bool.false_ne_true), hpart]
  rfl

theorem result_new_error {α : Type} {v : ℚ} {m : OSMatrix} {e : Fault} (hnew : added m = false)
    (hpart : result p part = .error e) (f : ScoreInfo → PacketReader α) :
    result p (ScoreInfo.once ⟨v, m⟩ added mark part >>= f) = .error e := by
  rw [result_bind, result_once, if_neg (by rw [hnew]; exact Bool.false_ne_true), hpart]
  rfl

/-- A packet with SYN fails only with one of its loops. -/
theorem syn_error {e : Fault}
    (h : result p (processSyn turns p.ulIPHdrLen p.ulTCPOptLen pScoreInfo) = .error e) :
    result p (options p.ulIPHdrLen p.ulTCPOptLen scan turns 0 (0, -1)) = .error e ∨
      (∃ y, result p (options p.ulIPHdrLen p.ulTCPOptLen scan turns 0 (0, -1)) = .ok y) ∧
        result p (options p.ulIPHdrLen p.ulTCPOptLen order turns 0 []) = .error e := by
  unfold processSyn at h
  rcases bind_error h with h | ⟨seen, hseen, h⟩
  · exact .inl h
  rcases bind_error h with h | ⟨_, -, h⟩
  · cases once_error h
  rcases bind_error h with h | ⟨_, -, h⟩
  · cases once_error h
  rcases bind_error h with h | ⟨_, -, h⟩
  · cases once_error h
  rcases bind_error h with h | ⟨_, -, h⟩
  · cases once_error h
  rcases bind_error h with h | ⟨_, -, h⟩
  · rcases bind_error (once_error h) with h | ⟨_, -, h⟩
    · exact .inr ⟨⟨seen, hseen⟩, h⟩
    · cases h
  · cases once_error h

/-- The first time all of them are added, if the string of the second loop fits its array. -/
theorem result_syn_first {l : List Nat} (v : ℚ) (ip : Bool) (h : walk p.next turns 0 = some l) :
    result p (processSyn turns p.ulIPHdrLen p.ulTCPOptLen ⟨v, marks ip false⟩) =
      if l.length ≤ 19 then .ok ⟨v + p.tcpPoints, marks ip true⟩ else .error .overflow := by
  have hpath : p.path = some l := Packet.path_of_walk h
  have hscan : result p (options p.ulIPHdrLen p.ulTCPOptLen scan turns 0 (0, -1)) = .ok p.seen := by
    rw [result_scans h, Packet.seen, hpath]
    rfl
  have horder : result p (options p.ulIPHdrLen p.ulTCPOptLen order turns 0 [] >>= fun pOptions =>
      pure (optionsOrderPoints pOptions : ℚ)) =
      if l.length ≤ 19 then .ok (optionsOrderPoints p.letters : ℚ) else .error .overflow := by
    rw [result_bind, result_orders h, Packet.letters, hpath]
    split <;> rfl
  rw [processSyn, result_bind, hscan]
  refine (result_new rfl rfl _).trans ?_
  refine (result_new rfl rfl _).trans ?_
  refine (result_new rfl rfl _).trans ?_
  refine (result_new rfl rfl _).trans ?_
  by_cases hfits : l.length ≤ 19
  · rw [if_pos hfits] at horder ⊢
    refine (result_new rfl horder _).trans ?_
    have hsum : v + p.tcpPoints = v + mssPoints p.seen.1 + windowScalePoints p.seen.2 +
        windowSizePoints p.seen.1 (p.word (14 + p.ulIPHdrLen + 14)) +
        synPacketSizePoints (p.word 16) + optionsOrderPoints p.letters +
        ipidPoints (p.word 18) := by
      unfold Packet.tcpPoints
      push_cast
      ring
    rw [hsum]
    rfl
  · rw [if_neg hfits] at horder ⊢
    exact result_new_error rfl horder _

/-- Other packets add nothing. -/
theorem result_processTCP (info : ScoreInfo) : result p (processTCP turns info) =
    if p.syn then result p (processSyn turns p.ulIPHdrLen p.ulTCPOptLen info) else .ok info := by
  unfold processTCP
  rw [Packet.result_read, Packet.result_read]
  change result p (if p.protocol ≠ 6 then _ else _) = _
  by_cases hprotocol : p.protocol = 6
  · rw [if_neg (not_not_intro hprotocol), Packet.result_read, Packet.result_ntohs,
      Packet.result_ntohs, Packet.result_read]
    change result p (if p.flags &&& 2 = 0 then _ else _) = _
    by_cases hflags : p.flags &&& 2 = 0
    · rw [if_pos hflags, if_neg (fun h => (Packet.syn_iff.mp h).2 hflags)]
      rfl
    · rw [if_neg hflags, if_pos (Packet.syn_iff.mpr ⟨hprotocol, hflags⟩)]
      rfl
  · rw [if_pos hprotocol, if_neg (fun h => hprotocol (Packet.protocol_of_syn h))]
    rfl

/-- The packet's loops end, and the string fits where its packet is the first one with SYN. -/
def Passes (turns : Nat) (tcp : Bool) (p : Packet) : Prop :=
  p.syn = true → ∃ l, walk p.next turns 0 = some l ∧ (tcp = false → l.length ≤ 19)

/-- A packet whose loops do not end has no result. -/
theorem syn_endless (hwalk : walk p.next turns 0 = none) :
    result p (processSyn turns p.ulIPHdrLen p.ulTCPOptLen pScoreInfo) = .error .turns := by
  rw [processSyn, result_bind, turns_used_up (scan_succeeds p) hwalk]
  rfl

theorem syn_ok_iff (v : ℚ) (ip tcp : Bool) :
    result p (processSyn turns p.ulIPHdrLen p.ulTCPOptLen ⟨v, marks ip tcp⟩) = .ok pScoreInfo ↔
      (∃ l, walk p.next turns 0 = some l ∧ (tcp = false → l.length ≤ 19)) ∧
        pScoreInfo = ⟨v + if tcp then 0 else (p.tcpPoints : ℚ), marks ip true⟩ := by
  cases hwalk : walk p.next turns 0 with
  | none =>
    rw [syn_endless hwalk]
    constructor
    · nofun
    · intro ⟨⟨l, hl, _⟩, _⟩
      cases hl
  | some l =>
    cases tcp with
    | true =>
      rw [result_syn_again, result_scans hwalk, if_pos rfl, add_zero]
      constructor
      · intro h
        cases h
        exact ⟨⟨l, rfl, nofun⟩, rfl⟩
      · intro ⟨_, h⟩
        rw [h]
        rfl
    | false =>
      rw [result_syn_first v ip hwalk]
      constructor
      · intro h
        split at h
        · rename_i hfits
          cases h
          exact ⟨⟨l, rfl, fun _ => hfits⟩, rfl⟩
        · cases h
      · intro ⟨⟨l', hl, hfits⟩, h⟩
        cases hl
        rw [if_pos (hfits rfl), h]
        rfl

/-- What a packet adds after the ones before it, whose sections are marked. -/
def gain (ip tcp : Bool) (p : Packet) : ℚ :=
  (if ip then 0 else p.ipPoints) + if p.syn && !tcp then (p.tcpPoints : ℚ) else 0

theorem processPacket_ok_iff (v : ℚ) (ip tcp : Bool) :
    processPacket turns ⟨v, marks ip tcp⟩ p = .ok pScoreInfo ↔
      Passes turns tcp p ∧ pScoreInfo = ⟨v + gain ip tcp p, marks true (tcp || p.syn)⟩ := by
  have hip : (if ip then v else v + p.ipPoints) = v + if ip then 0 else p.ipPoints := by
    cases ip with
    | true => exact (add_zero v).symm
    | false => rfl
  unfold processPacket
  rw [result_bind, result_processIP, hip]
  change result p (processTCP turns _) = _ ↔ _
  rw [result_processTCP]
  unfold Passes gain
  cases hsyn : p.syn with
  | false =>
    rw [if_neg Bool.false_ne_true, Bool.false_and, if_neg Bool.false_ne_true, add_zero,
      Bool.or_false]
    constructor
    · intro h
      cases h
      exact ⟨nofun, rfl⟩
    · intro ⟨_, h⟩
      rw [h]
  | true =>
    have hgain : (if true && !tcp then (p.tcpPoints : ℚ) else 0) =
        if tcp then 0 else (p.tcpPoints : ℚ) := by cases tcp <;> rfl
    rw [if_pos rfl, hgain, Bool.or_true, ← add_assoc, syn_ok_iff]
    exact and_congr_left fun _ => ⟨fun h _ => h, fun h => h rfl⟩

/-- The same for packets one after the other. -/
def AllPass (turns : Nat) : Bool → List Packet → Prop
  | _, [] => True
  | tcp, p :: packets => Passes turns tcp p ∧ AllPass turns (tcp || p.syn) packets

def gains : Bool → Bool → List Packet → ℚ
  | _, _, [] => 0
  | ip, tcp, p :: packets => gain ip tcp p + gains true (tcp || p.syn) packets

theorem score_ok_iff (packets : List Packet) (v : ℚ) (ip tcp : Bool) :
    packets.foldlM (processPacket turns) ⟨v, marks ip tcp⟩ = .ok pScoreInfo ↔
      AllPass turns tcp packets ∧ pScoreInfo = ⟨v + gains ip tcp packets,
        marks (ip || !packets.isEmpty) (tcp || packets.any Packet.syn)⟩ := by
  induction packets generalizing v ip tcp with
  | nil =>
    rw [List.foldlM_nil, AllPass, gains, add_zero, List.isEmpty_nil, List.any_nil, Bool.not_true,
      Bool.or_false, Bool.or_false]
    exact ⟨fun h => ⟨trivial, (Except.ok.inj h).symm⟩, fun h => congrArg Except.ok h.2.symm⟩
  | cons p packets ih =>
    have hend : marks (true || !packets.isEmpty) (tcp || p.syn || packets.any Packet.syn) =
        marks (ip || !(p :: packets).isEmpty) (tcp || (p :: packets).any Packet.syn) := by
      rw [List.any_cons, Bool.or_assoc, List.isEmpty_cons, Bool.not_false, Bool.or_true,
        Bool.true_or]
    rw [List.foldlM_cons, AllPass, gains, ← hend, ← add_assoc]
    constructor
    · intro h
      cases hp : processPacket turns ⟨v, marks ip tcp⟩ p with
      | error e =>
        rw [hp] at h
        cases h
      | ok info =>
        obtain ⟨hpass, rfl⟩ := (processPacket_ok_iff v ip tcp).mp hp
        rw [hp] at h
        obtain ⟨hrest, hinfo⟩ := (ih _ true _).mp h
        exact ⟨⟨hpass, hrest⟩, hinfo⟩
    · intro ⟨⟨hpass, hrest⟩, hinfo⟩
      rw [(processPacket_ok_iff v ip tcp).mpr ⟨hpass, rfl⟩]
      exact (ih _ true _).mpr ⟨hrest, hinfo⟩

theorem find_skip {packets : List Packet} (hsyn : p.syn = false) :
    (p :: packets).find? Packet.syn = packets.find? Packet.syn :=
  List.find?_cons_of_neg (by rw [hsyn]; exact Bool.false_ne_true)

/-- Of all the packets only the first one and the first one with SYN add something. -/
theorem gains_eq (ip tcp : Bool) (packets : List Packet) : gains ip tcp packets =
    (if ip then 0 else packets.head?.elim 0 Packet.ipPoints) +
      if tcp then 0 else (packets.find? Packet.syn).elim 0 (fun p => (p.tcpPoints : ℚ)) := by
  induction packets generalizing ip tcp with
  | nil =>
    rw [List.head?_nil, List.find?_nil, Option.elim_none, Option.elim_none, ite_self, ite_self]
    exact (add_zero 0).symm
  | cons p packets ih =>
    rw [gains, ih, gain, if_pos rfl, zero_add, List.head?_cons, Option.elim_some, add_assoc]
    congr 1
    cases hsyn : p.syn with
    | false =>
      rw [find_skip hsyn, Bool.or_false, Bool.false_and, if_neg Bool.false_ne_true, zero_add]
    | true =>
      rw [List.find?_cons_of_pos hsyn, Bool.or_true, if_pos rfl, add_zero]
      cases tcp <;> rfl

theorem Passes.mono {more : Nat} {tcp : Bool} (h : Passes turns tcp p) (hle : turns ≤ more) :
    Passes more tcp p := by
  intro hsyn
  obtain ⟨l, hl, hfits⟩ := h hsyn
  exact ⟨l, walk_mono hl hle, hfits⟩

theorem AllPass.mono {more : Nat} {tcp : Bool} {packets : List Packet}
    (h : AllPass turns tcp packets) (hle : turns ≤ more) : AllPass more tcp packets := by
  induction packets generalizing tcp with
  | nil => trivial
  | cons p packets ih => exact ⟨h.1.mono hle, ih h.2⟩

/-- Some number of turns is enough for all packets with SYN if each of them has an end. -/
theorem enough_turns (tcp : Bool) (packets : List Packet) : (∃ turns, AllPass turns tcp packets) ↔
    (∀ p ∈ packets, p.syn = true → ∃ l, p.path = some l) ∧
    (tcp = false → ∀ p, packets.find? Packet.syn = some p → ∀ l, p.path = some l →
      l.length ≤ 19) := by
  induction packets generalizing tcp with
  | nil => exact ⟨fun _ => ⟨nofun, fun _ => nofun⟩, fun _ => ⟨0, trivial⟩⟩
  | cons p packets ih =>
    constructor
    · intro ⟨turns, hp, hrest⟩
      obtain ⟨hends, hfits⟩ := (ih _).mp ⟨turns, hrest⟩
      constructor
      · intro q hq hsyn
        rcases List.mem_cons.mp hq with rfl | hq
        · obtain ⟨l, hl, -⟩ := hp hsyn
          exact ⟨l, Packet.path_of_walk hl⟩
        · exact hends q hq hsyn
      · intro htcp q hq l hl
        cases hsyn : p.syn with
        | false =>
          rw [find_skip hsyn] at hq
          exact hfits (by rw [htcp, hsyn]; rfl) q hq l hl
        | true =>
          rw [List.find?_cons_of_pos hsyn] at hq
          cases hq
          obtain ⟨l', hl', hfit⟩ := hp hsyn
          cases hl.symm.trans (Packet.path_of_walk hl')
          exact hfit htcp
    · intro ⟨hends, hfits⟩
      have hrest : ∃ turns, AllPass turns (tcp || p.syn) packets := by
        refine (ih _).mpr ⟨fun q hq => hends q (.tail _ hq), fun hnone q hq => ?_⟩
        obtain ⟨htcp, hsyn⟩ := Bool.or_eq_false_iff.mp hnone
        refine hfits htcp q ?_
        rwa [find_skip hsyn]
      obtain ⟨turns, hrest⟩ := hrest
      refine ⟨max turns (p.ulTCPOptLen + 1), fun hsyn => ?_, hrest.mono (Nat.le_max_left _ _)⟩
      obtain ⟨l, hl⟩ := hends p List.mem_cons_self hsyn
      refine ⟨l, walk_mono hl (Nat.le_max_right _ _), fun htcp => ?_⟩
      exact hfits htcp p (List.find?_cons_of_pos hsyn) l hl

end Catchb.Proofs.Sections
