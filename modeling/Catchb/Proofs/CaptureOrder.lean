import Catchb.Proofs.Sections
import Mathlib.Tactic.Linarith
import Mathlib.Tactic.NormNum

/-! Whether the score depends on the order in which packets have been captured. -/

namespace Catchb.Proofs.CaptureOrder
open Lib FtmScore OptionWalk Sections

def Sorted (packets : List Packet) : Prop :=
  packets.Pairwise (fun p q => p.protocol ≤ q.protocol)

/-- Among the packets no protocol number lies between two others. -/
def NoneBetween (packets : List Packet) : Prop :=
  ∀ p ∈ packets, ∀ q ∈ packets, ∀ r ∈ packets, p.protocol < q.protocol →
    ¬q.protocol < r.protocol

section
variable {x : UInt8} {p q : Packet} {packets : List Packet}

theorem exchange_cons (x : UInt8) (p q : Packet) (packets : List Packet) :
    exchange x p (q :: packets) =
      if x > q.protocol then ((exchange x q packets).1, p :: (exchange x q packets).2)
      else ((exchange x p packets).1, q :: (exchange x p packets).2) := rfl

/-- A pass loses no packet. -/
theorem exchange_perm (x : UInt8) (p : Packet) (packets : List Packet) :
    ((exchange x p packets).1 :: (exchange x p packets).2).Perm (p :: packets) := by
  induction packets generalizing p with
  | nil => exact .refl _
  | cons q packets ih =>
    rw [exchange_cons]
    split
    · exact (List.Perm.swap _ _ _).trans ((ih q).cons p)
    · exact ((List.Perm.swap _ _ _).trans ((ih p).cons q)).trans (.swap _ _ _)

/-- Where no packet comes before the first one, the pass changes nothing. -/
theorem exchange_first (h : ∀ q ∈ packets, ¬q.protocol < x) :
    exchange x p packets = (p, packets) := by
  induction packets with
  | nil => rfl
  | cons q packets ih =>
    rw [exchange_cons, if_neg (h q List.mem_cons_self), ih (fun r hr => h r (.tail _ hr))]

/-- Otherwise a packet takes the first place that comes before the one that was there. -/
theorem exchange_lt (h : p.protocol < x ∨ ∃ q ∈ packets, q.protocol < x) :
    (exchange x p packets).1.protocol < x := by
  induction packets generalizing p with
  | nil =>
    rcases h with h | ⟨q, hq, -⟩
    · exact h
    · cases hq
  | cons q packets ih =>
    rw [exchange_cons]
    split
    · rename_i hlt
      exact ih (.inl hlt)
    · rename_i hge
      refine ih (h.imp_right fun ⟨r, hr, hlt⟩ => ?_)
      rcases List.mem_cons.mp hr with rfl | hr
      · exact absurd hlt hge
      · exact ⟨r, hr, hlt⟩

/-- It is the last one of these. -/
theorem exchange_last (h : q.protocol < x) : (exchange x p (packets ++ [q])).1 = q := by
  induction packets generalizing p with
  | nil =>
    rw [List.nil_append, exchange_cons, if_pos h]
    rfl
  | cons r packets ih =>
    rw [List.cons_append, exchange_cons]
    split
    · exact ih
    · exact ih

theorem sortFrom_cons (i : Nat) (p : Packet) (packets : List Packet) :
    sortFrom (i + 1) (p :: packets) = (exchange p.protocol p packets).1 ::
      sortFrom i (exchange p.protocol p packets).2 := rfl

theorem sortFrom_perm (i : Nat) (packets : List Packet) : (sortFrom i packets).Perm packets := by
  induction i generalizing packets with
  | zero => cases packets <;> exact .refl _
  | succ i ih =>
    cases packets with
    | nil => exact .refl _
    | cons p packets =>
      rw [sortFrom_cons]
      exact ((ih _).cons _).trans (exchange_perm _ _ _)

theorem sortPackets_perm (packets : List Packet) : (sortPackets packets).Perm packets :=
  sortFrom_perm _ packets

theorem NoneBetween.subset {packets' : List Packet} (h : NoneBetween packets)
    (hsub : packets' ⊆ packets) : NoneBetween packets' :=
  fun p hp q hq r hr => h p (hsub hp) q (hsub hq) r (hsub hr)

/-- With two protocol numbers at most, a pass brings one of the least to the first place. -/
theorem exchange_le (h : NoneBetween (p :: packets)) :
    ∀ q ∈ (exchange p.protocol p packets).2,
      (exchange p.protocol p packets).1.protocol ≤ q.protocol := by
  intro q hq
  have hperm := exchange_perm p.protocol p packets
  by_cases hleast : ∀ r ∈ packets, ¬r.protocol < p.protocol
  · rw [exchange_first hleast] at hq ⊢
    exact UInt8.not_lt.mp (hleast q hq)
  · obtain ⟨r, hr, hlt⟩ : ∃ r ∈ packets, r.protocol < p.protocol := by
      simpa only [not_forall, not_not, exists_prop] using hleast
    refine UInt8.not_lt.mp fun hq' => ?_
    exact h q (hperm.subset (.tail _ hq)) _ (hperm.subset List.mem_cons_self) p
      List.mem_cons_self hq' (exchange_lt (.inr ⟨r, hr, hlt⟩))

theorem sortFrom_sorted {i : Nat} (h : NoneBetween packets) (hi : packets.length ≤ i) :
    Sorted (sortFrom i packets) := by
  induction i generalizing packets with
  | zero =>
    rw [List.eq_nil_of_length_eq_zero (Nat.le_zero.mp hi)]
    exact .nil
  | succ i ih =>
    cases packets with
    | nil => exact .nil
    | cons p packets =>
      have hperm := exchange_perm p.protocol p packets
      have hlen : (exchange p.protocol p packets).2.length ≤ i := by
        have hsame := hperm.length_eq
        rw [List.length_cons, List.length_cons] at hsame
        rw [List.length_cons] at hi
        omega
      have hsub : (exchange p.protocol p packets).2 ⊆ p :: packets :=
        fun q hq => hperm.subset (.tail _ hq)
      rw [sortFrom_cons]
      refine .cons (fun q hq => ?_) (ih (h.subset hsub) hlen)
      exact exchange_le h q ((sortFrom_perm i _).subset hq)

theorem sortPackets_sorted (h : NoneBetween packets) : Sorted (sortPackets packets) :=
  sortFrom_sorted h (Nat.le_refl _)

/-- What is sorted stays as it is. -/
theorem sortFrom_of_sorted (i : Nat) (h : Sorted packets) : sortFrom i packets = packets := by
  induction i generalizing packets with
  | zero => cases packets <;> rfl
  | succ i ih =>
    cases packets with
    | nil => rfl
    | cons p packets =>
      obtain ⟨hp, hrest⟩ := List.pairwise_cons.mp h
      have hfirst := exchange_first (p := p) (fun q hq => UInt8.not_lt.mpr (hp q hq))
      rw [sortFrom_cons, hfirst, ih hrest]

theorem exists_perm_cons (h : p ∈ packets) : ∃ rest, packets.Perm (p :: rest) := by
  obtain ⟨front, rest, rfl⟩ := List.append_of_mem h
  exact ⟨front ++ rest, List.perm_middle⟩

/-- With a number between two others there is an order that the loop does not sort. -/
theorem noneBetween_of_sorts (h : ∀ ps, ps.Perm packets → Sorted (sortPackets ps)) :
    NoneBetween packets := by
  intro p hp q hq r hr hpq hqr
  have hne : ∀ {a b : Packet}, a.protocol < b.protocol → a ≠ b :=
    fun hlt heq => UInt8.lt_irrefl _ (heq ▸ hlt)
  obtain ⟨rest, hrest⟩ := exists_perm_cons hr
  have hq' : q ∈ rest := List.mem_of_ne_of_mem (hne hqr) (hrest.subset hq)
  obtain ⟨rest', hrest'⟩ := exists_perm_cons hq'
  have hp' : p ∈ rest' := by
    have hmem : p ∈ rest :=
      List.mem_of_ne_of_mem (hne (UInt8.lt_trans hpq hqr)) (hrest.subset hp)
    exact List.mem_of_ne_of_mem (hne hpq) (hrest'.subset hmem)
  have hperm : (r :: (rest' ++ [q])).Perm packets := by
    refine ((List.Perm.cons r ?_).trans hrest.symm)
    exact (List.perm_append_singleton q rest').trans hrest'.symm
  have hsort : sortPackets (r :: (rest' ++ [q])) = q :: sortFrom (rest' ++ [q]).length
      (exchange r.protocol r (rest' ++ [q])).2 := by
    rw [sortPackets, List.length_cons, sortFrom_cons, exchange_last hqr]
  have hsorted := h _ hperm
  rw [hsort] at hsorted
  have hmem : p ∈ q :: sortFrom (rest' ++ [q]).length (exchange r.protocol r (rest' ++ [q])).2 := by
    rw [← hsort]
    refine (sortPackets_perm _).symm.subset ?_
    exact .tail _ (List.mem_append_left _ hp')
  have hle := (List.pairwise_cons.mp hsorted).1 p (List.mem_of_ne_of_mem (hne hpq) hmem)
  exact UInt8.not_lt.mpr hle hpq

/-- A packet can be put before all the others that have its protocol number. -/
theorem exists_arranged (hbetween : NoneBetween packets) (h : p ∈ packets) :
    ∃ front rest, (front ++ p :: rest).Perm packets ∧ Sorted (front ++ p :: rest) ∧
      ∀ q ∈ front, q.protocol < p.protocol := by
  obtain ⟨others, hothers⟩ := exists_perm_cons h
  have hnone : NoneBetween others := hbetween.subset (fun q hq => hothers.symm.subset (.tail _ hq))
  let before : Packet → Bool := fun q => q.protocol < p.protocol
  have hfront := sortPackets_perm (others.filter before)
  have hrest := sortPackets_perm (others.filter (!before ·))
  have hlt : ∀ q ∈ sortPackets (others.filter before), q.protocol < p.protocol :=
    fun q hq => of_decide_eq_true (List.mem_filter.mp (hfront.subset hq)).2
  have hle : ∀ q ∈ sortPackets (others.filter (!before ·)), p.protocol ≤ q.protocol := by
    intro q hq
    have hnot := (List.mem_filter.mp (hrest.subset hq)).2
    exact UInt8.not_lt.mp (of_decide_eq_false ((Bool.not_eq_true' _).mp hnot))
  refine ⟨sortPackets (others.filter before), sortPackets (others.filter (!before ·)), ?_, ?_, hlt⟩
  · refine List.perm_middle.trans (List.Perm.trans (List.Perm.cons p ?_) hothers.symm)
    exact (hfront.append hrest).trans (List.filter_append_perm before others)
  · refine List.pairwise_append.mpr ⟨?_, .cons hle ?_, fun q hq r hr => ?_⟩
    · exact sortPackets_sorted (hnone.subset (List.filter_subset_self _))
    · exact sortPackets_sorted (hnone.subset (List.filter_subset_self _))
    · rcases List.mem_cons.mp hr with rfl | hr
      · exact UInt8.le_of_lt (hlt q hq)
      · exact UInt8.le_trans (UInt8.le_of_lt (hlt q hq)) (hle r hr)

end

/-- What the packets add together, one after the other. -/
def headPoints (packets : List Packet) : ℚ := packets.head?.elim 0 Packet.ipPoints

def synPoints (packets : List Packet) : Nat := (packets.find? Packet.syn).elim 0 Packet.tcpPoints

section
variable {p : Packet} {packets : List Packet}

theorem gains_zero (packets : List Packet) :
    gains false false packets = headPoints packets + synPoints packets := by
  rw [gains_eq, if_neg Bool.false_ne_true, if_neg Bool.false_ne_true, headPoints, synPoints]
  cases packets.find? Packet.syn <;> rfl

theorem ipPoints_bounds (p : Packet) : 0 ≤ p.ipPoints ∧ p.ipPoints < 1 := by
  have httl : 0 ≤ ttlPoints (p 22).toNat ∧ ttlPoints (p 22).toNat ≤ 4 / 10 := by
    unfold ttlPoints
    split_ifs <;> norm_num
  have hdf : 0 ≤ dfPoints (p.word 20) ∧ dfPoints (p.word 20) ≤ 2 / 10 := by
    unfold dfPoints
    split_ifs <;> norm_num
  unfold Packet.ipPoints
  constructor <;> linarith

theorem headPoints_bounds (packets : List Packet) :
    0 ≤ headPoints packets ∧ headPoints packets < 1 := by
  cases packets with
  | nil => exact ⟨le_refl 0, zero_lt_one⟩
  | cons p packets => exact ipPoints_bounds p

/-- The tenths of a value are the IP header's and the rest is the TCP packet's. -/
theorem points_unique {a b : ℚ} {m n : Nat} (ha : 0 ≤ a ∧ a < 1) (hb : 0 ≤ b ∧ b < 1)
    (h : a + m = b + n) : a = b ∧ m = n := by
  have hmn : m = n := by
    rcases Nat.lt_trichotomy m n with hlt | heq | hlt
    · have hcast : (m : ℚ) + 1 ≤ n := by exact_mod_cast hlt
      linarith
    · exact heq
    · have hcast : (n : ℚ) + 1 ≤ m := by exact_mod_cast hlt
      linarith
  subst hmn
  exact ⟨add_right_cancel h, rfl⟩

/-- In every order the loop leaves the packets sorted. -/
def Sorts (packets : List Packet) : Prop :=
  ∀ ps, ps.Perm packets → Sorted (sortPackets ps) ∧ (sortPackets ps).Perm ps

/-- Every order has the same score. -/
def SameScore (packets : List Packet) : Prop :=
  ∃ v, ∀ ps, ps.Perm packets →
    ∃ turns pScore, calcScore turns {} ps = .ok pScore ∧ pScore.fValue = v

def OrderFree (packets : List Packet) : Prop := SameScore packets ∧ Sorts packets

/-- There are two protocol numbers at most. The packets of the least one agree in what their IP
header adds. The TCP packets with SYN have loops that end, not more than 19 options, and agree in
what they add. -/
structure Agreeing (packets : List Packet) : Prop where
  between : NoneBetween packets
  least : ∀ p ∈ packets, ∀ q ∈ packets, (∀ r ∈ packets, p.protocol ≤ r.protocol) →
    (∀ r ∈ packets, q.protocol ≤ r.protocol) → p.ipPoints = q.ipPoints
  fits : ∀ p ∈ packets, p.syn = true → ∃ l, p.path = some l ∧ l.length ≤ 19
  syn : ∀ p ∈ packets, ∀ q ∈ packets, p.syn = true → q.syn = true → p.tcpPoints = q.tcpPoints

theorem calcScore_iff (ps : List Packet) (v : ℚ) :
    (∃ turns pScore, calcScore turns {} ps = .ok pScore ∧ pScore.fValue = v) ↔
      (∃ turns, AllPass turns false (sortPackets ps)) ∧
        v = headPoints (sortPackets ps) + synPoints (sortPackets ps) := by
  have hvalue : (0 : ℚ) + gains false false (sortPackets ps) =
      headPoints (sortPackets ps) + synPoints (sortPackets ps) := by
    rw [gains_zero, zero_add]
  constructor
  · intro ⟨turns, pScore, hok, hv⟩
    obtain ⟨hpass, rfl⟩ := (score_ok_iff _ 0 false false).mp hok
    exact ⟨⟨turns, hpass⟩, hv.symm.trans hvalue⟩
  · intro ⟨⟨turns, hpass⟩, hv⟩
    exact ⟨turns, _, (score_ok_iff _ 0 false false).mpr ⟨hpass, rfl⟩, hvalue.trans hv.symm⟩

/-- In a sorted order the score is what its first packet and its first SYN packet add. -/
theorem OrderFree.arranged (h : OrderFree packets) : ∃ v, ∀ ps, ps.Perm packets → Sorted ps →
    (∃ turns, AllPass turns false ps) ∧ v = headPoints ps + synPoints ps := by
  obtain ⟨⟨v, hv⟩, -⟩ := h
  refine ⟨v, fun ps hperm hsorted => ?_⟩
  have hps := (calcScore_iff ps v).mp (hv ps hperm)
  rwa [sortPackets, sortFrom_of_sorted _ hsorted] at hps

theorem find_arranged {front rest : List Packet} (hsyn : p.syn = true)
    (hfront : ∀ q ∈ front, q.protocol < p.protocol) :
    (front ++ p :: rest).find? Packet.syn = some p := by
  have hnone : front.find? Packet.syn = none := by
    refine List.find?_eq_none.mpr fun q hq hq' => ?_
    have hlt := hfront q hq
    rw [Packet.protocol_of_syn hsyn, Packet.protocol_of_syn hq'] at hlt
    exact UInt8.lt_irrefl _ hlt
  rw [List.find?_append, hnone, List.find?_cons_of_pos hsyn]
  rfl

theorem agreeing_of_orderFree (h : OrderFree packets) : Agreeing packets := by
  have hbetween : NoneBetween packets := noneBetween_of_sorts (fun ps hps => (h.2 ps hps).1)
  obtain ⟨v, hv⟩ := h.arranged
  have hsyn : ∀ p ∈ packets, p.syn = true → (∃ l, p.path = some l ∧ l.length ≤ 19) ∧
      ∃ a : ℚ, (0 ≤ a ∧ a < 1) ∧ v = a + p.tcpPoints := by
    intro p hp hs
    obtain ⟨front, rest, hperm, hsorted, hfront⟩ := exists_arranged hbetween hp
    obtain ⟨hpass, hvalue⟩ := hv _ hperm hsorted
    obtain ⟨hends, hfits⟩ := (enough_turns false _).mp hpass
    have hfind : (front ++ p :: rest).find? Packet.syn = some p := find_arranged hs hfront
    obtain ⟨l, hl⟩ := hends p (hperm.symm.subset hp) hs
    refine ⟨⟨l, hl, hfits rfl p hfind l hl⟩, headPoints (front ++ p :: rest),
      headPoints_bounds _, ?_⟩
    rw [hvalue, synPoints, hfind]
    rfl
  have hleast : ∀ p ∈ packets, (∀ r ∈ packets, p.protocol ≤ r.protocol) →
      ∃ n : Nat, v = p.ipPoints + n := by
    intro p hp hleast
    obtain ⟨front, rest, hperm, hsorted, hfront⟩ := exists_arranged hbetween hp
    cases front with
    | nil => exact ⟨_, (hv _ hperm hsorted).2⟩
    | cons q front =>
      have hlt := hfront q List.mem_cons_self
      exact absurd hlt (UInt8.not_lt.mpr (hleast q (hperm.subset List.mem_cons_self)))
  refine ⟨hbetween, fun p hp q hq hp' hq' => ?_, fun p hp hs => (hsyn p hp hs).1,
    fun p hp q hq hps hqs => ?_⟩
  · obtain ⟨m, hm⟩ := hleast p hp hp'
    obtain ⟨n, hn⟩ := hleast q hq hq'
    exact (points_unique (ipPoints_bounds p) (ipPoints_bounds q) (hm.symm.trans hn)).1
  · obtain ⟨-, a, ha, hva⟩ := hsyn p hp hps
    obtain ⟨-, b, hb, hvb⟩ := hsyn q hq hqs
    exact (points_unique ha hb (hva.symm.trans hvb)).2

theorem Agreeing.head {ps qs : List Packet} (h : Agreeing packets) (hps : ps.Perm packets)
    (hqs : qs.Perm packets) (hps' : Sorted ps) (hqs' : Sorted qs) :
    headPoints ps = headPoints qs := by
  have hleast : ∀ {p : Packet} {rest : List Packet}, (p :: rest).Perm packets →
      Sorted (p :: rest) → ∀ r ∈ packets, p.protocol ≤ r.protocol := by
    intro p rest hperm hsorted r hr
    rcases List.mem_cons.mp (hperm.symm.subset hr) with rfl | hr
    · exact UInt8.le_refl _
    · exact (List.pairwise_cons.mp hsorted).1 r hr
  cases ps with
  | nil => rw [List.nil_perm.mp (hps.trans hqs.symm)]
  | cons p ps =>
    cases qs with
    | nil => exact absurd (List.perm_nil.mp (hps.trans hqs.symm)) (List.cons_ne_nil p ps)
    | cons q qs =>
      exact h.least p (hps.subset List.mem_cons_self) q (hqs.subset List.mem_cons_self)
        (hleast hps hps') (hleast hqs hqs')

theorem Agreeing.synPoints {ps qs : List Packet} (h : Agreeing packets) (hps : ps.Perm packets)
    (hqs : qs.Perm packets) : synPoints ps = synPoints qs := by
  unfold CaptureOrder.synPoints
  cases hp : ps.find? Packet.syn with
  | none =>
    have hnone : qs.find? Packet.syn = none := by
      refine List.find?_eq_none.mpr fun q hq => List.find?_eq_none.mp hp q ?_
      exact (hqs.trans hps.symm).subset hq
    rw [hnone]
  | some p =>
    cases hq : qs.find? Packet.syn with
    | none =>
      have hp' := hps.trans hqs.symm |>.subset (List.mem_of_find?_eq_some hp)
      exact absurd (List.find?_some hp) (List.find?_eq_none.mp hq p hp')
    | some q =>
      exact h.syn p (hps.subset (List.mem_of_find?_eq_some hp)) q
        (hqs.subset (List.mem_of_find?_eq_some hq)) (List.find?_some hp) (List.find?_some hq)

theorem orderFree_of_agreeing (h : Agreeing packets) : OrderFree packets := by
  have hsorts : Sorts packets := fun ps hps =>
     ⟨sortPackets_sorted (h.between.subset hps.subset), sortPackets_perm ps⟩
  refine ⟨⟨headPoints (sortPackets packets) + synPoints (sortPackets packets),
    fun ps hps => (calcScore_iff ps _).mpr ⟨?_, ?_⟩⟩, hsorts⟩
  · have hperm := (hsorts ps hps).2.trans hps
    refine (enough_turns false _).mpr ⟨fun p hp hsyn => ?_, fun _ p hp l hl => ?_⟩
    · obtain ⟨l, hl, -⟩ := h.fits p (hperm.subset hp) hsyn
      exact ⟨l, hl⟩
    · obtain ⟨l', hl', hfits⟩ := h.fits p (hperm.subset (List.mem_of_find?_eq_some hp))
        (List.find?_some hp)
      cases hl.symm.trans hl'
      exact hfits
  · obtain ⟨hsorted, hperm⟩ := hsorts ps hps
    obtain ⟨hsorted', hperm'⟩ := hsorts packets (.refl _)
    rw [h.head hperm' (hperm.trans hps) hsorted' hsorted, h.synPoints hperm' (hperm.trans hps)]

/-- The score does not depend on the order of capture, and the packets are sorted, exactly where
the packets agree. -/
theorem orderFree_iff (packets : List Packet) : OrderFree packets ↔ Agreeing packets :=
  ⟨agreeing_of_orderFree, orderFree_of_agreeing⟩

end

/-- A packet of a protocol, with a time to live. -/
def datagram (protocol ttl : UInt8) : Packet :=
  .memory (List.replicate 12 0 ++ [8, 0, 0x45, 0, 0, 28, 0, 0, 0x40, 0, ttl, protocol]) (fun _ => 0)

/-- Packets of UDP, ICMP and TCP. -/
def unsorted : List Packet := [datagram 17 64, datagram 1 32, datagram 6 64]

/-- The TCP packet takes the first place, and another order has another score. -/
theorem unsorted_differs : ¬Sorts unsorted ∧ ¬SameScore unsorted := by
  have hsort : sortPackets unsorted = [datagram 6 64, datagram 1 32, datagram 17 64] := rfl
  constructor
  · intro h
    have hsorted := (h unsorted (.refl _)).1
    rw [hsort] at hsorted
    have hle := (List.pairwise_cons.mp hsorted).1 (datagram 1 32) List.mem_cons_self
    exact absurd hle (by decide +kernel)
  · intro ⟨v, hv⟩
    have hother : sortPackets [datagram 1 32, datagram 6 64, datagram 17 64] =
        [datagram 1 32, datagram 6 64, datagram 17 64] := rfl
    have hperm : [datagram 1 32, datagram 6 64, datagram 17 64].Perm unsorted :=
      (List.perm_append_singleton (datagram 17 64) [datagram 1 32, datagram 6 64])
    obtain ⟨-, h⟩ := (calcScore_iff _ v).mp (hv _ (.refl _))
    obtain ⟨-, h'⟩ := (calcScore_iff _ v).mp (hv _ hperm)
    rw [hsort] at h
    rw [hother] at h'
    have heq := points_unique (headPoints_bounds _) (headPoints_bounds _) (h.symm.trans h')
    have hpoints : ttlPoints 64 + dfPoints 0x4000 = ttlPoints 32 + dfPoints 0x4000 := heq.1
    norm_num [ttlPoints] at hpoints

end Catchb.Proofs.CaptureOrder
