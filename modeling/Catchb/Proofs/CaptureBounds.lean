import Catchb.Capture
import Catchb.Lib.Run

/-! When the stored packets are within what was captured, and owned by the capture. -/

namespace Catchb.Proofs.CaptureBounds
open Lib Heap Pcap

/-- A capture, with the packets that were stored since it was started, and the size of each copy
beside what had been captured. -/
structure History where
  capture : Pcap
  stored : List (List UInt8)
  copies : List (Nat × Nat)

inductive Op
  | start (ulCount : UInt32) (answer : Bool)
  | deliver (pPacket : Packet) (caplen : UInt32) (answer : Option Ptr)

/-- A packet is to be stored if it is an IP packet and there is room and memory for it. -/
def Stores (h : History) (pPacket : Packet) (answer : Option Ptr) : Prop :=
  h.stored.length < h.capture.ulMaxCaptureCount.toNat ∧ pPacket.etherType = 0x0800 ∧
    (h.capture.heap.malloc answer).isSome

instance (h : History) (pPacket : Packet) (answer : Option Ptr) :
    Decidable (Stores h pPacket answer) := inferInstanceAs (Decidable (_ ∧ _ ∧ _))

def step (h : History) : Op → History
  | .start ulCount answer => ⟨(h.capture.start ulCount answer).2, [], h.copies⟩
  | .deliver pPacket caplen answer =>
    let (size, capture) := h.capture.callback pPacket answer
    { capture
      stored := if Stores h pPacket answer then
          h.stored ++ [pPacket.copy (14 + pPacket.totLen)] else h.stored
      copies := h.copies ++ [(size, caplen.toNat)] }

def init : History := ⟨create, [], []⟩

/-- The array's entries. -/
def packets (s : Pcap) : List (Option Ptr) := s.ppCapturePackets.getD []

/-- No copy is longer than what was captured; the count is within the maximum; and the entries
below it are the blocks of the stored packets, while no other packet's block is handed out, and
none was given back twice. -/
structure Safe (h : History) : Prop where
  copied : ∀ c ∈ h.copies, c.1 ≤ c.2
  bounded : h.capture.ulCaptureCount ≤ h.capture.ulMaxCaptureCount
  entries : ∃ ps : List Ptr, (packets h.capture).take h.capture.ulCaptureCount.toNat = ps.map some ∧
    ps.map h.capture.heap.memory = h.stored ∧ Owns h.capture.heap ps

/-- A packet that is stored has been captured as far as its total length says, and a capture is
started with a count that an int can hold. -/
def Good (h : History) : Op → Prop
  | .start _ _ => h.capture.ulCaptureCount.toNat ≤ 0x7fffffff
  | .deliver pPacket caplen answer =>
    Stores h pPacket answer → 14 + pPacket.totLen ≤ caplen.toNat

structure Inv (h : History) : Prop extends Safe h where
  room : (packets h.capture).length = h.capture.ulMaxCaptureCount.toNat

section
variable {s : Pcap} {h : History} {i n : Nat} {ps : List Ptr} {entries : List (Option Ptr)}

theorem put_of_lt {p : Option Ptr} (hentries : s.ppCapturePackets = some entries)
    (hi : i < entries.length) :
    put i p s = { s with ppCapturePackets := some (entries.set i p) } := by
  rw [put, hentries]
  exact if_pos hi

theorem freeAt_some {p : Ptr} (hentries : s.ppCapturePackets = some entries)
    (hp : entries[i]? = some (some p)) :
    freeAt i s =
      { s with heap := s.heap.free p, ppCapturePackets := some (entries.set i none) } := by
  have hi : i < entries.length := (List.getElem?_eq_some_iff.mp hp).1
  have hentry : s.ppCapturePackets.bind (·[i]?) = some (some p) := by
    rw [hentries]
    exact hp
  rw [freeAt, hentry]
  exact put_of_lt (s := { s with heap := s.heap.free p }) hentries hi

/-- The loop gives every stored packet's block back. -/
theorem freePackets_owns (hentries : s.ppCapturePackets = some entries)
    (hps : (entries.drop i).take n = ps.map some) (hlen : i + n ≤ entries.length)
    (ho : Owns s.heap ps) :
    ∃ entries' heap, freePackets n i s = { s with ppCapturePackets := some entries', heap } ∧
      entries'.length = entries.length ∧ Owns heap [] := by
  induction n generalizing s i ps entries with
  | zero =>
    cases ps with
    | nil => exact ⟨entries, s.heap, by rw [freePackets, ← hentries], rfl, ho⟩
    | cons p ps => cases hps
  | succ n ih =>
    have hi : i < entries.length := by omega
    rw [List.drop_eq_getElem_cons hi, List.take_succ_cons] at hps
    cases ps with
    | nil => cases hps
    | cons p ps =>
      obtain ⟨hp, hrest⟩ := List.cons.inj hps
      have hp' : entries[i]? = some (some p) :=
        (List.getElem?_eq_getElem hi).trans (congrArg some hp)
      have hfree : Owns (s.heap.free p) ps := by
        have herase := ho.free List.mem_cons_self
        rwa [List.erase_cons_head] at herase
      have hdrop : ((entries.set i none).drop (i + 1)).take n = ps.map some := by
        rw [List.drop_set_of_lt (Nat.lt_succ_self i)]
        exact hrest
      have hlen' : i + 1 + n ≤ (entries.set i none).length := by
        rw [List.length_set]
        omega
      rw [freePackets, freeAt_some hentries hp']
      obtain ⟨entries', heap, heq, hsame, hown⟩ := ih (s := { s with
        heap := s.heap.free p
        ppCapturePackets := some (entries.set i none) }) rfl hdrop hlen' hfree
      exact ⟨entries', heap, heq, hsame.trans List.length_set, hown⟩

theorem packets_some (hentries : s.ppCapturePackets = some entries) : packets s = entries := by
  rw [packets, hentries, Option.getD_some]

theorem Inv.count_le (hinv : Inv h) :
    h.capture.ulCaptureCount.toNat ≤ (packets h.capture).length :=
  hinv.room ▸ UInt32.le_iff_toNat_le.mp hinv.bounded

theorem Inv.count_eq (hinv : Inv h) : h.stored.length = h.capture.ulCaptureCount.toNat := by
  obtain ⟨ps, hps, hstored, -⟩ := hinv.entries
  have hlen := congrArg List.length hps
  rw [List.length_take, Nat.min_eq_left hinv.count_le, List.length_map] at hlen
  rw [← hstored, List.length_map, hlen]

/-- The state in which `start` looks for a new array. -/
def released (s : Pcap) : Pcap := if s.ppCapturePackets.isSome then s.release else s

theorem released_spec (hinv : Inv h) (hcount : h.capture.ulCaptureCount.toNat ≤ 0x7fffffff) :
    (released h.capture).ulCaptureCount = 0 ∧
    (released h.capture).ulMaxCaptureCount = h.capture.ulMaxCaptureCount ∧
    (packets (released h.capture)).length = h.capture.ulMaxCaptureCount.toNat ∧
    Owns (released h.capture).heap [] := by
  obtain ⟨ps, hps, -, ho⟩ := hinv.entries
  cases hentries : h.capture.ppCapturePackets with
  | none =>
    have hempty : packets h.capture = [] := by rw [packets, hentries, Option.getD_none]
    have hzero : h.capture.ulCaptureCount = 0 := by
      have hle := hinv.count_le
      rw [hempty, List.length_nil] at hle
      exact UInt32.toNat_inj.mp (Nat.le_zero.mp hle)
    have hsame : released h.capture = h.capture :=
      if_neg (by rw [hentries]; exact Bool.false_ne_true)
    rw [hempty, List.take_nil] at hps
    rw [List.map_eq_nil_iff.mp hps.symm] at ho
    rw [hsame]
    exact ⟨hzero, rfl, hinv.room, ho⟩
  | some entries =>
    have hroom := hinv.room
    have hle := hinv.count_le
    rw [packets_some hentries] at hps hroom hle
    obtain ⟨entries', heap, heq, hsame, hown⟩ := freePackets_owns (i := 0) hentries hps
      (by omega) ho
    have hrelease : released h.capture = h.capture.release := if_pos (by rw [hentries]; rfl)
    rw [hrelease, release, if_pos hcount, heq]
    exact ⟨rfl, rfl, hsame.trans hroom, hown⟩

theorem start_eq (ulCount : UInt32) (answer : Bool) (s : Pcap) : (start ulCount answer s).2 =
    if (released s).ulMaxCaptureCount ≠ ulCount then
      if answer then { released s with
        ppCapturePackets := some (List.replicate ulCount.toNat none)
        ulMaxCaptureCount := ulCount
        ulPacketCount := 0 }
      else { released s with ppCapturePackets := none, ulMaxCaptureCount := 0 }
    else { released s with ulPacketCount := 0 } := by
  unfold start
  change Prod.snd (if (released s).ulMaxCaptureCount ≠ ulCount then _ else _) = _
  split
  · cases answer <;> rfl
  · rfl

theorem inv_start (hinv : Inv h) (ulCount : UInt32) (answer : Bool)
    (hcount : h.capture.ulCaptureCount.toNat ≤ 0x7fffffff) :
    Inv (step h (.start ulCount answer)) := by
  obtain ⟨hzero, hmax, hroom, hown⟩ := released_spec hinv hcount
  have hnew : ∀ s : Pcap, s.ulCaptureCount = 0 → s.heap = (released h.capture).heap →
      (packets s).length = s.ulMaxCaptureCount.toNat → Inv ⟨s, [], h.copies⟩ := by
    intro s hs hheap hlen
    refine ⟨⟨hinv.copied, ?_, [], ?_, rfl, hheap ▸ hown⟩, hlen⟩
    · exact hs ▸ UInt32.zero_le
    · exact hs ▸ rfl
  rw [step, start_eq]
  split
  · split
    · exact hnew _ hzero rfl List.length_replicate
    · exact hnew _ hzero rfl rfl
  · exact hnew _ hzero rfl (hroom.trans (congrArg _ hmax.symm))

theorem stores_iff (hinv : Inv h) (pPacket : Packet) (answer : Option Ptr) :
    Stores h pPacket answer ↔ h.capture.ulCaptureCount < h.capture.ulMaxCaptureCount ∧
      pPacket.etherType = 0x0800 ∧ (h.capture.heap.malloc answer).isSome := by
  rw [Stores, hinv.count_eq, UInt32.lt_iff_toNat_lt]

/-- A packet that is not to be stored is only counted. -/
theorem callback_dropped (hinv : Inv h) {pPacket : Packet} {answer : Option Ptr}
    (hs : ¬Stores h pPacket answer) : h.capture.callback pPacket answer =
      (0, { h.capture with ulPacketCount := h.capture.ulPacketCount + 1 }) := by
  rw [stores_iff hinv] at hs
  unfold callback
  by_cases hfull : h.capture.ulCaptureCount ≥ h.capture.ulMaxCaptureCount
  · exact if_pos hfull
  · refine (if_neg hfull).trans ?_
    by_cases htype : pPacket.etherType ≠ 0x0800
    · exact if_pos htype
    · refine (if_neg htype).trans ?_
      cases hmalloc : h.capture.heap.malloc answer with
      | none => rfl
      | some found =>
        refine absurd ⟨UInt32.not_le.mp hfull, not_not.mp htype, ?_⟩ hs
        rw [hmalloc]
        rfl

theorem callback_stored (hinv : Inv h) {pPacket : Packet} {answer : Option Ptr} {p : Ptr}
    {heap : Heap Ptr (List UInt8)} (hs : Stores h pPacket answer)
    (hmalloc : h.capture.heap.malloc answer = some (p, heap)) :
    h.capture.callback pPacket answer = (14 + pPacket.totLen, { h.capture with
      ulCaptureCount := h.capture.ulCaptureCount + 1
      ppCapturePackets :=
        some ((packets h.capture).set h.capture.ulCaptureCount.toNat (some p))
      ulPacketCount := h.capture.ulPacketCount + 1
      heap := heap.write p (pPacket.copy (14 + pPacket.totLen)) }) := by
  obtain ⟨hroom, htype, -⟩ := (stores_iff hinv pPacket answer).mp hs
  have hlt : h.capture.ulCaptureCount.toNat < (packets h.capture).length :=
    hinv.room ▸ UInt32.lt_iff_toNat_lt.mp hroom
  have hentries : h.capture.ppCapturePackets = some (packets h.capture) := by
    cases hnone : h.capture.ppCapturePackets with
    | some entries => exact congrArg some (packets_some hnone).symm
    | none =>
      rw [packets, hnone] at hlt
      cases hlt
  unfold callback
  refine (if_neg (UInt32.not_le.mpr hroom)).trans ((if_neg (not_not_intro htype)).trans ?_)
  simp only [hmalloc]
  rw [put_of_lt (s := { h.capture with
    ulPacketCount := h.capture.ulPacketCount + 1
    heap := heap.write p (pPacket.copy (14 + pPacket.totLen)) }) hentries hlt]

theorem inv_deliver (hinv : Inv h) (pPacket : Packet) (caplen : UInt32) (answer : Option Ptr)
    (hgood : Stores h pPacket answer → 14 + pPacket.totLen ≤ caplen.toNat) :
    Inv (step h (.deliver pPacket caplen answer)) := by
  by_cases hs : Stores h pPacket answer
  · obtain ⟨ps, hps, hstored, ho⟩ := hinv.entries
    obtain ⟨hroom, -, hgiven⟩ := (stores_iff hinv pPacket answer).mp hs
    obtain ⟨p, heap, hmalloc, hnew, hown, hmemory⟩ := ho.malloc hgiven
    have hroom' := UInt32.lt_iff_toNat_lt.mp hroom
    have hnext : (h.capture.ulCaptureCount + 1).toNat = h.capture.ulCaptureCount.toNat + 1 := by
      rw [UInt32.toNat_add]
      exact Nat.mod_eq_of_lt (Nat.lt_of_le_of_lt hroom' (UInt32.toNat_lt _))
    simp only [step, callback_stored hinv hs hmalloc, if_pos hs]
    refine ⟨⟨?_, ?_, ps ++ [p], ?_, ?_, hown.write (by simp)⟩, ?_⟩
    · intro c hc
      rcases List.mem_append.mp hc with hc | hc
      · exact hinv.copied c hc
      · cases List.mem_singleton.mp hc
        exact hgood hs
    · exact UInt32.le_iff_toNat_le.mpr (hnext ▸ hroom')
    · have hlt : h.capture.ulCaptureCount.toNat < (packets h.capture).length := hinv.room ▸ hroom'
      have hset := List.take_succ_eq_append_getElem
        (l := (packets h.capture).set h.capture.ulCaptureCount.toNat (some p))
        (i := h.capture.ulCaptureCount.toNat) (by rwa [List.length_set])
      rw [List.getElem_set_self, List.take_set_of_le (Nat.le_refl _), hps] at hset
      rw [hnext, List.map_append]
      exact hset
    · rw [List.map_append, memory_write, map_update hnew, hmemory, hstored]
      simp
    · exact List.length_set.trans hinv.room
  · simp only [step, callback_dropped hinv hs, if_neg hs]
    refine ⟨⟨fun c hc => ?_, hinv.bounded, hinv.entries⟩, hinv.room⟩
    rcases List.mem_append.mp hc with hc | hc
    · exact hinv.copied c hc
    · cases List.mem_singleton.mp hc
      exact Nat.zero_le _

theorem inv_step (hinv : Inv h) (op : Op) (hgood : Good h op) : Inv (step h op) := by
  cases op with
  | start ulCount answer => exact inv_start hinv ulCount answer hgood
  | deliver pPacket caplen answer => exact inv_deliver hinv pPacket caplen answer hgood

end

end Catchb.Proofs.CaptureBounds
