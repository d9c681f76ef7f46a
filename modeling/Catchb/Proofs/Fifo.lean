import Catchb.Buffer
import Catchb.Lib.Run

/-! The ring buffer against a byte queue. -/

namespace Catchb.Proofs.Fifo
open Lib Buffer

variable {b : Buffer} {q d : List UInt8} {n : UInt32}

/-- The largest buffer whose index sums fit 32 bits. -/
def limit : Nat := 2147483648

/-- The buffer's cells from its front index on hold the queue. The front index may be one
past the ring's last byte. -/
structure Queues (b : Buffer) (q : List UInt8) : Prop where
  min : 2 ≤ b.ulMaxSize.toNat
  max : b.ulMaxSize.toNat ≤ limit
  len : b.ulDataLen.toNat = q.length
  room : q.length < b.ulMaxSize.toNat
  first : b.ulFirst.toNat ≤ b.ulMaxSize.toNat
  last : b.ulLast.toNat < b.ulMaxSize.toNat
  ends : (b.ulFirst.toNat + q.length) % b.ulMaxSize.toNat = b.ulLast.toNat
  cells : Circular.Holds b.ulMaxSize.toNat b.pBuffer b.ulFirst.toNat q

/-- No access so far left the ring's bytes. -/
def Inside (b : Buffer) : Prop := b.reach ≤ b.ulMaxSize.toNat

theorem toNat_add_of_lt {x y : UInt32} (h : x.toNat + y.toNat < 2 * limit) :
    (x + y).toNat = x.toNat + y.toNat := by
  rw [UInt32.toNat_add]
  exact Nat.mod_eq_of_lt h

theorem toNat_sub_of_le' {x y : UInt32} (h : y.toNat ≤ x.toNat) :
    (x - y).toNat = x.toNat - y.toNat :=
  UInt32.toNat_sub_of_le _ _ (UInt32.le_iff_toNat_le.mpr h)

theorem length_toNat (hd : d.length < UInt32.size) : (UInt32.ofNat d.length).toNat = d.length := by
  rw [UInt32.toNat_ofNat']
  exact Nat.mod_eq_of_lt hd

theorem toNat_length (h : d.length < limit) : (UInt32.ofNat d.length).toNat = d.length :=
  length_toNat (Nat.lt_trans h (by decide))

theorem toNat_capacity {m : UInt32} (hmin : 1 ≤ m.toNat) : (m - 1).toNat = m.toNat - 1 :=
  toNat_sub_of_le' (y := 1) hmin

/-- The bytes that a push drops from the front. -/
def excess (b : Buffer) (q : List UInt8) (k : Nat) : Nat := q.length + k - (b.ulMaxSize.toNat - 1)

/-- Dropping keeps the newest bytes that leave room for the push. -/
theorem discard_queues (h : Queues b q) (hn : n.toNat < b.ulMaxSize.toNat) :
    Queues (b.discard n) (q.drop (excess b q n.toNat)) := by
  obtain ⟨hmin, hmax, hlen, hroom, hfirst, hlast, hends, hcells⟩ := h
  have hsum : (b.ulDataLen + n).toNat = q.length + n.toNat := by
    rw [toNat_add_of_lt (by omega), hlen]
  have hcap := toNat_capacity (Nat.le_of_succ_le hmin)
  have hlt : b.ulMaxSize - 1 < b.ulDataLen + n ↔ b.ulMaxSize.toNat - 1 < q.length + n.toNat := by
    rw [UInt32.lt_iff_toNat_lt, hcap, hsum]
  unfold Buffer.discard
  split
  · rename_i hexcess
    rw [hlt] at hexcess
    have hos : (b.ulDataLen + n - (b.ulMaxSize - 1)).toNat = excess b q n.toNat := by
      rw [toNat_sub_of_le' (by omega), hsum, hcap, excess]
    have hk : excess b q n.toNat ≤ q.length := by
      unfold excess
      omega
    have hf : ((b.ulFirst + (b.ulDataLen + n - (b.ulMaxSize - 1))) % b.ulMaxSize).toNat =
        (b.ulFirst.toNat + excess b q n.toNat) % b.ulMaxSize.toNat := by
      rw [UInt32.toNat_mod, toNat_add_of_lt (by omega), hos]
    refine ⟨hmin, hmax, ?_, ?_, ?_, hlast, ?_, ?_⟩
    · rw [toNat_sub_of_le' (by omega), hos, hlen, List.length_drop]
    · rw [List.length_drop]
      exact Nat.lt_of_le_of_lt (Nat.sub_le _ _) hroom
    · rw [hf]
      exact (Nat.mod_lt _ (by omega)).le
    · rw [hf, List.length_drop, Nat.mod_add_mod, ← hends]
      congr 1
      omega
    · rw [hf, Circular.holds_mod]
      exact Circular.holds_drop hcells _
  · rename_i hexcess
    rw [hlt] at hexcess
    have hz : excess b q n.toNat = 0 := by
      unfold excess
      omega
    rw [hz, List.drop_zero]
    exact ⟨hmin, hmax, hlen, hroom, hfirst, hlast, hends, hcells⟩

theorem discard_frame (b : Buffer) (n : UInt32) :
    (b.discard n).ulMaxSize = b.ulMaxSize ∧ (b.discard n).ulLast = b.ulLast ∧
      (b.discard n).pBuffer = b.pBuffer ∧ (b.discard n).reach = b.reach := by
  unfold Buffer.discard
  split <;> exact ⟨rfl, rfl, rfl, rfl⟩

theorem touch_reach {off k m : Nat} (hreach : b.reach ≤ m) (hk : off + k ≤ m) :
    (b.touch off k).reach ≤ m := by
  unfold touch
  split
  · exact hreach
  · exact Nat.max_le.mpr ⟨hreach, hk⟩

theorem store_reach {off m : Nat} (hreach : b.reach ≤ m) (hk : off + d.length ≤ m) :
    (b.store off d).reach ≤ m := touch_reach hreach hk

/-- The copy is one piece up to the ring's end, or two across it. -/
theorem copyIn_pieces (hlast : b.ulLast.toNat < b.ulMaxSize.toNat) (hd : d.length < UInt32.size) :
    b.copyIn d =
      if d.length ≤ b.ulMaxSize.toNat - b.ulLast.toNat then b.store b.ulLast.toNat d
      else (b.store b.ulLast.toNat (d.take (b.ulMaxSize.toNat - b.ulLast.toNat))).store 0
        (d.drop (b.ulMaxSize.toNat - b.ulLast.toNat)) := by
  have htemp : (b.ulMaxSize - b.ulLast).toNat = b.ulMaxSize.toNat - b.ulLast.toNat :=
    toNat_sub_of_le' hlast.le
  have hge : b.ulMaxSize - b.ulLast ≥ UInt32.ofNat d.length ↔
      d.length ≤ b.ulMaxSize.toNat - b.ulLast.toNat := by
    rw [ge_iff_le, UInt32.le_iff_toNat_le, htemp, length_toNat hd]
  simp only [copyIn, hge, htemp]

theorem copyIn_pBuffer (hlast : b.ulLast.toNat < b.ulMaxSize.toNat)
    (hd : d.length < UInt32.size) : (b.copyIn d).pBuffer =
      Circular.writeWrapped b.ulMaxSize.toNat b.pBuffer b.ulLast.toNat d := by
  rw [copyIn_pieces hlast hd, Circular.writeWrapped]
  split <;> rfl

/-- The copy in two pieces is the ring's, and stays inside it. -/
theorem copyIn_eq (hlast : b.ulLast.toNat < b.ulMaxSize.toNat)
    (hd : d.length < b.ulMaxSize.toNat) :
    (b.copyIn d).pBuffer =
      Circular.writeWrapped b.ulMaxSize.toNat b.pBuffer b.ulLast.toNat d ∧
    (b.reach ≤ b.ulMaxSize.toNat → (b.copyIn d).reach ≤ b.ulMaxSize.toNat) := by
  have hd' : d.length < UInt32.size := Nat.lt_trans hd b.ulMaxSize.toNat_lt
  refine ⟨copyIn_pBuffer hlast hd', fun hreach => ?_⟩
  rw [copyIn_pieces hlast hd']
  split
  · exact store_reach hreach (by omega)
  · apply store_reach
    · apply store_reach hreach
      rw [List.length_take]
      omega
    · rw [List.length_drop]
      omega

theorem copyIn_frame (b : Buffer) (d : List UInt8) :
    (b.copyIn d).ulMaxSize = b.ulMaxSize ∧ (b.copyIn d).ulDataLen = b.ulDataLen ∧
      (b.copyIn d).ulFirst = b.ulFirst ∧ (b.copyIn d).ulLast = b.ulLast := by
  have hstore (b : Buffer) (off : Nat) (d : List UInt8) :
      (b.store off d).ulMaxSize = b.ulMaxSize ∧ (b.store off d).ulDataLen = b.ulDataLen ∧
        (b.store off d).ulFirst = b.ulFirst ∧ (b.store off d).ulLast = b.ulLast :=
    ⟨rfl, rfl, rfl, rfl⟩
  simp only [copyIn]
  split
  · apply hstore
  · obtain ⟨hM, hL, hF, hE⟩ := hstore b b.ulLast.toNat (d.take (b.ulMaxSize - b.ulLast).toNat)
    obtain ⟨hM', hL', hF', hE'⟩ := hstore
      (b.store b.ulLast.toNat (d.take (b.ulMaxSize - b.ulLast).toNat)) 0
      (d.drop (b.ulMaxSize - b.ulLast).toNat)
    exact ⟨hM'.trans hM, hL'.trans hL, hF'.trans hF, hE'.trans hE⟩

/-- With room for them, the pushed bytes go behind the queue. -/
theorem grow_queues (h : Queues b q) (hfits : q.length + d.length < b.ulMaxSize.toNat) :
    Queues ((b.copyIn d).grow (.ofNat d.length)) (q ++ d) := by
  obtain ⟨hmin, hmax, hlen, hroom, hfirst, hlast, hends, hcells⟩ := h
  have hn := toNat_length (d := d) (by omega)
  obtain ⟨hbytes, -⟩ := copyIn_eq hlast (d := d) (by omega)
  obtain ⟨hM, hL, hF, hE⟩ := copyIn_frame b d
  have hlast' : ((b.ulLast + UInt32.ofNat d.length) % b.ulMaxSize).toNat =
      (b.ulLast.toNat + d.length) % b.ulMaxSize.toNat := by
    rw [UInt32.toNat_mod, toNat_add_of_lt (by omega), hn]
  constructor <;> simp only [grow, hM, hL, hF, hE, hbytes]
  · exact hmin
  · exact hmax
  · rw [toNat_add_of_lt (by omega), hlen, hn, List.length_append]
  · rwa [List.length_append]
  · exact hfirst
  · rw [hlast']
    exact Nat.mod_lt _ (by omega)
  · rw [hlast', ← hends, Nat.mod_add_mod, List.length_append, Nat.add_assoc]
  · exact Circular.holds_push hcells hfits.le hlast hends

/-- A push keeps the newest bytes that fit. -/
theorem pushBack_queues (h : Queues b q) (hd : d.length < b.ulMaxSize.toNat) :
    Queues (b.pushBack d) (q.drop (excess b q d.length) ++ d) := by
  have hn := toNat_length (d := d) (Nat.lt_of_lt_of_le hd h.max)
  have hq := discard_queues (n := .ofNat d.length) h (by rwa [hn])
  rw [hn] at hq
  apply grow_queues hq
  rw [(discard_frame b _).1, List.length_drop, excess]
  omega

theorem pushBack_inside (h : Queues b q) (hd : d.length < b.ulMaxSize.toNat)
    (hin : Inside b) : Inside (b.pushBack d) := by
  obtain ⟨hM, hE, -, hR⟩ := discard_frame b (.ofNat d.length)
  have hcopy := copyIn_eq (b := b.discard (.ofNat d.length)) (d := d)
    (by rw [hM, hE]; exact h.last) (by rwa [hM])
  have hreach := hcopy.2 (by rw [hM, hR]; exact hin)
  have hsize := (copyIn_frame (b.discard (.ofNat d.length)) d).1
  change ((b.discard _).copyIn d).reach ≤ ((b.discard _).copyIn d).ulMaxSize.toNat
  rwa [hsize]

/-- An empty ring has its indices together, unless the front index rests at the end. -/
theorem nil_of_first_eq_last (h : Queues b q) (hempty : b.ulFirst = b.ulLast) : q = [] := by
  apply List.eq_nil_of_length_eq_zero
  by_contra hpos
  have hroom := h.room
  have hne : (b.ulFirst.toNat + 0) % b.ulMaxSize.toNat ≠
      (b.ulFirst.toNat + q.length) % b.ulMaxSize.toNat := Circular.mod_ne (by omega) (by omega)
  apply hne
  rw [h.ends, Nat.add_zero, hempty, Nat.mod_eq_of_lt h.last]

theorem touch_queues (h : Queues b q) (off k : Nat) : Queues (b.touch off k) q :=
  ⟨h.min, h.max, h.len, h.room, h.first, h.last, h.ends, h.cells⟩

/-- The queue from a new front index `k` bytes on. -/
theorem advance_queues {k : Nat} {f l : UInt32} (h : Queues b q) (hk : k ≤ q.length)
    (hl : l.toNat = q.length - k) (hf : f.toNat ≤ b.ulMaxSize.toNat)
    (hmod : f.toNat % b.ulMaxSize.toNat = (b.ulFirst.toNat + k) % b.ulMaxSize.toNat) :
    Queues { b with ulFirst := f, ulDataLen := l } (q.drop k) := by
  obtain ⟨hmin, hmax, hlen, hroom, hfirst, hlast, hends, hcells⟩ := h
  refine ⟨hmin, hmax, ?_, ?_, hf, hlast, ?_, ?_⟩
  · rw [List.length_drop, hl]
  · rw [List.length_drop]
    exact Nat.lt_of_le_of_lt (Nat.sub_le _ _) hroom
  · rw [List.length_drop, ← hends, ← Nat.mod_add_mod, hmod, Nat.mod_add_mod]
    congr 1
    omega
  · rw [← Circular.holds_mod, hmod, Circular.holds_mod]
    exact Circular.holds_drop hcells _

/-- A pop of `n` bytes that the queue holds. -/
theorem popFront_held (h : Queues b q) (hne : b.ulFirst ≠ b.ulLast) (hn : n.toNat ≤ q.length)
    {ulMaxLen : UInt32} (hmin : (if b.ulDataLen < ulMaxLen then b.ulDataLen else ulMaxLen) = n) :
    (b.popFront ulMaxLen).1 = q.take n.toNat ∧
      Queues (b.popFront ulMaxLen).2 (q.drop n.toNat) ∧
      (Inside b → Inside (b.popFront ulMaxLen).2) := by
  have hfirst := h.first
  have hroom := h.room
  have hmax := h.max
  have hleft : (b.ulDataLen - n).toNat = q.length - n.toNat := by
    rw [toNat_sub_of_le' (by rw [h.len]; exact hn), h.len]
  have hread := Circular.readWrapped_eq h.cells hfirst hroom.le hn
  have hsum : (b.ulFirst + n).toNat = b.ulFirst.toNat + n.toNat := toNat_add_of_lt (by omega)
  have hgt : b.ulFirst + n > b.ulMaxSize ↔ b.ulMaxSize.toNat < b.ulFirst.toNat + n.toNat := by
    rw [gt_iff_lt, UInt32.lt_iff_toNat_lt, hsum]
  have htemp : (b.ulMaxSize - b.ulFirst).toNat = b.ulMaxSize.toNat - b.ulFirst.toNat :=
    toNat_sub_of_le' hfirst
  unfold popFront
  rw [if_neg hne]
  simp only [hmin]
  split
  · rename_i hwrap
    rw [hgt] at hwrap
    have hrest : (n - (b.ulMaxSize - b.ulFirst)).toNat =
        n.toNat - (b.ulMaxSize.toNat - b.ulFirst.toNat) := by
      rw [toNat_sub_of_le' (by omega), htemp]
    refine ⟨?_, ?_, fun hin => ?_⟩
    · simp only [load, htemp, hrest]
      rw [← hread, Circular.readWrapped, if_neg (by omega)]
      rfl
    · have htail := touch_queues (touch_queues h b.ulFirst.toNat (b.ulMaxSize - b.ulFirst).toNat)
        0 (n - (b.ulMaxSize - b.ulFirst)).toNat
      apply advance_queues htail hn hleft
      · change _ ≤ b.ulMaxSize.toNat
        omega
      · change _ % b.ulMaxSize.toNat = (b.ulFirst.toNat + n.toNat) % b.ulMaxSize.toNat
        rw [hrest, Nat.mod_eq_sub_mod (a := b.ulFirst.toNat + n.toNat) hwrap.le]
        congr 1
        omega
    · change _ ≤ b.ulMaxSize.toNat
      exact touch_reach (touch_reach hin (by omega)) (by omega)
  · rename_i hflat
    rw [hgt] at hflat
    refine ⟨?_, ?_, fun hin => ?_⟩
    · rw [← hread, Circular.readWrapped, if_pos (by omega)]
      rfl
    · apply advance_queues (touch_queues h b.ulFirst.toNat n.toNat) hn hleft
      · change (b.ulFirst + n).toNat ≤ b.ulMaxSize.toNat
        omega
      · change (b.ulFirst + n).toNat % b.ulMaxSize.toNat =
          (b.ulFirst.toNat + n.toNat) % b.ulMaxSize.toNat
        rw [hsum]
    · change _ ≤ b.ulMaxSize.toNat
      exact touch_reach hin (by omega)

/-- A pop returns the oldest bytes and removes them. -/
theorem popFront_queues (h : Queues b q) (ulMaxLen : UInt32) :
    (b.popFront ulMaxLen).1 = q.take ulMaxLen.toNat ∧
      Queues (b.popFront ulMaxLen).2 (q.drop ulMaxLen.toNat) ∧
      (Inside b → Inside (b.popFront ulMaxLen).2) := by
  by_cases hempty : b.ulFirst = b.ulLast
  · have hnil := nil_of_first_eq_last h hempty
    rw [popFront, if_pos hempty]
    subst hnil
    exact ⟨List.take_nil.symm, by rwa [List.drop_nil], id⟩
  · by_cases hlt : b.ulDataLen < ulMaxLen
    · have hall := popFront_held h hempty h.len.le (if_pos hlt)
      rw [UInt32.lt_iff_toNat_lt] at hlt
      have hlen := h.len
      rw [List.take_of_length_le (by omega), List.drop_of_length_le (by omega)] at hall ⊢
      exact hall
    · have hle := hlt
      rw [UInt32.lt_iff_toNat_lt, h.len] at hle
      exact popFront_held h hempty (by omega) (if_neg hlt)

theorem popFront_frame (b : Buffer) (ulMaxLen : UInt32) :
    (b.popFront ulMaxLen).2.ulMaxSize = b.ulMaxSize ∧
      (b.popFront ulMaxLen).2.pBuffer = b.pBuffer := by
  unfold popFront
  split
  · exact ⟨rfl, rfl⟩
  · simp only [load]
    split <;> split <;> exact ⟨rfl, rfl⟩

/-- The byte at an index the queue holds. -/
theorem getAt_queues (h : Queues b q) (ulIndex : UInt32) :
    (b.getAt ulIndex).1 = (if ulIndex.toNat < q.length then .ok else .listEmpty) ∧
      (b.getAt ulIndex).2.1 = q[ulIndex.toNat]? ∧ Queues (b.getAt ulIndex).2.2 q ∧
      (Inside b → Inside (b.getAt ulIndex).2.2) := by
  have hle : b.ulDataLen ≤ ulIndex ↔ ¬ulIndex.toNat < q.length := by
    rw [UInt32.le_iff_toNat_le, h.len, Nat.not_lt]
  unfold getAt
  by_cases hi : ulIndex.toNat < q.length
  · rw [if_neg (by rw [hle, not_not]; exact hi), if_pos hi]
    have hcell := h.cells _ hi
    have hroom := h.room
    have hfirst := h.first
    have hmax := h.max
    have hidx : ((b.ulFirst + ulIndex) % b.ulMaxSize).toNat =
        (b.ulFirst.toNat + ulIndex.toNat) % b.ulMaxSize.toNat := by
      rw [UInt32.toNat_mod, toNat_add_of_lt (by omega)]
    refine ⟨rfl, ?_, touch_queues h _ _, fun hin => touch_reach hin ?_⟩
    · simp only [hidx]
      exact hcell.symm
    · rw [hidx]
      exact Nat.mod_lt _ (by omega)
  · rw [if_pos (hle.mpr hi), if_neg hi]
    exact ⟨rfl, (List.getElem?_eq_none (by omega)).symm, h, id⟩

theorem create_queues {ulMaxSize : UInt32} (hmin : 2 ≤ ulMaxSize.toNat)
    (hmax : ulMaxSize.toNat ≤ limit) : Queues (create ulMaxSize) [] where
  min := hmin
  max := hmax
  len := rfl
  room := by
    rw [List.length_nil]
    exact Nat.lt_of_lt_of_le Nat.zero_lt_two hmin
  first := Nat.zero_le _
  last := Nat.lt_of_lt_of_le Nat.zero_lt_two hmin
  ends := Nat.zero_mod _
  cells := fun _ hi => absurd hi (Nat.not_lt_zero _)

inductive BufferOp
  | pushBack (pData : List UInt8)
  | popFront (ulMaxLen : UInt32)
  | getAt (ulIndex : UInt32)
  | getSize

inductive Reply
  | pushed
  | popped (d : List UInt8)
  | at (byte : Option UInt8)
  | size (n : Nat)
  deriving DecidableEq

/-- A byte comes only with the success code. -/
def byteOf : Ret × Option UInt8 → Option UInt8
  | (.ok, byte) => byte
  | _ => none

def act (b : Buffer) : BufferOp → Reply × Buffer
  | .pushBack pData => (.pushed, b.pushBack pData)
  | .popFront ulMaxLen => (.popped (b.popFront ulMaxLen).1, (b.popFront ulMaxLen).2)
  | .getAt ulIndex =>
    (.at (byteOf ((b.getAt ulIndex).1, (b.getAt ulIndex).2.1)), (b.getAt ulIndex).2.2)
  | .getSize => (.size b.getSize.toNat, b)

/-- The same calls on a byte queue that drops its oldest bytes over a capacity. -/
def queue (capacity : Nat) (q : List UInt8) : BufferOp → Reply × List UInt8
  | .pushBack d => (.pushed, (q ++ d).drop (q.length + d.length - capacity))
  | .popFront n => (.popped (q.take n.toNat), q.drop n.toNat)
  | .getAt i => (.at q[i.toNat]?, q)
  | .getSize => (.size q.length, q)

/-- A push of no more bytes than the ring keeps. -/
def Fits (ulMaxSize : UInt32) : BufferOp → Prop
  | .pushBack pData => pData.length ≤ ulMaxSize.toNat - 1
  | _ => True

/-- Every run answers as the queue does, with no access past the ring's bytes. -/
def IsFifo (ulMaxSize : UInt32) : Prop :=
  ∀ ops : List BufferOp, (∀ op ∈ ops, Fits ulMaxSize op) →
    replies act (create ulMaxSize) ops = replies (queue (ulMaxSize.toNat - 1)) [] ops ∧
    (ops.foldl (fun b op => (act b op).2) (create ulMaxSize)).reach ≤ ulMaxSize.toNat

theorem act_ulMaxSize (b : Buffer) (op : BufferOp) :
    (act b op).2.ulMaxSize = b.ulMaxSize := by
  cases op with
  | pushBack pData =>
    exact (copyIn_frame (b.discard (.ofNat pData.length)) pData).1.trans (discard_frame b _).1
  | popFront ulMaxLen => exact (popFront_frame b ulMaxLen).1
  | getAt ulIndex =>
    simp only [act, getAt]
    split <;> rfl
  | getSize => rfl

/-- One call answers as on the queue and keeps it. -/
theorem act_queues (h : Queues b q) {op : BufferOp} (hop : Fits b.ulMaxSize op) :
    (act b op).1 = (queue (b.ulMaxSize.toNat - 1) q op).1 ∧
      Queues (act b op).2 (queue (b.ulMaxSize.toNat - 1) q op).2 ∧
      (Inside b → Inside (act b op).2) := by
  have hroom := h.room
  cases op with
  | pushBack pData =>
    have hd : pData.length ≤ b.ulMaxSize.toNat - 1 := hop
    have hpush := pushBack_queues h (d := pData) (by omega)
    refine ⟨rfl, ?_, pushBack_inside h (by omega)⟩
    rw [queue, List.drop_append_of_le_length (by omega)]
    exact hpush
  | popFront ulMaxLen =>
    obtain ⟨hdata, hrest⟩ := popFront_queues h ulMaxLen
    rw [act, queue, hdata]
    exact ⟨rfl, hrest⟩
  | getAt ulIndex =>
    obtain ⟨hret, hbyte, hsame, hin⟩ := getAt_queues h ulIndex
    rw [act, queue, hret, hbyte]
    refine ⟨?_, hsame, hin⟩
    split
    · rfl
    · rename_i hi
      rw [List.getElem?_eq_none (by omega)]
      rfl
  | getSize =>
    rw [act, queue, getSize, h.len]
    exact ⟨rfl, h, id⟩

theorem isFifo_of_le {ulMaxSize : UInt32} (hmin : 2 ≤ ulMaxSize.toNat)
    (hmax : ulMaxSize.toNat ≤ limit) : IsFifo ulMaxSize := by
  intro ops hops
  have hrun := replies_refine (f := act) (g := queue (ulMaxSize.toNat - 1))
    (r := fun b q => b.ulMaxSize = ulMaxSize ∧ Queues b q ∧ Inside b)
    (fun op hop b q h => by
      obtain ⟨rfl, h, hin⟩ := h
      obtain ⟨hans, hnext, hkept⟩ := act_queues h (hops op hop)
      exact ⟨hans, act_ulMaxSize b op, hnext, hkept hin⟩)
    (s := create ulMaxSize) (t := []) ⟨rfl, create_queues hmin hmax, Nat.zero_le _⟩
  obtain ⟨hans, hsize, -, hin⟩ := hrun
  refine ⟨hans, ?_⟩
  rwa [Inside, hsize] at hin

/-- A full ring, then as many bytes as take the 32-bit sum of the lengths round to 0. -/
def overrun (ulMaxSize : UInt32) : List BufferOp :=
  [.pushBack (.replicate (ulMaxSize - 1).toNat 0),
    .pushBack (.replicate (0 - (ulMaxSize - 1)).toNat 0), .getSize]

theorem toNat_zero_sub {x : UInt32} (hx : 0 < x.toNat) :
    (0 - x).toNat = 2 * limit - x.toNat := by
  have hlt : x.toNat < 2 * limit := x.toNat_lt
  rw [UInt32.toNat_sub, UInt32.toNat_zero, Nat.add_zero]
  apply Nat.mod_eq_of_lt
  change 2 * limit - x.toNat < 2 * limit
  omega

theorem overrun_fits {ulMaxSize : UInt32} (h : limit < ulMaxSize.toNat) :
    ∀ op ∈ overrun ulMaxSize, Fits ulMaxSize op := by
  have hcap := toNat_capacity (m := ulMaxSize) (by omega)
  have hpos : 0 < (ulMaxSize - 1).toNat := by
    unfold limit at h
    omega
  have hrest := toNat_zero_sub hpos
  unfold overrun
  rw [List.forall_mem_cons, List.forall_mem_cons, List.forall_mem_singleton]
  refine ⟨?_, ?_, trivial⟩
  · rw [Fits, List.length_replicate, hcap]
  · rw [Fits, List.length_replicate, hrest, hcap]
    omega

/-- A push that the sum of the lengths lets through drops nothing. -/
theorem pushBack_ulDataLen (hn : d.length = n.toNat)
    (hpass : ¬b.ulMaxSize - 1 < b.ulDataLen + n) :
    (b.pushBack d).ulDataLen = b.ulDataLen + n ∧
      (b.pushBack d).ulMaxSize = b.ulMaxSize := by
  have hof : UInt32.ofNat d.length = n := by rw [hn, UInt32.ofNat_toNat]
  have hsame : b.discard n = b := by rw [Buffer.discard, if_neg hpass]
  obtain ⟨hsize, hlen, -, -⟩ := copyIn_frame b d
  rw [pushBack, hof, hsame, grow, hlen, hsize]
  exact ⟨rfl, rfl⟩

/-- After the overrun the ring says it is empty, and the queue is full. -/
theorem overrun_replies {ulMaxSize : UInt32} (h : limit < ulMaxSize.toNat) :
    replies act (create ulMaxSize) (overrun ulMaxSize) = [.pushed, .pushed, .size 0] ∧
    replies (queue (ulMaxSize.toNat - 1)) [] (overrun ulMaxSize) =
      [.pushed, .pushed, .size (ulMaxSize.toNat - 1)] := by
  have hcap := toNat_capacity (m := ulMaxSize) (by omega)
  constructor
  · have hfirst := pushBack_ulDataLen (b := create ulMaxSize) (n := ulMaxSize - 1)
      (d := .replicate (ulMaxSize - 1).toNat 0) List.length_replicate (by
        change ¬ulMaxSize - 1 < 0 + (ulMaxSize - 1)
        rw [UInt32.zero_add]
        exact UInt32.lt_irrefl _)
    generalize hb : (create ulMaxSize).pushBack (.replicate (ulMaxSize - 1).toNat 0) = b at hfirst
    obtain ⟨hlen, hsize⟩ := hfirst
    have hzero : b.ulDataLen + (0 - (ulMaxSize - 1)) = 0 := by
      rw [hlen]
      change 0 + (ulMaxSize - 1) + (0 - (ulMaxSize - 1)) = 0
      rw [UInt32.zero_add, UInt32.zero_sub, UInt32.add_neg_eq_sub, UInt32.sub_self]
    have hsecond := pushBack_ulDataLen (b := b) (n := 0 - (ulMaxSize - 1))
      (d := .replicate (0 - (ulMaxSize - 1)).toNat 0) List.length_replicate (by
        rw [hzero]
        exact UInt32.not_lt_zero)
    simp only [overrun, replies, act, hb, getSize, hsecond.1, hzero]
    rfl
  · have hlt : ulMaxSize.toNat < 2 * limit := ulMaxSize.toNat_lt
    have hrest := toNat_zero_sub (x := ulMaxSize - 1) (by
      unfold limit at h
      omega)
    simp only [overrun, replies, queue, List.length_drop, List.length_append,
      List.length_replicate, List.length_nil, hcap, hrest]
    congr 4
    omega

theorem not_isFifo {ulMaxSize : UInt32} (h : limit < ulMaxSize.toNat) : ¬IsFifo ulMaxSize := by
  intro hfifo
  obtain ⟨hsame, -⟩ := hfifo _ (overrun_fits h)
  obtain ⟨hring, hqueue⟩ := overrun_replies h
  rw [hring, hqueue] at hsame
  have hsize : 0 = ulMaxSize.toNat - 1 := by simpa using hsame
  unfold limit at h
  omega

/-- The ring is the drop-oldest queue exactly when no sum of its lengths and indices can
wrap. -/
theorem isFifo_iff {ulMaxSize : UInt32} (hmin : 2 ≤ ulMaxSize.toNat) :
    IsFifo ulMaxSize ↔ ulMaxSize.toNat ≤ limit := by
  constructor
  · intro hfifo
    by_contra hmax
    exact not_isFifo (Nat.lt_of_not_le hmax) hfifo
  · exact isFifo_of_le hmin

theorem pages_are_fifo : IsFifo 4096 := (isFifo_iff (by decide)).mpr (by decide)

/-- 2 GiB pushed twice into a ring that keeps 2 GiB leave it empty. -/
theorem overrun_empties :
    (∀ op ∈ overrun 0x80000001, Fits 0x80000001 op) ∧
    replies act (create 0x80000001) (overrun 0x80000001) = [.pushed, .pushed, .size 0] ∧
    replies (queue 0x80000000) [] (overrun 0x80000001) = [.pushed, .pushed, .size 0x80000000] := by
  have hbeyond : limit < (0x80000001 : UInt32).toNat := by decide
  have hcap : (0x80000001 : UInt32).toNat - 1 = 0x80000000 := rfl
  obtain ⟨hring, hqueue⟩ := overrun_replies hbeyond
  rw [hcap] at hqueue
  exact ⟨overrun_fits hbeyond, hring, hqueue⟩

end Catchb.Proofs.Fifo
