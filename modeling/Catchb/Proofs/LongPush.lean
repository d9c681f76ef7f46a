import Catchb.Proofs.Fifo
import Mathlib.Data.List.DropRight

/-! Pushes of more bytes than the ring keeps. -/

namespace Catchb.Proofs.LongPush
open Lib Buffer

inductive BufferCall
  | pushBack (pData : List UInt8)
  | popFront (ulMaxLen : UInt32)
  | getFirst
  | getAt (ulIndex : UInt32)
  | getSize

def call (b : Buffer) : BufferCall → Buffer
  | .pushBack pData => b.pushBack pData
  | .popFront ulMaxLen => (b.popFront ulMaxLen).2
  | .getFirst => b.getFirst.2.2
  | .getAt ulIndex => (b.getAt ulIndex).2.2
  | .getSize => b

def after (ulMaxSize : UInt32) (calls : List BufferCall) : Buffer :=
  calls.foldl call (create ulMaxSize)

/-- The bytes that the buffer holds, the oldest first. -/
def contents (b : Buffer) : List UInt8 :=
  Circular.sequence b.ulMaxSize.toNat b.pBuffer b.ulFirst.toNat b.ulDataLen.toNat

/-- One past the last byte of the storage that a push writes. -/
def extent (b : Buffer) (d : List UInt8) : Nat := ({ b with reach := 0 }.pushBack d).reach

/-- The push keeps to the storage, and the newest bytes are held. -/
def Pushes (b : Buffer) (d : List UInt8) : Prop :=
  extent b d ≤ storage b.ulMaxSize ∧
    contents (b.pushBack d) =
      (contents b ++ d).rtake (min (b.ulDataLen.toNat + d.length) (b.ulMaxSize.toNat - 1))

/-- The bytes that are dropped. -/
def overSize (b : Buffer) (d : List UInt8) : Nat :=
  b.ulDataLen.toNat + d.length - (b.ulMaxSize.toNat - 1)

/-- The sums of the indices are right in 32 bits. -/
def Steady (b : Buffer) (d : List UInt8) : Prop :=
  UInt32.size % b.ulMaxSize.toNat = 0 ∨
    b.ulFirst.toNat + overSize b d < UInt32.size ∧ b.ulLast.toNat + d.length < UInt32.size

/-- The bytes end before they would pass the ring's end again, or they pass it by no more than the
storage has beyond the ring, and are the same as those that are not written over. -/
def Short (b : Buffer) (d : List UInt8) : Prop :=
  b.ulDataLen.toNat + d.length < UInt32.size ∧
    (b.ulLast.toNat + d.length ≤ 2 * b.ulMaxSize.toNat ∨
      b.ulLast.toNat + d.length ≤ 2 * b.ulMaxSize.toNat + 1024 ∧
        ∀ p, p < d.length → d.length < p + b.ulMaxSize.toNat →
          d[p]? = d[b.ulMaxSize.toNat - b.ulLast.toNat +
            (b.ulLast.toNat + p) % b.ulMaxSize.toNat]?)

/-- What keeps the ring in order: only the sum of a pop's indices is not reduced. -/
def Meets (b : Buffer) : BufferCall → Prop
  | .pushBack pData => pData.length < UInt32.size ∧ Steady b pData ∧ Short b pData
  | .popFront ulMaxLen =>
    b.ulFirst.toNat + min b.ulDataLen.toNat ulMaxLen.toNat < UInt32.size
  | _ => True

def Sound (b : Buffer) : List BufferCall → Prop
  | [] => True
  | c :: cs => Meets b c ∧ Sound (call b c) cs

/-- The indices of a ring, whatever its bytes. -/
structure Ring (b : Buffer) : Prop where
  room : b.ulDataLen.toNat < b.ulMaxSize.toNat
  first : b.ulFirst.toNat ≤ b.ulMaxSize.toNat
  last : b.ulLast.toNat < b.ulMaxSize.toNat
  ends : (b.ulFirst.toNat + b.ulDataLen.toNat) % b.ulMaxSize.toNat = b.ulLast.toNat

variable {b : Buffer} {d : List UInt8}

theorem create_ring {ulMaxSize : UInt32} (hpos : 0 < ulMaxSize.toNat) : Ring (create ulMaxSize) where
  room := hpos
  first := Nat.zero_le _
  last := hpos
  ends := Nat.zero_mod _

/-! What a push makes of each field. -/

theorem pushBack_ulMaxSize (b : Buffer) (d : List UInt8) :
    (b.pushBack d).ulMaxSize = b.ulMaxSize :=
  (Fifo.copyIn_frame (b.discard (.ofNat d.length)) d).1.trans (Fifo.discard_frame b _).1

/-- The counter is right as long as the sum of the lengths fits its 32 bits. -/
theorem pushBack_ulDataLen (h : Ring b) (hd : d.length < UInt32.size) :
    (b.pushBack d).ulDataLen.toNat =
      if b.ulDataLen.toNat + d.length < UInt32.size then
        min (b.ulDataLen.toNat + d.length) (b.ulMaxSize.toNat - 1)
      else b.ulDataLen.toNat + d.length - UInt32.size := by
  have hn := Fifo.length_toNat hd
  have hroom := h.room
  have hM := b.ulMaxSize.toNat_lt
  have hcap := Fifo.toNat_capacity (m := b.ulMaxSize) (by omega)
  have hsum := UInt32.toNat_add b.ulDataLen (.ofNat d.length)
  have hlen := (Fifo.copyIn_frame (b.discard (.ofNat d.length)) d).2.1
  have hgrow : (b.pushBack d).ulDataLen =
      (b.discard (.ofNat d.length)).ulDataLen + .ofNat d.length := by
    rw [← hlen]
    rfl
  have hsize : UInt32.size = 4294967296 := rfl
  rw [hgrow, UInt32.toNat_add, hn, hsize]
  rw [hsize] at hd
  unfold Buffer.discard
  split
  · rename_i hlt
    rw [UInt32.lt_iff_toNat_lt, hcap, hsum, hn] at hlt
    dsimp only
    rw [UInt32.toNat_sub, UInt32.toNat_sub, hsum, hcap, hn]
    split <;> omega
  · rename_i hlt
    rw [UInt32.lt_iff_toNat_lt, hcap, hsum, hn] at hlt
    split <;> omega

/-- A sum that is reduced in 32 bits first comes out right if it fits, or if the size divides. -/
theorem mod_size {x m : Nat} (h : UInt32.size % m = 0 ∨ x < UInt32.size) :
    x % UInt32.size % m = x % m := by
  obtain h | h := h
  · exact Nat.mod_mod_of_dvd x (Nat.dvd_of_mod_eq_zero h)
  · rw [Nat.mod_eq_of_lt h]

theorem pushBack_ulFirst (h : Ring b) (hd : d.length < UInt32.size)
    (hsum : b.ulDataLen.toNat + d.length < UInt32.size) (hsteady : Steady b d) :
    (b.pushBack d).ulFirst.toNat ≤ b.ulMaxSize.toNat ∧
      (b.pushBack d).ulFirst.toNat % b.ulMaxSize.toNat =
        (b.ulFirst.toNat + overSize b d) % b.ulMaxSize.toNat := by
  have hn := Fifo.length_toNat hd
  have hroom := h.room
  have hcap := Fifo.toNat_capacity (m := b.ulMaxSize) (by omega)
  have hadd : (b.ulDataLen + .ofNat d.length).toNat = b.ulDataLen.toNat + d.length := by
    rw [UInt32.toNat_add, hn]
    exact Nat.mod_eq_of_lt hsum
  have hfirst : (b.pushBack d).ulFirst = (b.discard (.ofNat d.length)).ulFirst :=
    (Fifo.copyIn_frame (b.discard (.ofNat d.length)) d).2.2.1
  rw [hfirst]
  unfold Buffer.discard
  split
  · rename_i hlt
    rw [UInt32.lt_iff_toNat_lt, hcap, hadd] at hlt
    have hover : (b.ulDataLen + .ofNat d.length - (b.ulMaxSize - 1)).toNat = overSize b d := by
      rw [Fifo.toNat_sub_of_le' (by omega), hadd, hcap]
      rfl
    dsimp only
    rw [UInt32.toNat_mod, UInt32.toNat_add, hover, Nat.mod_mod]
    exact ⟨(Nat.mod_lt _ (by omega)).le, mod_size (hsteady.imp_right And.left)⟩
  · rename_i hlt
    rw [UInt32.lt_iff_toNat_lt, hcap, hadd] at hlt
    have hover : overSize b d = 0 := by
      unfold overSize
      omega
    rw [hover, Nat.add_zero]
    exact ⟨h.first, rfl⟩

theorem pushBack_ulLast (hd : d.length < UInt32.size) (hsteady : Steady b d) :
    (b.pushBack d).ulLast.toNat = (b.ulLast.toNat + d.length) % b.ulMaxSize.toNat := by
  have hn := Fifo.length_toNat hd
  obtain ⟨hM, -, -, hL⟩ := Fifo.copyIn_frame (b.discard (.ofNat d.length)) d
  obtain ⟨hM', hL', -⟩ := Fifo.discard_frame b (.ofNat d.length)
  have hlast : (b.pushBack d).ulLast = (b.ulLast + .ofNat d.length) % b.ulMaxSize := by
    rw [← hM', ← hM, ← hL', ← hL]
    rfl
  rw [hlast, UInt32.toNat_mod, UInt32.toNat_add, hn]
  exact mod_size (hsteady.imp_right And.right)

/-- The copy's second piece is not wrapped again. -/
theorem copyIn_reach (hlast : b.ulLast.toNat < b.ulMaxSize.toNat) (hd : d.length < UInt32.size)
    (hreach : b.reach = 0) : (b.copyIn d).reach =
      if d.length = 0 then 0
      else if b.ulLast.toNat + d.length ≤ b.ulMaxSize.toNat then b.ulLast.toNat + d.length
      else max b.ulMaxSize.toNat (b.ulLast.toNat + d.length - b.ulMaxSize.toNat) := by
  rw [Fifo.copyIn_pieces hlast hd]
  split
  · simp only [store, touch, hreach]
    split
    · rfl
    · rw [if_pos (by omega), Nat.zero_max]
  · simp only [store, touch, hreach, List.length_take, List.length_drop]
    rw [if_neg (by omega), if_neg (by omega), if_neg (by omega), if_neg (by omega), Nat.zero_max]
    omega

theorem pushBack_pBuffer (h : Ring b) (hd : d.length < UInt32.size) :
    (b.pushBack d).pBuffer =
      Circular.writeWrapped b.ulMaxSize.toNat b.pBuffer b.ulLast.toNat d := by
  obtain ⟨hM, hL, hB, -⟩ := Fifo.discard_frame b (.ofNat d.length)
  have hcopy := Fifo.copyIn_pBuffer (b := b.discard (.ofNat d.length)) (d := d)
    (by rw [hM, hL]; exact h.last) hd
  rw [hM, hL, hB] at hcopy
  exact hcopy

/-- A push writes beyond the ring what is left over after its second pass. -/
theorem extent_le_iff (h : Ring b) (hd : d.length < UInt32.size) :
    extent b d ≤ storage b.ulMaxSize ↔
      b.ulLast.toNat + d.length ≤ 2 * b.ulMaxSize.toNat + 1024 := by
  have hlast := h.last
  obtain ⟨hM, hL, -, hR⟩ := Fifo.discard_frame { b with reach := 0 } (.ofNat d.length)
  have hreach := copyIn_reach (b := { b with reach := 0 }.discard (.ofNat d.length)) (d := d)
    (by rw [hM, hL]; exact hlast) hd hR
  rw [hM, hL] at hreach
  have hextent : extent b d =
      (({ b with reach := 0 }.discard (.ofNat d.length)).copyIn d).reach := rfl
  rw [hextent, hreach, storage]
  dsimp only
  split
  · omega
  · split <;> omega

theorem contents_eq_iff {q : List UInt8} : contents b = q ↔ b.ulDataLen.toNat = q.length ∧
    Circular.Holds b.ulMaxSize.toNat b.pBuffer b.ulFirst.toNat q :=
  Circular.sequence_eq_iff

/-- A cell of the ring has the byte that was written in it last. -/
theorem writeWrapped_long {mem : Nat → UInt8} {m last p : Nat} (hlast : last < m)
    (hp : p < d.length) (hwindow : d.length < p + m) :
    d[p]? = some (Circular.writeWrapped m mem last d ((last + p) % m)) ↔
      last + d.length ≤ 2 * m ∨ d[p]? = d[m - last + (last + p) % m]? := by
  by_cases hshort : last + d.length ≤ 2 * m
  · exact iff_of_true (Circular.writeWrapped_window hlast hshort hp hwindow.le) (.inl hshort)
  · have hcell := Nat.mod_lt (last + p) (Nat.zero_lt_of_lt hlast)
    rw [Circular.writeWrapped_past (by omega), or_iff_right hshort]

/-- The bytes that a push leaves are the newest ones where it ends in time, and where it is later
only if the last bytes are like those that were written first. -/
theorem contents_pushBack_iff (h : Ring b) (hd : d.length < UInt32.size)
    (hsum : b.ulDataLen.toNat + d.length < UInt32.size) (hsteady : Steady b d) :
    contents (b.pushBack d) =
        (contents b ++ d).rtake (min (b.ulDataLen.toNat + d.length) (b.ulMaxSize.toNat - 1)) ↔
      b.ulLast.toNat + d.length ≤ 2 * b.ulMaxSize.toNat ∨
        ∀ p, p < d.length → d.length < p + b.ulMaxSize.toNat →
          d[p]? = d[b.ulMaxSize.toNat - b.ulLast.toNat +
            (b.ulLast.toNat + p) % b.ulMaxSize.toNat]? := by
  have hroom := h.room
  have hlast := h.last
  have hends := h.ends
  have hlen : (contents b).length = b.ulDataLen.toNat := Circular.length_sequence
  have hq := (Circular.sequence_eq_iff.mp (rfl : contents b = _)).2
  have hover : (contents b ++ d).length -
      min (b.ulDataLen.toNat + d.length) (b.ulMaxSize.toNat - 1) = overSize b d := by
    rw [List.length_append, hlen, overSize]
    omega
  have hleft : (b.pushBack d).ulDataLen.toNat = ((contents b ++ d).drop (overSize b d)).length := by
    rw [pushBack_ulDataLen h hd, if_pos hsum, List.length_drop, List.length_append, hlen, overSize]
    omega
  rw [List.rtake, hover, contents_eq_iff, and_iff_right hleft, pushBack_ulMaxSize,
    ← Circular.holds_mod, (pushBack_ulFirst h hd hsum hsteady).2, Circular.holds_mod,
    pushBack_pBuffer h hd]
  by_cases hn : d.length < b.ulMaxSize.toNat
  · have hle : overSize b d ≤ (contents b).length := by
      rw [hlen, overSize]
      omega
    refine iff_of_true ?_ (.inl (by omega))
    rw [List.drop_append_of_le_length hle]
    refine Circular.holds_push (Circular.holds_drop hq (overSize b d)) ?_ hlast ?_
    · rw [List.length_drop, hlen, overSize]
      omega
    · rw [List.length_drop, hlen, ← hends]
      congr 1
      omega
  · have hdrop : (contents b ++ d).drop (overSize b d) =
        d.drop (d.length - (b.ulMaxSize.toNat - 1)) := by
      rw [List.drop_append, List.drop_of_length_le (by rw [hlen, overSize]; omega), List.nil_append,
        hlen, overSize]
      congr 1
      omega
    have hfrom : (b.ulFirst.toNat + overSize b d) % b.ulMaxSize.toNat =
        (b.ulLast.toNat + (d.length - (b.ulMaxSize.toNat - 1))) % b.ulMaxSize.toNat := by
      rw [← hends, Nat.mod_add_mod, overSize]
      congr 1
      omega
    rw [hdrop, ← Circular.holds_mod, hfrom, Circular.holds_mod, Circular.holds_drop_iff]
    constructor
    · intro hcells
      refine or_iff_not_imp_left.mpr fun hshort p hp hwindow => ?_
      have hcell := hcells p (by omega) hp
      exact ((writeWrapped_long hlast hp hwindow).mp hcell).resolve_left hshort
    · intro hshort p hp hlt
      refine (writeWrapped_long hlast hlt (by omega)).mpr ?_
      exact hshort.imp_right fun hrepeats => hrepeats p hlt (by omega)

/-- The ring is as it was where the sum of the lengths is too long for its counter. -/
theorem not_contents_of_size_le (h : Ring b) (hd : d.length < UInt32.size)
    (hsum : UInt32.size ≤ b.ulDataLen.toNat + d.length) :
    contents (b.pushBack d) ≠
      (contents b ++ d).rtake (min (b.ulDataLen.toNat + d.length) (b.ulMaxSize.toNat - 1)) := by
  intro heq
  have hroom := h.room
  have hM := b.ulMaxSize.toNat_lt
  have hsize : UInt32.size = 4294967296 := rfl
  have hlen : (contents b).length = b.ulDataLen.toNat := Circular.length_sequence
  have hleft := (contents_eq_iff.mp heq).1
  rw [pushBack_ulDataLen h hd, if_neg (Nat.not_lt.mpr hsum), List.rtake, List.length_drop,
    List.length_append, hlen] at hleft
  omega

theorem pushes_iff (h : Ring b) (hd : d.length < UInt32.size) (hsteady : Steady b d) :
    Pushes b d ↔ Short b d := by
  unfold Pushes Short
  rw [extent_le_iff h hd]
  by_cases hsum : b.ulDataLen.toNat + d.length < UInt32.size
  · rw [contents_pushBack_iff h hd hsum hsteady, and_iff_right hsum]
    constructor
    · rintro ⟨hin, hshort | hrepeats⟩
      · exact .inl hshort
      · exact .inr ⟨hin, hrepeats⟩
    · rintro (hshort | ⟨hin, hrepeats⟩)
      · exact ⟨by omega, .inl hshort⟩
      · exact ⟨hin, .inr hrepeats⟩
  · exact iff_of_false (fun hpush => not_contents_of_size_le h hd (Nat.not_lt.mp hsum) hpush.2)
      (fun hshort => hsum hshort.1)

/-! What a call makes of the ring. -/

theorem pushBack_ring (h : Ring b) (hd : d.length < UInt32.size)
    (hsum : b.ulDataLen.toNat + d.length < UInt32.size) (hsteady : Steady b d) :
    Ring (b.pushBack d) := by
  have hroom := h.room
  obtain ⟨hfirst, hmod⟩ := pushBack_ulFirst h hd hsum hsteady
  constructor <;> rw [pushBack_ulMaxSize]
  · rw [pushBack_ulDataLen h hd, if_pos hsum]
    omega
  · exact hfirst
  · rw [pushBack_ulLast hd hsteady]
    exact Nat.mod_lt _ (by omega)
  · rw [← Nat.mod_add_mod, hmod, Nat.mod_add_mod, pushBack_ulLast hd hsteady, ← h.ends,
      Nat.mod_add_mod, pushBack_ulDataLen h hd, if_pos hsum, overSize]
    congr 1
    omega

theorem touch_ring (h : Ring b) (off k : Nat) : Ring (b.touch off k) :=
  ⟨h.room, h.first, h.last, h.ends⟩

theorem getFirst_touches (b : Buffer) : ∃ off k, b.getFirst.2.2 = b.touch off k := by
  unfold getFirst
  split
  · exact ⟨0, 0, rfl⟩
  · exact ⟨_, _, rfl⟩

theorem getAt_touches (b : Buffer) (ulIndex : UInt32) :
    ∃ off k, (b.getAt ulIndex).2.2 = b.touch off k := by
  unfold getAt
  split
  · exact ⟨0, 0, rfl⟩
  · exact ⟨_, _, rfl⟩

/-- The ring from a new front index `k` bytes on. -/
theorem advance_ring {k : Nat} {f l : UInt32} (h : Ring b) (hk : k ≤ b.ulDataLen.toNat)
    (hl : l.toNat = b.ulDataLen.toNat - k) (hf : f.toNat ≤ b.ulMaxSize.toNat)
    (hmod : f.toNat % b.ulMaxSize.toNat = (b.ulFirst.toNat + k) % b.ulMaxSize.toNat) :
    Ring { b with ulFirst := f, ulDataLen := l } := by
  have hroom := h.room
  refine ⟨?_, hf, h.last, ?_⟩
  · show l.toNat < b.ulMaxSize.toNat
    omega
  · show (f.toNat + l.toNat) % b.ulMaxSize.toNat = b.ulLast.toNat
    rw [← h.ends, ← Nat.mod_add_mod, hmod, Nat.mod_add_mod, hl]
    congr 1
    omega

theorem popFront_ring (h : Ring b) {ulMaxLen : UInt32}
    (hsum : b.ulFirst.toNat + min b.ulDataLen.toNat ulMaxLen.toNat < UInt32.size) :
    Ring (b.popFront ulMaxLen).2 := by
  have hroom := h.room
  have hfirst := h.first
  unfold popFront
  by_cases hempty : b.ulFirst = b.ulLast
  · rw [if_pos hempty]
    exact h
  rw [if_neg hempty]
  generalize hn : (if b.ulDataLen < ulMaxLen then b.ulDataLen else ulMaxLen) = n
  have hmin : n.toNat = min b.ulDataLen.toNat ulMaxLen.toNat := by
    rw [← hn]
    split <;> rename_i hlt <;> rw [UInt32.lt_iff_toNat_lt] at hlt <;> omega
  rw [← hmin] at hsum
  have hadd : (b.ulFirst + n).toNat = b.ulFirst.toNat + n.toNat := by
    rw [UInt32.toNat_add]
    exact Nat.mod_eq_of_lt hsum
  have hleft : (b.ulDataLen - n).toNat = b.ulDataLen.toNat - n.toNat :=
    Fifo.toNat_sub_of_le' (by omega)
  simp only [load]
  split
  · rename_i hwrap
    rw [gt_iff_lt, UInt32.lt_iff_toNat_lt, hadd] at hwrap
    have htemp : (b.ulMaxSize - b.ulFirst).toNat = b.ulMaxSize.toNat - b.ulFirst.toNat :=
      Fifo.toNat_sub_of_le' hfirst
    have hrest : (n - (b.ulMaxSize - b.ulFirst)).toNat =
        b.ulFirst.toNat + n.toNat - b.ulMaxSize.toNat := by
      rw [Fifo.toNat_sub_of_le' (by omega), htemp]
      omega
    refine advance_ring (touch_ring (touch_ring h _ _) _ _) (k := n.toNat) ?_ hleft ?_ ?_
    · show n.toNat ≤ b.ulDataLen.toNat
      omega
    · show (n - (b.ulMaxSize - b.ulFirst)).toNat ≤ b.ulMaxSize.toNat
      omega
    · show _ % b.ulMaxSize.toNat = (b.ulFirst.toNat + n.toNat) % b.ulMaxSize.toNat
      rw [hrest, ← Nat.mod_eq_sub_mod hwrap.le]
  · rename_i hflat
    rw [gt_iff_lt, UInt32.lt_iff_toNat_lt, hadd] at hflat
    refine advance_ring (touch_ring h _ _) (k := n.toNat) ?_ hleft ?_ ?_
    · show n.toNat ≤ b.ulDataLen.toNat
      omega
    · show (b.ulFirst + n).toNat ≤ b.ulMaxSize.toNat
      omega
    · show (b.ulFirst + n).toNat % b.ulMaxSize.toNat = _
      rw [hadd]
      rfl

theorem call_ring (h : Ring b) {c : BufferCall} (hc : Meets b c) : Ring (call b c) := by
  cases c with
  | pushBack pData => exact pushBack_ring h hc.1 hc.2.2.1 hc.2.1
  | popFront ulMaxLen => exact popFront_ring h hc
  | getFirst =>
    obtain ⟨off, k, htouch⟩ := getFirst_touches b
    rw [call, htouch]
    exact touch_ring h off k
  | getAt ulIndex =>
    obtain ⟨off, k, htouch⟩ := getAt_touches b ulIndex
    rw [call, htouch]
    exact touch_ring h off k
  | getSize => exact h

theorem foldl_ring {calls : List BufferCall} (h : Ring b) (hcalls : Sound b calls) :
    Ring (calls.foldl call b) := by
  induction calls generalizing b with
  | nil => exact h
  | cons c cs ih => exact ih (call_ring h hcalls.1) hcalls.2

theorem sound_append {pre post : List BufferCall} (h : Sound b (pre ++ post)) :
    Sound b pre ∧ Sound (pre.foldl call b) post := by
  induction pre generalizing b with
  | nil => exact ⟨trivial, h⟩
  | cons c cs ih =>
    obtain ⟨hpre, hpost⟩ := ih h.2
    exact ⟨⟨h.1, hpre⟩, hpost⟩

/-- In a run of short pushes every push keeps to the storage and leaves the newest bytes, and a
push that is not short does not. -/
theorem short_pushes {ulMaxSize : UInt32} (hpos : 0 < ulMaxSize.toNat) {calls : List BufferCall}
    (hcalls : Sound (create ulMaxSize) calls) :
    (∀ pre d post, calls = pre ++ .pushBack d :: post → Pushes (after ulMaxSize pre) d) ∧
      ∀ d, d.length < UInt32.size → Steady (after ulMaxSize calls) d →
        ¬ Short (after ulMaxSize calls) d → ¬ Pushes (after ulMaxSize calls) d := by
  have hring := create_ring hpos
  constructor
  · rintro pre d post rfl
    obtain ⟨hpre, hd, -⟩ := sound_append hcalls
    exact (pushes_iff (foldl_ring hring hpre) hd.1 hd.2.1).mpr hd.2.2
  · intro d hd hsteady hshort hpush
    exact hshort ((pushes_iff (foldl_ring hring hcalls) hd hsteady).mp hpush)

/-- Six bytes pass the end of a ring of four once, and nine would pass it twice. -/
theorem six_bytes_pushed :
    Pushes (after 4 [.pushBack [9], .popFront 1]) [1, 2, 3, 4, 5, 6] ∧
      ¬ Pushes (after 4 [.pushBack [9], .popFront 1, .pushBack [1, 2, 3, 4, 5, 6]])
        [1, 2, 3, 4, 5, 6, 7, 8, 9] := by
  have hsound : Sound (create 4) [.pushBack [9], .popFront 1, .pushBack [1, 2, 3, 4, 5, 6]] :=
    ⟨⟨by decide, .inl (by decide), by decide, .inl (by decide)⟩, by unfold Meets; decide,
      ⟨by decide, .inl (by decide), by decide, .inl (by decide)⟩, trivial⟩
  obtain ⟨hshort, hlong⟩ := short_pushes (by decide) hsound
  refine ⟨hshort _ _ [] rfl, hlong _ (by decide) (.inl (by decide)) ?_⟩
  rintro ⟨-, hends | ⟨-, hrepeats⟩⟩
  · exact absurd hends (by decide)
  · exact absurd (hrepeats 8 (by decide) (by decide)) (by decide)

/-- Nine bytes pushed into a ring of four leave an older byte at its end, and 1033 bytes are written
beyond the storage. -/
theorem nine_bytes_lost :
    ¬ Pushes (create 4) [1, 2, 3, 4, 5, 6, 7, 8, 9] ∧
      contents ((create 4).pushBack [1, 2, 3, 4, 5, 6, 7, 8, 9]) = [7, 8, 5] ∧
        storage 4 < extent (create 4) (List.replicate 1033 0) := by
  have hheld : contents ((create 4).pushBack [1, 2, 3, 4, 5, 6, 7, 8, 9]) = [7, 8, 5] := by
    decide +kernel
  refine ⟨fun hpush => ?_, hheld, ?_⟩
  · have hlast := hheld.symm.trans hpush.2
    revert hlast
    decide +kernel
  · decide +kernel

end Catchb.Proofs.LongPush
