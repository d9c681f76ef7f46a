import Catchb.Proofs.LongPush

/-! The three ways to read the oldest byte of the ring buffer. -/

namespace Catchb.Proofs.FirstReaders
open Lib Buffer LongPush

variable {b : Buffer} {d : List UInt8} {n : UInt32}

/-- The readers return one byte, or fail together. -/
@[mk_iff]
structure SameFirst (b : Buffer) : Prop where
  at_zero : (b.getFirst.1, b.getFirst.2.1) = ((b.getAt 0).1, (b.getAt 0).2.1)
  popped : (b.popFront 1).1 = b.getFirst.2.1.toList

/-- The indices tell a ring with bytes from an empty one. A front index that a pop left at the end
of the ring does no harm to a zero byte. -/
def Unambiguous (b : Buffer) : Prop :=
  b.ulDataLen = 0 ∨ (b.ulFirst ≠ b.ulLast ∧ (b.ulFirst = b.ulMaxSize → b.pBuffer 0 = 0))

/-- The pushes of a run are of at most `ulMaxSize - 1` bytes. -/
def Small (ulMaxSize : UInt32) : BufferCall → Prop
  | .pushBack pData => pData.length < ulMaxSize.toNat
  | _ => True

/-- What every run keeps, however large the ring is. Nothing is written behind the ring. -/
structure Bounds (b : Buffer) : Prop where
  len : b.ulDataLen.toNat ≤ b.ulMaxSize.toNat - 1
  first : b.ulFirst.toNat ≤ b.ulMaxSize.toNat
  last : 0 < b.ulMaxSize.toNat → b.ulLast.toNat < b.ulMaxSize.toNat
  behind : b.pBuffer b.ulMaxSize.toNat = 0

@[simp] theorem pBuffer_touch (off k : Nat) : (b.touch off k).pBuffer = b.pBuffer := rfl

/-! What the readers return. -/

theorem getFirst_eq (b : Buffer) : (b.getFirst.1, b.getFirst.2.1) =
    if b.ulDataLen = 0 then (.listEmpty, none) else (.ok, some (b.pBuffer b.ulFirst.toNat)) := by
  unfold getFirst
  split <;> rfl

theorem getAt_zero_eq (h : Bounds b) : ((b.getAt 0).1, (b.getAt 0).2.1) =
    if b.ulDataLen = 0 then (.listEmpty, none)
    else (.ok, some (b.pBuffer (if b.ulFirst = b.ulMaxSize then 0 else b.ulFirst.toNat))) := by
  have hindex : ((b.ulFirst + 0) % b.ulMaxSize).toNat =
      if b.ulFirst = b.ulMaxSize then 0 else b.ulFirst.toNat := by
    rw [UInt32.add_zero, UInt32.toNat_mod]
    split
    · rename_i hend
      rw [hend, Nat.mod_self]
    · rename_i hend
      have hne : b.ulFirst.toNat ≠ b.ulMaxSize.toNat := fun he => hend (UInt32.toNat.inj he)
      exact Nat.mod_eq_of_lt (Nat.lt_of_le_of_ne h.first hne)
  have hempty : b.ulDataLen ≤ 0 ↔ b.ulDataLen = 0 := by
    rw [UInt32.le_iff_toNat_le, ← UInt32.toNat_inj]
    exact Nat.le_zero
  unfold getAt
  simp only [hempty, hindex]
  split <;> rfl

/-- A pop of one byte goes round only from the end of the ring. -/
theorem at_end (hfirst : b.ulFirst.toNat ≤ b.ulMaxSize.toNat)
    (hwrap : b.ulMaxSize < b.ulFirst + 1) : b.ulFirst = b.ulMaxSize := by
  have hM := b.ulMaxSize.toNat_lt
  rw [UInt32.lt_iff_toNat_lt, UInt32.toNat_add, UInt32.toNat_one] at hwrap
  apply UInt32.toNat.inj
  omega

/-- Where the sum of the index and 1 wraps, a pop reads the byte behind the ring as well. -/
theorem popFront_one_eq (h : Bounds b) : (b.popFront 1).1 =
    if b.ulDataLen = 0 ∨ b.ulFirst = b.ulLast then []
    else [b.pBuffer (if b.ulMaxSize < b.ulFirst + 1 then 0 else b.ulFirst.toNat)] := by
  have hfirst := h.first
  unfold popFront
  by_cases hmeet : b.ulFirst = b.ulLast
  · simp [hmeet]
  by_cases hempty : b.ulDataLen = 0
  · have hlt : ¬ b.ulMaxSize < b.ulFirst := by
      rw [UInt32.lt_iff_toNat_lt]
      omega
    simp [hmeet, hempty, hlt, load, Circular.read]
  · have hone : ¬ b.ulDataLen < 1 := by
      rw [UInt32.lt_iff_toNat_lt, UInt32.toNat_one, Nat.lt_one_iff]
      exact fun hz => hempty (UInt32.toNat.inj hz)
    rw [if_neg hmeet, if_neg (not_or.mpr ⟨hempty, hmeet⟩), if_neg hone]
    by_cases hwrap : b.ulMaxSize < b.ulFirst + 1
    · have hend := at_end h.first hwrap
      rw [hend] at hwrap ⊢
      simp [hwrap, load, Circular.read]
    · simp [hwrap, load, Circular.read]

theorem sameFirst_iff_of_bounds (h : Bounds b) : SameFirst b ↔ Unambiguous b := by
  have hfirst := getFirst_eq b
  have hat := getAt_zero_eq h
  have hpop := popFront_one_eq h
  have hbehind := h.behind
  by_cases hempty : b.ulDataLen = 0
  · simp only [hempty, true_or, if_true, Prod.mk.injEq] at hfirst hat hpop
    refine iff_of_true ⟨?_, ?_⟩ (.inl hempty)
    · simp [hfirst, hat]
    · simp [hfirst, hpop]
  · simp only [hempty, false_or, if_false, Prod.mk.injEq] at hfirst hat hpop
    by_cases hmeet : b.ulFirst = b.ulLast
    · refine iff_of_false (fun hsame => ?_) (fun hready => ?_)
      · have hpopped := hsame.popped
        simp [hfirst, hpop, hmeet] at hpopped
      · exact hready.elim hempty (fun hready => hready.1 hmeet)
    · have hsame : SameFirst b ↔
          b.pBuffer b.ulFirst.toNat =
              b.pBuffer (if b.ulFirst = b.ulMaxSize then 0 else b.ulFirst.toNat) ∧
            b.pBuffer (if b.ulMaxSize < b.ulFirst + 1 then 0 else b.ulFirst.toNat) =
              b.pBuffer b.ulFirst.toNat := by
        rw [sameFirst_iff]
        simp [hfirst, hat, hpop, hmeet]
      rw [hsame, Unambiguous, or_iff_right hempty, and_iff_right hmeet]
      by_cases hend : b.ulFirst = b.ulMaxSize
      · by_cases hwrap : b.ulMaxSize < b.ulMaxSize + 1
        · simp [hend, hwrap, hbehind, eq_comm]
        · simp [hend, hwrap, hbehind, eq_comm]
      · have hwrap : ¬ b.ulMaxSize < b.ulFirst + 1 := fun hlt => hend (at_end h.first hlt)
        simp [hend, hwrap]

/-! What a call keeps. -/

theorem create_bounds (ulMaxSize : UInt32) : Bounds (create ulMaxSize) :=
  ⟨Nat.zero_le _, Nat.zero_le _, id, rfl⟩

theorem discard_bounds (h : Bounds b) (hpos : 0 < b.ulMaxSize.toNat) (n : UInt32) :
    ((b.discard n).ulDataLen + n).toNat ≤ b.ulMaxSize.toNat - 1 ∧
      (b.discard n).ulFirst.toNat ≤ b.ulMaxSize.toNat := by
  have hlen := h.len
  have hcap := Fifo.toNat_capacity hpos
  have hM := b.ulMaxSize.toNat_lt
  have hn := n.toNat_lt
  have hsum := UInt32.toNat_add b.ulDataLen n
  unfold Buffer.discard
  split
  · rename_i hover
    rw [UInt32.lt_iff_toNat_lt, hcap, hsum] at hover
    refine ⟨?_, ?_⟩
    · dsimp only
      rw [UInt32.toNat_add, UInt32.toNat_sub, UInt32.toNat_sub, hsum, hcap]
      omega
    · dsimp only
      rw [UInt32.toNat_mod]
      exact (Nat.mod_lt _ hpos).le
  · rename_i hfits
    rw [UInt32.lt_iff_toNat_lt, hcap] at hfits
    exact ⟨Nat.not_lt.mp hfits, h.first⟩

theorem pushBack_bounds (h : Bounds b) (hd : d.length < b.ulMaxSize.toNat) :
    Bounds (b.pushBack d) := by
  have hpos : 0 < b.ulMaxSize.toNat := Nat.zero_lt_of_lt hd
  have hsize : d.length < UInt32.size := Nat.lt_trans hd b.ulMaxSize.toNat_lt
  obtain ⟨hM, hL, hB, -⟩ := Fifo.discard_frame b (.ofNat d.length)
  obtain ⟨hM', hD', hF', hL'⟩ := Fifo.copyIn_frame (b.discard (.ofNat d.length)) d
  obtain ⟨hlen, hfirst⟩ := discard_bounds h hpos (.ofNat d.length)
  have hcopy := Fifo.copyIn_pBuffer (b := b.discard (.ofNat d.length)) (d := d)
    (by rw [hM, hL]; exact h.last hpos) hsize
  constructor <;> simp only [pushBack, grow, hM', hD', hF', hL', hM, hL, hcopy, hB]
  · exact hlen
  · exact hfirst
  · rw [UInt32.toNat_mod]
    exact fun hpos => Nat.mod_lt _ hpos
  · rw [Circular.writeWrapped_beyond (h.last hpos).le hd.le le_rfl]
    exact h.behind

theorem popFront_bounds (h : Bounds b) (ulMaxLen : UInt32) : Bounds (b.popFront ulMaxLen).2 := by
  have hlen := h.len
  have hfirst := h.first
  have hM := b.ulMaxSize.toNat_lt
  unfold popFront
  split
  · exact h
  generalize hn : (if b.ulDataLen < ulMaxLen then b.ulDataLen else ulMaxLen) = n
  have hle : n.toNat ≤ b.ulDataLen.toNat := by
    rw [← hn]
    split
    · exact le_rfl
    · rename_i hlt
      rwa [UInt32.lt_iff_toNat_lt, Nat.not_lt] at hlt
  have hleft : (b.ulDataLen - n).toNat = b.ulDataLen.toNat - n.toNat := Fifo.toNat_sub_of_le' hle
  have hsum := UInt32.toNat_add b.ulFirst n
  simp only [load]
  split
  · rename_i hwrap
    rw [gt_iff_lt, UInt32.lt_iff_toNat_lt, hsum] at hwrap
    have htemp : (b.ulMaxSize - b.ulFirst).toNat = b.ulMaxSize.toNat - b.ulFirst.toNat :=
      Fifo.toNat_sub_of_le' hfirst
    refine ⟨?_, ?_, h.last, h.behind⟩
    · show (b.ulDataLen - n).toNat ≤ b.ulMaxSize.toNat - 1
      omega
    · show (n - (b.ulMaxSize - b.ulFirst)).toNat ≤ b.ulMaxSize.toNat
      rw [Fifo.toNat_sub_of_le' (by omega)]
      omega
  · rename_i hflat
    rw [gt_iff_lt, UInt32.lt_iff_toNat_lt, Nat.not_lt] at hflat
    refine ⟨?_, hflat, h.last, h.behind⟩
    show (b.ulDataLen - n).toNat ≤ b.ulMaxSize.toNat - 1
    omega

theorem touch_bounds (h : Bounds b) (off k : Nat) : Bounds (b.touch off k) :=
  ⟨h.len, h.first, h.last, h.behind⟩

theorem call_bounds (h : Bounds b) {c : BufferCall} (hc : Small b.ulMaxSize c) :
    Bounds (call b c) := by
  cases c with
  | pushBack pData => exact pushBack_bounds h hc
  | popFront ulMaxLen => exact popFront_bounds h ulMaxLen
  | getFirst =>
    obtain ⟨off, k, htouch⟩ := getFirst_touches b
    rw [call, htouch]
    exact touch_bounds h off k
  | getAt ulIndex =>
    obtain ⟨off, k, htouch⟩ := getAt_touches b ulIndex
    rw [call, htouch]
    exact touch_bounds h off k
  | getSize => exact h

theorem call_ulMaxSize (b : Buffer) (c : BufferCall) : (call b c).ulMaxSize = b.ulMaxSize := by
  cases c with
  | pushBack pData => exact pushBack_ulMaxSize b pData
  | popFront ulMaxLen => exact (Fifo.popFront_frame b ulMaxLen).1
  | getFirst =>
    obtain ⟨off, k, htouch⟩ := getFirst_touches b
    rw [call, htouch]
    rfl
  | getAt ulIndex =>
    obtain ⟨off, k, htouch⟩ := getAt_touches b ulIndex
    rw [call, htouch]
    rfl
  | getSize => rfl

section Runs
variable {ulMaxSize : UInt32} {calls : List BufferCall} {q : List UInt8}

theorem foldl_bounds (h : Bounds b) (hcalls : ∀ c ∈ calls, Small b.ulMaxSize c) :
    Bounds (calls.foldl call b) := by
  induction calls generalizing b with
  | nil => exact h
  | cons c cs ih =>
    obtain ⟨hc, hcs⟩ := List.forall_mem_cons.mp hcalls
    apply ih (call_bounds h hc)
    rwa [call_ulMaxSize]

/-- After every run the readers of the oldest byte agree exactly if the ring is empty, or its
indices are apart and the front index is inside the ring or at a zero byte. -/
theorem readers_agree_iff (hcalls : ∀ c ∈ calls, Small ulMaxSize c) :
    SameFirst (after ulMaxSize calls) ↔ Unambiguous (after ulMaxSize calls) :=
  sameFirst_iff_of_bounds (foldl_bounds (create_bounds ulMaxSize) hcalls)

/-- A pop that does not end at the end of the ring. -/
theorem two_bytes_agree :
    SameFirst (after 4 [.pushBack [1, 2, 3], .popFront 2]) :=
  (readers_agree_iff (by simp [Small])).mpr (.inr ⟨by decide, fun he => absurd he (by decide)⟩)

/-- A pop of three bytes and one of one byte, which ends at the end of the ring. -/
def wrapped : List BufferCall :=
  [.pushBack [1, 2, 3], .popFront 3, .pushBack [4], .popFront 1, .pushBack [5]]

theorem front_reads_behind_ring : ¬ ∀ (ulMaxSize : UInt32) (calls : List BufferCall),
    (∀ c ∈ calls, Small ulMaxSize c) → SameFirst (after ulMaxSize calls) := by
  intro h
  have hsame := (h 4 wrapped (by simp [wrapped, Small])).at_zero
  exact absurd hsame (by decide)

theorem call_queues (h : Fifo.Queues b q) {c : BufferCall} (hc : Small b.ulMaxSize c) :
    ∃ q', Fifo.Queues (call b c) q' := by
  cases c with
  | pushBack pData => exact ⟨_, Fifo.pushBack_queues h hc⟩
  | popFront ulMaxLen => exact ⟨_, (Fifo.popFront_queues h ulMaxLen).2.1⟩
  | getFirst =>
    obtain ⟨off, k, htouch⟩ := getFirst_touches b
    refine ⟨q, ?_⟩
    rw [call, htouch]
    exact Fifo.touch_queues h off k
  | getAt ulIndex => exact ⟨q, (Fifo.getAt_queues h ulIndex).2.2.1⟩
  | getSize => exact ⟨q, h⟩

theorem foldl_queues (h : Fifo.Queues b q) (hcalls : ∀ c ∈ calls, Small b.ulMaxSize c) :
    ∃ q', Fifo.Queues (calls.foldl call b) q' := by
  induction calls generalizing b q with
  | nil => exact ⟨q, h⟩
  | cons c cs ih =>
    obtain ⟨hc, hcs⟩ := List.forall_mem_cons.mp hcalls
    obtain ⟨q', hq'⟩ := call_queues h hc
    apply ih hq'
    rwa [call_ulMaxSize]

/-- With a ring that holds a queue only the end of the ring is left to be told apart. -/
theorem unambiguous_iff (h : Fifo.Queues b q) :
    Unambiguous b ↔ (b.ulFirst = b.ulMaxSize → ∀ c ∈ q.head?, c = 0) := by
  have hlen : b.ulDataLen = 0 ↔ q = [] := by
    rw [← UInt32.toNat_inj, h.len, UInt32.toNat_zero, List.length_eq_zero_iff]
  cases q with
  | nil => simp [Unambiguous, hlen]
  | cons c cs =>
    have hapart : b.ulFirst ≠ b.ulLast := fun he =>
      List.cons_ne_nil c cs (Fifo.nil_of_first_eq_last h he)
    have hcell : c = b.pBuffer (b.ulFirst.toNat % b.ulMaxSize.toNat) := by
      simpa using h.cells 0 (by simp)
    rw [Unambiguous, hlen, or_iff_right (List.cons_ne_nil c cs), and_iff_right hapart]
    apply imp_congr_right
    intro hend
    rw [hend, Nat.mod_self] at hcell
    simp [hcell]

/-- Rings up to 2^31 bytes: the readers agree unless the front index rests at the end and the oldest
byte is not zero. -/
theorem small_rings_agree (hmin : 2 ≤ ulMaxSize.toNat) (hmax : ulMaxSize.toNat ≤ Fifo.limit)
    (hcalls : ∀ c ∈ calls, Small ulMaxSize c) : ∃ q, Fifo.Queues (after ulMaxSize calls) q ∧
      (SameFirst (after ulMaxSize calls) ↔
        ((after ulMaxSize calls).ulFirst = (after ulMaxSize calls).ulMaxSize →
          ∀ c ∈ q.head?, c = 0)) := by
  obtain ⟨q, hq⟩ := foldl_queues (Fifo.create_queues hmin hmax) hcalls
  have hsame := sameFirst_iff_of_bounds (foldl_bounds (create_bounds ulMaxSize) hcalls)
  exact ⟨q, hq, hsame.trans (unambiguous_iff hq)⟩

end Runs

end Catchb.Proofs.FirstReaders
