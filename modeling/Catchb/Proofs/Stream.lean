import Catchb.SshChannel
import Catchb.Lib.Run
import Catchb.Proofs.Fifo

/-! What the readers of a channel get of the device's stream. -/

namespace Catchb.Proofs.Stream
open Lib SshChannel Buffer Fifo

variable {b : Buffer} {q cs : List UInt8} {c : UInt8} {n : Nat}

/-- A stream without its three-byte escape sequences. -/
def strip : List UInt8 → List UInt8
  | c :: c₁ :: c₂ :: cs => if c = esc then strip cs else c :: strip (c₁ :: c₂ :: cs)
  | cs => cs

/-- The length of the escape sequence that a stream breaks off in. -/
def unfinished : List UInt8 → Nat
  | c :: c₁ :: c₂ :: cs => if c = esc then unfinished cs else unfinished (c₁ :: c₂ :: cs)
  | [c, c₁] => if c = esc then 2 else if c₁ = esc then 1 else 0
  | [c] => if c = esc then 1 else 0
  | [] => 0

/-- The chunk brings the end of an escape sequence that an earlier one began. -/
def Completes (sent chunk : List UInt8) : Prop :=
  unfinished sent ≠ 0 ∧ 3 ≤ unfinished sent + chunk.length

theorem strip_cons (hc : c ≠ esc) : strip (c :: cs) = c :: strip cs := by
  cases cs with
  | nil => rfl
  | cons c₁ cs =>
    cases cs with
    | nil => rfl
    | cons c₂ cs => rw [strip, if_neg hc]

theorem strip_esc {c₁ c₂ : UInt8} : strip (esc :: c₁ :: c₂ :: cs) = strip cs := by
  rw [strip, if_pos rfl]

theorem strip_short (h : cs.length ≤ 2) : strip cs = cs := by
  unfold strip
  split
  · simp only [List.length_cons] at h
    omega
  · rfl

theorem strip_esc_short (h : cs.length ≤ 1) : strip (esc :: cs) = esc :: strip cs := by
  rw [strip_short (by rw [List.length_cons]; omega), strip_short (by omega)]

/-- Where no escape sequence crosses the cut, the pieces can be stripped alone. -/
theorem strip_append (h : ¬Completes q cs) : strip (q ++ cs) = strip q ++ strip cs := by
  unfold Completes at h
  fun_induction unfinished q with
  | case1 c₁ c₂ q ih =>
    rw [List.cons_append, List.cons_append, List.cons_append, strip_esc, strip_esc]
    exact ih h
  | case2 c c₁ c₂ q hc ih =>
    rw [List.cons_append, strip_cons hc, strip_cons hc, List.cons_append]
    exact congrArg _ (ih h)
  | case3 c₁ =>
    have hnil : cs = [] := List.eq_nil_of_length_eq_zero (by omega)
    rw [hnil, List.append_nil]
    exact (List.append_nil _).symm
  | case4 c hc =>
    have hshort : cs.length ≤ 1 := by omega
    rw [List.cons_append, strip_cons hc, strip_cons hc, List.cons_append, List.nil_append,
      strip_esc_short hshort]
    rfl
  | case5 c c₁ hc hc₁ =>
    rw [List.cons_append, List.cons_append, strip_cons hc, strip_cons hc₁, strip_cons hc,
      strip_cons hc₁]
    rfl
  | case6 =>
    have hshort : cs.length ≤ 1 := by omega
    rw [List.cons_append, List.nil_append, strip_esc_short hshort]
    rfl
  | case7 c hc =>
    rw [List.cons_append, strip_cons hc, strip_cons hc]
    rfl
  | case8 => rfl

/-- The ring holds the bytes, and the byte behind the ring is still zero. -/
structure Holding (b : Buffer) (q : List UInt8) : Prop extends Queues b q where
  slack : b.pBuffer b.ulMaxSize.toNat = 0

theorem pushBack_pBuffer (b : Buffer) (d : List UInt8) :
    (b.pushBack d).pBuffer = ((b.discard (.ofNat d.length)).copyIn d).pBuffer := rfl

theorem push_holding (h : Holding b q) (hfits : q.length + 1 < b.ulMaxSize.toNat) (c : UInt8) :
    Holding (b.pushBack [c]) (q ++ [c]) ∧ (b.pushBack [c]).ulMaxSize = b.ulMaxSize := by
  obtain ⟨hM, hE, hP, -⟩ := discard_frame b (.ofNat [c].length)
  have hsize : (b.pushBack [c]).ulMaxSize = b.ulMaxSize := act_ulMaxSize b (.pushBack [c])
  have hqueues := pushBack_queues (d := [c]) h.toQueues (by
    rw [List.length_singleton]
    omega)
  have hexcess : excess b q [c].length = 0 := by
    rw [excess, List.length_singleton]
    omega
  rw [hexcess, List.drop_zero] at hqueues
  have hcopy := copyIn_eq (b := b.discard (.ofNat [c].length)) (d := [c])
    (by rw [hM, hE]; exact h.last) (by rw [hM, List.length_singleton]; omega)
  refine ⟨⟨hqueues, ?_⟩, hsize⟩
  rw [hsize, pushBack_pBuffer, hcopy.1, hM, hE, hP,
    Circular.writeWrapped_beyond h.last.le _ le_rfl, h.slack]
  rw [List.length_singleton]
  omega

/-- A chunk that the ring has room for adds its bytes outside whole escape sequences. -/
theorem pushChunk_holding (h : Holding b q) (cs : List UInt8)
    (hfits : q.length + (strip cs).length < b.ulMaxSize.toNat) :
    Holding (pushChunk b cs) (q ++ strip cs) ∧ (pushChunk b cs).ulMaxSize = b.ulMaxSize := by
  fun_induction pushChunk b cs generalizing q with
  | case1 b c₁ c₂ cs ih =>
    rw [strip_esc] at hfits ⊢
    exact ih h hfits
  | case2 b c c₁ c₂ cs hc ih =>
    rw [strip_cons hc, List.length_cons] at hfits
    obtain ⟨hpush, hsize⟩ := push_holding h (by omega) c
    obtain ⟨hrest, hsize'⟩ := ih hpush (by
      rw [hsize, List.length_append, List.length_singleton]
      omega)
    rw [strip_cons hc, List.append_cons]
    exact ⟨hrest, hsize'.trans hsize⟩
  | case3 b c c₁ =>
    rw [strip_short (by simp)] at hfits ⊢
    simp only [List.length_cons, List.length_nil] at hfits
    obtain ⟨hpush, hsize⟩ := push_holding h (by omega) c
    obtain ⟨hrest, hsize'⟩ := push_holding hpush (by
      rw [hsize, List.length_append, List.length_singleton]
      omega) c₁
    rw [List.append_cons]
    exact ⟨hrest, hsize'.trans hsize⟩
  | case4 b c =>
    rw [strip_short (by simp)] at hfits ⊢
    exact push_holding h hfits c
  | case5 b =>
    rw [strip_short (by simp), List.append_nil]
    exact ⟨h, rfl⟩

theorem first_ne_last (h : Queues b (c :: q)) : b.ulFirst ≠ b.ulLast := by
  intro he
  exact List.cons_ne_nil _ _ (nil_of_first_eq_last h he)

/-- The front byte, except that an index past the ring's last byte finds a zero. -/
theorem getFirst_holding (h : Holding b (c :: q)) : b.getFirst =
    (.ok, some (if b.ulFirst = b.ulMaxSize then 0 else c), b.touch b.ulFirst.toNat 1) := by
  have hlen : b.ulDataLen ≠ 0 := by
    intro hz
    have hcount := h.len
    rw [hz] at hcount
    simp at hcount
  rw [getFirst, if_neg hlen]
  split
  · rename_i hend
    rw [hend, h.slack]
  · rename_i hend
    have hlt : b.ulFirst.toNat < b.ulMaxSize.toNat :=
      Nat.lt_of_le_of_ne h.first (fun he => hend (UInt32.toNat_inj.mp he))
    have hcell := h.cells 0 (by simp)
    rw [Nat.add_zero, Nat.mod_eq_of_lt hlt, List.getElem?_cons_zero] at hcell
    rw [← hcell]

/-- One byte is popped; the front index goes round only when it is past the ring's end. -/
theorem pop_holding (h : Holding b (c :: q)) :
    (b.popFront 1).1 = [c] ∧ Holding (b.popFront 1).2 q ∧
      (b.popFront 1).2.ulMaxSize = b.ulMaxSize ∧
      (b.popFront 1).2.ulFirst.toNat =
        if b.ulFirst = b.ulMaxSize then 1 else b.ulFirst.toNat + 1 := by
  obtain ⟨hbyte, hrest, -⟩ := popFront_queues h.toQueues 1
  obtain ⟨hsize, hcells⟩ := popFront_frame b 1
  refine ⟨hbyte, ⟨hrest, ?_⟩, hsize, ?_⟩
  · rw [hsize, hcells, h.slack]
  · have hone : ¬b.ulDataLen < 1 := by
      rw [UInt32.lt_iff_toNat_lt, h.len, List.length_cons, UInt32.toNat_one]
      omega
    have hfirst := h.first
    have hmin := h.min
    have hmax := h.max
    have hsum : (b.ulFirst + 1).toNat = b.ulFirst.toNat + 1 :=
      toNat_add_of_lt (y := 1) (by rw [UInt32.toNat_one]; unfold limit at *; omega)
    have hgt : b.ulFirst + 1 > b.ulMaxSize ↔ b.ulFirst = b.ulMaxSize := by
      rw [gt_iff_lt, UInt32.lt_iff_toNat_lt, hsum, ← UInt32.toNat_inj]
      omega
    rw [popFront, if_neg (first_ne_last h.toQueues)]
    simp only [if_neg hone, hgt]
    split
    · rename_i hend
      rw [hend, UInt32.sub_self]
      rfl
    · exact hsum

/-- The same behind `getFirst`, which may have touched the byte behind the ring. -/
theorem take_holding (h : Holding b (c :: q)) :
    ∃ b', (b.touch b.ulFirst.toNat 1).popFront 1 = ([c], b') ∧ Holding b' q ∧
      b'.ulMaxSize = b.ulMaxSize ∧
      b'.ulFirst.toNat = if b.ulFirst = b.ulMaxSize then 1 else b.ulFirst.toNat + 1 := by
  have htouch : Holding (b.touch b.ulFirst.toNat 1) (c :: q) :=
    ⟨touch_queues h.toQueues _ _, h.slack⟩
  obtain ⟨hbyte, hrest, hsize, hfirst⟩ := pop_holding htouch
  exact ⟨_, Prod.ext hbyte rfl, hrest, hsize, hfirst⟩

/-- What a reader is given of the bytes it takes. -/
def visible (q : List UInt8) : List UInt8 := q.filter (fun c => c ≠ lf ∧ c ≠ cr)

theorem visible_cr (q : List UInt8) : visible (cr :: q) = visible q := rfl

theorem visible_cons (hlf : c ≠ lf) (hcr : c ≠ cr) : visible (c :: q) = c :: visible q := by
  have hseen : decide (c ≠ lf ∧ c ≠ cr) = true := decide_eq_true ⟨hlf, hcr⟩
  rw [visible, List.filter_cons, if_pos hseen, visible]

theorem visible_append (q cs : List UInt8) : visible (q ++ cs) = visible q ++ visible cs :=
  List.filter_append ..

/-- The bytes that a call for at most `n` takes: none behind a line feed. -/
def line : Nat → List UInt8 → List UInt8
  | n + 1, c :: q => if c = lf then [c] else c :: line n q
  | _, _ => []

theorem line_nil (n : Nat) : line n [] = [] := by
  cases n <;> rfl

theorem line_length_le (n : Nat) (q : List UInt8) : (line n q).length ≤ q.length := by
  fun_induction line n q with
  | case1 n q => exact Nat.le_add_left 1 q.length
  | case2 n c q hc ih => exact Nat.succ_le_succ ih
  | case3 n q h => exact Nat.zero_le _

theorem line_append (n : Nat) (q : List UInt8) :
    line n q ++ q.drop (line n q).length = q := by
  fun_induction line n q with
  | case1 n q => rfl
  | case2 n c q hc ih => exact congrArg _ ih
  | case3 n q h => rfl

theorem lf_ends_line (n : Nat) (q : List UInt8) : lf ∉ (line n q).dropLast := by
  fun_induction line n q with
  | case1 n q => exact List.not_mem_nil
  | case2 n c q hc ih =>
    cases hl : line n q with
    | nil => exact List.not_mem_nil
    | cons c₁ cs =>
      rw [hl] at ih
      rw [List.dropLast_cons_cons, List.mem_cons, not_or]
      exact ⟨Ne.symm hc, ih⟩
  | case3 n q h => exact List.not_mem_nil

theorem line_min (n : Nat) (q : List UInt8) : line (min q.length n) q = line n q := by
  fun_induction line n q with
  | case1 n q => rw [List.length_cons, Nat.add_min_add_right, line, if_pos rfl]
  | case2 n c q hc ih =>
    rw [List.length_cons, Nat.add_min_add_right, line, if_neg hc, ih]
  | case3 n q h =>
    cases q with
    | nil => rw [line_nil]
    | cons c q =>
      cases n with
      | zero => rw [Nat.min_zero]; rfl
      | succ n => exact absurd rfl (h n c q rfl)

/-- The call takes a line feed or a carriage return from the offset `k`. -/
def TakesBreak (q : List UInt8) (n k : Nat) : Prop :=
  (line n q)[k]? = some lf ∨ (line n q)[k]? = some cr

theorem takes_zero : TakesBreak (c :: q) (n + 1) 0 ↔ c = lf ∨ c = cr := by
  have hhead : (line (n + 1) (c :: q))[0]? = some c := by
    rw [line]
    split <;> rfl
  rw [TakesBreak, hhead, Option.some_inj, Option.some_inj]

/-- The line ends with its line feed, so a break behind the first byte lets that be none. -/
theorem head_ne_lf {k : Nat} (hk : TakesBreak (c :: q) (n + 1) k) (hpos : 0 < k) : c ≠ lf := by
  intro hc
  have hnone : (line (n + 1) (c :: q))[k]? = none := by
    rw [line, if_pos hc]
    apply List.getElem?_eq_none
    rw [List.length_singleton]
    exact hpos
  simp [TakesBreak, hnone] at hk

/-- The byte that `read` looks at breaks the line like the one it pops, unless that is at
the ring's end. -/
theorem looked_at (hk : ¬TakesBreak (c :: q) (n + 1) (b.ulMaxSize.toNat - b.ulFirst.toNat)) :
    ((if b.ulFirst = b.ulMaxSize then 0 else c) = lf ↔ c = lf) ∧
      ((if b.ulFirst = b.ulMaxSize then 0 else c) = cr ↔ c = cr) := by
  split
  · rename_i hend
    rw [hend, Nat.sub_self, takes_zero, not_or] at hk
    obtain ⟨hlf, hcr⟩ := hk
    exact ⟨⟨fun h => absurd h (by decide), fun h => absurd h hlf⟩,
      ⟨fun h => absurd h (by decide), fun h => absurd h hcr⟩⟩
  · exact ⟨Iff.rfl, Iff.rfl⟩

theorem far_takes {k : Nat} (hk : q.length ≤ k) : ¬TakesBreak q n k := by
  have hlen := line_length_le n q
  have hnone : (line n q)[k]? = none := List.getElem?_eq_none (by omega)
  simp [TakesBreak, hnone]

/-- Behind the first byte, the ring's end is one byte nearer. -/
theorem next_takes (h : Queues b (c :: q)) (hend : b.ulFirst ≠ b.ulMaxSize) (hc : c ≠ lf) :
    TakesBreak (c :: q) (n + 1) (b.ulMaxSize.toNat - b.ulFirst.toNat) ↔
      TakesBreak q n (b.ulMaxSize.toNat - (b.ulFirst.toNat + 1)) := by
  have hfirst := h.first
  have hne : b.ulFirst.toNat ≠ b.ulMaxSize.toNat := fun he => hend (UInt32.toNat_inj.mp he)
  have hnext : b.ulMaxSize.toNat - b.ulFirst.toNat =
      b.ulMaxSize.toNat - (b.ulFirst.toNat + 1) + 1 := by omega
  rw [hnext, TakesBreak, line, if_neg hc, List.getElem?_cons_succ, TakesBreak]

theorem readLoop_holding (h : Holding b q) (hn : n ≤ q.length)
    (hk : ¬TakesBreak q n (b.ulMaxSize.toNat - b.ulFirst.toNat)) :
    ∃ b', readLoop n b = (.ok, visible (line n q), b') ∧
      Holding b' (q.drop (line n q).length) ∧ b'.ulMaxSize = b.ulMaxSize := by
  induction n generalizing b q with
  | zero => exact ⟨b, rfl, h, rfl⟩
  | succ n ih =>
    obtain ⟨c, q, rfl⟩ := List.exists_cons_of_length_pos (Nat.lt_of_lt_of_le n.succ_pos hn)
    obtain ⟨hlf, hcr⟩ := looked_at hk
    obtain ⟨b₁, hpop, hrest, hsize, hfirst⟩ := take_holding h
    simp only [readLoop, getFirst_holding h, hpop, hlf, hcr]
    by_cases hc : c = lf
    · refine ⟨b₁, ?_, ?_, hsize⟩
      · rw [if_pos hc, line, if_pos hc, hc]
        rfl
      · rw [line, if_pos hc]
        exact hrest
    · have hnext : ¬TakesBreak q n (b₁.ulMaxSize.toNat - b₁.ulFirst.toNat) := by
        rw [hsize, hfirst]
        split
        · have hroom := h.room
          rw [List.length_cons] at hroom
          exact far_takes (by omega)
        · rename_i hend
          rwa [← next_takes h.toQueues hend hc]
      obtain ⟨b', hloop, hheld, hsame⟩ := ih hrest (Nat.le_of_succ_le_succ hn) hnext
      rw [line, if_neg hc, if_neg hc, hloop]
      refine ⟨b', ?_, hheld, hsame.trans hsize⟩
      by_cases hret : c = cr
      · rw [if_pos hret, hret, visible_cr]
      · rw [if_neg hret, visible_cons hc hret]
        rfl

/-- A line break that is taken from the ring's first byte in going round is returned. -/
theorem readLoop_taken (h : Holding b q) (hn : n ≤ q.length)
    (hk : TakesBreak q n (b.ulMaxSize.toNat - b.ulFirst.toNat)) :
    ∃ bytes b' q', readLoop n b = (.ok, bytes, b') ∧ Holding b' q' ∧
      bytes.length + (visible q').length = (visible q).length + 1 := by
  induction n generalizing b q with
  | zero => simp [TakesBreak, line] at hk
  | succ n ih =>
    obtain ⟨c, q, rfl⟩ := List.exists_cons_of_length_pos (Nat.lt_of_lt_of_le n.succ_pos hn)
    obtain ⟨b₁, hpop, hrest, hsize, hfirst⟩ := take_holding h
    simp only [readLoop, getFirst_holding h, hpop]
    by_cases hend : b.ulFirst = b.ulMaxSize
    · rw [hend, Nat.sub_self, takes_zero] at hk
      have hskip : visible (c :: q) = visible q := by
        cases hk with
        | inl hlf => rw [hlf]; rfl
        | inr hcr => rw [hcr]; rfl
      have hroom := h.room
      rw [List.length_cons] at hroom
      rw [if_pos hend] at hfirst
      have hfar : ¬TakesBreak q n (b₁.ulMaxSize.toNat - b₁.ulFirst.toNat) := by
        rw [hsize, hfirst]
        exact far_takes (by omega)
      obtain ⟨b', hloop, hheld, -⟩ := readLoop_holding hrest (Nat.le_of_succ_le_succ hn) hfar
      rw [if_pos hend, if_neg (by decide), if_neg (by decide), hloop]
      refine ⟨[c] ++ visible (line n q), b', _, rfl, hheld, ?_⟩
      have hsplit := congrArg (fun cs => (visible cs).length) (line_append n q)
      simp only [visible_append, List.length_append] at hsplit
      rw [hskip, List.length_append, List.length_singleton]
      omega
    · have hlf : c ≠ lf := by
        have hfirst := h.first
        have hne : b.ulFirst.toNat ≠ b.ulMaxSize.toNat := fun he => hend (UInt32.toNat_inj.mp he)
        exact head_ne_lf hk (by omega)
      rw [next_takes h.toQueues hend hlf] at hk
      rw [if_neg hend] at hfirst
      rw [← hsize, ← hfirst] at hk
      obtain ⟨bytes, b', q', hloop, hheld, hcount⟩ := ih hrest (Nat.le_of_succ_le_succ hn) hk
      rw [if_neg hend, if_neg hlf, hloop]
      by_cases hret : c = cr
      · rw [if_pos hret]
        refine ⟨bytes, b', q', rfl, hheld, ?_⟩
        rw [hret, visible_cr, hcount]
      · rw [if_neg hret]
        refine ⟨[c] ++ bytes, b', q', rfl, hheld, ?_⟩
        rw [visible_cons hlf hret, List.length_append, List.length_singleton, List.length_cons]
        omega

/-- The bytes that the ring holds. -/
def held (b : Buffer) : List UInt8 :=
  Circular.readWrapped b.ulMaxSize.toNat b.pBuffer b.ulFirst.toNat b.ulDataLen.toNat

theorem held_eq (h : Queues b q) : held b = q := by
  rw [held, h.len, Circular.readWrapped_eq h.cells h.first h.room.le le_rfl, List.take_length]

/-- A call on an open channel is its loop, also on an empty ring. -/
theorem read_eq {ch : SshChannel} {ulBufferSize : UInt32} {bytes : List UInt8} {b' : Buffer}
    (hopen : ch.pChannel = true) (h : Holding ch.pBuffer q)
    (hloop : readLoop (min q.length ulBufferSize.toNat) ch.pBuffer = (.ok, bytes, b')) :
    ch.read ulBufferSize = (.ok, bytes, { ch with pBuffer := b' }) := by
  rw [SshChannel.read, if_neg (by rw [hopen]; decide)]
  by_cases hempty : ch.pBuffer.ulDataLen = 0
  · have hnil : q.length = 0 := by
      rw [← h.len, hempty]
      rfl
    rw [hnil, Nat.zero_min] at hloop
    obtain ⟨rfl, rfl⟩ := Prod.mk.inj (Prod.mk.inj hloop).2
    exact if_pos hempty
  · simp only [getSize, if_neg hempty, h.len, hloop]
    rfl

inductive ChannelOp
  | receive (chunk : List UInt8)
  | read (ulBufferSize : UInt32)

/-- `sent` and `outs` record the stream so far and what each call returned. -/
structure Session where
  channel : SshChannel
  sent : List UInt8
  outs : List (List UInt8)

def start : Session := ⟨create, [], []⟩

def step (s : Session) : ChannelOp → Session
  | .receive chunk =>
    { s with channel := s.channel.threadMain chunk, sent := s.sent ++ chunk }
  | .read ulBufferSize =>
    { s with
      channel := (s.channel.read ulBufferSize).2.2
      outs := s.outs ++ [(s.channel.read ulBufferSize).2.1] }

/-- The chunk leaves the receive buffer within its capacity. -/
def Fits (s : Session) : ChannelOp → Prop
  | .receive chunk =>
    s.channel.pBuffer.ulDataLen.toNat + (strip chunk).length < s.channel.pBuffer.ulMaxSize.toNat
  | .read _ => True

/-- No escape sequence crosses into the chunk, and no call takes a line break from the
ring's first byte in going round. -/
def Clean (s : Session) : ChannelOp → Prop
  | .receive chunk => ¬Completes s.sent chunk
  | .read ulBufferSize => ¬TakesBreak (held s.channel.pBuffer) ulBufferSize.toNat
      (s.channel.pBuffer.ulMaxSize.toNat - s.channel.pBuffer.ulFirst.toNat)

/-- The calls took the stripped stream piece by piece up to what is still held, none beyond
a line feed, and returned what is visible of it. -/
structure Delivered (s : Session) (pieces : List (List UInt8)) : Prop where
  whole : pieces.flatten ++ held s.channel.pBuffer = strip s.sent
  shown : s.outs = pieces.map visible
  lines : ∀ piece ∈ pieces, lf ∉ piece.dropLast

/-- The output is the visible stripped stream up to what is still held. -/
theorem Delivered.output {s : Session} {pieces : List (List UInt8)} (h : Delivered s pieces) :
    s.outs.flatten ++ visible (held s.channel.pBuffer) = visible (strip s.sent) := by
  have hflat : (pieces.map visible).flatten = visible pieces.flatten :=
    (List.filter_flatten ..).symm
  rw [h.shown, hflat, ← visible_append, h.whole]

structure Inv (s : Session) : Prop where
  opened : s.channel.pChannel = true
  holding : Holding s.channel.pBuffer (held s.channel.pBuffer)
  delivered : ∃ pieces, Delivered s pieces

theorem inv_start : Inv start where
  opened := rfl
  holding := ⟨create_queues (by decide) (by decide), rfl⟩
  delivered := ⟨[], rfl, rfl, by simp⟩

theorem inv_step {s : Session} {op : ChannelOp} (h : Inv s) (hop : Fits s op ∧ Clean s op) :
    Inv (step s op) := by
  obtain ⟨hopen, hhold, pieces, hwhole, hshown, hlines⟩ := h
  obtain ⟨hfits, hclean⟩ := hop
  cases op with
  | receive chunk =>
    have hfits' : (held s.channel.pBuffer).length + (strip chunk).length <
        s.channel.pBuffer.ulMaxSize.toNat := by
      rw [← hhold.len]
      exact hfits
    obtain ⟨hpush, -⟩ := pushChunk_holding hhold chunk hfits'
    have hheld : held (pushChunk s.channel.pBuffer chunk) = held s.channel.pBuffer ++ strip chunk :=
      held_eq hpush.toQueues
    refine ⟨hopen, ?_, pieces, ?_, hshown, hlines⟩
    · change Holding (pushChunk s.channel.pBuffer chunk) (held (pushChunk s.channel.pBuffer chunk))
      rwa [hheld]
    · change pieces.flatten ++ held (pushChunk s.channel.pBuffer chunk) = strip (s.sent ++ chunk)
      rw [hheld, strip_append hclean, ← hwhole, List.append_assoc]
  | read ulBufferSize =>
    rw [Clean, TakesBreak, ← line_min] at hclean
    obtain ⟨b', hloop, hnext, -⟩ := readLoop_holding hhold (Nat.min_le_left _ _) hclean
    rw [line_min] at hloop hnext
    have hread := read_eq hopen hhold hloop
    have hheld := held_eq hnext.toQueues
    have hstep : step s (.read ulBufferSize) =
        { s with
          channel := { s.channel with pBuffer := b' }
          outs := s.outs ++ [visible (line ulBufferSize.toNat (held s.channel.pBuffer))] } := by
      rw [step, hread]
    rw [hstep]
    refine ⟨hopen, ?_, pieces ++ [line ulBufferSize.toNat (held s.channel.pBuffer)], ?_, ?_, ?_⟩
    · change Holding b' (held b')
      rwa [hheld]
    · change _ ++ held b' = strip s.sent
      rw [hheld, List.flatten_append, List.flatten_singleton, List.append_assoc, line_append,
        hwhole]
    · rw [List.map_append, ← hshown, List.map_singleton]
    · intro piece hp
      rcases List.mem_append.mp hp with hp | hp
      · exact hlines piece hp
      · rw [List.mem_singleton.mp hp]
        exact lf_ends_line _ _

/-- A call that takes a line break in going round returns a byte too many. -/
theorem break_returned {s : Session} {ulBufferSize : UInt32} (h : Inv s)
    (hbreak : ¬Clean s (.read ulBufferSize)) :
    ¬∃ pieces, Delivered (step s (.read ulBufferSize)) pieces := by
  obtain ⟨hopen, hhold, pieces, hbefore⟩ := h
  rw [Clean, not_not, TakesBreak, ← line_min] at hbreak
  obtain ⟨bytes, b', q', hloop, hnext, hcount⟩ :=
    readLoop_taken hhold (Nat.min_le_left _ _) hbreak
  have hread := read_eq hopen hhold hloop
  have hheld := held_eq hnext.toQueues
  intro hdelivered
  obtain ⟨pieces', hafter⟩ := hdelivered
  have hold := congrArg List.length hbefore.output
  have hnew := congrArg List.length hafter.output
  simp only [step, hread, hheld, List.flatten_append, List.flatten_singleton,
    List.length_append] at hold hnew
  omega

/-- In every run whose chunks fit, in which no escape sequence crosses a cut and no line
break is met in going round, the calls return the visible stripped stream, line by line. -/
theorem output_is_stream (ops : List ChannelOp)
    (h : Admitted step (fun s op => Fits s op ∧ Clean s op) start ops) :
    ∀ s ∈ states step start ops, (∃ pieces, Delivered s pieces) ∧
      (s.channel.pBuffer.getSize = 0 → s.outs.flatten = visible (strip s.sent)) := by
  intro s hs
  have hinv := states_inv_of_admitted (fun _ _ => inv_step) inv_start h s hs
  obtain ⟨pieces, hd⟩ := hinv.delivered
  refine ⟨⟨pieces, hd⟩, fun hempty => ?_⟩
  have hnil : held s.channel.pBuffer = [] := by
    apply List.eq_nil_of_length_eq_zero
    rw [← hinv.holding.len]
    exact congrArg UInt32.toNat hempty
  have hout := hd.output
  rw [hnil] at hout
  exact (List.append_nil _).symm.trans hout

instance (sent chunk : List UInt8) : Decidable (Completes sent chunk) :=
  inferInstanceAs (Decidable (_ ∧ _))

instance (q : List UInt8) (n k : Nat) : Decidable (TakesBreak q n k) :=
  inferInstanceAs (Decidable (_ ∨ _))

instance : ∀ s op, Decidable (Fits s op)
  | _, .receive _ => inferInstanceAs (Decidable (_ < _))
  | _, .read _ => .isTrue trivial

instance : ∀ s op, Decidable (Clean s op)
  | _, .receive _ => inferInstanceAs (Decidable (¬_))
  | _, .read _ => inferInstanceAs (Decidable (¬_))

/-- `ab`, CR, LF and a clear-line sequence, cut behind the CR. -/
def prompt : List ChannelOp :=
  [.receive [0x61, 0x62, 0x0D], .read 1, .receive [0x0A, 0x1B, 0x5B, 0x4B], .read 16, .read 16]

theorem prompt_shown : (prompt.foldl step start).outs.flatten = [0x61, 0x62] :=
  (output_is_stream prompt (by decide) _ (foldl_mem_states _ (List.cons_ne_nil _ _))).2 rfl

/-- The same sequence, cut behind its second byte. -/
def cutEscape : List ChannelOp := [.receive [0x1B, 0x5B], .receive [0x4B], .read 16]

theorem cut_escape_shown : Admitted step Fits start cutEscape ∧
    strip (cutEscape.foldl step start).sent = [] ∧
    (cutEscape.foldl step start).outs = [[0x1B, 0x5B, 0x4B]] ∧
    ¬∃ pieces, Delivered (cutEscape.foldl step start) pieces := by
  have houts : (cutEscape.foldl step start).outs = [[0x1B, 0x5B, 0x4B]] := by decide
  refine ⟨by decide, rfl, houts, ?_⟩
  intro h
  obtain ⟨pieces, h⟩ := h
  have hout := h.output
  rw [houts] at hout
  exact List.cons_ne_nil _ _ hout

end Catchb.Proofs.Stream
