import Catchb.Proofs.Stream
import Catchb.SetAC

/-! The lines that a telnet client's reader gets of what its thread receives. -/

namespace Catchb.Proofs.TelnetLines
open Lib Buffer
open SshChannel (lf esc)
open Fifo (Queues popFront_queues pushBack_queues getAt_queues create_queues excess)
open Catchb.Proofs.Stream (line held held_eq)

variable {b : Buffer} {q : List UInt8} {m : Nat}

/-- The line feeds at the front. -/
def leading (q : List UInt8) : Nat := (q.takeWhile (· = lf)).length

/-- How many bytes a call may take: none where half of what there is are line feeds at its front. -/
def room (q : List UInt8) (ulBufferSize : Nat) : Nat :=
  if 2 * leading q < q.length then min (q.length - leading q) ulBufferSize else 0

/-- What a call returns of the bytes that it takes. -/
def shown (piece : List UInt8) : List UInt8 := piece.takeWhile fun c => c ≠ lf ∧ c ≠ esc

theorem shown_cons {c : UInt8} (hlf : c ≠ lf) (hesc : c ≠ esc) (piece : List UInt8) :
    shown (c :: piece) = c :: shown piece := by
  simp [shown, hlf, hesc]

/-- The bytes up to a line feed are taken. -/
theorem take_queues (h : Queues b q) (hm : m ≤ q.length) (nData : UInt8) (ulSkip : Nat) :
    (TelnetClient.take m nData ulSkip b).1 = (if ulSkip = 0 then shown (line m q) else []) ∧
      Queues (TelnetClient.take m nData ulSkip b).2 (q.drop (line m q).length) := by
  induction m generalizing b q nData ulSkip with
  | zero => exact ⟨by simp [TelnetClient.take, line, shown], h⟩
  | succ m ih =>
    cases q with
    | nil => exact absurd hm (Nat.not_succ_le_zero m)
    | cons c q =>
      obtain ⟨hbyte, hrest, -⟩ := popFront_queues h 1
      have hm' : m ≤ q.length := Nat.le_of_succ_le_succ hm
      simp only [TelnetClient.take, hbyte, line]
      rw [show ((c :: q).take (1 : UInt32).toNat).headD nData = c from rfl]
      replace hrest : Queues (b.popFront 1).2 q := hrest
      by_cases hlf : c = lf
      · simp only [hlf, ↓reduceIte]
        exact ⟨by simp [shown], hrest⟩
      · simp only [hlf, ↓reduceIte]
        by_cases hesc : c = esc
        · obtain ⟨hbytes, hleft⟩ := ih hrest hm' c 2
          simp only [hesc, ↓reduceIte] at hbytes ⊢
          have hnone : shown (esc :: line m q) = [] := by simp [shown]
          rw [hbytes, hnone]
          exact ⟨by simp, hesc ▸ hleft⟩
        · obtain ⟨hbytes, hleft⟩ := ih hrest hm' c ulSkip
          simp only [hesc, ↓reduceIte, hbytes]
          refine ⟨?_, hleft⟩
          split
          · rw [shown_cons hlf hesc]
          · rfl

theorem leading_get {i : Nat} (h : i < leading q) : q[i]? = some lf := by
  have hmem := List.takeWhile_prefix (p := fun c => decide (c = lf)) (l := q)
  obtain ⟨rest, hrest⟩ := hmem
  rw [← hrest, List.getElem?_append_left h, List.getElem?_eq_getElem h]
  have hall := List.mem_takeWhile_imp (List.getElem_mem h)
  rw [of_decide_eq_true hall]

theorem leading_end (h : leading q < q.length) : ∃ c, q[leading q]? = some c ∧ c ≠ lf := by
  have hsplit := List.takeWhile_append_dropWhile (p := fun c => decide (c = lf)) (l := q)
  cases hrest : q.dropWhile (fun c => decide (c = lf)) with
  | nil =>
    rw [hrest, List.append_nil] at hsplit
    rw [leading, hsplit] at h
    exact absurd h (Nat.lt_irrefl _)
  | cons c rest =>
    have hne := List.head_dropWhile_not (fun c => decide (c = lf)) (l := q) (by simp [hrest])
    simp only [hrest, List.head_cons, decide_eq_false_iff_not] at hne
    have hget : ((q.takeWhile fun c => decide (c = lf)) ++ c :: rest)[leading q]? = some c := by
      rw [leading, List.getElem?_append_right (Nat.le_refl _), Nat.sub_self]
      rfl
    rw [← hrest, hsplit] at hget
    exact ⟨c, hget, hne⟩

/-- The search goes on while there are more bytes than line feeds so far, of which each takes one
from the bytes. -/
theorem seek_queues (h : Queues b q) {n j : Nat} {i ulRcvdLen : UInt32} (hi : i.toNat = j)
    (hlen : ulRcvdLen.toNat = q.length - j) (hj : j ≤ leading q) (hn : q.length ≤ n + j)
    (hmax : q.length < Fifo.limit) :
    ∃ b', Queues b' q ∧
      if 2 * leading q < q.length then
        ∃ len nData, TelnetClient.seek n i ulRcvdLen b = (.ok, some (len, nData), b') ∧
          len.toNat = q.length - leading q
      else TelnetClient.seek n i ulRcvdLen b = (.ok, none, b') := by
  have hle : leading q ≤ q.length := (List.takeWhile_prefix _).length_le
  induction n generalizing b j i ulRcvdLen with
  | zero =>
    refine ⟨b, h, ?_⟩
    rw [if_neg (by omega)]
    rfl
  | succ n ih =>
    have hlt : i < ulRcvdLen ↔ 2 * j < q.length := by
      rw [UInt32.lt_iff_toNat_lt, hi, hlen]
      omega
    simp only [TelnetClient.seek, hlt]
    by_cases hmore : 2 * j < q.length
    · obtain ⟨hok, hbyte, hqueues, -⟩ := getAt_queues h i
      rw [hi] at hok hbyte
      rw [if_pos (by omega)] at hok
      generalize b.getAt i = r at hok hbyte hqueues
      obtain ⟨xRet, found, b₁⟩ := r
      simp only at hok hbyte hqueues
      subst hok
      rw [if_pos hmore]
      by_cases hfront : j < leading q
      · rw [leading_get hfront] at hbyte
        subst hbyte
        have hone : ((1 : UInt32)).toNat = 1 := rfl
        have hnext : (i + 1).toNat = j + 1 := by
          unfold Fifo.limit at hmax
          rw [UInt32.toNat_add, hi, hone]
          exact Nat.mod_eq_of_lt (by omega)
        have hless : (ulRcvdLen - 1).toNat = q.length - (j + 1) := by
          rw [Fifo.toNat_sub_of_le' (by rw [hone, hlen]; omega), hlen, hone]
          omega
        simpa using ih hqueues hnext hless hfront (by omega)
      · obtain rfl : j = leading q := by omega
        obtain ⟨c, hc, hne⟩ := leading_end (q := q) (by omega)
        rw [hc] at hbyte
        subst hbyte
        refine ⟨b₁, hqueues, ?_⟩
        rw [if_pos hmore]
        exact ⟨ulRcvdLen, c, by simp [hne], hlen⟩
    · rw [if_neg hmore]
      refine ⟨b, h, ?_⟩
      rw [if_neg (by omega)]

/-- A call takes the next line, as far as it has room, and returns what it shows. -/
theorem readline_queues {pClient : TelnetClient} (h : Queues pClient.pBuffer q)
    (hopen : pClient.pHandler = true) (ulBufferSize : UInt32) :
    let piece := line (room q ulBufferSize.toNat) q
    (pClient.readline ulBufferSize).1 = .ok ∧
      (pClient.readline ulBufferSize).2.1 = shown piece ∧
      (pClient.readline ulBufferSize).2.2.pHandler = true ∧
      Queues (pClient.readline ulBufferSize).2.2.pBuffer (q.drop piece.length) := by
  have hlen : pClient.pBuffer.getSize.toNat = q.length := h.len
  have hmax : q.length < Fifo.limit := Nat.lt_of_lt_of_le h.room h.max
  simp only [TelnetClient.readline, hopen, Bool.not_true, Bool.false_eq_true, ↓reduceIte]
  by_cases hempty : pClient.pBuffer.getSize = 0
  · have hnil : q = [] := by
      apply List.eq_nil_of_length_eq_zero
      rw [← hlen, hempty]
      rfl
    subst hnil
    simp only [hempty, ↓reduceIte]
    exact ⟨trivial, by simp [room, line, shown], hopen, by simpa [room, line] using h⟩
  · simp only [hempty, ↓reduceIte]
    obtain ⟨b', hqueues, hseek⟩ := seek_queues h (i := 0) (j := 0) (n := q.length) rfl
      (hlen.trans (Nat.sub_zero _).symm) (Nat.zero_le _) (Nat.le_add_right _ _) hmax
    rw [← hlen] at hseek
    by_cases hsome : 2 * leading q < q.length
    · rw [if_pos (hlen ▸ hsome)] at hseek
      obtain ⟨len, nData, hseek, hcount⟩ := hseek
      have hroom : room q ulBufferSize.toNat = min len.toNat ulBufferSize.toNat := by
        rw [room, if_pos hsome, hcount, hlen]
      obtain ⟨hbytes, hleft⟩ := take_queues hqueues (m := room q ulBufferSize.toNat) (by
        rw [room, if_pos hsome]
        omega) nData 0
      rw [hroom] at hbytes hleft ⊢
      simp only [hseek]
      exact ⟨trivial, hbytes, trivial, hleft⟩
    · rw [if_neg (hlen ▸ hsome)] at hseek
      simp only [hseek, room, if_neg hsome]
      exact ⟨trivial, by simp [line, shown], trivial, hqueues⟩

/-- What the thread puts into the buffer, and a call of the reader. -/
inductive LineOp
  | receive (pData : {d : List UInt8 // d.length ≤ 512})
  | readline (ulBufferSize : UInt32)

/-- `sent` and `outs` record the data so far and what each call returned. -/
structure Lines where
  client : TelnetClient
  sent : List UInt8
  outs : List (List UInt8)

def opened : Lines := ⟨⟨true, .create 4096⟩, [], []⟩

def step (s : Lines) : LineOp → Lines
  | .receive pData =>
    { s with client := s.client.recv pData.val, sent := s.sent ++ pData.val }
  | .readline ulBufferSize =>
    { s with
      client := (s.client.readline ulBufferSize).2.2
      outs := s.outs ++ [(s.client.readline ulBufferSize).2.1] }

/-- The buffer has room for the data. -/
def Roomy (s : Lines) : LineOp → Prop
  | .receive pData => (held s.client.pBuffer).length + pData.val.length < 4096
  | .readline _ => True

/-- What becomes of a part of the data: a call takes it, or it is the oldest one of a full buffer. -/
inductive Part
  | taken (piece : List UInt8)
  | dropped (piece : List UInt8)

def Part.bytes : Part → List UInt8
  | taken piece | dropped piece => piece

def Part.shown : Part → Option (List UInt8)
  | taken piece => some (TelnetLines.shown piece)
  | dropped _ => none

def Part.IsTaken : Part → Prop
  | taken _ => True
  | dropped _ => False

/-- A call takes nothing behind a line feed. -/
def Part.Ends : Part → Prop
  | taken piece => lf ∉ piece.dropLast
  | dropped piece => piece ≠ []

/-- The data in the parts that it has been taken in, up to what is still held. -/
structure Parted (s : Lines) (parts : List Part) : Prop where
  opened : s.client.pHandler = true
  size : s.client.pBuffer.ulMaxSize = 4096
  queues : Queues s.client.pBuffer (held s.client.pBuffer)
  whole : parts.flatMap Part.bytes ++ held s.client.pBuffer = s.sent
  shown : s.outs = parts.filterMap Part.shown
  ends : ∀ part ∈ parts, part.Ends

variable {s : Lines} {parts : List Part}

theorem opened_parted : Parted opened [] where
  opened := rfl
  size := rfl
  queues := create_queues (by decide) (by decide)
  whole := rfl
  shown := rfl
  ends := by simp

theorem seek_size (n : Nat) (i ulRcvdLen : UInt32) (b : Buffer) :
    (TelnetClient.seek n i ulRcvdLen b).2.2.ulMaxSize = b.ulMaxSize := by
  induction n generalizing i ulRcvdLen b with
  | zero => rfl
  | succ n ih =>
    have hget : (b.getAt i).2.2.ulMaxSize = b.ulMaxSize := by
      unfold getAt
      split <;> rfl
    simp only [TelnetClient.seek]
    split
    · generalize b.getAt i = r at hget
      obtain ⟨xRet, found, b'⟩ := r
      split
      · rename_i heq
        cases heq
        split
        · exact hget
        · exact (ih _ _ _).trans hget
      · rename_i heq
        cases heq
        exact hget
    · rfl

theorem take_size (n : Nat) (nData : UInt8) (ulSkip : Nat) (b : Buffer) :
    (TelnetClient.take n nData ulSkip b).2.ulMaxSize = b.ulMaxSize := by
  induction n generalizing nData ulSkip b with
  | zero => rfl
  | succ n ih =>
    have hpop := (Fifo.popFront_frame b 1).1
    simp only [TelnetClient.take]
    split
    · exact hpop
    · split
      · exact (ih _ _ _).trans hpop
      · exact (ih _ _ _).trans hpop

theorem readline_size (pClient : TelnetClient) (ulBufferSize : UInt32) :
    (pClient.readline ulBufferSize).2.2.pBuffer.ulMaxSize = pClient.pBuffer.ulMaxSize := by
  unfold TelnetClient.readline
  split
  · rfl
  · simp only
    split
    · rfl
    · have hseek := seek_size pClient.pBuffer.getSize.toNat 0 pClient.pBuffer.getSize pClient.pBuffer
      split <;> rename_i heq <;> rw [heq] at hseek
      · exact hseek
      · exact (take_size _ _ _ _).trans hseek

/-- The oldest bytes go, if there is too little room. -/
theorem receive_parted (h : Parted s parts) (pData : {d : List UInt8 // d.length ≤ 512}) :
    ∃ more, Parted (step s (.receive pData)) (parts ++ more) ∧
      (Roomy s (.receive pData) → more = []) := by
  obtain ⟨d, hd⟩ := pData
  have hmax : s.client.pBuffer.ulMaxSize.toNat = 4096 := by
    rw [h.size]
    rfl
  have hpush := pushBack_queues (d := d) h.queues (by omega)
  have hheld := held_eq hpush
  have hsize : (s.client.pBuffer.pushBack d).ulMaxSize = 4096 :=
    (Fifo.act_ulMaxSize s.client.pBuffer (.pushBack d)).trans h.size
  generalize hq : held s.client.pBuffer = q at hpush hheld
  generalize hn : excess s.client.pBuffer q d.length = n at hpush hheld
  have hwhole := h.whole
  rw [hq] at hwhole
  have hqueues : Queues (s.client.pBuffer.pushBack d) (held (s.client.pBuffer.pushBack d)) := by
    rw [hheld]
    exact hpush
  refine ⟨if n = 0 then [] else [.dropped (q.take n)], ⟨h.opened, hsize, hqueues, ?_, ?_, ?_⟩, ?_⟩
  · simp only [step, TelnetClient.recv, hheld, ← hwhole, List.flatMap_append, List.append_assoc]
    congr 1
    split
    · rename_i hzero
      rw [hzero, List.drop_zero]
      rfl
    · rw [List.flatMap_singleton, Part.bytes, ← List.append_assoc, List.take_append_drop]
  · rw [List.filterMap_append, step, h.shown]
    split
    · exact (List.append_nil _).symm
    · exact (List.append_nil _).symm
  · intro part hpart
    rcases List.mem_append.mp hpart with hpart | hpart
    · exact h.ends part hpart
    · split at hpart
      · cases hpart
      · rename_i hpos
        rw [List.mem_singleton.mp hpart]
        intro hnil
        have hlen := congrArg List.length hnil
        rw [List.length_take, List.length_nil] at hlen
        unfold excess at hn
        omega
  · intro hroomy
    have hroom : q.length + d.length < 4096 := hq ▸ hroomy
    rw [if_pos]
    unfold excess at hn
    omega

theorem readline_parted (h : Parted s parts) (ulBufferSize : UInt32) :
    Parted (step s (.readline ulBufferSize)) (parts ++ [.taken (line
      (room (held s.client.pBuffer) ulBufferSize.toNat) (held s.client.pBuffer))]) := by
  obtain ⟨-, hbytes, hopen, hqueues⟩ := readline_queues h.queues h.opened ulBufferSize
  have hheld := held_eq hqueues
  refine ⟨hopen, (readline_size _ _).trans h.size, ?_, ?_, ?_, ?_⟩
  · simp only [step, hheld]
    exact hqueues
  · simp only [step, hheld, List.flatMap_append, List.flatMap_singleton, List.append_assoc,
      Part.bytes, Stream.line_append]
    exact h.whole
  · simp only [step, hbytes, List.filterMap_append, ← h.shown]
    rfl
  · intro part hpart
    rcases List.mem_append.mp hpart with hpart | hpart
    · exact h.ends part hpart
    · rw [List.mem_singleton.mp hpart]
      exact Stream.lf_ends_line _ _

theorem run_parted (h : Parted s parts) (ops : List LineOp) :
    ∃ more, Parted (ops.foldl step s) (parts ++ more) ∧
      (Admitted step Roomy s ops → ∀ part ∈ more, part.IsTaken) := by
  induction ops generalizing s parts with
  | nil => exact ⟨[], by rwa [List.append_nil], by simp⟩
  | cons op ops ih =>
    have hfirst : ∃ more, Parted (step s op) (parts ++ more) ∧
        (Roomy s op → ∀ part ∈ more, part.IsTaken) := by
      cases op with
      | receive pData =>
        obtain ⟨more, hparted, hall⟩ := receive_parted h pData
        exact ⟨more, hparted, fun hroomy => by simp [hall hroomy]⟩
      | readline ulBufferSize =>
        exact ⟨_, readline_parted h ulBufferSize, fun _ => by simp [Part.IsTaken]⟩
    obtain ⟨more, hparted, hall⟩ := hfirst
    obtain ⟨later, hend, hrest⟩ := ih hparted
    refine ⟨more ++ later, by rwa [← List.append_assoc], ?_⟩
    rintro ⟨hroomy, hadmitted⟩ part hpart
    rcases List.mem_append.mp hpart with hpart | hpart
    · exact hall hroomy part hpart
    · exact hrest hadmitted part hpart

/-- A call takes nothing only where at least half of what there is are line feeds at the front. -/
theorem readline_stays (h : Parted s parts) {ulBufferSize : UInt32} (hpos : 0 < ulBufferSize) :
    held (s.client.readline ulBufferSize).2.2.pBuffer = held s.client.pBuffer ↔
      (held s.client.pBuffer).length ≤ 2 * leading (held s.client.pBuffer) := by
  obtain ⟨-, -, -, hqueues⟩ := readline_queues h.queues h.opened ulBufferSize
  rw [held_eq hqueues]
  generalize held s.client.pBuffer = q
  have hpos' : 0 < ulBufferSize.toNat := UInt32.lt_iff_toNat_lt.mp hpos
  by_cases hmore : 2 * leading q < q.length
  · have hroom : room q ulBufferSize.toNat = min (q.length - leading q) ulBufferSize.toNat :=
      if_pos hmore
    obtain ⟨n, hn⟩ : ∃ n, room q ulBufferSize.toNat = n + 1 :=
      Nat.exists_eq_succ_of_ne_zero (by omega)
    refine iff_of_false ?_ (Nat.not_le.mpr hmore)
    intro hsame
    have hlen := congrArg List.length hsame
    rw [List.length_drop] at hlen
    cases q with
    | nil => exact absurd hmore (Nat.not_lt_zero _)
    | cons c q =>
      have htaken : 0 < (line (n + 1) (c :: q)).length := by
        simp only [line]
        split <;> exact Nat.succ_pos _
      rw [hn, List.length_cons] at hlen
      omega
  · have hroom : room q ulBufferSize.toNat = 0 := if_neg hmore
    refine iff_of_true ?_ (Nat.le_of_not_lt hmore)
    rw [hroom]
    rfl

/-- In every order of arrivals and of calls, each byte of the data is, in its order, taken by one
call, dropped as the oldest of a full buffer, or still there, and the calls return what is shown of
what they take. Nothing is dropped while there is room, and a call that has room for a byte takes
none exactly where at least half of what there is are line feeds at the front. -/
theorem lines_of_stream (ops : List LineOp) :
    let s := ops.foldl step opened
    (∃ parts : List Part, parts.flatMap Part.bytes ++ held s.client.pBuffer = s.sent ∧
      s.outs = parts.filterMap Part.shown ∧ (∀ part ∈ parts, part.Ends) ∧
      (Admitted step Roomy opened ops → ∀ part ∈ parts, part.IsTaken)) ∧
    ∀ ulBufferSize, 0 < ulBufferSize →
      (held (s.client.readline ulBufferSize).2.2.pBuffer = held s.client.pBuffer ↔
        (held s.client.pBuffer).length ≤ 2 * leading (held s.client.pBuffer)) := by
  obtain ⟨parts, hparted, htaken⟩ := run_parted opened_parted ops
  rw [List.nil_append] at hparted
  exact ⟨⟨parts, hparted.whole, hparted.shown, hparted.ends, htaken⟩,
    fun _ hpos => readline_stays hparted hpos⟩

/-- A prompt of two bytes is not found behind three empty lines. -/
example : ([LineOp.receive ⟨[10, 10, 10, 62, 32], by decide⟩, .readline 512].foldl
    step opened).outs = [[]] := by decide

end Catchb.Proofs.TelnetLines
