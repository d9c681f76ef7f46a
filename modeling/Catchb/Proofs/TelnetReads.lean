import Catchb.Proofs.Fifo
import Catchb.SetAC

/-! What a line that is read over telnet takes out of the buffer, and what becomes of it. -/

namespace Catchb.Proofs.TelnetReads
open Lib Buffer TelnetClient Fifo SshChannel

variable {b : Buffer} {q bytes : List UInt8} {x : UInt8} {n : Nat}

/-- The line feeds that a buffer begins with. -/
def lead (q : List UInt8) : Nat := (q.takeWhile (· = lf)).length

/-- What comes before a line feed in the first bytes of a buffer. -/
def line (n : Nat) (q : List UInt8) : List UInt8 := (q.take n).takeWhile (· ≠ lf)

/-- A line is taken with its line feed. -/
def used (n : Nat) (q : List UInt8) : Nat := min n ((line n q).length + 1)

section Seek

theorem lead_lf (q : List UInt8) : lead (lf :: q) = lead q + 1 := by
  rw [lead, List.takeWhile_cons_of_pos (by decide), List.length_cons]
  rfl

theorem lead_other (hx : x ≠ lf) (q : List UInt8) : lead (x :: q) = 0 := by
  rw [lead, List.takeWhile_cons_of_neg (by simpa using hx)]
  rfl

/-- What begins with line feeds has something else behind them, or nothing. -/
theorem lead_le_iff {i : Nat} (hi : i ≤ lead q) (hx : q[i]? = some x) : i = lead q ↔ x ≠ lf := by
  induction q generalizing i with
  | nil => cases hx
  | cons y q ih =>
    by_cases hy : y = lf
    · subst hy
      rw [lead_lf] at hi ⊢
      cases i with
      | zero =>
        obtain rfl := Option.some.inj hx
        exact iff_of_false (Nat.zero_ne_add_one _) (fun hne => hne rfl)
      | succ i =>
        rw [List.getElem?_cons_succ] at hx
        rw [Nat.add_right_cancel_iff]
        exact ih (Nat.le_of_succ_le_succ hi) hx
    · rw [lead_other hy] at hi ⊢
      obtain rfl := Nat.le_zero.mp hi
      obtain rfl := Option.some.inj hx
      exact iff_of_true rfl hy

/-- The search meets its own bound halfway: it needs more bytes behind the line feeds than there are
of these. -/
theorem seek_eq (h : Queues b q) (i ulRcvdLen : UInt32) (hi : i.toNat ≤ lead q)
    (hlen : ulRcvdLen.toNat + i.toNat = q.length) (hn : q.length ≤ n + 2 * i.toNat) :
    ∃ b', Queues b' q ∧ if 2 * lead q < q.length then
        ∃ ulLen nData, seek n i ulRcvdLen b = (.ok, some (ulLen, nData), b') ∧
          ulLen.toNat + lead q = q.length
      else seek n i ulRcvdLen b = (.ok, none, b') := by
  induction n generalizing b i ulRcvdLen with
  | zero =>
    refine ⟨b, h, ?_⟩
    rw [if_neg (by omega)]
    rfl
  | succ n ih =>
    by_cases hlt : i < ulRcvdLen
    · have hlt' : i.toNat < ulRcvdLen.toNat := hlt
      have hin : i.toNat < q.length := by omega
      obtain ⟨hret, hbyte, hq, -⟩ := getAt_queues h i
      rw [if_pos hin] at hret
      rw [List.getElem?_eq_getElem hin] at hbyte
      have hget : b.getAt i = (.ok, some q[i.toNat], (b.getAt i).2.2) := by
        rw [← hret, ← hbyte]
      have hplace := lead_le_iff hi (List.getElem?_eq_getElem hin)
      rw [seek, if_pos hlt, hget]
      by_cases hdata : q[i.toNat] = lf
      · have hone : (1 : UInt32).toNat = 1 := rfl
        have hnext : (i + 1).toNat = i.toNat + 1 := toNat_add_of_lt (by
          have hroom := h.room
          have hmax := h.max
          omega)
        have hless : (ulRcvdLen - 1).toNat = ulRcvdLen.toNat - 1 := toNat_sub_of_le' (by omega)
        have hbefore : i.toNat ≠ lead q := fun he => hplace.mp he hdata
        simp only [ne_eq, hdata, not_true_eq_false, if_false]
        exact ih hq (i + 1) (ulRcvdLen - 1) (by omega) (by omega) (by omega)
      · have hhere := hplace.mpr hdata
        refine ⟨_, hq, ?_⟩
        rw [if_pos (by omega)]
        refine ⟨ulRcvdLen, q[i.toNat], ?_, by omega⟩
        simp only [ne_eq, hdata, not_false_eq_true, if_true]
    · have hle : ulRcvdLen.toNat ≤ i.toNat := Nat.le_of_not_lt hlt
      refine ⟨b, h, ?_⟩
      rw [if_neg (by omega), seek, if_neg hlt]

end Seek

section Take

theorem line_lf (n : Nat) (q : List UInt8) : line n (lf :: q) = [] := by
  cases n with
  | zero => rfl
  | succ n => rw [line, List.take_succ_cons, List.takeWhile_cons_of_neg (by decide)]

theorem line_other (hx : x ≠ lf) (n : Nat) (q : List UInt8) :
    line (n + 1) (x :: q) = x :: line n q := by
  rw [line, List.take_succ_cons, List.takeWhile_cons_of_pos (by simpa using hx)]
  rfl

theorem used_other (hx : x ≠ lf) (n : Nat) (q : List UInt8) :
    used (n + 1) (x :: q) = used n q + 1 := by
  rw [used, used, line_other hx, List.length_cons]
  omega

/-- Behind an escape character nothing is kept. -/
theorem take_eq (h : Queues b q) (hn : n ≤ q.length) (nData : UInt8) (ulSkip : Nat) :
    ∃ b', Queues b' (q.drop (used n q)) ∧ take n nData ulSkip b =
      (if ulSkip = 0 then (line n q).takeWhile (· ≠ esc) else [], b') := by
  induction n generalizing b q nData ulSkip with
  | zero =>
    refine ⟨b, by rwa [used, Nat.zero_min, List.drop_zero], ?_⟩
    rw [take]
    split <;> rfl
  | succ n ih =>
    cases q with
    | nil => exact absurd hn (Nat.not_succ_le_zero n)
    | cons x q =>
      obtain ⟨hbyte, hq, -⟩ := popFront_queues h 1
      have hpop : b.popFront 1 = ([x], (b.popFront 1).2) := Prod.ext hbyte rfl
      have hq : Queues (b.popFront 1).2 q := hq
      rw [take, hpop]
      by_cases hlf : x = lf
      · subst hlf
        refine ⟨(b.popFront 1).2, ?_, ?_⟩
        · rw [used, line_lf]
          have hone : min (n + 1) (([] : List UInt8).length + 1) = 1 :=
            Nat.min_eq_right (Nat.le_add_left 1 n)
          rw [hone]
          exact hq
        · rw [line_lf, List.takeWhile_nil, ite_self]
          rfl
      · rw [used_other hlf, List.drop_succ_cons, line_other hlf]
        have hlen : n ≤ q.length := Nat.le_of_succ_le_succ hn
        by_cases hesc : x = esc
        · subst hesc
          obtain ⟨b', hrest, htake⟩ := ih hq hlen esc 2
          refine ⟨b', hrest, ?_⟩
          rw [List.takeWhile_cons_of_neg (by decide), ite_self]
          exact htake
        · obtain ⟨b', hrest, htake⟩ := ih hq hlen x ulSkip
          refine ⟨b', hrest, ?_⟩
          simp only [List.headD_cons, if_neg hlf, if_neg hesc, htake]
          rw [List.takeWhile_cons_of_pos (by simpa using hesc)]
          split <;> rfl

/-- What is taken is the line, and its line feed if it has one. -/
theorem taken_eq (n : Nat) (q : List UInt8) :
    (q.take (used n q)).takeWhile (· ≠ lf) = line n q := by
  induction n generalizing q with
  | zero => rw [used, Nat.zero_min]; rfl
  | succ n ih =>
    cases q with
    | nil => rw [List.take_nil]; rfl
    | cons x q =>
      by_cases hlf : x = lf
      · subst hlf
        have hone : used (n + 1) (lf :: q) = 1 := by
          rw [used, line_lf]
          exact Nat.min_eq_right (Nat.le_add_left 1 n)
        rw [hone, line_lf]
        rfl
      · rw [used_other hlf, line_other hlf, List.take_succ_cons,
          List.takeWhile_cons_of_pos (by simpa using hlf), ih]

/-- The line feeds that the search takes from the length shorten no line: where there is one, the
line is empty. -/
theorem line_min (n : Nat) (q : List UInt8) : line (min (q.length - lead q) n) q = line n q := by
  cases q with
  | nil => rw [line, line, List.take_nil, List.take_nil]
  | cons x q =>
    by_cases hlf : x = lf
    · subst hlf
      rw [line_lf, line_lf]
    · rw [lead_other hlf, Nat.sub_zero, Nat.min_comm, line, line, ← List.take_eq_take_min]

end Take

/-- Bytes without their escape sequences. A sequence that is not whole is none. -/
def removed : List UInt8 → List UInt8
  | x :: y :: z :: bytes => if x = esc then removed bytes else x :: removed (y :: z :: bytes)
  | bytes => bytes

section Removed

theorem removed_cons (hx : x ≠ esc) (bytes : List UInt8) :
    removed (x :: bytes) = x :: removed bytes := by
  match bytes with
  | [] => rfl
  | [y] => rfl
  | y :: z :: bytes => rw [removed, if_neg hx]

theorem removed_eq (bytes : List UInt8) : removed bytes =
    bytes.takeWhile (· ≠ esc) ++ removed (bytes.dropWhile (· ≠ esc)) := by
  induction bytes with
  | nil => rfl
  | cons x bytes ih =>
    by_cases hx : x = esc
    · rw [List.takeWhile_cons_of_neg (by simpa using hx),
        List.dropWhile_cons_of_neg (by simpa using hx)]
      rfl
    · rw [List.takeWhile_cons_of_pos (by simpa using hx),
        List.dropWhile_cons_of_pos (by simpa using hx), removed_cons hx, ih]
      rfl

end Removed

/-- A call takes bytes from the front of the buffer, one at least if there is something other than
a line feed. It writes inside `pBuffer`, and what it hands over are the bytes taken, up to a line
feed, without the escape sequences. -/
structure Reads (pClient : TelnetClient) (ulBufferSize : UInt32) (q : List UInt8) : Prop where
  inside : (pClient.stored ulBufferSize).length ≤ ulBufferSize.toNat
  delivers : ∃ k ≤ q.length, Queues (pClient.readline ulBufferSize).2.2.pBuffer (q.drop k) ∧
    ((∃ x ∈ q, x ≠ lf) → 1 ≤ k) ∧
    (pClient.readline ulBufferSize).2.1 = removed ((q.take k).takeWhile (· ≠ lf))

section Readline

variable {pClient : TelnetClient} {ulBufferSize : UInt32}

theorem readline_stalls (ulBufferSize : UInt32) (h : Queues pClient.pBuffer q)
    (hstall : pClient.pHandler = false ∨ q.length ≤ 2 * lead q) :
    (pClient.readline ulBufferSize).2.1 = [] ∧
      Queues (pClient.readline ulBufferSize).2.2.pBuffer q := by
  unfold readline
  cases hopen : pClient.pHandler with
  | false => exact ⟨rfl, h⟩
  | true =>
    have hle : q.length ≤ 2 * lead q := hstall.resolve_left (by rw [hopen]; exact Bool.noConfusion)
    by_cases hempty : pClient.pBuffer.getSize = 0
    · rw [if_pos hempty]
      exact ⟨rfl, h⟩
    · obtain ⟨b', hq, hseek⟩ := seek_eq (n := pClient.pBuffer.getSize.toNat) h 0
        pClient.pBuffer.getSize (Nat.zero_le _) h.len h.len.ge
      rw [if_neg (Nat.not_lt.mpr hle)] at hseek
      simp only [Bool.not_true, Bool.false_eq_true, if_false, if_neg hempty, hseek]
      exact ⟨trivial, hq⟩

theorem readline_takes (ulBufferSize : UInt32) (h : Queues pClient.pBuffer q)
    (hopen : pClient.pHandler = true) (hahead : 2 * lead q < q.length) :
    (pClient.readline ulBufferSize).2.1 =
        (line ulBufferSize.toNat q).takeWhile (· ≠ esc) ∧
      Queues (pClient.readline ulBufferSize).2.2.pBuffer
        (q.drop (used (min (q.length - lead q) ulBufferSize.toNat) q)) := by
  have hfull : pClient.pBuffer.getSize ≠ 0 := by
    intro hzero
    have hlen : pClient.pBuffer.getSize.toNat = q.length := h.len
    rw [hzero] at hlen
    have hnil : q.length = 0 := hlen.symm
    omega
  obtain ⟨b', hq, hseek⟩ := seek_eq (n := pClient.pBuffer.getSize.toNat) h 0
    pClient.pBuffer.getSize (Nat.zero_le _) h.len h.len.ge
  rw [if_pos hahead] at hseek
  obtain ⟨ulLen, nData, hseek, hlen⟩ := hseek
  have hrest : ulLen.toNat = q.length - lead q := by omega
  obtain ⟨b'', hq', htake⟩ :=
    take_eq hq (n := min ulLen.toNat ulBufferSize.toNat) (by omega) nData 0
  rw [hrest] at hq' htake
  unfold readline
  simp only [hopen, Bool.not_true, Bool.false_eq_true, if_false, if_neg hfull, hseek, hrest, htake,
    if_true, line_min]
  exact ⟨trivial, hq'⟩

/-- What is left tells how much was taken. -/
theorem drop_unique {k m : Nat} (hk : k ≤ q.length) (hm : m ≤ q.length)
    (h : Queues b (q.drop k)) (h' : Queues b (q.drop m)) : k = m := by
  have hlen := h.len.symm.trans h'.len
  rw [List.length_drop, List.length_drop] at hlen
  omega

/-- A call that takes nothing is right if there are line feeds only. -/
theorem reads_stalled (h : Queues pClient.pBuffer q) (hsize : 1 ≤ ulBufferSize.toNat)
    (hstall : pClient.pHandler = false ∨ q.length ≤ 2 * lead q) :
    Reads pClient ulBufferSize q ↔ ∀ x ∈ q, x = lf := by
  obtain ⟨hbytes, hq⟩ := readline_stalls ulBufferSize h hstall
  constructor
  · intro hreads x hx
    by_contra hne
    obtain ⟨k, hk, hafter, hsome, -⟩ := hreads.delivers
    have hzero := drop_unique hk (Nat.zero_le _) hafter hq
    have hone := hsome ⟨x, hx, hne⟩
    omega
  · intro hall
    refine ⟨?_, 0, Nat.zero_le _, hq, ?_, hbytes⟩
    · rw [stored, hbytes]
      exact hsize
    · intro hother
      obtain ⟨x, hx, hne⟩ := hother
      exact absurd (hall x hx) hne

/-- The connection is open, more bytes stand behind the line feeds than there are of these, a line
feed, an escape character or the end comes before `pBuffer` is full, and from the first escape
character on the line is nothing but whole sequences. -/
structure Readable (pClient : TelnetClient) (ulBufferSize : UInt32) (q : List UInt8) : Prop where
  connected : pClient.pHandler = true
  ahead : 2 * lead q < q.length
  ends : ((line ulBufferSize.toNat q).takeWhile (· ≠ esc)).length < ulBufferSize.toNat
  whole : removed ((line ulBufferSize.toNat q).dropWhile (· ≠ esc)) = []

theorem reads_iff_readable (h : Queues pClient.pBuffer q) (hsize : 1 ≤ ulBufferSize.toNat)
    (hopen : pClient.pHandler = true) (hahead : 2 * lead q < q.length) :
    Reads pClient ulBufferSize q ↔ Readable pClient ulBufferSize q := by
  obtain ⟨hbytes, hq⟩ := readline_takes ulBufferSize h hopen hahead
  have hused : used (min (q.length - lead q) ulBufferSize.toNat) q ≤ q.length :=
    Nat.le_trans (Nat.min_le_left ..) (Nat.le_trans (Nat.min_le_left ..) (Nat.sub_le ..))
  have hstored : (pClient.stored ulBufferSize).length =
      ((line ulBufferSize.toNat q).takeWhile (· ≠ esc)).length + 1 := by
    rw [stored, hbytes, List.length_append, List.length_singleton]
  constructor
  · intro hreads
    refine ⟨hopen, hahead, ?_, ?_⟩
    · have hinside := hreads.inside
      rw [hstored] at hinside
      exact hinside
    · obtain ⟨k, hk, hafter, -, hdelivered⟩ := hreads.delivers
      obtain rfl := drop_unique hk hused hafter hq
      rw [hbytes, taken_eq, line_min, removed_eq (line ulBufferSize.toNat q)] at hdelivered
      exact List.self_eq_append_right.mp hdelivered
  · intro hreadable
    refine ⟨?_, _, hused, hq, fun _ => ?_, ?_⟩
    · rw [hstored]
      exact hreadable.ends
    · exact Nat.le_min.mpr ⟨Nat.le_min.mpr ⟨by omega, hsize⟩, Nat.le_add_left ..⟩
    · rw [hbytes, taken_eq, line_min, removed_eq (line ulBufferSize.toNat q), hreadable.whole,
        List.append_nil]

end Readline

theorem lead_all (h : ∀ x ∈ q, x = lf) : lead q = q.length := by
  rw [lead, List.takeWhile_eq_self_iff.mpr (fun x hx => decide_eq_true (h x hx))]

/-- What a buffer holds is read as it should be if it is line feeds only, or if it can be read. -/
theorem reads_iff {pClient : TelnetClient} (h : Queues pClient.pBuffer q) {ulBufferSize : UInt32}
    (hsize : 1 ≤ ulBufferSize.toNat) : Reads pClient ulBufferSize q ↔
      (∀ x ∈ q, x = lf) ∨ Readable pClient ulBufferSize q := by
  by_cases hgo : pClient.pHandler = true ∧ 2 * lead q < q.length
  · have hother : ¬ ∀ x ∈ q, x = lf := by
      intro hall
      have hlead := lead_all hall
      omega
    rw [reads_iff_readable h hsize hgo.1 hgo.2, or_iff_right hother]
  · have hstall : pClient.pHandler = false ∨ q.length ≤ 2 * lead q := by
      rw [not_and_or, Bool.not_eq_true, Nat.not_lt] at hgo
      exact hgo
    have hnot : ¬ Readable pClient ulBufferSize q := fun hr => hgo ⟨hr.connected, hr.ahead⟩
    rw [reads_stalled h hsize hstall, or_iff_left hnot]

/-- A client that has just received some bytes. -/
def received (q : List UInt8) : TelnetClient := (⟨true, .create 4096⟩ : TelnetClient).recv q

theorem received_queues (hq : q.length ≤ 4095) : Queues (received q).pBuffer q := by
  have hnew : Queues (create 4096) [] := create_queues (by decide) (by decide)
  have hpush := pushBack_queues hnew (d := q) (Nat.lt_succ_of_le hq)
  rw [List.drop_nil, List.nil_append] at hpush
  exact hpush

/-- A prompt and its line feed. -/
theorem prompt_read : Reads (received [0x3E, 0x20, lf]) 512 [0x3E, 0x20, lf] :=
  (reads_iff (received_queues (by decide)) (by decide)).mpr
    (.inr ⟨rfl, by decide, by decide, by decide⟩)

/-- Two line feeds before a prompt are one too many: nothing is taken. -/
theorem prompt_stalls : Queues (received [lf, lf, 0x3E]).pBuffer [lf, lf, 0x3E] ∧
    ¬ Reads (received [lf, lf, 0x3E]) 512 [lf, lf, 0x3E] := by
  have hq := received_queues (q := [lf, lf, 0x3E]) (by decide)
  refine ⟨hq, fun hreads => ?_⟩
  have hall := (reads_stalled hq (by decide) (.inr (by decide))).mp hreads 0x3E (by decide)
  exact absurd hall (by decide)

end Catchb.Proofs.TelnetReads
