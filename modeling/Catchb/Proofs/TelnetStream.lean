import Catchb.Telnet
import Catchb.Lib.Run

/-! What the telnet library reports of a stream, however it is cut into chunks. -/

namespace Catchb.Proofs.TelnetStream
open Lib Telnet

/-- Data is reported byte for byte. -/
inductive Item
  | byte (byte : UInt8)
  | event (event : Event)

def itemsOf : Event → List Item
  | .data buffer size => (buffer.take size).map .byte
  | event => [.event event]

def items (events : List Event) : List Item := events.flatMap itemsOf

/-- What an event has to be sent. -/
def sendOf : Event → Option (List UInt8)
  | .send buffer => some buffer
  | _ => none

def sends (events : List Event) : List (List UInt8) := events.filterMap sendOf

def sendOfItem : Item → Option (List UInt8)
  | .byte _ => none
  | .event event => sendOf event

def itemSends (items : List Item) : List (List UInt8) := items.filterMap sendOfItem

/-- A data event has no more bytes than there are behind its pointer. -/
def InBounds : Event → Prop
  | .data buffer size => size ≤ buffer.length
  | _ => True

/-- The parser, and whether it leaves the next byte out. -/
structure Feed where
  telnet : Telnet
  skip : Bool

def step (s : Feed) (byte : UInt8) : Feed × List Item :=
  if s.telnet.state = .data ∧ byte ≠ iac then (⟨s.telnet, false⟩, if s.skip then [] else [.byte byte])
  else
    let next := processByte processNested s.telnet [] 0 0 byte
    (⟨next.1, next.2.2 = some 2⟩, items next.2.1)

/-- The stream a byte at a time. -/
def feed : Feed → List UInt8 → Feed × List Item
  | s, [] => (s, [])
  | s, byte :: rest => ((feed (step s byte).1 rest).1, (step s byte).2 ++ (feed (step s byte).1 rest).2)

/-- A byte that is left out is there, and is not an IAC. -/
def Whole : Feed → List UInt8 → Prop
  | s, [] => s.skip = false
  | s, byte :: rest => ¬(s.skip = true ∧ byte = iac) ∧ Whole (step s byte).1 rest

variable {telnet : Telnet} {buffer rest : List UInt8} {i start : Nat} {byte : UInt8} {s : Feed}

@[simp] theorem items_append (xs ys : List Event) : items (xs ++ ys) = items xs ++ items ys :=
  List.flatMap_append

@[simp] theorem items_nil : items [] = [] := rfl

@[simp] theorem sends_append (xs ys : List Event) : sends (xs ++ ys) = sends xs ++ sends ys :=
  List.filterMap_append

@[simp] theorem itemSends_nil : itemSends [] = [] := rfl

@[simp] theorem itemSends_append (xs ys : List Item) :
    itemSends (xs ++ ys) = itemSends xs ++ itemSends ys :=
  List.filterMap_append

theorem itemSends_bytes (bytes : List UInt8) : itemSends (bytes.map .byte) = [] := by
  induction bytes with
  | nil => rfl
  | cons byte bytes ih => exact ih

@[simp] theorem itemSends_items (events : List Event) : itemSends (items events) = sends events := by
  induction events with
  | nil => rfl
  | cons e events ih =>
    have hcons : items (e :: events) = itemsOf e ++ items events := rfl
    rw [hcons, itemSends_append, ih]
    cases e with
    | data buffer size =>
      rw [itemsOf, itemSends_bytes]
      rfl
    | _ => rfl

@[simp] theorem pass_self (buffer : List UInt8) (i : Nat) : pass buffer i i = [] := by
  simp [Telnet.pass]

@[simp] theorem sends_pass : sends (pass buffer start i) = [] := by
  unfold Telnet.pass
  split <;> rfl

theorem feed_append (s : Feed) (xs ys : List UInt8) : feed s (xs ++ ys) =
    ((feed (feed s xs).1 ys).1, (feed s xs).2 ++ (feed (feed s xs).1 ys).2) := by
  induction xs generalizing s with
  | nil => simp [feed]
  | cons x xs ih => simp [feed, ih]

/-- Where the loop stands: the bytes from `start` on are not passed on yet, or the next byte is
left out. -/
structure At (s : Feed) (start i : Nat) : Prop where
  pending : s.telnet.state = .data → s.skip = false → start ≤ i
  skipped : s.skip = true → s.telnet.state = .data ∧ start = i + 1

/-- The bytes that are not passed on yet. -/
def pending (s : Feed) (buffer : List UInt8) (start i : Nat) : List Item :=
  if s.telnet.state = .data ∧ s.skip = false then ((buffer.drop start).take (i - start)).map .byte
  else []

theorem pass_inBounds (hstart : start ≤ i) (hi : i ≤ buffer.length) :
    ∀ e ∈ pass buffer start i, InBounds e := by
  intro e he
  unfold Telnet.pass at he
  split at he
  · obtain rfl := List.mem_singleton.mp he
    simp only [InBounds, sizeT, hstart, ↓reduceIte, List.length_drop]
    omega
  · cases he

theorem items_pass (hstart : start ≤ i) :
    items (pass buffer start i) = ((buffer.drop start).take (i - start)).map .byte := by
  unfold Telnet.pass
  split
  · simp [items, itemsOf, sizeT, hstart]
  · rename_i he
    obtain rfl := not_not.mp he
    simp

/-- A pointer one past the byte leaves a size that has wrapped around. -/
theorem pass_wraps (hlen : buffer.length < UInt64.size) (i : Nat) :
    ∃ e ∈ pass buffer (i + 1) i, ¬InBounds e := by
  refine ⟨.data (buffer.drop (i + 1)) (sizeT i (i + 1)), ?_, ?_⟩
  · simp [Telnet.pass]
  · have hlt : ¬i + 1 ≤ i := Nat.not_succ_le_self i
    have hsize : 2 ≤ UInt64.size := by decide
    simp only [InBounds, sizeT, hlt, ↓reduceIte, List.length_drop]
    omega

/-- Neither data, nor something to send, nor a subnegotiation as such. -/
def Reports : Event → Prop
  | .data .. | .send .. | .subnegotiation .. => False
  | _ => True

@[simp] theorem reports_protocolWarning (msg : Text) : Reports (protocolWarning msg) := trivial

@[simp] theorem reports_teloptWarning (type : UInt8) (msg : Text) :
    Reports (teloptWarning type msg) := trivial

theorem parse_reports (telopt : UInt8) (buffer : List UInt8) :
    ∀ e ∈ (parse telopt buffer).events, Reports e := by
  have hzmp : ∀ e ∈ (zmpTelnet buffer).events, Reports e := by
    unfold zmpTelnet
    split
    · simp
    · simp
      trivial
  have httype : ∀ e ∈ (ttypeTelnet buffer).events, Reports e := by
    unfold ttypeTelnet
    split
    · simp
    · split
      · simp
      · split <;> simp <;> trivial
  have henviron : ∀ e ∈ (environTelnet telopt buffer).events, Reports e := by
    simp only [environTelnet]
    repeat' split
    all_goals simp
    all_goals trivial
  have hmssp : ∀ e ∈ (msspTelnet buffer).events, Reports e := by
    simp only [msspTelnet]
    repeat' split
    all_goals simp
    all_goals trivial
  unfold parse
  split
  · exact hzmp
  split
  · exact httype
  split
  · exact henviron
  split
  · exact hmssp
  · simp

theorem Reports.inBounds {e : Event} (h : Reports e) : InBounds e := by
  cases e with
  | data => exact h.elim
  | _ => trivial

theorem subnegotiate_inBounds (telnet : Telnet) :
    ∀ e ∈ telnet.subnegotiate.2.2, InBounds e := by
  intro e he
  rcases List.mem_cons.mp he with rfl | he
  · trivial
  · exact (parse_reports _ _ e he).inBounds

theorem negotiate_inBounds (telnet : Telnet) (cmd : Command) (telopt : UInt8) :
    ∀ e ∈ (telnet.negotiate cmd telopt).2, InBounds e := by
  unfold negotiate
  split
  · simp [InBounds]
  · simp only [Case.events]
    intro e he
    split at he <;> simp only [List.mem_append, List.mem_map, List.mem_singleton, List.not_mem_nil,
      or_false] at he
    · rcases he with (⟨_, -, rfl⟩ | ⟨_, -, rfl⟩) | rfl <;> trivial
    · rcases he with ⟨_, -, rfl⟩ | ⟨_, -, rfl⟩ <;> trivial

theorem bufferByte_spec (telnet : Telnet) (byte : UInt8) :
    (telnet.bufferByte byte).2.1.state = telnet.state ∧
      ∀ e ∈ (telnet.bufferByte byte).2.2, InBounds e := by
  simp only [bufferByte]
  split
  · split <;> simp [InBounds]
  · simp

/-- Behind an IAC a byte is a command, and nothing is left to be passed on. -/
theorem processNested_iac (h : telnet.state = .iac) (byte : UInt8) :
    processNested telnet byte =
      ((processByte (fun telnet _ => (telnet, [])) telnet [] 0 0 byte).1,
        (processByte (fun telnet _ => (telnet, [])) telnet [] 0 0 byte).2.1) := by
  simp only [processNested, processLoop, processByte, h]
  by_cases hsb : byte = sb
  · simp [hsb]
  · cases hcmd : Command.ofByte byte with
    | some cmd => simp [hsb]
    | none => simp [hsb]

theorem processNested_inBounds (h : telnet.state = .iac) (byte : UInt8) :
    ∀ e ∈ (processNested telnet byte).2, InBounds e := by
  rw [processNested_iac h]
  simp only [processByte, h]
  split
  · simp
  · split
    · simp
    · split <;> simp [InBounds]

/-- What a byte does does not depend on where it stands, apart from the data in front of it. -/
theorem processByte_at (h : telnet.state ≠ .data) (buffer : List UInt8) (i start : Nat)
    (byte : UInt8) : processByte processNested telnet buffer i start byte =
      ((processByte processNested telnet [] 0 0 byte).1,
        (processByte processNested telnet [] 0 0 byte).2.1,
        (processByte processNested telnet [] 0 0 byte).2.2.map
          fun k => if k = 0 then start else i + k) := by
  unfold processByte
  split
  · exact absurd ‹_› h
  · split
    · rfl
    · split <;> rfl
  · rfl
  · rfl
  · split
    · rfl
    · split
      · rfl
      · split <;> rfl
  · split
    · simp only
      split <;> rfl
    · split
      · split <;> rfl
      · simp only
        split <;> rfl

/-- What a byte leaves: data is begun only behind a byte that moves `start`. -/
structure Leaves (r : Telnet × List Event × Option Nat) : Prop where
  inBounds : ∀ e ∈ r.2.1, InBounds e
  stays : r.2.2 = some 0 → r.1.state ≠ .data
  skips : r.2.2 = some 2 → r.1.state = .data
  moves : r.2.2 = none ∨ r.2.2 = some 0 ∨ r.2.2 = some 1 ∨ r.2.2 = some 2

theorem processByte_leaves (h : telnet.state ≠ .data) (byte : UInt8) :
    Leaves (processByte processNested telnet [] 0 0 byte) := by
  unfold processByte
  split
  · exact absurd ‹_› h
  · split
    · exact ⟨by simp, by simp, by simp, by simp⟩
    · split
      · exact ⟨by simp, by simp, by simp, by simp⟩
      · exact ⟨by split <;> simp [InBounds], by simp, by simp, by simp⟩
  · exact ⟨negotiate_inBounds _ _ _, by simp, by simp, by simp⟩
  · exact ⟨by simp, by simp, by simp, by simp⟩
  · rename_i hstate
    split
    · exact ⟨by simp, by simp, by simp, by simp⟩
    · split
      · exact ⟨by simp, by simp, by simp, by simp⟩
      · obtain ⟨hs, hb⟩ := bufferByte_spec telnet byte
        split <;> rename_i he <;> rw [he] at hs hb
        · refine ⟨hb, fun _ hdata => ?_, by simp, by simp⟩
          rw [hdata, hstate] at hs
          cases hs
        · exact ⟨hb, by simp, by simp, by simp⟩
  · split
    · refine ⟨subnegotiate_inBounds _, ?_, ?_, ?_⟩ <;> simp only <;> split <;> simp
    · split
      · obtain ⟨hs, hb⟩ := bufferByte_spec telnet iac
        split <;> rename_i he <;> rw [he] at hs hb
        · exact ⟨hb, by simp, by simp, by simp⟩
        · exact ⟨hb, by simp, by simp, by simp⟩
      · have hsub := subnegotiate_inBounds { telnet with state := .iac }
        simp only
        split
        · exact ⟨by simpa [InBounds, protocolWarning] using hsub, by simp, by simp, by simp⟩
        · refine ⟨?_, by simp, by simp, by simp⟩
          intro e he
          rcases List.mem_append.mp he with he | he
          · rcases List.mem_cons.mp he with rfl | he
            · trivial
            · exact hsub e he
          · exact processNested_inBounds rfl byte e he

/-- A byte of the loop against the same byte of the stream. -/
structure Step (s : Feed) (buffer : List UInt8) (start i : Nat) (byte : UInt8)
    (r : Telnet × List Event × Option Nat) : Prop where
  telnet : r.1 = (step s byte).1.telnet
  again : r.2.2 = none → (step s byte).1.skip = false ∧ s.telnet.state ≠ .data
  moves : ∀ next, r.2.2 = some next → At (step s byte).1 next (i + 1)
  inBounds : ¬(s.skip = true ∧ byte = iac) → ∀ e ∈ r.2.1, InBounds e
  wraps : s.skip = true ∧ byte = iac → ∃ e ∈ r.2.1, ¬InBounds e
  whole : ¬(s.skip = true ∧ byte = iac) → ∀ next, r.2.2 = some next →
    items r.2.1 ++ pending (step s byte).1 buffer next (i + 1) =
      pending s buffer start i ++ (step s byte).2
  wholeAgain : r.2.2 = none → items r.2.1 = (step s byte).2
  sends : sends r.2.1 = itemSends (step s byte).2

theorem take_pending (hbyte : buffer[i]? = some byte) (hstart : start ≤ i) :
    (buffer.drop start).take (i + 1 - start) = (buffer.drop start).take (i - start) ++ [byte] := by
  have hsucc : i + 1 - start = i - start + 1 := by omega
  have hidx : (buffer.drop start)[i - start]? = some byte := by
    rw [List.getElem?_drop, Nat.add_sub_cancel' hstart, hbyte]
  rw [hsucc, List.take_add_one, hidx, Option.toList_some]

theorem processByte_step (hbyte : buffer[i]? = some byte) (hlen : buffer.length < UInt64.size)
    (h : At s start i) : Step s buffer start i byte
      (processByte processNested s.telnet buffer i start byte) := by
  obtain ⟨hi, -⟩ := List.getElem?_eq_some_iff.mp hbyte
  by_cases hdata : s.telnet.state = .data
  · by_cases hiac : byte = iac
    · subst hiac
      have hr : processByte processNested s.telnet buffer i start iac =
          ({ s.telnet with state := .iac }, pass buffer start i, some start) := by
        simp [processByte, hdata]
      have hs : step s iac = (⟨{ s.telnet with state := .iac }, false⟩, []) := by
        simp [step, processByte, hdata]
      rw [hr]
      refine ⟨by rw [hs], by simp, ?_, ?_, ?_, ?_, by simp, by simp [hs]⟩
      · intro next hnext
        rw [hs]
        exact ⟨by simp, by simp⟩
      · intro hskip
        have hfalse : s.skip = false := by simpa using hskip
        exact pass_inBounds (h.pending hdata hfalse) (Nat.le_of_lt hi)
      · rintro ⟨hskip, -⟩
        obtain ⟨-, rfl⟩ := h.skipped hskip
        exact pass_wraps hlen i
      · intro hskip next hnext
        have hfalse : s.skip = false := by simpa using hskip
        rw [hs]
        simp [pending, hdata, hfalse, items_pass (h.pending hdata hfalse)]
    · have hr : processByte processNested s.telnet buffer i start byte =
          (s.telnet, [], some start) := by
        simp [processByte, hdata, hiac]
      have hs : step s byte = (⟨s.telnet, false⟩, if s.skip then [] else [.byte byte]) := by
        simp [step, hdata, hiac]
      rw [hr]
      refine ⟨by rw [hs], by simp, ?_, by simp, by simp [hiac], ?_, by simp, ?_⟩
      · intro next hnext
        obtain rfl := Option.some.inj hnext
        rw [hs]
        refine ⟨fun _ _ => ?_, by simp⟩
        cases hskip : s.skip with
        | true => exact (h.skipped hskip).2.le
        | false => exact Nat.le_succ_of_le (h.pending hdata hskip)
      · intro _ next hnext
        obtain rfl := Option.some.inj hnext
        rw [hs]
        cases hskip : s.skip with
        | true =>
          obtain ⟨-, rfl⟩ := h.skipped hskip
          simp [pending, hdata, hskip]
        | false =>
          have hstart := h.pending hdata hskip
          simp [pending, hdata, hskip, take_pending hbyte hstart]
      · rw [hs]
        cases s.skip <;> rfl
  · have hskip : s.skip = false := by
      by_contra hne
      exact hdata (h.skipped (by simpa using hne)).1
    have hl := processByte_leaves hdata byte
    have hs : step s byte =
        (⟨(processByte processNested s.telnet [] 0 0 byte).1,
          (processByte processNested s.telnet [] 0 0 byte).2.2 = some 2⟩,
          items (processByte processNested s.telnet [] 0 0 byte).2.1) := by
      simp [step, hdata]
    have hpend : pending s buffer start i = [] := by simp [pending, hdata]
    rw [processByte_at hdata]
    generalize processByte processNested s.telnet [] 0 0 byte = r at hl hs
    obtain ⟨t, events, move⟩ := r
    obtain ⟨hin, hstays, hskips, hmoves⟩ := hl
    simp only at hin hstays hskips hmoves hs ⊢
    refine ⟨by rw [hs], ?_, ?_, fun _ => hin, by simp [hskip], ?_, fun _ => by rw [hs],
      by simp [hs]⟩
    · intro hnone
      rw [Option.map_eq_none_iff] at hnone
      simp [hs, hnone, hdata]
    · intro next hnext
      rw [hs]
      rcases hmoves with rfl | rfl | rfl | rfl
      · simp at hnext
      · exact ⟨fun hd => absurd hd (hstays rfl), by simp⟩
      · obtain rfl : i + 1 = next := by simpa using hnext
        exact ⟨fun _ _ => Nat.le_refl _, by simp⟩
      · obtain rfl : i + 2 = next := by simpa using hnext
        exact ⟨by simp, fun _ => ⟨hskips rfl, rfl⟩⟩
    · intro _ next hnext
      rw [hs, hpend]
      rcases hmoves with rfl | rfl | rfl | rfl
      · simp at hnext
      · simp [pending, hstays rfl]
      · obtain rfl : i + 1 = next := by simpa using hnext
        simp [pending]
      · simp [pending]

/-- What a call of the parser makes of the rest of its chunk. -/
structure Reads (s : Feed) (buffer : List UInt8) (start i : Nat) (rest : List UInt8)
    (r : Telnet × List Event) : Prop where
  telnet : r.1 = (feed s rest).1.telnet
  inBounds : Whole s rest → ∀ e ∈ r.2, InBounds e
  wraps : ¬Whole s rest → ∃ e ∈ r.2, ¬InBounds e
  items : Whole s rest → items r.2 = pending s buffer start i ++ (feed s rest).2
  sends : sends r.2 = itemSends (feed s rest).2

theorem reads_end (hrest : buffer.drop i = []) (hi : i ≤ buffer.length)
    (hlen : buffer.length < UInt64.size) (h : At s start i) :
    Reads s buffer start i [] (processLoop processNested s.telnet buffer i start []) := by
  have hi' : i = buffer.length := Nat.le_antisymm hi (List.drop_eq_nil_iff.mp hrest)
  simp only [processLoop]
  cases hskip : s.skip with
  | true =>
    obtain ⟨hdata, rfl⟩ := h.skipped hskip
    have hnot : ¬Whole s [] := by simp [Whole, hskip]
    refine ⟨rfl, fun hw => absurd hw hnot, fun _ => ?_, fun hw => absurd hw hnot, ?_⟩
    · simp only [hdata, ↓reduceIte]
      exact pass_wraps hlen i
    · simp only [hdata, ↓reduceIte]
      exact sends_pass
  | false =>
    have hwhole : Whole s [] := hskip
    refine ⟨rfl, fun _ => ?_, fun hw => absurd hwhole hw, fun _ => ?_, ?_⟩
    · split
      · exact pass_inBounds (h.pending ‹_› hskip) hi
      · simp
    · by_cases hdata : s.telnet.state = .data
      · simp [hdata, hskip, pending, feed, items_pass (h.pending hdata hskip)]
      · simp [hdata, pending, feed]
    · split
      · exact sends_pass
      · rfl

theorem reads_cons {next : Feed} {events : List Event} {r : Telnet × List Event} {start' i' : Nat}
    {buffer' : List UInt8} (hnext : (step s byte).1 = next) (h : Reads next buffer' start' i' rest r)
    (hin : ¬(s.skip = true ∧ byte = iac) → ∀ e ∈ events, InBounds e)
    (hwraps : s.skip = true ∧ byte = iac → ∃ e ∈ events, ¬InBounds e)
    (hitems : ¬(s.skip = true ∧ byte = iac) → items events ++ pending next buffer' start' i' =
      pending s buffer start i ++ (step s byte).2)
    (hsends : sends events = itemSends (step s byte).2) :
    Reads s buffer start i (byte :: rest) (r.1, events ++ r.2) := by
  subst hnext
  refine ⟨h.telnet, ?_, ?_, ?_, ?_⟩
  · rintro ⟨hhead, hrest⟩ e he
    rcases List.mem_append.mp he with he | he
    · exact hin hhead e he
    · exact h.inBounds hrest e he
  · intro hnot
    by_cases hhead : s.skip = true ∧ byte = iac
    · obtain ⟨e, he, hout⟩ := hwraps hhead
      exact ⟨e, List.mem_append_left _ he, hout⟩
    · obtain ⟨e, he, hout⟩ := h.wraps fun hrest => hnot ⟨hhead, hrest⟩
      exact ⟨e, List.mem_append_right _ he, hout⟩
  · rintro ⟨hhead, hrest⟩
    rw [items_append, h.items hrest, ← List.append_assoc, hitems hhead, List.append_assoc]
    rfl
  · rw [sends_append, hsends, h.sends]
    exact (itemSends_append _ _).symm

/-- The loop reports the bytes in front of it that wait, and what the stream holds from there. -/
theorem processLoop_reads (hrest : buffer.drop i = rest) (hi : i ≤ buffer.length)
    (hlen : buffer.length < UInt64.size) (h : At s start i) :
    Reads s buffer start i rest (processLoop processNested s.telnet buffer i start rest) := by
  induction rest generalizing s buffer i start with
  | nil => exact reads_end hrest hi hlen h
  | cons byte rest ih =>
    have hbyte : buffer[i]? = some byte := by
      rw [← List.head?_drop, hrest, List.head?_cons]
    obtain ⟨hlt, -⟩ := List.getElem?_eq_some_iff.mp hbyte
    have hdrop : buffer.drop (i + 1) = rest := by
      rw [← List.tail_drop, hrest, List.tail_cons]
    have hstep := processByte_step hbyte hlen h
    simp only [processLoop]
    generalize processByte processNested s.telnet buffer i start byte = r at hstep
    obtain ⟨t, events, move⟩ := r
    have ht : t = (step s byte).1.telnet := hstep.telnet
    cases move with
    | some next =>
      have hreads := ih hdrop hlt hlen (hstep.moves next rfl)
      rw [← ht] at hreads
      exact reads_cons rfl hreads hstep.inBounds hstep.wraps (fun hw => hstep.whole hw next rfl)
        hstep.sends
    | none =>
      -- the rest is a chunk of its own, in front of which nothing waits
      obtain ⟨hskip, hdata⟩ := hstep.again rfl
      have hlen' : rest.length < UInt64.size := by
        rw [← hdrop, List.length_drop]
        omega
      have hat : At (step s byte).1 0 0 := ⟨fun _ _ => Nat.le_refl _, by simp [hskip]⟩
      have hreads := ih List.drop_zero (Nat.zero_le rest.length) hlen' hat
      rw [← ht] at hreads
      refine reads_cons rfl hreads hstep.inBounds hstep.wraps (fun _ => ?_) hstep.sends
      simp [pending, hdata, show items events = _ from hstep.wholeAgain rfl]

/-- `const char *buffer, size_t size`. -/
abbrev Chunk := {buffer : List UInt8 // buffer.length < UInt64.size}

theorem take_lt (size : UInt64) (xs : List UInt8) : (xs.take size.toNat).length < UInt64.size :=
  Nat.lt_of_le_of_lt (List.length_take_le _ _) size.toNat_lt

/-- A chunk after the other. -/
def recvAll : Telnet → List Chunk → Telnet × List Event
  | telnet, [] => (telnet, [])
  | telnet, chunk :: chunks =>
    let (next, events) := telnet.telnetRecv chunk.val
    ((recvAll next chunks).1, events ++ (recvAll next chunks).2)

def stream (chunks : List Chunk) : List UInt8 := chunks.flatMap (·.val)

/-- Whether a byte is left out is forgotten at the next one. -/
theorem step_skip (telnet : Telnet) (skip skip' : Bool) (byte : UInt8) :
    (step ⟨telnet, skip⟩ byte).1 = (step ⟨telnet, skip'⟩ byte).1 := by
  unfold step
  split <;> rfl

theorem feed_telnet (telnet : Telnet) (skip skip' : Bool) (bytes : List UInt8) :
    (feed ⟨telnet, skip⟩ bytes).1.telnet = (feed ⟨telnet, skip'⟩ bytes).1.telnet := by
  cases bytes with
  | nil => rfl
  | cons byte rest => simp only [feed, step_skip telnet skip skip' byte]

theorem feed_whole {bytes : List UInt8} (h : Whole s bytes) : (feed s bytes).1.skip = false := by
  induction bytes generalizing s with
  | nil => exact h
  | cons byte rest ih => exact ih h.2

theorem telnetRecv_reads (telnet : Telnet) (chunk : Chunk) :
    Reads ⟨telnet, false⟩ chunk.val 0 0 chunk.val (telnet.telnetRecv chunk.val) :=
  processLoop_reads (s := ⟨telnet, false⟩) List.drop_zero (Nat.zero_le _) chunk.property
    ⟨fun _ _ => Nat.le_refl _, by simp⟩

/-- The parser's state after some chunks is that after their stream. -/
theorem recvAll_telnet (telnet : Telnet) (chunks : List Chunk) :
    (recvAll telnet chunks).1 = (feed ⟨telnet, false⟩ (stream chunks)).1.telnet := by
  induction chunks generalizing telnet with
  | nil => rfl
  | cons chunk chunks ih =>
    simp only [recvAll, stream, List.flatMap_cons, feed_append]
    rw [ih, (telnetRecv_reads telnet chunk).telnet]
    exact feed_telnet _ _ _ _

theorem recvAll_inBounds_iff (telnet : Telnet) (chunks : List Chunk) :
    (∀ e ∈ (recvAll telnet chunks).2, InBounds e) ↔
      Admitted (fun telnet chunk => (telnet.telnetRecv chunk.val).1)
        (fun telnet chunk => Whole ⟨telnet, false⟩ chunk.val) telnet chunks := by
  induction chunks generalizing telnet with
  | nil => simp [recvAll, Admitted]
  | cons chunk chunks ih =>
    have hreads := telnetRecv_reads telnet chunk
    have hhead : (∀ e ∈ (telnet.telnetRecv chunk.val).2, InBounds e) ↔
        Whole ⟨telnet, false⟩ chunk.val := by
      constructor
      · intro hin
        by_contra hnot
        obtain ⟨e, he, hout⟩ := hreads.wraps hnot
        exact hout (hin e he)
      · exact hreads.inBounds
    simp only [recvAll, Admitted, List.forall_mem_append, hhead, ih]

theorem recvAll_items {telnet : Telnet} {chunks : List Chunk}
    (h : ∀ e ∈ (recvAll telnet chunks).2, InBounds e) :
    items (recvAll telnet chunks).2 = (feed ⟨telnet, false⟩ (stream chunks)).2 := by
  rw [recvAll_inBounds_iff] at h
  induction chunks generalizing telnet with
  | nil => rfl
  | cons chunk chunks ih =>
    obtain ⟨hwhole, hrest⟩ := h
    have hreads := telnetRecv_reads telnet chunk
    have hnext : (feed ⟨telnet, false⟩ chunk.val).1 = ⟨(telnet.telnetRecv chunk.val).1, false⟩ := by
      have hskip := feed_whole hwhole
      rw [hreads.telnet]
      generalize (feed ⟨telnet, false⟩ chunk.val).1 = next at hskip
      exact hskip ▸ rfl
    simp only [recvAll, stream, List.flatMap_cons, feed_append, items_append]
    rw [ih hrest, hreads.items hwhole, hnext]
    simp [pending, stream]

/-- However a stream is cut, the parser ends in the same state, and unless a size has wrapped it
reports the same. -/
theorem cuts_agree (telnet : Telnet) (chunks chunks' : List Chunk)
    (h : stream chunks = stream chunks') :
    (recvAll telnet chunks).1 = (recvAll telnet chunks').1 ∧
      ((∀ e ∈ (recvAll telnet chunks).2, InBounds e) →
        (∀ e ∈ (recvAll telnet chunks').2, InBounds e) →
        items (recvAll telnet chunks).2 = items (recvAll telnet chunks').2) := by
  refine ⟨?_, fun hin hin' => ?_⟩
  · rw [recvAll_telnet, recvAll_telnet, h]
  · rw [recvAll_items hin, recvAll_items hin', h]

theorem cuts_agree_in_a_command :
    let telnet := telnetInit [] false
    let whole : Chunk := ⟨[0x61, 255, 251, 1, 0x62], by decide⟩
    let head : Chunk := ⟨[0x61, 255], by decide⟩
    let tail : Chunk := ⟨[251, 1, 0x62], by decide⟩
    (recvAll telnet [whole]).1 = (recvAll telnet [head, tail]).1 ∧
      ((∀ e ∈ (recvAll telnet [whole]).2, InBounds e) →
        (∀ e ∈ (recvAll telnet [head, tail]).2, InBounds e) →
        items (recvAll telnet [whole]).2 = items (recvAll telnet [head, tail]).2) :=
  cuts_agree _ _ _ rfl

/-- In a subnegotiation of the option whose end is not an IAC. -/
def Begun (telnet : Telnet) : Prop := telnet.state = .sbData ∧ telnet.sbTelopt = teloptCompress

/-- Behind the byte that ends such a subnegotiation the chunk has another one, which is not an
IAC. -/
def Complete (telnet : Telnet) (chunk : List UInt8) : Prop :=
  ∀ pre post, chunk = pre ++ Command.will.byte :: post → Begun (telnet.telnetRecv pre).1 →
    ∃ byte rest, post = byte :: rest ∧ byte ≠ iac

/-- What `Whole` asks for of the bytes behind one that is left out. -/
def Follows (bytes : List UInt8) : Prop := ∃ byte rest, bytes = byte :: rest ∧ byte ≠ iac

theorem step_skip_iff (s : Feed) (byte : UInt8) :
    (step s byte).1.skip = true ↔ Begun s.telnet ∧ byte = Command.will.byte := by
  obtain ⟨telnet, skip⟩ := s
  by_cases hdata : telnet.state = .data
  · have hl : (step ⟨telnet, skip⟩ byte).1.skip = false := by
      unfold step
      split
      · rfl
      · simp only [processByte, hdata, decide_eq_false_iff_not]
        split <;> simp
    simp [hl, Begun, hdata]
  · simp only [step, hdata, false_and, ↓reduceIte, decide_eq_true_eq]
    cases hstate : telnet.state with
    | data => exact absurd hstate hdata
    | iac =>
      simp only [processByte, hstate, Begun]
      by_cases hsb : byte = sb
      · simp [hsb]
      · cases Command.ofByte byte <;> simp [hsb]
    | negotiating cmd => simp [processByte, hstate, Begun]
    | sb => simp [processByte, hstate, Begun]
    | sbData =>
      simp only [processByte, hstate, Begun, true_and]
      by_cases hiac : byte = iac
      · subst hiac
        simp [show iac ≠ Command.will.byte by decide]
      · by_cases hwill : telnet.sbTelopt = teloptCompress ∧ byte = Command.will.byte
        · simp only [hiac, ↓reduceIte]
          simp [hwill]
        · simp only [hiac, hwill, ↓reduceIte, iff_false]
          split <;> simp
    | sbDataIac =>
      simp only [processByte, hstate, Begun]
      by_cases hse : byte = se
      · simp only [hse, ↓reduceIte]
        split <;> simp
      · by_cases hiac : byte = iac
        · simp only [hiac, show iac ≠ se by decide, ↓reduceIte]
          split <;> simp
        · simp only [hse, hiac, ↓reduceIte]
          split <;> simp

theorem whole_iff (s : Feed) (bytes : List UInt8) : Whole s bytes ↔
    (s.skip = true → Follows bytes) ∧ ∀ pre post, bytes = pre ++ Command.will.byte :: post →
      Begun (feed s pre).1.telnet → Follows post := by
  induction bytes generalizing s with
  | nil => simp [Whole, Follows]
  | cons byte rest ih =>
    have hhead : Follows (byte :: rest) ↔ byte ≠ iac := by
      constructor
      · rintro ⟨_, _, he, hne⟩
        cases he
        exact hne
      · exact fun hne => ⟨byte, rest, rfl, hne⟩
    have hsplit : (∀ pre post, byte :: rest = pre ++ Command.will.byte :: post →
        Begun (feed s pre).1.telnet → Follows post) ↔
        (byte = Command.will.byte → Begun s.telnet → Follows rest) ∧
          ∀ pre post, rest = pre ++ Command.will.byte :: post →
            Begun (feed (step s byte).1 pre).1.telnet → Follows post := by
      constructor
      · intro h
        refine ⟨fun hb => h [] rest (by rw [hb]; rfl), fun pre post he => ?_⟩
        exact h (byte :: pre) post (by rw [he]; rfl)
      · rintro ⟨hfirst, hlater⟩ pre post he
        cases pre with
        | nil =>
          obtain ⟨rfl, rfl⟩ := List.cons_eq_cons.mp he
          exact hfirst rfl
        | cons x pre =>
          obtain ⟨rfl, htail⟩ := List.cons_eq_cons.mp he
          exact hlater pre post htail
    simp only [Whole, ih, hhead, hsplit, step_skip_iff]
    constructor
    · rintro ⟨hnot, hnext, hlater⟩
      exact ⟨fun hskip he => hnot ⟨hskip, he⟩, fun hb hbegun => hnext ⟨hbegun, hb⟩, hlater⟩
    · rintro ⟨hskip, hfirst, hlater⟩
      exact ⟨fun h => hskip h.1 h.2, fun h => hfirst h.2 h.1, hlater⟩

theorem complete_iff (telnet : Telnet) (chunk : Chunk) :
    Whole ⟨telnet, false⟩ chunk.val ↔ Complete telnet chunk.val := by
  have hstate : ∀ pre post, chunk.val = pre ++ post →
      (telnet.telnetRecv pre).1 = (feed ⟨telnet, false⟩ pre).1.telnet := by
    intro pre post he
    have hlen := chunk.property
    rw [he, List.length_append] at hlen
    exact (telnetRecv_reads telnet ⟨pre, by omega⟩).telnet
  simp only [whole_iff, Bool.false_eq_true, false_implies, true_and, Complete, Follows]
  constructor <;> intro h pre post he hbegun
  · exact h pre post he (hstate pre _ he ▸ hbegun)
  · exact h pre post he ((hstate pre _ he).symm ▸ hbegun)

/-- The bytes that the parser reports are all in its chunk exactly when no chunk ends, or goes on
with an IAC, where the byte behind the marker of the first compression is left out. -/
theorem reports_inside_iff (telnet : Telnet) (chunks : List Chunk) :
    (∀ e ∈ (recvAll telnet chunks).2, InBounds e) ↔
      Admitted (fun telnet chunk => (telnet.telnetRecv chunk.val).1)
        (fun telnet chunk => Complete telnet chunk.val) telnet chunks := by
  rw [recvAll_inBounds_iff]
  apply admitted_congr_mem
  intro chunk _ telnet
  exact complete_iff telnet chunk

end Catchb.Proofs.TelnetStream
