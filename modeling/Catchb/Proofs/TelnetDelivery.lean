import Catchb.Proofs.TelnetWire

/-! What one user of the telnet library sends is what the other one receives. -/

namespace Catchb.Proofs.TelnetDelivery
open Lib Telnet
open TelnetStream
open TelnetTable (commands)
open TelnetWire (Same)

/-- What is sent in one piece. -/
inductive Message
  | data (bytes : List UInt8)
  | command (cmd : Command) (telopt : UInt8)
  | subnegotiation (telopt : UInt8) (buffer : List UInt8)

namespace Message

def wire : Message → List UInt8
  | data bytes => TelnetLink.wire (telnetSend bytes)
  | command cmd telopt => TelnetLink.wire [sendNegotiate cmd telopt]
  | subnegotiation telopt buffer => TelnetLink.wire (telnetSubnegotiation telopt buffer)

def deliver (t : Telnet) : Message → Telnet × List Item
  | data bytes => (t, bytes.map .byte)
  | command cmd telopt => ((t.negotiate cmd telopt).1, items (t.negotiate cmd telopt).2)
  | subnegotiation telopt buffer =>
    (t, items (.subnegotiation telopt buffer :: (parse telopt buffer).events))

/-- It fits into the buffer, and none of its bytes is taken for its end. -/
def Fits : Message → Prop
  | subnegotiation telopt buffer =>
    buffer.length ≤ 16384 ∧ (telopt = teloptCompress → Command.will.byte ∉ buffer)
  | _ => True

end Message

def deliverAll : Telnet → List Message → Telnet × List Item
  | t, [] => (t, [])
  | t, m :: ms => ((deliverAll (m.deliver t).1 ms).1, (m.deliver t).2 ++ (deliverAll (m.deliver t).1 ms).2)

/-- Between two messages. -/
structure Idle (t : Telnet) : Prop where
  state : t.state = .data
  size : t.bufferSize ∈ bufferSizes

/-- Equal in what the parser looks at. -/
structure Alike (t u : Telnet) : Prop where
  state : t.state = u.state
  sbTelopt : t.sbTelopt = u.sbTelopt
  buffer : t.buffer = u.buffer
  bufferSize : t.bufferSize = u.bufferSize

/-- No byte is left out. -/
def Steady : Feed → List UInt8 → Prop
  | s, [] => s.skip = false
  | s, byte :: rest => s.skip = false ∧ Steady (step s byte).1 rest

variable {t u v : Telnet} {s : Feed} {byte telopt : UInt8} {xs ys : List UInt8} {is js : List Item}

theorem Steady.skip (h : Steady s xs) : s.skip = false := by
  cases xs with
  | nil => exact h
  | cons x xs => exact h.1

theorem steady_append : Steady s (xs ++ ys) ↔ Steady s xs ∧ Steady (feed s xs).1 ys := by
  induction xs generalizing s with
  | nil => exact ⟨fun h => ⟨h.skip, h⟩, fun h => h.2⟩
  | cons x xs ih => simp only [List.cons_append, Steady, feed, ih, and_assoc]

theorem Steady.whole (h : Steady s xs) : Whole s xs := by
  induction xs generalizing s with
  | nil => exact h
  | cons x xs ih =>
    refine ⟨?_, ih h.2⟩
    rintro ⟨hskip, -⟩
    simp [h.1] at hskip

/-- What bytes leave of a parser that leaves none of them out. -/
structure Takes (t : Telnet) (xs : List UInt8) (u : Telnet) (is : List Item) : Prop where
  steady : Steady ⟨t, false⟩ xs
  feed : feed ⟨t, false⟩ xs = (⟨u, false⟩, is)

theorem takes_nil (t : Telnet) : Takes t [] t [] := ⟨rfl, rfl⟩

theorem takes_byte (h : step ⟨t, false⟩ byte = (⟨u, false⟩, is)) : Takes t [byte] u is := by
  constructor
  · exact ⟨rfl, by simp [h, Steady]⟩
  · simp [feed, h]

theorem takes_append (h : Takes t xs u is) (h' : Takes u ys v js) :
    Takes t (xs ++ ys) v (is ++ js) := by
  constructor
  · exact steady_append.mpr ⟨h.steady, by simpa [h.feed] using h'.steady⟩
  · simp [feed_append, h.feed, h'.feed]

/-- Bytes that are escaped one by one. -/
def escape (byte : UInt8) : List UInt8 := if byte = iac then [iac, iac] else [byte]

theorem wire_sendLoop (special : UInt8 → Option (List UInt8)) (prior bytes : List UInt8) :
    TelnetLink.wire (sendLoop special prior bytes) =
      prior ++ bytes.flatMap fun byte => (special byte).getD [byte] := by
  have hfirst : ∀ prior, TelnetLink.wire (if prior = [] then [] else [.send prior]) = prior := by
    intro prior
    split
    · rename_i he
      rw [he]
      rfl
    · simp [TelnetLink.wire]
  induction bytes generalizing prior with
  | nil => simpa [sendLoop] using hfirst prior
  | cons byte bytes ih =>
    simp only [sendLoop]
    cases hs : special byte with
    | none => simp [ih, hs]
    | some bytes' =>
      have hrest := ih []
      have hhead := hfirst prior
      simp only [TelnetLink.wire, List.nil_append] at hrest hhead
      simp [TelnetLink.wire, hrest, hhead, hs]

theorem wire_telnetSend (bytes : List UInt8) :
    TelnetLink.wire (telnetSend bytes) = bytes.flatMap escape := by
  rw [telnetSend, wire_sendLoop, List.nil_append]
  refine congrArg (List.flatMap · bytes) (funext fun byte => ?_)
  unfold escape
  split <;> rfl

theorem takes_iac (h : t.state = .data) : Takes t [iac] { t with state := .iac } [] := by
  apply takes_byte
  simp [step, h, processByte]

theorem takes_escape (h : t.state = .data) (byte : UInt8) :
    Takes t (escape byte) t [.byte byte] := by
  unfold escape
  split
  · rename_i he
    subst he
    have hback : { t with state := .data } = t := by rw [← h]
    have hnext : Takes { t with state := .iac } [iac] { t with state := .data } [.byte iac] := by
      apply takes_byte
      simp [step, processByte, show iac ≠ sb by decide, show Command.ofByte iac = none by decide,
        items, itemsOf]
    rw [hback] at hnext
    exact takes_append (takes_iac h) hnext
  · rename_i hne
    apply takes_byte
    simp [step, h, hne]

theorem takes_data (h : t.state = .data) (bytes : List UInt8) :
    Takes t (bytes.flatMap escape) t (bytes.map .byte) := by
  induction bytes with
  | nil => exact takes_nil t
  | cons byte bytes ih => exact takes_append (takes_escape h byte) ih

theorem setSide_alike (t : Telnet) (telopt : UInt8) (us : Bool) (state : Option Q) :
    Alike (t.setSide telopt us state) t := by
  have hset : ∀ us him, Alike (t.setRfc1143 telopt us him) t := by
    intro us him
    unfold setRfc1143
    split <;> exact ⟨rfl, rfl, rfl, rfl⟩
  cases state with
  | none => exact ⟨rfl, rfl, rfl, rfl⟩
  | some state =>
    simp only [setSide]
    split <;> exact hset _ _

/-- A negotiation leaves the parser alone. -/
theorem negotiate_alike (t : Telnet) (cmd : Command) (telopt : UInt8) :
    Alike (t.negotiate cmd telopt).1 t := by
  unfold negotiate
  split
  · exact ⟨rfl, rfl, rfl, rfl⟩
  · exact setSide_alike _ _ _ _

theorem takes_command (h : Idle t) (cmd : Command) (telopt : UInt8) :
    ∃ u, Takes t [iac, cmd.byte, telopt] u (items (t.negotiate cmd telopt).2) ∧ Idle u ∧
      Same u (t.negotiate cmd telopt).1 := by
  have hsame : Same { t with state := .negotiating cmd } t := ⟨rfl, rfl, rfl, rfl⟩
  obtain ⟨hend, hevents⟩ := hsame.negotiate cmd telopt
  have hcmd : Takes { t with state := .iac } [cmd.byte] { t with state := .negotiating cmd } [] := by
    apply takes_byte
    cases cmd <;> rfl
  have hlast : Takes { t with state := .negotiating cmd } [telopt]
      { ({ t with state := .negotiating cmd }.negotiate cmd telopt).1 with state := .data }
      (items (t.negotiate cmd telopt).2) := by
    apply takes_byte
    simp [step, processByte, hevents]
  refine ⟨_, takes_append (takes_iac h.state) (takes_append hcmd hlast), ⟨rfl, ?_⟩,
    ⟨hend.telopts, hend.proxy, hend.q, hend.qSize⟩⟩
  rw [(negotiate_alike _ cmd telopt).bufferSize]
  exact h.size

/-- In a subnegotiation, of which `taken` is there. -/
structure Within (t : Telnet) (telopt : UInt8) (taken : List UInt8) (u : Telnet) : Prop where
  state : u.state = .sbData
  sbTelopt : u.sbTelopt = telopt
  buffer : u.buffer = taken
  size : u.bufferSize ∈ bufferSizes
  room : taken.length ≤ u.bufferSize
  same : Same u t

theorem bufferByte_takes (h : u.bufferSize ∈ bufferSizes) (hroom : u.buffer.length ≤ u.bufferSize)
    (hlt : u.buffer.length < 16384) (byte : UInt8) : ∃ size ∈ bufferSizes,
      u.buffer.length < size ∧
      u.bufferByte byte =
        (true, { u with buffer := u.buffer ++ [byte], bufferSize := size }, []) := by
  by_cases hfull : u.buffer.length = u.bufferSize
  · simp only [bufferByte, hfull, ↓reduceIte]
    have hsize : u.bufferSize < 16384 := hfull ▸ hlt
    simp only [bufferSizes, List.mem_cons, List.not_mem_nil, or_false] at h
    rcases h with h | h | h | h | h
    · exact ⟨512, by decide, by omega, by simp [h, bufferSizes, List.idxOf, List.findIdx_cons]⟩
    · exact ⟨2048, by decide, by omega, by simp [h, bufferSizes, List.idxOf, List.findIdx_cons]⟩
    · exact ⟨8192, by decide, by omega, by simp [h, bufferSizes, List.idxOf, List.findIdx_cons]⟩
    · exact ⟨16384, by decide, by omega, by simp [h, bufferSizes, List.idxOf, List.findIdx_cons]⟩
    · omega
  · exact ⟨u.bufferSize, h, by omega, by simp [bufferByte, hfull]⟩

theorem within_escape {taken : List UInt8} (h : Within t telopt taken u)
    (hlt : taken.length < 16384) (hend : telopt = teloptCompress → byte ≠ Command.will.byte) :
    ∃ v, Takes u (escape byte) v [] ∧ Within t telopt (taken ++ [byte]) v := by
  have hsame : ∀ v : Telnet, Same { u with
      state := v.state
      buffer := v.buffer
      bufferSize := v.bufferSize } t :=
    fun v => ⟨h.same.telopts, h.same.proxy, h.same.q, h.same.qSize⟩
  have hroom := h.room
  rw [← h.buffer] at hroom hlt
  unfold escape
  split
  · rename_i he
    subst he
    obtain ⟨size, hsize, hlen, hbyte⟩ :=
      bufferByte_takes (u := { u with state := .sbDataIac }) h.size hroom hlt iac
    have hfirst : Takes u [iac] { u with state := .sbDataIac } [] := by
      apply takes_byte
      simp [step, processByte, h.state]
    have hnext : Takes { u with state := .sbDataIac } [iac]
        { u with buffer := u.buffer ++ [iac], bufferSize := size, state := .sbData } [] := by
      apply takes_byte
      simp [step, processByte, hbyte, show iac ≠ se by decide]
    refine ⟨_, takes_append hfirst hnext, rfl, h.sbTelopt, ?_, hsize, ?_, hsame ⟨[], false, [], 0,
      u.buffer ++ [iac], size, .sbData, 0⟩⟩
    · rw [h.buffer]
    · rw [← h.buffer, List.length_append, List.length_singleton]
      exact hlen
  · rename_i hne
    obtain ⟨size, hsize, hlen, hbyte⟩ := bufferByte_takes h.size hroom hlt byte
    have hend' : ¬(u.sbTelopt = teloptCompress ∧ byte = Command.will.byte) := by
      rintro ⟨htelopt, hbyte⟩
      exact hend (h.sbTelopt ▸ htelopt) hbyte
    have hnext : Takes u [byte] { u with buffer := u.buffer ++ [byte], bufferSize := size } [] := by
      apply takes_byte
      simp [step, processByte, h.state, hne, hend', hbyte]
    refine ⟨_, hnext, h.state, h.sbTelopt, ?_, hsize, ?_, hsame ⟨[], false, [], 0,
      u.buffer ++ [byte], size, u.state, 0⟩⟩
    · rw [h.buffer]
    · rw [← h.buffer, List.length_append, List.length_singleton]
      exact hlen

theorem within_data {buffer taken : List UInt8} (h : Within t telopt taken u)
    (hlen : taken.length + buffer.length ≤ 16384)
    (hend : telopt = teloptCompress → Command.will.byte ∉ buffer) :
    ∃ v, Takes u (buffer.flatMap escape) v [] ∧ Within t telopt (taken ++ buffer) v := by
  induction buffer generalizing u taken with
  | nil => exact ⟨u, takes_nil u, by simpa using h⟩
  | cons byte buffer ih =>
    rw [List.length_cons] at hlen
    have hbyte : telopt = teloptCompress → byte ≠ Command.will.byte :=
      fun ht he => hend ht (he ▸ List.mem_cons_self)
    obtain ⟨v, htakes, hwithin⟩ := within_escape h (by omega) hbyte
    obtain ⟨w, hrest, hall⟩ := ih hwithin (by simp; omega)
      fun ht hm => hend ht (List.mem_cons_of_mem _ hm)
    refine ⟨w, takes_append htakes hrest, ?_⟩
    simpa using hall

theorem takes_subnegotiation (h : Idle t) {buffer : List UInt8} (hlen : buffer.length ≤ 16384)
    (hend : telopt = teloptCompress → Command.will.byte ∉ buffer) :
    ∃ u, Takes t (TelnetLink.wire (telnetSubnegotiation telopt buffer)) u
        (items (.subnegotiation telopt buffer :: (parse telopt buffer).events)) ∧
      Idle u ∧ Same u t := by
  have hsb : Takes { t with state := .iac } [sb] { t with state := .sb } [] := by
    apply takes_byte
    rfl
  have htelopt : Takes { t with state := .sb } [telopt]
      { t with sbTelopt := telopt, buffer := [], state := .sbData } [] := by
    apply takes_byte
    rfl
  have hopen := takes_append (takes_iac h.state) (takes_append hsb htelopt)
  have hwithin : Within t telopt [] { t with sbTelopt := telopt, buffer := [], state := .sbData } :=
    ⟨rfl, rfl, rfl, h.size, Nat.zero_le _, ⟨rfl, rfl, rfl, rfl⟩⟩
  obtain ⟨u, hdata, hu⟩ := within_data hwithin (by simpa using hlen) hend
  have hiac : Takes u [iac] { u with state := .sbDataIac } [] := by
    apply takes_byte
    simp [step, processByte, hu.state]
  have hse : Takes { u with state := .sbDataIac } [se]
      { u with state := .data, buffer := (parse telopt buffer).buffer }
      (items (.subnegotiation telopt buffer :: (parse telopt buffer).events)) := by
    apply takes_byte
    have hbuffer : u.buffer = buffer := by simpa using hu.buffer
    simp [step, processByte, subnegotiate, hu.sbTelopt, hbuffer]
  have hwire : TelnetLink.wire (telnetSubnegotiation telopt buffer) =
      [iac, sb, telopt] ++ (buffer.flatMap escape ++ [iac, se]) := by
    rw [← wire_telnetSend]
    simp [TelnetLink.wire, telnetSubnegotiation]
  have hall := takes_append hopen (takes_append hdata (takes_append hiac hse))
  rw [hwire]
  exact ⟨{ u with state := .data, buffer := (parse telopt buffer).buffer }, by simpa using hall,
    ⟨rfl, hu.size⟩,
    ⟨hu.same.telopts, hu.same.proxy, hu.same.q, hu.same.qSize⟩⟩

/-- A message as it comes in, at a parser that negotiates like `v`. -/
theorem message_takes (h : Idle t) (hs : Same t v) {m : Message} (hm : m.Fits) :
    ∃ u, Takes t m.wire u (m.deliver v).2 ∧ Idle u ∧ Same u (m.deliver v).1 := by
  cases m with
  | data bytes =>
    refine ⟨t, ?_, h, hs⟩
    rw [Message.wire, wire_telnetSend]
    exact takes_data h.state bytes
  | command cmd telopt =>
    obtain ⟨u, htakes, hidle, hu⟩ := takes_command h cmd telopt
    obtain ⟨hend, hevents⟩ := hs.negotiate cmd telopt
    rw [hevents] at htakes
    exact ⟨u, htakes, hidle, hu.trans hend⟩
  | subnegotiation telopt buffer =>
    obtain ⟨u, htakes, hidle, hu⟩ := takes_subnegotiation h hm.1 hm.2
    exact ⟨u, htakes, hidle, hu.trans hs⟩

theorem messages_take (h : Idle t) (hs : Same t v) {ms : List Message} (hm : ∀ m ∈ ms, m.Fits) :
    ∃ u, Takes t (ms.flatMap Message.wire) u (deliverAll v ms).2 ∧ Idle u ∧
      Same u (deliverAll v ms).1 := by
  induction ms generalizing t v with
  | nil => exact ⟨t, takes_nil t, h, hs⟩
  | cons m ms ih =>
    obtain ⟨hhead, hrest⟩ := List.forall_mem_cons.mp hm
    obtain ⟨u, htakes, hidle, hu⟩ := message_takes h hs hhead
    obtain ⟨w, hmore, hend, hw⟩ := ih hidle hu hrest
    exact ⟨w, takes_append htakes hmore, hend, hw⟩

theorem recvAll_steady {chunks : List Chunk} (h : Steady ⟨t, false⟩ (stream chunks)) :
    ∀ e ∈ (recvAll t chunks).2, InBounds e := by
  rw [recvAll_inBounds_iff]
  induction chunks generalizing t with
  | nil => trivial
  | cons chunk chunks ih =>
    obtain ⟨hchunk, hrest⟩ := steady_append.mp h
    refine ⟨hchunk.whole, ih ?_⟩
    have hnext : (feed ⟨t, false⟩ chunk.val).1 = ⟨(t.telnetRecv chunk.val).1, false⟩ := by
      have hskip := hrest.skip
      rw [(telnetRecv_reads t chunk).telnet]
      generalize (feed ⟨t, false⟩ chunk.val).1 = next at hskip
      exact hskip ▸ rfl
    exact hnext ▸ hrest

/-- However messages are cut into chunks, they come in as what they are. -/
theorem messages_delivered (t : Telnet) (ms : List Message) (chunks : List Chunk) (h : Idle t)
    (hm : ∀ m ∈ ms, m.Fits) (hs : stream chunks = ms.flatMap Message.wire) :
    (∀ e ∈ (recvAll t chunks).2, InBounds e) ∧
      items (recvAll t chunks).2 = (deliverAll t ms).2 ∧
      Idle (recvAll t chunks).1 ∧ Same (recvAll t chunks).1 (deliverAll t ms).1 := by
  obtain ⟨u, htakes, hidle, hu⟩ := messages_take h (.refl t) hm
  rw [← hs] at htakes
  have hin := recvAll_steady htakes.steady
  have hend : (recvAll t chunks).1 = u := by rw [recvAll_telnet, htakes.feed]
  rw [hend, recvAll_items hin, htakes.feed]
  exact ⟨hin, rfl, hidle, hu⟩

theorem messages_delivered_in_pieces :
    let t := telnetInit [] false
    let ms : List Message := [.data [0x61], .subnegotiation 24 [1]]
    let chunks : List Chunk :=
      [⟨[0x61, 255, 250], by decide⟩, ⟨[24, 1, 255], by decide⟩, ⟨[240], by decide⟩]
    (∀ e ∈ (recvAll t chunks).2, InBounds e) ∧
      items (recvAll t chunks).2 = (deliverAll t ms).2 ∧
      Idle (recvAll t chunks).1 ∧ Same (recvAll t chunks).1 (deliverAll t ms).1 :=
  messages_delivered _ _ _ ⟨rfl, by decide⟩ (by simp [Message.Fits, teloptCompress]) rfl

/-- What an end is told: data byte for byte, and subnegotiations. -/
inductive Told
  | byte (byte : UInt8)
  | subnegotiation (telopt : UInt8) (buffer : List UInt8)
  deriving DecidableEq

def toldOf : Item → Option Told
  | .byte byte => some (.byte byte)
  | .event (.subnegotiation telopt buffer) => some (.subnegotiation telopt buffer)
  | .event _ => none

def told (is : List Item) : List Told := is.filterMap toldOf

@[simp] theorem told_append (is js : List Item) : told (is ++ js) = told is ++ told js :=
  List.filterMap_append

theorem told_bytes (bytes : List UInt8) : told (bytes.map .byte) = bytes.map .byte := by
  induction bytes with
  | nil => rfl
  | cons byte bytes ih => simpa [told, toldOf] using ih

theorem told_items {events : List Event} (h : ∀ e ∈ events, told (itemsOf e) = []) :
    told (items events) = [] := by
  induction events with
  | nil => rfl
  | cons e events ih =>
    obtain ⟨he, hevents⟩ := List.forall_mem_cons.mp h
    have hcons : items (e :: events) = itemsOf e ++ items events := rfl
    rw [hcons, told_append, he, ih hevents]
    rfl

theorem parse_told (telopt : UInt8) (buffer : List UInt8) :
    told (items (parse telopt buffer).events) = [] := by
  refine told_items fun e he => ?_
  have hr := parse_reports telopt buffer e he
  cases e with
  | data | send | subnegotiation => exact hr.elim
  | _ => rfl

theorem negotiate_told (t : Telnet) (cmd : Command) (telopt : UInt8) :
    told (items (t.negotiate cmd telopt).2) = [] := by
  unfold negotiate
  split
  · rfl
  · refine told_items fun e he => ?_
    simp only [Case.events, List.mem_append, List.mem_map] at he
    rcases he with (⟨_, -, rfl⟩ | ⟨_, -, rfl⟩) | he
    · rfl
    · rfl
    · split at he
      · obtain rfl := List.mem_singleton.mp he
        rfl
      · cases he

/-- The two parsers do the same with a byte. -/
structure AlikeStep (r r' : Telnet × List Event × Option Nat) : Prop where
  alike : Alike r.1 r'.1
  start : r.2.2 = r'.2.2
  told : TelnetDelivery.told (items r.2.1) = TelnetDelivery.told (items r'.2.1)

theorem Alike.eq (h : Alike t u) :
    ∃ telopts proxy q qSize, t = { u with telopts, proxy, q, qSize } := by
  refine ⟨t.telopts, t.proxy, t.q, t.qSize, ?_⟩
  rw [← h.state, ← h.sbTelopt, ← h.buffer, ← h.bufferSize]

theorem bufferByte_alike (h : Alike t u) (byte : UInt8) :
    (t.bufferByte byte).1 = (u.bufferByte byte).1 ∧
      Alike (t.bufferByte byte).2.1 (u.bufferByte byte).2.1 ∧
      (t.bufferByte byte).2.2 = (u.bufferByte byte).2.2 := by
  obtain ⟨telopts, proxy, q, qSize, rfl⟩ := h.eq
  simp only [bufferByte]
  split
  · split <;> exact ⟨rfl, ⟨rfl, rfl, rfl, rfl⟩, rfl⟩
  · exact ⟨rfl, ⟨rfl, rfl, rfl, rfl⟩, rfl⟩

/-- A byte that is buffered, or with which the subnegotiation is given up. -/
theorem buffered_alike (h : Alike t u) (byte : UInt8) (state : State → State) :
    AlikeStep
      (match t.bufferByte byte with
      | (true, t, events) => ({ t with state := state t.state }, events, some 0)
      | (false, t, events) => ({ t with state := .data }, events, some 1))
      (match u.bufferByte byte with
      | (true, u, events) => ({ u with state := state u.state }, events, some 0)
      | (false, u, events) => ({ u with state := .data }, events, some 1)) := by
  obtain ⟨hok, halike, hevents⟩ := bufferByte_alike h byte
  generalize t.bufferByte byte = r at hok halike hevents
  generalize u.bufferByte byte = r' at hok halike hevents
  obtain ⟨ok, t', events⟩ := r
  obtain ⟨ok', u', events'⟩ := r'
  simp only at hok halike hevents
  subst hok hevents
  cases ok with
  | true => exact ⟨⟨congrArg state halike.state, halike.sbTelopt, halike.buffer,
      halike.bufferSize⟩, rfl, rfl⟩
  | false => exact ⟨⟨rfl, halike.sbTelopt, halike.buffer, halike.bufferSize⟩, rfl, rfl⟩

theorem iac_alike (nested : Telnet → UInt8 → Telnet × List Event) (h : Alike t u)
    (hstate : u.state = .iac) (byte : UInt8) :
    AlikeStep (processByte nested t [] 0 0 byte) (processByte nested u [] 0 0 byte) := by
  obtain ⟨telopts, proxy, q, qSize, rfl⟩ := h.eq
  simp only [processByte, hstate]
  split
  · exact ⟨⟨rfl, rfl, rfl, rfl⟩, rfl, rfl⟩
  · split <;> exact ⟨⟨rfl, rfl, rfl, rfl⟩, rfl, rfl⟩

/-- Behind an unfinished subnegotiation the byte is a command for both. -/
theorem processNested_alike (h : Alike t u) (hstate : u.state = .iac) (byte : UInt8) :
    Alike (processNested t byte).1 (processNested u byte).1 ∧
      told (items (processNested t byte).2) = told (items (processNested u byte).2) := by
  obtain ⟨halike, -, htold⟩ := iac_alike (fun telnet _ => (telnet, [])) h hstate byte
  rw [processNested_iac hstate, processNested_iac (h.state.trans hstate)]
  exact ⟨halike, htold⟩

theorem sbDataIac_alike (h : Alike t u) (hstate : u.state = .sbDataIac) (byte : UInt8) :
    AlikeStep (processByte processNested t [] 0 0 byte)
      (processByte processNested u [] 0 0 byte) := by
  by_cases hiac : byte = iac
  · simp only [processByte, h.state, hstate, hiac, show iac ≠ se by decide, ↓reduceIte]
    exact buffered_alike h iac fun _ => .sbData
  obtain ⟨telopts, proxy, q, qSize, rfl⟩ := h.eq
  simp only [processByte, hstate, hiac, subnegotiate, ↓reduceIte]
  split
  · exact ⟨⟨rfl, rfl, rfl, rfl⟩, rfl, rfl⟩
  · by_cases hret : (parse u.sbTelopt u.buffer).ret = true
    · simp only [hret, ↓reduceIte]
      exact ⟨⟨rfl, rfl, rfl, rfl⟩, rfl, rfl⟩
    · simp only [hret, Bool.false_eq_true, ↓reduceIte]
      have hnested := processNested_alike
        (t := { u with
          telopts, proxy, q, qSize
          buffer := (parse u.sbTelopt u.buffer).buffer
          state := .iac })
        (u := { u with buffer := (parse u.sbTelopt u.buffer).buffer, state := .iac })
        ⟨rfl, rfl, rfl, rfl⟩ rfl byte
      refine ⟨hnested.1, rfl, ?_⟩
      simp only [items_append, told_append, hnested.2]

theorem processByte_alike (h : Alike t u) (byte : UInt8) :
    AlikeStep (processByte processNested t [] 0 0 byte)
      (processByte processNested u [] 0 0 byte) := by
  cases hstate : u.state with
  | data =>
    simp only [processByte, h.state, hstate]
    split
    · exact ⟨⟨rfl, h.sbTelopt, h.buffer, h.bufferSize⟩, rfl, rfl⟩
    · exact ⟨h, rfl, rfl⟩
  | iac => exact iac_alike _ h hstate byte
  | negotiating cmd =>
    have ht := negotiate_alike t cmd byte
    have hu := negotiate_alike u cmd byte
    simp only [processByte, h.state, hstate]
    exact ⟨⟨rfl, (ht.sbTelopt.trans h.sbTelopt).trans hu.sbTelopt.symm,
      (ht.buffer.trans h.buffer).trans hu.buffer.symm,
      (ht.bufferSize.trans h.bufferSize).trans hu.bufferSize.symm⟩, rfl,
      (negotiate_told t cmd byte).trans (negotiate_told u cmd byte).symm⟩
  | sb =>
    simp only [processByte, h.state, hstate]
    exact ⟨⟨rfl, rfl, rfl, h.bufferSize⟩, rfl, rfl⟩
  | sbData =>
    obtain ⟨telopts, proxy, q, qSize, rfl⟩ := h.eq
    simp only [hstate] at h
    simp only [processByte, hstate]
    split
    · exact ⟨⟨rfl, rfl, rfl, rfl⟩, rfl, rfl⟩
    · split
      · exact ⟨⟨rfl, rfl, rfl, rfl⟩, rfl, rfl⟩
      · exact buffered_alike h byte id
  | sbDataIac => exact sbDataIac_alike h hstate byte

theorem step_alike {s s' : Feed} (h : Alike s.telnet s'.telnet) (hskip : s.skip = s'.skip)
    (byte : UInt8) :
    Alike (step s byte).1.telnet (step s' byte).1.telnet ∧
      (step s byte).1.skip = (step s' byte).1.skip ∧
      told (step s byte).2 = told (step s' byte).2 := by
  obtain ⟨halike, hstart, htold⟩ := processByte_alike h byte
  simp only [step, h.state, hskip]
  split
  · exact ⟨h, rfl, rfl⟩
  · exact ⟨halike, by rw [hstart], htold⟩

theorem feed_alike {s s' : Feed} (h : Alike s.telnet s'.telnet) (hskip : s.skip = s'.skip)
    (xs : List UInt8) :
    Alike (feed s xs).1.telnet (feed s' xs).1.telnet ∧
      (feed s xs).1.skip = (feed s' xs).1.skip ∧ told (feed s xs).2 = told (feed s' xs).2 := by
  induction xs generalizing s s' with
  | nil => exact ⟨h, hskip, rfl⟩
  | cons x xs ih =>
    obtain ⟨halike, hskip', htold⟩ := step_alike h hskip x
    obtain ⟨hend, hend', hrest⟩ := ih halike hskip'
    exact ⟨hend, hend', by simp only [feed, told_append, htold, hrest]⟩

theorem alike_steady {s s' : Feed} (h : Alike s.telnet s'.telnet) (hskip : s.skip = s'.skip)
    (hs : Steady s' xs) : Steady s xs := by
  induction xs generalizing s s' with
  | nil => exact hskip.trans hs
  | cons x xs ih =>
    obtain ⟨halike, hskip', -⟩ := step_alike h hskip x
    exact ⟨hskip.trans hs.1, ih halike hskip' hs.2⟩

/-- All that is to be sent are commands. -/
def OnlyCommands (events : List Event) : Prop :=
  ∃ cmds : List (Command × UInt8), sends events = cmds.map fun c => [iac, c.1.byte, c.2]

theorem onlyCommands_append {events events' : List Event} (h : OnlyCommands events)
    (h' : OnlyCommands events') : OnlyCommands (events ++ events') := by
  obtain ⟨cmds, hs⟩ := h
  obtain ⟨cmds', hs'⟩ := h'
  exact ⟨cmds ++ cmds', by rw [sends_append, hs, hs', List.map_append]⟩

theorem onlyCommands_quiet {events : List Event} (h : sends events = []) : OnlyCommands events :=
  ⟨[], h⟩

theorem sendNegotiate_only (cmd : Command) (telopt : UInt8) :
    OnlyCommands [sendNegotiate cmd telopt] :=
  ⟨[(cmd, telopt)], rfl⟩

theorem negotiate_only (t : Telnet) (cmd : Command) (telopt : UInt8) :
    OnlyCommands (t.negotiate cmd telopt).2 := by
  unfold negotiate
  split
  · exact onlyCommands_quiet rfl
  · refine onlyCommands_append (onlyCommands_append ?_ ?_) ?_
    · cases (t.negotiateCase cmd telopt).sent with
      | none => exact onlyCommands_quiet rfl
      | some sent => exact sendNegotiate_only sent telopt
    · cases (t.negotiateCase cmd telopt).event <;> exact onlyCommands_quiet rfl
    · split <;> exact onlyCommands_quiet rfl

theorem telnetNegotiate_only (t : Telnet) (cmd : Command) (telopt : UInt8) :
    OnlyCommands (t.telnetNegotiate cmd telopt).2 := by
  unfold telnetNegotiate
  split
  · exact sendNegotiate_only cmd telopt
  · simp only
    split
    · exact sendNegotiate_only cmd telopt
    · exact onlyCommands_quiet rfl

theorem iac_quiet (nested : Telnet → UInt8 → Telnet × List Event) (hstate : t.state = .iac)
    (byte : UInt8) : sends (processByte nested t [] 0 0 byte).2.1 = [] := by
  simp only [processByte, hstate]
  split
  · rfl
  · split
    · rfl
    · split <;> rfl

theorem processByte_only (t : Telnet) (byte : UInt8) :
    OnlyCommands (processByte processNested t [] 0 0 byte).2.1 := by
  cases hstate : t.state with
  | data =>
    simp only [processByte, hstate]
    split <;> exact onlyCommands_quiet rfl
  | iac => exact onlyCommands_quiet (iac_quiet _ hstate byte)
  | negotiating cmd =>
    simp only [processByte, hstate]
    exact negotiate_only t cmd byte
  | sb =>
    simp only [processByte, hstate]
    exact onlyCommands_quiet rfl
  | sbData =>
    simp only [processByte, hstate]
    split
    · exact onlyCommands_quiet rfl
    · split
      · exact onlyCommands_quiet rfl
      · obtain ⟨-, -, hsends⟩ := TelnetWire.bufferByte_same t byte
        split <;> rename_i he <;> rw [he] at hsends <;> exact onlyCommands_quiet hsends
  | sbDataIac =>
    simp only [processByte, hstate]
    split
    · exact onlyCommands_quiet (TelnetWire.subnegotiate_same { t with state := .data }).2.2
    · split
      · obtain ⟨-, -, hsends⟩ := TelnetWire.bufferByte_same t iac
        split <;> rename_i he <;> rw [he] at hsends <;> exact onlyCommands_quiet hsends
      · have hsub := (TelnetWire.subnegotiate_same { t with state := .iac }).2.2
        split
        · exact onlyCommands_quiet hsub
        · rw [processNested_iac rfl]
          refine onlyCommands_quiet ?_
          rw [sends_append, iac_quiet _ rfl]
          exact (List.append_nil _).trans hsub

theorem feed_only (s : Feed) (xs : List UInt8) : ∃ cmds : List (Command × UInt8),
    itemSends (feed s xs).2 = cmds.map fun c => [iac, c.1.byte, c.2] := by
  induction xs generalizing s with
  | nil => exact ⟨[], rfl⟩
  | cons x xs ih =>
    obtain ⟨cmds, hrest⟩ := ih (step s x).1
    have hhead : ∃ cmds : List (Command × UInt8),
        itemSends (step s x).2 = cmds.map fun c => [iac, c.1.byte, c.2] := by
      by_cases hstate : s.telnet.state = .data
      · exact ⟨[], (TelnetWire.step_data hstate x).2⟩
      · rw [(TelnetWire.step_other hstate x).2]
        exact processByte_only s.telnet x
    obtain ⟨cmds', hhead⟩ := hhead
    exact ⟨cmds' ++ cmds, by simp only [feed, itemSends_append, hhead, hrest, List.map_append]⟩

end Catchb.Proofs.TelnetDelivery
