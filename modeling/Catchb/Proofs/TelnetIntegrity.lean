import Catchb.Proofs.TelnetDelivery

/-! What comes out at one end of a link is what went in at the other one. -/

namespace Catchb.Proofs.TelnetIntegrity
open Lib Telnet
open TelnetStream
open TelnetDelivery

def tells : Message → List Told
  | .data bytes => bytes.map .byte
  | .command .. => []
  | .subnegotiation telopt buffer => [.subnegotiation telopt buffer]

/-- A text as `telnet_printf` sends it. -/
def newlines (output : List UInt8) : List UInt8 :=
  output.flatMap fun byte =>
    if byte = 13 then [13, 0] else if byte = 10 then [13, 10] else [byte]

/-- What a step tells the far end. -/
def said : LinkStep → List Told
  | .near (.data buffer) => buffer.map .byte
  | .near (.printf output) => (newlines output).map .byte
  | .near (.subnegotiation telopt buffer) => [.subnegotiation telopt buffer]
  | _ => []

def Fits : LinkStep → Prop
  | .near (.subnegotiation telopt buffer) => (Message.subnegotiation telopt buffer).Fits
  | _ => True

/-- What a step reports to the far end of what comes in. -/
def reported (s : TelnetLink) : LinkStep → List Event
  | .toFar size => (s.result (.toFar size)).2
  | _ => []

def heard : TelnetLink → List LinkStep → List Event
  | _, [] => []
  | s, a :: os => reported s a ++ heard (s.step a) os

/-- The messages that were sent to the far end, and the bytes that it has of them. -/
structure Carries (start : Telnet) (s : TelnetLink) (received : List UInt8) (ms : List Message) :
    Prop where
  bytes : received ++ s.toFar = ms.flatMap Message.wire
  fits : ∀ m ∈ ms, m.Fits
  alike : Alike s.far (feed ⟨start, false⟩ received).1.telnet

variable {start : Telnet} {s : TelnetLink} {received : List UInt8} {ms : List Message}

theorem deliver_told (t : Telnet) (m : Message) : told (m.deliver t).2 = tells m := by
  cases m with
  | data bytes => exact told_bytes bytes
  | command cmd telopt => exact negotiate_told t cmd telopt
  | subnegotiation telopt buffer =>
    have hcons : items (.subnegotiation telopt buffer :: (parse telopt buffer).events) =
        .event (.subnegotiation telopt buffer) :: items (parse telopt buffer).events := rfl
    have hnone := parse_told telopt buffer
    unfold told at hnone
    simp [Message.deliver, hcons, told, toldOf, hnone, tells]

theorem deliverAll_told (t : Telnet) (ms : List Message) :
    told (deliverAll t ms).2 = ms.flatMap tells := by
  induction ms generalizing t with
  | nil => rfl
  | cons m ms ih => simp only [deliverAll, told_append, deliver_told, ih, List.flatMap_cons]

/-- What is fed to the start so far leaves no byte out, and what follows will not either. -/
theorem carries_steady (h : Carries start s received ms) (hidle : Idle start) :
    Steady ⟨start, false⟩ received ∧ Steady (feed ⟨start, false⟩ received).1 s.toFar := by
  obtain ⟨u, htakes, -, -⟩ := messages_take hidle (.refl start) h.fits
  rw [← h.bytes] at htakes
  exact steady_append.mp htakes.steady

theorem wire_printf (output : List UInt8) :
    TelnetLink.wire (telnetPrintf output) = (Message.data (newlines output)).wire := by
  rw [Message.wire, wire_telnetSend, telnetPrintf, wire_sendLoop, List.nil_append, newlines,
    List.flatMap_assoc]
  refine congrArg (List.flatMap · output) (funext fun byte => ?_)
  by_cases hiac : byte = iac
  · subst hiac
    rfl
  · by_cases hcr : byte = 13
    · subst hcr
      rfl
    · by_cases hlf : byte = 10
      · subst hlf
        rfl
      · simp [hiac, hcr, hlf, escape]

theorem wire_only {events : List Event} (h : OnlyCommands events) :
    ∃ new : List Message, TelnetLink.wire events = new.flatMap Message.wire ∧
      (∀ m ∈ new, m.Fits) ∧ new.flatMap tells = [] := by
  obtain ⟨cmds, hs⟩ := h
  refine ⟨cmds.map fun c => .command c.1 c.2, ?_, ?_, ?_⟩
  · rw [TelnetWire.wire_eq, hs, List.flatMap_map, ← List.flatMap_def]
    exact congrArg (List.flatMap · cmds) (funext fun c => by
      simp [Message.wire, TelnetLink.wire, sendNegotiate])
  · intro m hm
    obtain ⟨c, -, rfl⟩ := List.mem_map.mp hm
    trivial
  · rw [List.flatMap_map]
    exact List.flatMap_eq_nil_iff.mpr fun c _ => rfl

/-- What a call puts on the wire, as messages. -/
theorem call_messages (t : Telnet) {call : TelnetSend} (h : Fits (.near call)) :
    ∃ new : List Message, TelnetLink.wire (call.run t).2 = new.flatMap Message.wire ∧
      (∀ m ∈ new, m.Fits) ∧ new.flatMap tells = said (.near call) := by
  cases call with
  | negotiate cmd telopt => exact wire_only (telnetNegotiate_only t cmd telopt)
  | data buffer =>
    refine ⟨[.data buffer], by simp [TelnetSend.run, Message.wire], ?_, by simp [tells, said]⟩
    exact fun m hm => (List.mem_singleton.mp hm) ▸ trivial
  | printf output =>
    refine ⟨[.data (newlines output)], ?_, ?_, by simp [tells, said]⟩
    · simpa [TelnetSend.run] using wire_printf output
    · exact fun m hm => (List.mem_singleton.mp hm) ▸ trivial
  | subnegotiation telopt buffer =>
    refine ⟨[.subnegotiation telopt buffer], by simp [TelnetSend.run, Message.wire], ?_,
      by simp [tells, said]⟩
    exact fun m hm => (List.mem_singleton.mp hm) ▸ h

/-- Bytes that are sent behind the others. -/
theorem carries_sent (h : Carries start s received ms) {new : List Message} {bytes : List UInt8}
    (hnew : bytes = new.flatMap Message.wire) (hfits : ∀ m ∈ new, m.Fits) (near : Telnet)
    (toNear : List UInt8) :
    Carries start ⟨near, s.far, s.toFar ++ bytes, toNear⟩ received (ms ++ new) := by
  refine ⟨?_, List.forall_mem_append.mpr ⟨h.fits, hfits⟩, h.alike⟩
  rw [← List.append_assoc, h.bytes, hnew, List.flatMap_append]

theorem telnetNegotiate_alike (t : Telnet) (cmd : Command) (telopt : UInt8) :
    Alike (t.telnetNegotiate cmd telopt).1 t := by
  unfold telnetNegotiate
  split
  · exact ⟨rfl, rfl, rfl, rfl⟩
  · exact setSide_alike _ _ _ _

theorem run_alike (t : Telnet) (call : TelnetSend) : Alike (call.run t).1 t := by
  cases call with
  | negotiate cmd telopt => exact telnetNegotiate_alike t cmd telopt
  | _ => exact ⟨rfl, rfl, rfl, rfl⟩

/-- What a run does to the far end: it has more of the bytes of more messages, and what is reported
of them is inside of its chunks. -/
structure Tells (start : Telnet) (s : TelnetLink) (os : List LinkStep) (received : List UInt8)
    (ms : List Message) (received' : List UInt8) (ms' : List Message) : Prop where
  carries : Carries start (os.foldl TelnetLink.step s) received' ms'
  said : ms'.flatMap tells = ms.flatMap tells ++ os.flatMap said
  heard : told (feed ⟨start, false⟩ received').2 =
    told (feed ⟨start, false⟩ received).2 ++ told (items (heard s os))
  inBounds : ∀ e ∈ TelnetIntegrity.heard s os, InBounds e

/-- The far end takes the first bytes that are on their way to it. -/
theorem toFar_tells (h : Carries start s received ms) (hidle : Idle start) (size : UInt64) :
    ∃ received', Tells start s [.toFar size] received ms received' ms := by
  obtain ⟨-, hrest⟩ := carries_steady h hidle
  have halike := h.alike
  have hskip := hrest.skip
  rw [← List.take_append_drop size.toNat s.toFar] at hrest
  obtain ⟨htaken, -⟩ := steady_append.mp hrest
  generalize hnext : feed ⟨start, false⟩ received = next at halike hskip htaken
  have hfar : Steady ⟨s.far, false⟩ (s.toFar.take size.toNat) :=
    alike_steady halike hskip.symm htaken
  obtain ⟨hend, -, htold⟩ :=
    feed_alike (s := ⟨s.far, false⟩) halike hskip.symm (s.toFar.take size.toNat)
  have hreads := telnetRecv_reads s.far ⟨s.toFar.take size.toNat, take_lt size s.toFar⟩
  have hitems : items (s.far.telnetRecv (s.toFar.take size.toNat)).2 =
      (feed ⟨s.far, false⟩ (s.toFar.take size.toNat)).2 := by
    simpa [pending] using hreads.items hfar.whole
  refine ⟨received ++ s.toFar.take size.toNat, ⟨?_, h.fits, ?_⟩, ?_, ?_, ?_⟩
  · rw [← h.bytes, List.append_assoc]
    exact congrArg (received ++ ·) (List.take_append_drop size.toNat s.toFar)
  · rw [feed_append, hnext]
    rw [← hreads.telnet] at hend
    exact hend
  · simp [said]
  · simp only [feed_append, hnext, told_append, heard, reported, List.append_nil,
      TelnetLink.result, hitems, htold]
  · simpa [heard, reported, TelnetLink.result] using hreads.inBounds hfar.whole

theorem step_tells (h : Carries start s received ms) (hidle : Idle start) {a : LinkStep}
    (hf : Fits a) : ∃ received' ms', Tells start s [a] received ms received' ms' := by
  cases a with
  | near call =>
    obtain ⟨new, hwire, hfits, hsaid⟩ := call_messages s.near hf
    refine ⟨received, ms ++ new, carries_sent h hwire hfits _ _, ?_, ?_, ?_⟩
    · rw [List.flatMap_append, hsaid, List.flatMap_singleton]
    · simp [heard, reported, told, items]
    · simp [heard, reported]
  | far call =>
    have halike := run_alike s.far call
    refine ⟨received, ms, ⟨h.bytes, h.fits, ?_⟩, ?_, ?_, ?_⟩
    · exact ⟨halike.state.trans h.alike.state, halike.sbTelopt.trans h.alike.sbTelopt,
        halike.buffer.trans h.alike.buffer, halike.bufferSize.trans h.alike.bufferSize⟩
    · simp [said]
    · simp [heard, reported, told, items]
    · simp [heard, reported]
  | toFar size =>
    obtain ⟨received', htells⟩ := toFar_tells h hidle size
    exact ⟨received', ms, htells⟩
  | toNear size =>
    obtain ⟨cmds, hsends⟩ := feed_only ⟨s.near, false⟩ (s.toNear.take size.toNat)
    have hreads := telnetRecv_reads s.near ⟨s.toNear.take size.toNat, take_lt size s.toNear⟩
    obtain ⟨new, hwire, hfits, hsaid⟩ := wire_only ⟨cmds, hreads.sends.trans hsends⟩
    refine ⟨received, ms ++ new, carries_sent h hwire hfits _ _, ?_, ?_, ?_⟩
    · rw [List.flatMap_append, hsaid]
      simp [said]
    · simp [heard, reported, told, items]
    · simp [heard, reported]

theorem run_tells (h : Carries start s received ms) (hidle : Idle start) {os : List LinkStep}
    (hf : ∀ a ∈ os, Fits a) : ∃ received' ms', Tells start s os received ms received' ms' := by
  induction os generalizing s received ms with
  | nil => exact ⟨received, ms, h, by simp, by simp [heard, told, items], by simp [heard]⟩
  | cons a os ih =>
    obtain ⟨ha, hos⟩ := List.forall_mem_cons.mp hf
    obtain ⟨received₁, ms₁, hfirst⟩ := step_tells h hidle ha
    obtain ⟨received₂, ms₂, hrest⟩ := ih hfirst.carries hos
    refine ⟨received₂, ms₂, hrest.carries, ?_, ?_, ?_⟩
    · rw [hrest.said, hfirst.said]
      simp
    · have hhead := hfirst.heard
      simp only [heard, List.append_nil] at hhead
      rw [hrest.heard, hhead, heard, items_append, told_append, List.append_assoc]
      rfl
    · have hhead := hfirst.inBounds
      simp only [heard, List.append_nil] at hhead
      exact List.forall_mem_append.mpr ⟨hhead, hrest.inBounds⟩

theorem start_carries (near far : List Telopt) :
    Carries (telnetInit far false) (.start near far) [] [] :=
  ⟨rfl, by simp, rfl, rfl, rfl, rfl⟩

/-- Whatever the two ends negotiate and however the bytes are cut, the far end hears what it was
told so far, and all of it when nothing is on its way to it any more. -/
theorem heard_is_said (near far : List Telopt) (os : List LinkStep) (hf : ∀ a ∈ os, Fits a) :
    let heard := heard (.start near far) os
    (∀ e ∈ heard, InBounds e) ∧ told (items heard) <+: os.flatMap said ∧
      ((os.foldl TelnetLink.step (.start near far)).toFar = [] →
        told (items heard) = os.flatMap said) := by
  have hidle : Idle (telnetInit far false) := ⟨rfl, List.mem_cons_self⟩
  obtain ⟨received, ms, hcarries, hsaid, hheard, hin⟩ := run_tells (start_carries near far) hidle hf
  obtain ⟨u, htakes, -, -⟩ := messages_take hidle (.refl _) hcarries.fits
  have hall : told (feed ⟨telnetInit far false, false⟩ (ms.flatMap Message.wire)).2 =
      os.flatMap said := by
    rw [htakes.feed, deliverAll_told, hsaid]
    rfl
  have hheard' : told (feed ⟨telnetInit far false, false⟩ received).2 =
      told (items (heard (.start near far) os)) := hheard
  refine ⟨hin, ?_, fun hempty => ?_⟩
  · rw [← hall, ← hcarries.bytes, feed_append, told_append, hheard']
    exact List.prefix_append _ _
  · have hbytes := hcarries.bytes
    rw [hempty, List.append_nil] at hbytes
    rw [← hall, ← hbytes, hheard']

theorem heard_is_said_in_pieces :
    let os : List LinkStep := [.near (.subnegotiation 24 [1]), .near (.data [0x61, 255]),
      .far (.negotiate .do_ 24), .toFar 4, .toNear 8, .toFar 8]
    let heard := heard (.start [] []) os
    (∀ e ∈ heard, InBounds e) ∧ told (items heard) <+: os.flatMap said ∧
      ((os.foldl TelnetLink.step (.start [] [])).toFar = [] →
        told (items heard) = os.flatMap said) :=
  heard_is_said [] [] _ (by simp [Fits, Message.Fits, teloptCompress])

end Catchb.Proofs.TelnetIntegrity
