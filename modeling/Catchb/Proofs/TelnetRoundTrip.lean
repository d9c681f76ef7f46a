import Catchb.Proofs.TelnetDelivery
import Catchb.Proofs.TelnetInPlace
import Catchb.Proofs.TelnetWrites

/-! An environment and a ZMP command, from the calls that send them to the events that report them. -/

namespace Catchb.Proofs.TelnetRoundTrip
open Lib Telnet
open TelnetStream
open TelnetDelivery
open TelnetInPlace
open TelnetWrites (expansion length_expansion newline send_open)

/-- The calls that send an environment. -/
def sendNewenviron (cmd : UInt8) (vs : List EnvironVar) : List Event :=
  telnetBeginNewenviron cmd ++
    (vs.flatMap fun v => telnetNewenvironValue v.type (some v.var) ++
      telnetNewenvironValue environValue (some v.value)) ++
    telnetFinishSb

/-- What a variable is between the brackets of a subnegotiation. -/
def encodeVar (v : EnvironVar) : List UInt8 := v.type :: (v.var ++ environValue :: v.value)

def encodeVars (cmd : UInt8) (vs : List EnvironVar) : List UInt8 := cmd :: vs.flatMap encodeVar

/-- The sender escapes nothing of these, so they have to be without what would need it. -/
structure Sendable (v : EnvironVar) : Prop where
  type : isVar v.type = true
  var : ∀ byte ∈ v.var, 3 < byte
  value : ∀ byte ∈ v.value, 3 < byte

variable {t : Telnet} {v : EnvironVar} {vs : List EnvironVar} {cmd : UInt8} {xs ys : List UInt8}

theorem wire_append (events events' : List Event) : TelnetLink.wire (events ++ events') =
    TelnetLink.wire events ++ TelnetLink.wire events' :=
  List.flatMap_append

theorem wire_subnegotiation (telopt : UInt8) (buffer : List UInt8) :
    (Message.subnegotiation telopt buffer).wire =
      TelnetLink.wire (telnetBeginSb telopt) ++ buffer.flatMap escape ++
        TelnetLink.wire telnetFinishSb := by
  rw [← wire_telnetSend]
  simp [Message.wire, TelnetLink.wire, telnetSubnegotiation, telnetBeginSb, telnetFinishSb, telnetIac]

theorem wire_sendNewenviron (cmd : UInt8) (vs : List EnvironVar) :
    TelnetLink.wire (sendNewenviron cmd vs) =
      (Message.subnegotiation teloptNewEnviron (encodeVars cmd vs)).wire := by
  have hvars : TelnetLink.wire (vs.flatMap fun v => telnetNewenvironValue v.type (some v.var) ++
      telnetNewenvironValue environValue (some v.value)) = (vs.flatMap encodeVar).flatMap escape := by
    induction vs with
    | nil => rfl
    | cons v vs ih =>
      rw [List.flatMap_cons, wire_append, ih, List.flatMap_cons, List.flatMap_append]
      simp [telnetNewenvironValue, wire_append, wire_telnetSend, encodeVar]
  rw [sendNewenviron, wire_append, wire_append, hvars, wire_subnegotiation, telnetBeginNewenviron,
    wire_append, wire_telnetSend]
  simp [encodeVars]

/-- A text without what ends or escapes a piece is one. -/
theorem piece_append {stop : UInt8 → Bool} (hxs : ∀ byte ∈ xs, stop byte = false ∧ isEsc byte = false)
    (hys : ∀ byte, ys.head? = some byte → stop byte = true) :
    InPlace.piece stop isEsc (xs ++ ys) = (xs, ys) := by
  induction xs with
  | nil =>
    cases ys with
    | nil => rfl
    | cons y ys => exact InPlace.piece_stop (hys y rfl) ys
  | cons x xs ih =>
    obtain ⟨⟨hstop, hesc⟩, hrest⟩ := List.forall_mem_cons.mp hxs
    rw [List.cons_append, InPlace.piece_other hstop hesc, ih hrest]

theorem plain_byte {byte : UInt8} (h : 3 < byte) : endsName byte = false ∧ isVar byte = false ∧
    isEsc byte = false ∧ byte ≠ 0 := by
  have hne : ∀ n : UInt8, n ≤ 3 → byte ≠ n := by
    rintro n hn rfl
    exact absurd h (UInt8.not_lt.mpr hn)
  have h0 := hne 0 (by decide)
  have h1 := hne 1 (by decide)
  have h2 := hne 2 (by decide)
  have h3 := hne 3 (by decide)
  simp [endsName, isVar, isEsc, environVar, environUservar, environValue, environEsc, h0, h1, h2, h3]

theorem string_plain (h : ∀ byte ∈ xs, byte ≠ 0) : string xs = xs := by
  rw [string, List.takeWhile_eq_self_iff]
  simpa using h

theorem encodeVars_head (hv : ∀ v ∈ vs, Sendable v) :
    ∀ byte, (vs.flatMap encodeVar).head? = some byte → isVar byte = true := by
  cases vs with
  | nil => simp
  | cons v vs =>
    rintro byte hb
    obtain rfl : v.type = byte := by simpa [encodeVar] using hb
    exact (hv v List.mem_cons_self).type

theorem vars_encode (hv : ∀ v ∈ vs, Sendable v) : vars (vs.flatMap encodeVar) = vs := by
  induction vs with
  | nil => rw [List.flatMap_nil, vars]
  | cons v vs ih =>
    obtain ⟨hhead, hrest⟩ := List.forall_mem_cons.mp hv
    have hname : InPlace.piece endsName isEsc
        (v.var ++ environValue :: (v.value ++ vs.flatMap encodeVar)) =
          (v.var, environValue :: (v.value ++ vs.flatMap encodeVar)) := by
      refine piece_append (fun byte hb => ?_) (fun byte hb => ?_)
      · obtain ⟨hends, -, hesc, -⟩ := plain_byte (hhead.var byte hb)
        exact ⟨hends, hesc⟩
      · obtain rfl : environValue = byte := by simpa using hb
        rfl
    have hvalue : InPlace.piece isVar isEsc (v.value ++ vs.flatMap encodeVar) =
        (v.value, vs.flatMap encodeVar) := by
      refine piece_append (fun byte hb => ?_) (encodeVars_head hrest)
      obtain ⟨-, hvar, hesc, -⟩ := plain_byte (hhead.value byte hb)
      exact ⟨hvar, hesc⟩
    have hsplit : (v :: vs).flatMap encodeVar =
        v.type :: (v.var ++ environValue :: (v.value ++ vs.flatMap encodeVar)) := by
      simp [encodeVar]
    rw [hsplit, vars_value (by rw [hname]; rfl), hname, List.tail_cons, hvalue, ih hrest,
      string_plain fun byte hb => (plain_byte (hhead.var byte hb)).2.2.2,
      string_plain fun byte hb => (plain_byte (hhead.value byte hb)).2.2.2]

theorem encodeVars_esc (hv : ∀ v ∈ vs, Sendable v) : environEsc ∉ vs.flatMap encodeVar := by
  intro hm
  obtain ⟨v, hmem, hesc⟩ := List.mem_flatMap.mp hm
  obtain ⟨htype, hvar, hvalue⟩ := hv v hmem
  simp only [encodeVar, List.mem_cons, List.mem_append] at hesc
  rcases hesc with he | he | he | he
  · rw [← he] at htype
    cases htype
  · exact absurd (hvar _ he) (by decide)
  · exact absurd he (by decide)
  · exact absurd (hvalue _ he) (by decide)

theorem environEvents_encode (type : UInt8)
    (hcmd : cmd = environIs ∨ cmd = environSend ∨ cmd = environInfo)
    (hv : ∀ v ∈ vs, Sendable v) : environEvents type (encodeVars cmd vs) = [.environ cmd vs] := by
  have hvalid : ¬(cmd ≠ environSend ∧ cmd ≠ environIs ∧ cmd ≠ environInfo) := by tauto
  simp only [encodeVars, environEvents, if_neg hvalid]
  by_cases hnil : vs.flatMap encodeVar = []
  · have hvars := vars_encode hv
    rw [hnil, vars] at hvars
    rw [if_pos hnil, ← hvars]
  · obtain ⟨c, rest, hcons⟩ := List.exists_cons_of_ne_nil hnil
    have hhead : isVar c = true := encodeVars_head hv c (by rw [hcons]; rfl)
    have hlast : ¬(vs.flatMap encodeVar).getLast? = some environEsc :=
      fun hl => encodeVars_esc hv (List.mem_of_getLast? hl)
    rw [if_neg hnil, if_neg hlast, vars_encode hv, hcons]
    simp [hhead]

/-- A subnegotiation that is sent by several calls comes in as one, however it is cut. -/
theorem subnegotiation_received {telopt : UInt8} {buffer : List UInt8} {chunks : List Chunk}
    (h : Idle t) (hlen : buffer.length ≤ 16384) (htelopt : telopt ≠ teloptCompress)
    (hs : stream chunks = (Message.subnegotiation telopt buffer).wire) :
    items (recvAll t chunks).2 =
      items (.subnegotiation telopt buffer :: (parse telopt buffer).events) := by
  have hfits : ∀ m ∈ [Message.subnegotiation telopt buffer], m.Fits := by
    intro m hm
    obtain rfl := List.mem_singleton.mp hm
    exact ⟨hlen, fun he => absurd he htelopt⟩
  obtain ⟨-, hitems, -, -⟩ := messages_delivered t _ chunks h hfits
    (by rw [hs, List.flatMap_singleton])
  rw [hitems]
  exact List.append_nil _

/-- Variables that need no escape are received as they are sent. -/
theorem newenviron_round_trip (t : Telnet) (cmd : UInt8) (vs : List EnvironVar)
    (chunks : List Chunk) (h : Idle t)
    (hcmd : cmd = environIs ∨ cmd = environSend ∨ cmd = environInfo)
    (hv : ∀ v ∈ vs, Sendable v) (hlen : (encodeVars cmd vs).length ≤ 16384)
    (hs : stream chunks = TelnetLink.wire (sendNewenviron cmd vs)) :
    items (recvAll t chunks).2 =
      [.event (.subnegotiation teloptNewEnviron (encodeVars cmd vs)), .event (.environ cmd vs)] := by
  rw [wire_sendNewenviron] at hs
  rw [subnegotiation_received h hlen (by decide) hs]
  have hparse : (parse teloptNewEnviron (encodeVars cmd vs)).events = [.environ cmd vs] := by
    rw [parse, if_neg (by decide), if_neg (by decide), if_pos (.inr rfl),
      (environ_in_place _ _).1, environEvents_encode _ hcmd hv]
  rw [hparse]
  rfl

theorem newenviron_round_trip_of_user :
    let vs : List EnvironVar := [⟨0, [0x55], [0x72, 255]⟩]
    let chunks : List Chunk := [⟨[255, 250, 39, 0, 0, 0x55], by decide⟩,
      ⟨[1, 0x72, 255, 255, 255, 240], by decide⟩]
    items (recvAll (telnetInit [] false) chunks).2 =
      [.event (.subnegotiation teloptNewEnviron (encodeVars environIs vs)),
        .event (.environ environIs vs)] :=
  newenviron_round_trip _ _ _ _ ⟨rfl, by decide⟩ (.inl rfl)
    (fun v hv => (List.mem_singleton.mp hv) ▸ ⟨rfl, by simp, by simp⟩) (by decide) rfl

def encodeArgs (args : List (List UInt8)) : List UInt8 := args.flatMap (· ++ [0])

theorem wire_telnetSendZmp (cmd : List UInt8) (args : List (List UInt8)) :
    TelnetLink.wire (telnetSendZmp cmd args) =
      (Message.subnegotiation teloptZmp (encodeArgs (cmd :: args))).wire := by
  have hargs : TelnetLink.wire (args.flatMap telnetZmpArg) = (encodeArgs args).flatMap escape := by
    induction args with
    | nil => rfl
    | cons arg args ih =>
      rw [List.flatMap_cons, wire_append, ih, telnetZmpArg, wire_telnetSend, ← List.flatMap_append]
      rfl
  rw [telnetSendZmp, wire_append, wire_append, hargs, wire_subnegotiation, telnetBeginZmp,
    wire_append, telnetZmpArg, wire_telnetSend]
  simp [encodeArgs]

theorem zmpArgv_encode {args : List (List UInt8)} (hargs : ∀ arg ∈ args, ∀ byte ∈ arg, byte ≠ 0)
    (n : Nat) (hn : (encodeArgs args).length ≤ n) : zmpArgv n (encodeArgs args) = args := by
  induction args generalizing n with
  | nil => cases n <;> rfl
  | cons arg args ih =>
    obtain ⟨hhead, hrest⟩ := List.forall_mem_cons.mp hargs
    have hcons : encodeArgs (arg :: args) = arg ++ 0 :: encodeArgs args := by simp [encodeArgs]
    rw [hcons, List.length_append, List.length_cons] at hn
    obtain ⟨n, rfl⟩ := Nat.exists_eq_succ_of_ne_zero (show n ≠ 0 by omega)
    have hstring : string (arg ++ 0 :: encodeArgs args) = arg := by
      rw [string_append, string_plain hhead]
    have hdrop : (arg ++ 0 :: encodeArgs args).drop (arg.length + 1) = encodeArgs args := by
      simp
    rw [hcons, zmpArgv, if_neg (by simp), hstring, hdrop, ih hrest n (by omega)]

/-- A ZMP command is received as it is sent. -/
theorem zmp_round_trip (t : Telnet) (cmd : List UInt8) (args : List (List UInt8))
    (chunks : List Chunk) (h : Idle t) (hargs : ∀ arg ∈ cmd :: args, ∀ byte ∈ arg, byte ≠ 0)
    (hlen : (encodeArgs (cmd :: args)).length ≤ 16384)
    (hs : stream chunks = TelnetLink.wire (telnetSendZmp cmd args)) :
    items (recvAll t chunks).2 =
      [.event (.subnegotiation teloptZmp (encodeArgs (cmd :: args))),
        .event (.zmp (cmd :: args))] := by
  rw [wire_telnetSendZmp] at hs
  rw [subnegotiation_received h hlen (by decide) hs]
  have hlast : (encodeArgs (cmd :: args)).getLast? = some 0 := by
    rw [← List.dropLast_append_getLast (List.cons_ne_nil cmd args), encodeArgs,
      List.flatMap_append, List.flatMap_singleton, ← List.append_assoc, List.getLast?_concat]
  have hparse : (parse teloptZmp (encodeArgs (cmd :: args))).events = [.zmp (cmd :: args)] := by
    rw [parse, if_pos rfl, zmpTelnet, if_neg (by simp [hlast]),
      zmpArgv_encode hargs _ (Nat.le_refl _)]
  rw [hparse]
  rfl

theorem zmp_round_trip_of_ping :
    let chunks : List Chunk := [⟨[255, 250, 93, 0x70], by decide⟩, ⟨[0, 255, 255, 0, 255], by decide⟩,
      ⟨[240], by decide⟩]
    items (recvAll (telnetInit [] false) chunks).2 =
      [.event (.subnegotiation teloptZmp (encodeArgs [[0x70], [255]])),
        .event (.zmp [[0x70], [255]])] :=
  zmp_round_trip _ [0x70] [[255]] _ ⟨rfl, by decide⟩ (by simp) (by decide) rfl

/-- A terminal type goes out as it is, so it is received as it is sent if no byte of it is special. -/
theorem ttype_round_trip {ttype : List UInt8} {chunks : List Chunk} (h : Idle t)
    (hname : ∀ byte ∈ ttype, byte ≠ 0 ∧ byte ≠ iac) (hlen : ttype.length < 16384)
    (hs : stream chunks = TelnetLink.wire (telnetTtypeIs ttype)) :
    items (recvAll t chunks).2 =
      [.event (.subnegotiation teloptTtype (ttypeIs :: ttype)),
        .event (.ttype ttypeIs (some ttype))] := by
  have hplain : ttype.flatMap escape = ttype := by
    have hescape : ∀ byte ∈ ttype, escape byte = [byte] := fun byte hb => if_neg (hname byte hb).2
    rw [List.flatMap_congr hescape, List.flatMap_singleton']
  have hwire : TelnetLink.wire (telnetTtypeIs ttype) =
      (Message.subnegotiation teloptTtype (ttypeIs :: ttype)).wire := by
    have htype : escape ttypeIs = [ttypeIs] := rfl
    rw [wire_subnegotiation, List.flatMap_cons, hplain, htype]
    simp [telnetTtypeIs, TelnetLink.wire, telnetBeginSb]
  rw [hwire] at hs
  have hparse : (parse teloptTtype (ttypeIs :: ttype)).events = [.ttype ttypeIs (some ttype)] := by
    have hstring := string_plain fun byte hb => (hname byte hb).1
    simp [parse, teloptTtype, teloptZmp, ttypeTelnet, ttypeIs, hstring]
  have hfits : (ttypeIs :: ttype).length ≤ 16384 := hlen
  rw [subnegotiation_received h hfits (by decide) hs, hparse]
  rfl

theorem ttype_asked {chunks : List Chunk} (h : Idle t)
    (hs : stream chunks = TelnetLink.wire telnetTtypeSend) :
    items (recvAll t chunks).2 =
      [.event (.subnegotiation teloptTtype [ttypeSend]), .event (.ttype ttypeSend none)] :=
  subnegotiation_received h (by decide) (by decide) hs

/-- The characters of a text as bytes. -/
def bytes (text : Text) : List UInt8 := text.map fun c => UInt8.ofNat c.toNat

/-- What a client sends for lines that it writes one after the other. -/
def typed (pClient : TelnetClient) (lines : List Text) : List Event :=
  lines.flatMap fun line => (((pClient.writel line).sent.map bytes).map telnetSend).getD []

/-- The lines of what is received, each up to its CR LF. -/
def readLines : List UInt8 → List UInt8 → List (List UInt8)
  | _, [] => []
  | line, 13 :: 10 :: rest => line :: readLines [] rest
  | line, byte :: rest => readLines (line ++ [byte]) rest

/-- What a line is on its way. -/
def sentLine (line : Text) : List UInt8 := bytes (expansion line ++ ['\r', '\n'])

theorem wire_typed {pClient : TelnetClient} {lines : List Text} (hopen : pClient.pHandler = true)
    (hfits : ∀ line ∈ lines, (expansion line).length ≤ 509) :
    TelnetLink.wire (typed pClient lines) =
      (lines.map fun line => Message.data (sentLine line)).flatMap Message.wire := by
  induction lines with
  | nil => rfl
  | cons line lines ih =>
    obtain ⟨hline, hrest⟩ := List.forall_mem_cons.mp hfits
    rw [length_expansion] at hline
    have hsent : (pClient.writel line).sent = some (expansion line ++ ['\r', '\n']) := by
      have hbound : line.length ≤ TelnetClient.bufferSize - 3 := by
        rw [TelnetClient.bufferSize]
        omega
      rw [TelnetClient.writel, send_open hopen, List.take_of_length_le hbound]
    rw [typed, List.flatMap_cons, wire_append, ← typed, ih hrest, hsent, List.map_cons,
      List.flatMap_cons]
    rfl

theorem deliverAll_lines (t : Telnet) (lines : List Text) :
    (deliverAll t (lines.map fun line => Message.data (sentLine line))).2 =
      (lines.flatMap sentLine).map .byte := by
  induction lines with
  | nil => rfl
  | cons line lines ih =>
    rw [List.map_cons, deliverAll, Message.deliver, ih, List.flatMap_cons, List.map_append]

theorem readLines_line {text rest line : List UInt8} (hline : 13 ∉ line) :
    readLines text (line ++ 13 :: 10 :: rest) = (text ++ line) :: readLines [] rest := by
  induction line generalizing text with
  | nil => simp [readLines]
  | cons byte line ih =>
    rw [List.mem_cons, not_or] at hline
    obtain ⟨hbyte, hrest⟩ := hline
    have hnext : readLines text (byte :: (line ++ 13 :: 10 :: rest)) =
        readLines (text ++ [byte]) (line ++ 13 :: 10 :: rest) := by
      rw [readLines]
      exact fun _ hcr _ => hbyte hcr.symm
    rw [List.cons_append, hnext, ih hrest, List.append_assoc]
    rfl

theorem expansion_plain {line : Text} (h : 13 ∉ bytes line ∧ 10 ∉ bytes line) :
    expansion line = line := by
  have hplain : ∀ c ∈ line, newline c = false := by
    intro c hc
    have hcr : c ≠ '\r' := by
      rintro rfl
      exact h.1 (List.mem_map.mpr ⟨_, hc, rfl⟩)
    have hlf : c ≠ '\n' := by
      rintro rfl
      exact h.2 (List.mem_map.mpr ⟨_, hc, rfl⟩)
    simp [newline, hcr, hlf]
  have hsame : ∀ c ∈ line, (if newline c then ['\r', '\n'] else [c]) = [c] :=
    fun c hc => by rw [hplain c hc]; rfl
  rw [expansion, List.flatMap_congr hsame, List.flatMap_singleton']

theorem readLines_lines {lines : List Text}
    (h : ∀ line ∈ lines, 13 ∉ bytes line ∧ 10 ∉ bytes line) :
    readLines [] (lines.flatMap sentLine) = lines.map bytes := by
  induction lines with
  | nil => rfl
  | cons line lines ih =>
    obtain ⟨hline, hrest⟩ := List.forall_mem_cons.mp h
    have hsent : sentLine line = bytes line ++ [13, 10] := by
      rw [sentLine, expansion_plain hline, bytes, List.map_append]
      rfl
    rw [List.flatMap_cons, hsent, List.append_assoc, List.cons_append, List.cons_append,
      List.nil_append, readLines_line hline.1, ih hrest, List.nil_append, List.map_cons]

/-- However it is cut, what a client types comes in as the lines that it has typed. -/
theorem lines_typed_are_read (t : Telnet) (pClient : TelnetClient) (lines : List Text)
    (chunks : List Chunk) (h : Idle t) (hopen : pClient.pHandler = true)
    (hfits : ∀ line ∈ lines, (expansion line).length ≤ 509)
    (hs : stream chunks = TelnetLink.wire (typed pClient lines)) :
    items (recvAll t chunks).2 = (lines.flatMap sentLine).map .byte ∧
      ((∀ line ∈ lines, 13 ∉ bytes line ∧ 10 ∉ bytes line) →
        readLines [] (lines.flatMap sentLine) = lines.map bytes) := by
  have hm : ∀ m ∈ lines.map fun line => Message.data (sentLine line), m.Fits := by
    intro m hm
    obtain ⟨line, -, rfl⟩ := List.mem_map.mp hm
    trivial
  rw [wire_typed hopen hfits] at hs
  obtain ⟨-, hitems, -, -⟩ := messages_delivered t _ chunks h hm hs
  exact ⟨hitems.trans (deliverAll_lines t lines), readLines_lines⟩

theorem lines_typed_are_read_of_logins :
    let lines : List Text := ["a\xff".toList, "b".toList]
    let chunks : List Chunk := [⟨[0x61, 255], by decide⟩, ⟨[255, 13], by decide⟩,
      ⟨[10, 0x62, 13, 10], by decide⟩]
    items (recvAll (telnetInit [] false) chunks).2 = (lines.flatMap sentLine).map .byte ∧
      ((∀ line ∈ lines, 13 ∉ bytes line ∧ 10 ∉ bytes line) →
        readLines [] (lines.flatMap sentLine) = lines.map bytes) :=
  lines_typed_are_read _ ⟨true, .create 4096⟩ _ _ ⟨rfl, by decide⟩ rfl (by decide) (by decide)

end Catchb.Proofs.TelnetRoundTrip
