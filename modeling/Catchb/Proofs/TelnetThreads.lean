import Catchb.Proofs.Fifo
import Catchb.Proofs.TelnetIntegrity
import Catchb.TelnetThread

/-! What a telnet client's thread leaves in its buffer, and what it answers. -/

namespace Catchb.Proofs.TelnetThreads
open Lib Telnet
open TelnetThread (opened sendAll threadMain)
open TelnetStream
open TelnetDelivery
open TelnetIntegrity (tells deliverAll_told)
open Fifo (Queues pushBack_queues create_queues excess)

def dataOf (ts : List Told) : List UInt8 :=
  ts.filterMap fun told => match told with | .byte byte => some byte | _ => none

/-- The newest bytes of a queue. -/
def newest (n : Nat) (q : List UInt8) : List UInt8 := q.drop (q.length - n)

variable {q d : List UInt8} {b : Buffer} {t : Telnet} {socket : Nat → Int}

theorem newest_append (n : Nat) (q d : List UInt8) :
    newest n (newest n q ++ d) = newest n (q ++ d) := by
  simp only [newest, List.drop_append, List.length_append, List.length_drop, List.drop_drop]
  congr 2 <;> omega

theorem pushBack_newest (h : Queues b (newest 4095 q)) (hmax : b.ulMaxSize = 4096)
    (hd : d.length < 4096) : Queues (b.pushBack d) (newest 4095 (q ++ d)) ∧
      (b.pushBack d).ulMaxSize = 4096 := by
  have hsize : b.ulMaxSize.toNat = 4096 := by rw [hmax]; rfl
  have hpush := pushBack_queues h (d := d) (by rw [hsize]; exact hd)
  have hkept : ∀ r, r.drop (excess b r d.length) ++ d = newest 4095 (r ++ d) := by
    intro r
    rw [newest, List.length_append, List.drop_append_of_le_length (by omega), excess, hsize]
  rw [hkept, newest_append] at hpush
  refine ⟨hpush, ?_⟩
  have hcopy := (Fifo.copyIn_frame (b.discard (.ofNat d.length)) d).1
  have hframe := (Fifo.discard_frame b (.ofNat d.length)).1
  exact (hcopy.trans hframe).trans hmax

@[simp] theorem dataOf_append (xs ys : List Told) : dataOf (xs ++ ys) = dataOf xs ++ dataOf ys :=
  List.filterMap_append

theorem dataOf_bytes (bytes : List UInt8) : dataOf (bytes.map .byte) = bytes := by
  induction bytes with
  | nil => rfl
  | cons byte bytes ih => exact congrArg (byte :: ·) ih

theorem subnegotiate_data (t : Telnet) : dataOf (told (items t.subnegotiate.2.2)) = [] := by
  have hcons : items t.subnegotiate.2.2 = .event (.subnegotiation t.sbTelopt t.buffer) ::
      items (parse t.sbTelopt t.buffer).events := rfl
  have hnone := parse_told t.sbTelopt t.buffer
  unfold told at hnone
  simp [hcons, told, toldOf, hnone, dataOf]

theorem bufferByte_data (t : Telnet) (byte : UInt8) :
    told (items (t.bufferByte byte).2.2) = [] := by
  simp only [bufferByte]
  split
  · split <;> rfl
  · rfl

theorem iac_data (nested : Telnet → UInt8 → Telnet × List Event) (hstate : t.state = .iac)
    (byte : UInt8) : (dataOf (told (items (processByte nested t [] 0 0 byte).2.1))).length ≤ 1 := by
  simp only [processByte, hstate]
  split
  · exact Nat.zero_le _
  · split
    · exact Nat.zero_le _
    · split
      · exact Nat.le_refl _
      · exact Nat.zero_le _

/-- A byte brings one byte of data at most. -/
theorem processByte_data (t : Telnet) (byte : UInt8) :
    (dataOf (told (items (processByte processNested t [] 0 0 byte).2.1))).length ≤ 1 := by
  cases hstate : t.state with
  | data =>
    simp only [processByte, hstate]
    split <;> exact Nat.zero_le _
  | iac => exact iac_data _ hstate byte
  | negotiating cmd =>
    simp only [processByte, hstate, negotiate_told]
    exact Nat.zero_le _
  | sb =>
    simp only [processByte, hstate]
    exact Nat.zero_le _
  | sbData =>
    simp only [processByte, hstate]
    split
    · exact Nat.zero_le _
    · split
      · exact Nat.zero_le _
      · have hnone := bufferByte_data t byte
        split <;> rename_i he <;> rw [he] at hnone <;> simp [hnone, dataOf]
  | sbDataIac =>
    simp only [processByte, hstate]
    split
    · simp only [subnegotiate_data]
      exact Nat.zero_le _
    · split
      · have hnone := bufferByte_data t iac
        split <;> rename_i he <;> rw [he] at hnone <;> simp [hnone, dataOf]
      · have hnone := subnegotiate_data { t with state := .iac }
        split
        · exact Nat.le_of_eq (congrArg List.length hnone) |>.trans (Nat.zero_le 1)
        · rw [processNested_iac rfl]
          have hle : ∀ u : Telnet, u.state = .iac → (dataOf (told (items
              (processByte (fun telnet _ => (telnet, [])) u [] 0 0 byte).2.1))).length ≤ 1 :=
            fun u hu => iac_data _ hu byte
          simp only [items_append, told_append, dataOf_append, List.length_append]
          have hfirst := congrArg List.length hnone
          exact Nat.le_trans (Nat.add_le_add_right (Nat.le_of_eq hfirst) _)
            (by simpa using hle _ rfl)

theorem feed_data (s : Feed) (xs : List UInt8) :
    (dataOf (told (feed s xs).2)).length ≤ xs.length := by
  induction xs generalizing s with
  | nil => exact Nat.le_refl _
  | cons x xs ih =>
    have hrest := ih (step s x).1
    have hhead : (dataOf (told (step s x).2)).length ≤ 1 := by
      unfold step
      split
      · simp only
        split
        · exact Nat.zero_le _
        · exact Nat.le_refl _
      · exact processByte_data _ _
    simp only [feed, told_append, dataOf_append, List.length_append, List.length_cons]
    omega

theorem dataOf_mem {events : List Event} {buffer : List UInt8} {size : Nat}
    (h : .data buffer size ∈ events) (hin : size ≤ buffer.length) :
    size ≤ (dataOf (told (items events))).length := by
  obtain ⟨pre, post, rfl⟩ := List.append_of_mem h
  have hdata : dataOf (told (itemsOf (.data buffer size))) = buffer.take size := by
    rw [itemsOf, told_bytes, dataOf_bytes]
  have hcons : items (.data buffer size :: post) = itemsOf (.data buffer size) ++ items post := rfl
  simp only [items_append, hcons, told_append, dataOf_append, hdata, List.length_append,
    List.length_take]
  omega

/-- A socket that takes something at each call takes all in turn. -/
theorem sendAll_sends (hs : ∀ i, 0 < socket i) (n calls : Nat) (pBuffer : List UInt8)
    (hn : pBuffer.length ≤ n) : (sendAll socket n calls pBuffer).1 = pBuffer := by
  induction n generalizing calls pBuffer with
  | zero =>
    obtain rfl := List.eq_nil_of_length_eq_zero (Nat.le_zero.mp hn)
    rfl
  | succ n ih =>
    rw [sendAll]
    by_cases hnil : pBuffer = []
    · rw [if_pos hnil, hnil]
    · have hpos := hs calls
      have hlen := List.length_pos_iff.mpr hnil
      rw [if_neg hnil, if_neg (Int.not_le.mpr hpos)]
      simp only [ih (calls + 1) (pBuffer.drop (socket calls).toNat) (by
        rw [List.length_drop]
        omega), List.take_append_drop]

/-- What the client has of the data, and what it has sent. -/
structure Has (p : TelnetThread) (data sent : List UInt8) : Prop where
  queues : Queues p.pBuffer (newest 4095 data)
  size : p.pBuffer.ulMaxSize = 4096
  running : p.bStop = false
  sent : p.sent = sent

theorem handler_has {p : TelnetThread} {data out : List UInt8} (h : Has p data out)
    (hs : ∀ i, 0 < socket i) {e : Event} (hin : InBounds e)
    (hsize : ∀ buffer size, e = .data buffer size → size < 4096) :
    Has (p.eventHandler socket e) (data ++ dataOf (told (itemsOf e)))
      (out ++ (sendOf e).getD []) := by
  have hquiet : ∀ p' : TelnetThread, p'.pBuffer = p.pBuffer → p'.bStop = p.bStop →
      p'.sent = p.sent → Has p' (data ++ []) (out ++ []) := by
    intro p' hbuffer hstop hsent
    simp only [List.append_nil]
    exact ⟨hbuffer ▸ h.queues, hbuffer ▸ h.size, hstop.trans h.running, hsent.trans h.sent⟩
  cases e with
  | data buffer size =>
    have hlt := hsize buffer size rfl
    have hcut : (UInt32.ofNat size).toNat = size :=
      Nat.mod_eq_of_lt (Nat.lt_trans hlt (by decide))
    have htake : (buffer.take size).length < 4096 := by
      rw [List.length_take]
      omega
    obtain ⟨hpush, hmax⟩ := pushBack_newest h.queues h.size htake
    rw [itemsOf, told_bytes, dataOf_bytes]
    simp only [TelnetThread.eventHandler, TelnetClient.recv, hcut]
    exact ⟨hpush, hmax, h.running, by simpa [sendOf] using h.sent⟩
  | send buffer =>
    have hall := sendAll_sends hs buffer.length p.calls buffer (Nat.le_refl _)
    simp only [TelnetThread.eventHandler, TelnetThread.send, itemsOf, told, toldOf,
      List.filterMap_cons, List.filterMap_nil, dataOf, sendOf, Option.getD_some, List.append_nil]
    exact ⟨h.queues, h.size, h.running, by rw [h.sent, hall]⟩
  | negotiation cmd telopt =>
    cases cmd <;> simp only [TelnetThread.eventHandler] <;> first
      | exact hquiet _ rfl rfl rfl
      | (split <;> exact hquiet _ rfl rfl rfl)
  | subnegotiation telopt buffer => exact hquiet _ rfl rfl rfl
  | iac cmd => exact hquiet _ rfl rfl rfl
  | zmp argv => exact hquiet _ rfl rfl rfl
  | ttype cmd name => exact hquiet _ rfl rfl rfl
  | environ cmd values => exact hquiet _ rfl rfl rfl
  | mssp values => exact hquiet _ rfl rfl rfl
  | warning err msg => exact hquiet _ rfl rfl rfl

theorem events_has {p : TelnetThread} {data out : List UInt8} {events : List Event}
    (h : Has p data out) (hs : ∀ i, 0 < socket i) (hin : ∀ e ∈ events, InBounds e)
    (hsize : (dataOf (told (items events))).length < 4096) :
    Has (events.foldl (TelnetThread.eventHandler socket) p) (data ++ dataOf (told (items events)))
      (out ++ (sends events).flatten) := by
  induction events generalizing p data out with
  | nil => simpa [items, told, dataOf, sends] using h
  | cons e events ih =>
    obtain ⟨he, hevents⟩ := List.forall_mem_cons.mp hin
    have hcons : items (e :: events) = itemsOf e ++ items events := rfl
    have hsends : (sends (e :: events)).flatten = (sendOf e).getD [] ++ (sends events).flatten := by
      cases e <;> rfl
    have hone : ∀ buffer size, e = .data buffer size → size < 4096 := by
      rintro buffer size rfl
      exact Nat.lt_of_le_of_lt (dataOf_mem List.mem_cons_self he) hsize
    rw [hcons, told_append, dataOf_append, List.length_append] at hsize
    have hrest := ih (handler_has h hs he hone) hevents (by omega)
    rw [hcons, told_append, dataOf_append, hsends]
    simpa [List.append_assoc] using hrest

/-- The connection stays, and `recv` brings what fits the thread's buffer. -/
def Stays : Polled → Prop
  | .timeout => True
  | .failed => False
  | .received pBuffer => pBuffer ≠ [] ∧ pBuffer.length ≤ 512

def bytesOf (polled : List Polled) : List UInt8 :=
  polled.flatMap fun r => match r with | .received pBuffer => pBuffer | _ => []

theorem events_telnet (p : TelnetThread) (events : List Event) :
    (events.foldl (TelnetThread.eventHandler socket) p).telnet = p.telnet := by
  induction events generalizing p with
  | nil => rfl
  | cons e events ih =>
    rw [List.foldl_cons, ih]
    cases e with
    | negotiation cmd telopt =>
      cases cmd <;> simp only [TelnetThread.eventHandler] <;> split <;> rfl
    | _ => rfl

theorem process_has {p : TelnetThread} {data out chunk : List UInt8} (h : Has p data out)
    (hs : ∀ i, 0 < socket i) (hlen : chunk.length ≤ 512) (hsteady : Steady ⟨p.telnet, false⟩ chunk) :
    let r := feed ⟨p.telnet, false⟩ chunk
    Has (p.process socket chunk) (data ++ dataOf (told r.2)) (out ++ (itemSends r.2).flatten) ∧
      (p.process socket chunk).telnet = r.1.telnet := by
  have hreads := telnetRecv_reads p.telnet
    ⟨chunk, Nat.lt_of_le_of_lt hlen (by decide)⟩
  have hitems : items (p.telnet.telnetRecv chunk).2 = (feed ⟨p.telnet, false⟩ chunk).2 := by
    simpa [pending] using hreads.items hsteady.whole
  have hdata := feed_data ⟨p.telnet, false⟩ chunk
  rw [← hitems] at hdata
  have hnext : Has { p with telnet := (p.telnet.telnetRecv chunk).1 } data out :=
    ⟨h.queues, h.size, h.running, h.sent⟩
  have hfew := Nat.lt_of_le_of_lt (Nat.le_trans hdata hlen) (show 512 < 4096 by decide)
  have hall := events_has hnext hs (hreads.inBounds hsteady.whole) hfew
  rw [hitems, hreads.sends] at hall
  exact ⟨hall, (events_telnet _ _).trans hreads.telnet⟩

theorem thread_has {p : TelnetThread} {data out : List UInt8} (h : Has p data out)
    (hs : ∀ i, 0 < socket i) {polled : List Polled} (hp : ∀ r ∈ polled, Stays r)
    (hsteady : Steady ⟨p.telnet, false⟩ (bytesOf polled)) :
    let r := feed ⟨p.telnet, false⟩ (bytesOf polled)
    Has (threadMain socket p polled) (data ++ dataOf (told r.2)) (out ++ (itemSends r.2).flatten) := by
  induction polled generalizing p data out with
  | nil => simpa [threadMain, bytesOf, feed, told, dataOf, itemSends] using h
  | cons r polled ih =>
    obtain ⟨hr, hrest⟩ := List.forall_mem_cons.mp hp
    cases r with
    | timeout =>
      simp only [threadMain, h.running, Bool.false_eq_true, if_false]
      exact ih h hrest hsteady
    | failed => exact hr.elim
    | received chunk =>
      obtain ⟨hchunk, hmore⟩ := steady_append.mp hsteady
      obtain ⟨hhas, htelnet⟩ := process_has h hs hr.2 hchunk
      have hfeed : (feed ⟨p.telnet, false⟩ chunk).1 = ⟨(p.process socket chunk).telnet, false⟩ := by
        have hskip := hmore.skip
        rw [htelnet]
        generalize (feed ⟨p.telnet, false⟩ chunk).1 = next at hskip
        exact hskip ▸ rfl
      rw [hfeed] at hmore
      have hend := ih hhas hrest hmore
      have hsplit : bytesOf (.received chunk :: polled) = chunk ++ bytesOf polled := rfl
      simp only [threadMain, h.running, Bool.false_eq_true, if_false, if_neg hr.1, hsplit,
        feed_append, told_append, dataOf_append, itemSends_append, List.flatten_append, hfeed]
      simpa [List.append_assoc] using hend

/-- However what a peer sends is cut into the pieces that come in, the client's buffer holds the
newest data of it, and the client has sent its answers. -/
theorem client_holds_newest (socket : Nat → Int) (ms : List Message) (polled : List Polled)
    (hs : ∀ i, 0 < socket i) (hm : ∀ m ∈ ms, m.Fits) (hp : ∀ r ∈ polled, Stays r)
    (hbytes : bytesOf polled = ms.flatMap Message.wire) :
    let p := threadMain socket opened polled
    Queues p.pBuffer (newest 4095 (dataOf (ms.flatMap tells))) ∧
      p.sent = (itemSends (deliverAll opened.telnet ms).2).flatten := by
  have hstart : Has opened [] [] := ⟨create_queues (by decide) (by decide), rfl, rfl, rfl⟩
  have hidle : Idle opened.telnet := ⟨rfl, List.mem_cons_self⟩
  obtain ⟨u, htakes, -, -⟩ := messages_take hidle (.refl _) hm
  rw [← hbytes] at htakes
  obtain ⟨hqueues, -, -, hsent⟩ := thread_has hstart hs hp htakes.steady
  rw [htakes.feed] at hqueues hsent
  simp only [List.nil_append, deliverAll_told] at hqueues hsent
  exact ⟨hqueues, hsent⟩

theorem client_holds_newest_of_prompt :
    let polled : List Polled := [.received [0x3E, 255], .timeout, .received [251, 86, 0x0A]]
    let ms : List Message := [.data [0x3E], .command .will 86, .data [0x0A]]
    let p := threadMain (fun _ => 1) opened polled
    Queues p.pBuffer (newest 4095 (dataOf (ms.flatMap tells))) ∧
      p.sent = (itemSends (deliverAll opened.telnet ms).2).flatten :=
  client_holds_newest _ _ _ (by simp) (by simp [Message.Fits]) (by simp [Stays]) rfl

end Catchb.Proofs.TelnetThreads
