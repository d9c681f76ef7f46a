import Catchb.Session
import Catchb.Lib.Run

/-! Where the bytes come from that a service reads as its request. -/

namespace Catchb.Proofs.Framing
open Lib Params Session

variable {s : Session} {r : Request} {k : Nat}

/-- The bytes of requests that follow each other, the first being the `k`th. -/
def outgoing (k : Nat) : List Request → List ReqByte
  | [] => []
  | r :: rs => r.tagged k ++ outgoing (k + 1) rs

/-- Every byte is the `k`th request's, from the place where it is read. -/
def Own (k : Nat) (read : List (Option (Nat × Nat))) : Prop :=
  ∀ (i : Nat) (o : Option (Nat × Nat)), read[i]? = some o → o = some (k, i)

/-- Each round has served the next request by its own bytes, and what is unread are the
requests behind. -/
structure Framed (s : Session) : Prop where
  within : s.serviced.length ≤ s.sent.length
  own : ∀ (k : Nat) (read : List (Option (Nat × Nat))), s.serviced[k]? = some read → Own k read
  rest : s.unread = outgoing s.serviced.length (s.sent.drop s.serviced.length)

/-- What is received is the next request, whole and alone, and not the request to end a session
that is still good. -/
def Whole (s : Session) : Event → Prop
  | .send _ => True
  | .recv n ssid => ∀ r : Request, s.sent[s.serviced.length]? = some r → s.received n ≠ [] →
      (s.received n).length = r.bytes.length ∧ (r.stub = .ssidDel → ssid ≠ retOK)

/-- The bytes behind what is received are of requests that were served before. -/
structure Inv (s : Session) : Prop extends Framed s where
  old : ∀ b ∈ s.pReqBuff, ∀ (k i : Nat), b.origin = some (k, i) → k < s.serviced.length

theorem bytes_length (r : Request) : r.bytes.length = (reqParams r.stub).size := by
  rw [Request.bytes, List.length_append, ← r.sized]
  rfl

theorem tagged_length (r : Request) (k : Nat) : (r.tagged k).length = r.bytes.length := by
  rw [Request.tagged, List.length_mapIdx]

theorem tagged_getElem? {i : Nat} (hi : i < r.bytes.length) :
    ∃ value, (r.tagged k)[i]? = some ⟨value, some (k, i)⟩ := by
  refine ⟨r.bytes[i], ?_⟩
  rw [Request.tagged, List.getElem?_mapIdx, List.getElem?_eq_getElem hi]
  rfl

theorem tagged_origin {b : ReqByte} (hb : b ∈ r.tagged k) : ∃ i, b.origin = some (k, i) := by
  obtain ⟨i, hi, rfl⟩ := List.mem_mapIdx.mp hb
  exact ⟨i, rfl⟩

theorem tagged_value (r : Request) (k : Nat) : (r.tagged k).map ReqByte.value = r.bytes := by
  apply List.ext_getElem?
  intro i
  simp [Request.tagged, Function.comp_def]

theorem outgoing_append (k : Nat) (rs rs' : List Request) :
    outgoing k (rs ++ rs') = outgoing k rs ++ outgoing (k + rs.length) rs' := by
  induction rs generalizing k with
  | nil => rfl
  | cons r rs ih =>
    rw [List.cons_append, outgoing, outgoing, ih, List.append_assoc, List.length_cons,
      Nat.add_right_comm, Nat.add_assoc]

theorem code_lt (c : Cmd) : c.code < 0x100000000 := by cases c <;> decide

theorem readWord_word {n : Nat} (hn : n < 0x100000000) : readWord (word n) = n := by
  simp only [readWord, word, List.foldr, UInt8.toNat_ofNat']
  omega

/-- The command is in the first bytes of a request. -/
theorem xCmd_tagged (r : Request) (k : Nat) (l : List ReqByte) :
    xCmd (r.tagged k ++ l) = (sentCmd r.stub).code := by
  have hlen : 4 ≤ (r.tagged k).length := by
    rw [tagged_length, bytes_length, ← r.sized]
    exact Nat.le_add_right _ _
  rw [xCmd, List.take_append_of_le_length hlen, List.map_take, tagged_value]
  exact readWord_word (code_lt _)

theorem find_sent {c : Cmd} (hc : c ≠ .unknown) :
    ∃ f : Service, findCmdSet (sentCmd c).code = some (sentCmd c, f) := by
  cases c <;> first | contradiction | exact ⟨_, rfl⟩

/-- A request is as long as what its service reads, with one exception. -/
theorem readLen_le {ssid : RetCode} (hdel : r.stub = .ssidDel → ssid ≠ retOK) :
    readLen (sentCmd r.stub).code ssid ≤ r.bytes.length := by
  obtain ⟨f, hfind⟩ := find_sent r.known
  rw [bytes_length, readLen]
  split
  · exact req_le _
  · rename_i hgood
    rw [hfind]
    by_cases hstub : r.stub = .ssidDel
    · refine absurd ⟨?_, hdel hstub⟩ hgood
      rw [hstub]
      decide
    · have hsent : sentCmd r.stub = r.stub := by
        unfold sentCmd
        split
        · contradiction
        · rfl
      exact Nat.le_of_eq (congrArg (fun c => (reqParams c).size) hsent)

theorem origins_getElem? {pReq : List ReqByte} {n i : Nat} {o : Option (Nat × Nat)}
    (h : (origins pReq n)[i]? = some o) : i < n ∧ o = pReq[i]?.bind ReqByte.origin := by
  rw [origins, List.getElem?_map, Option.map_eq_some_iff] at h
  obtain ⟨j, hj, rfl⟩ := h
  obtain ⟨hlt, hval⟩ := List.getElem?_eq_some_iff.mp hj
  rw [List.getElem_range] at hval
  rw [List.length_range] at hlt
  exact ⟨hlt, by rw [hval]⟩

/-- What is read of a whole request is its own. -/
theorem own_origins {n : Nat} (hn : n ≤ r.bytes.length) (l : List ReqByte) :
    Own k (origins (r.tagged k ++ l) n) := by
  intro i o ho
  obtain ⟨hi, rfl⟩ := origins_getElem? ho
  have hlt : i < r.bytes.length := Nat.lt_of_lt_of_le hi hn
  obtain ⟨value, hvalue⟩ := tagged_getElem? (k := k) hlt
  rw [List.getElem?_append_left (tagged_length r k ▸ hlt), hvalue]
  rfl

theorem framed_send (h : Framed s) (r : Request) : Framed (step s (.send r)) := by
  obtain ⟨hwithin, hown, hrest⟩ := h
  refine ⟨?_, hown, ?_⟩
  · rw [step, List.length_append]
    exact Nat.le_add_right_of_le hwithin
  · have hnumber : s.serviced.length + (s.sent.drop s.serviced.length).length = s.sent.length := by
      rw [List.length_drop]
      omega
    simp only [step]
    rw [List.drop_append_of_le_length hwithin, outgoing_append, hnumber, hrest, outgoing, outgoing,
      List.append_nil]

theorem received_eq (s : Session) (n : Nat) :
    s.received n = s.unread.take (s.received n).length := by
  rw [received, List.length_take, ← List.take_eq_take_min]

theorem received_length_le (s : Session) (n : Nat) : (s.received n).length ≤ s.unread.length := by
  rw [received, List.length_take]
  exact Nat.min_le_right _ _

theorem received_tagged {n : Nat} {l : List ReqByte}
    (hunread : s.unread = r.tagged k ++ l) (hlen : (s.received n).length = r.bytes.length) :
    s.received n = r.tagged k := by
  rw [received_eq, hlen, hunread, ← tagged_length r k]
  exact List.take_left

/-- When something is received there is a request that has not been served. -/
theorem next_request (h : Framed s) {n : Nat} (hgot : s.received n ≠ []) :
    ∃ r, s.sent[s.serviced.length]? = some r ∧ s.unread = r.tagged s.serviced.length ++
      outgoing (s.serviced.length + 1) (s.sent.drop (s.serviced.length + 1)) := by
  have hlt : s.serviced.length < s.sent.length := by
    by_contra hall
    have hnone := h.rest
    rw [List.drop_eq_nil_of_le (Nat.le_of_not_lt hall), outgoing] at hnone
    apply hgot
    rw [received, hnone, List.take_nil]
  refine ⟨s.sent[s.serviced.length], List.getElem?_eq_getElem hlt, ?_⟩
  have hrest := h.rest
  rw [List.drop_eq_getElem_cons hlt, outgoing] at hrest
  exact hrest

theorem step_recv {n : Nat} (hgot : s.received n ≠ []) (ssid : RetCode) :
    ∃ pReq, pReq = s.received n ++ s.pReqBuff.drop (s.received n).length ∧
      step s (.recv n ssid) = { s with
        pReqBuff := pReq
        unread := s.unread.drop (s.received n).length
        serviced := s.serviced ++ [origins pReq (readLen (xCmd pReq) ssid)] } := by
  refine ⟨_, rfl, ?_⟩
  rw [step]
  split
  · contradiction
  · rfl

/-- A whole request is served by its own bytes. -/
theorem inv_recv (h : Inv s) {n : Nat} {ssid : RetCode} (hgot : s.received n ≠ [])
    (hwhole : Whole s (.recv n ssid)) : Inv (step s (.recv n ssid)) := by
  obtain ⟨r, hnext, hunread⟩ := next_request h.toFramed hgot
  obtain ⟨hlen, hdel⟩ := hwhole r hnext hgot
  obtain ⟨pReq, hreq, hstep⟩ := step_recv hgot ssid
  obtain ⟨hlt, -⟩ := List.getElem?_eq_some_iff.mp hnext
  rw [received_tagged hunread hlen] at hreq
  rw [hstep, hreq, xCmd_tagged, hlen]
  refine ⟨⟨?_, ?_, ?_⟩, ?_⟩
  · rw [List.length_append]
    exact hlt
  · exact forall_getElem?_concat.mpr ⟨h.own, own_origins (readLen_le hdel) _⟩
  · rw [hunread, List.length_append, List.length_singleton, ← tagged_length r s.serviced.length]
    exact List.drop_left
  · intro b hb k i horigin
    rw [List.length_append, List.length_singleton]
    rcases List.mem_append.mp hb with hb | hb
    · obtain ⟨j, hj⟩ := tagged_origin hb
      rw [hj] at horigin
      cases horigin
      exact Nat.lt_succ_self _
    · exact Nat.lt_succ_of_lt (h.old b (List.mem_of_mem_drop hb) k i horigin)

/-- The statistics' service reads times behind a request to end a session. -/
theorem not_own_ssidDel (h : Inv s) (hstub : r.stub = .ssidDel) :
    ¬Own s.serviced.length (origins (r.tagged s.serviced.length ++
      s.pReqBuff.drop (r.tagged s.serviced.length).length)
        (readLen (sentCmd r.stub).code retOK)) := by
  have hsize : (r.tagged s.serviced.length).length = 28 := by
    rw [tagged_length, bytes_length, hstub]
    rfl
  have hread : readLen (sentCmd r.stub).code retOK = 36 := by
    rw [hstub]
    rfl
  rw [hread, hsize]
  intro hown
  have hbehind : (r.tagged s.serviced.length ++ s.pReqBuff.drop 28)[28]? = s.pReqBuff[28]? := by
    rw [List.getElem?_append_right (Nat.le_of_eq hsize), hsize, List.getElem?_drop]
  have horigin := hown 28 (s.pReqBuff[28]?.bind ReqByte.origin) (by
    rw [origins, List.getElem?_map, List.getElem?_range (by decide), Option.map_some, hbehind])
  obtain ⟨b, hb, hlate⟩ := Option.bind_eq_some_iff.mp horigin
  exact Nat.lt_irrefl _ (h.old b (List.mem_of_getElem? hb) _ _ hlate)

/-- A request that is cut, or joined with the next, or shorter than what its service reads, is
not served by its own bytes alone. -/
theorem whole_of_framed (h : Inv s) {n : Nat} {ssid : RetCode}
    (hframed : Framed (step s (.recv n ssid))) : Whole s (.recv n ssid) := by
  intro r hnext hgot
  obtain ⟨r', hnext', hunread⟩ := next_request h.toFramed hgot
  obtain rfl := Option.some.inj (hnext.symm.trans hnext')
  obtain ⟨pReq, hreq, hstep⟩ := step_recv hgot ssid
  rw [hstep] at hframed
  obtain ⟨-, hown, hrest⟩ := hframed
  have hlen : (s.received n).length = r.bytes.length := by
    have hbytes := congrArg List.length hunread
    have hbehind := congrArg List.length hrest
    have hle := received_length_le s n
    rw [List.length_append, tagged_length] at hbytes
    simp only [List.length_append, List.length_singleton, List.length_drop] at hbehind
    omega
  refine ⟨hlen, fun hstub hssid => not_own_ssidDel h hstub ?_⟩
  rw [received_tagged hunread hlen] at hreq
  obtain ⟨-, hlast⟩ := forall_getElem?_concat.mp hown
  rw [hreq, xCmd_tagged, hssid] at hlast
  exact hlast

theorem inv_step (h : Inv s) (e : Event) (hwhole : Whole s e) : Inv (step s e) := by
  cases e with
  | send r => exact ⟨framed_send h.toFramed r, h.old⟩
  | recv n ssid =>
    by_cases hgot : s.received n = []
    · rw [step, hgot]
      exact h
    · exact inv_recv h hgot hwhole

theorem inv_create (pReqBuff : List UInt8) : Inv (create pReqBuff) := by
  refine ⟨⟨Nat.le_refl _, fun k read hread => (nomatch hread), rfl⟩, ?_⟩
  intro b hb k i horigin
  obtain ⟨value, -, rfl⟩ := List.mem_map.mp hb
  cases horigin

/-- The requests are served as they were sent, each by its own bytes, exactly when each is
received whole and alone and none ends a session that is still good. -/
theorem framed_iff (pReqBuff : List UInt8) (es : List Event) :
    (∀ s ∈ states step (create pReqBuff) es, Framed s) ↔
      Admitted step Whole (create pReqBuff) es := by
  apply safe_iff_admitted (fun s (h : Inv s) => h.toFramed)
  · intro s e h hwhole
    exact inv_step h e hwhole
  · intro s e h hframed
    cases e with
    | send r => trivial
    | recv n ssid => exact whole_of_framed h hframed
  · exact inv_create pReqBuff

def countRequest : Request := ⟨.cctvGetCount, by decide, List.replicate 24 0, by decide⟩

/-- The request arrives in two pieces. -/
def pieces : Session :=
  [.send countRequest, .recv 20 retOK, .recv 4096 retOK].foldl step (create (List.replicate 4096 0))

/-- Each piece is served as a request, the first one with bytes that were never received. -/
theorem pieces_served : pieces.sent.length = 1 ∧ pieces.serviced.length = 2 ∧
    pieces.serviced[0]?.map (List.drop 19) = some (some (0, 19) :: List.replicate 8 none) ∧
    ¬Framed pieces := by
  have hone : pieces.sent.length = 1 := by decide +kernel
  have htwo : pieces.serviced.length = 2 := by decide +kernel
  refine ⟨hone, htwo, by decide +kernel, fun hframed => ?_⟩
  have hwithin := hframed.within
  rw [hone, htwo] at hwithin
  exact absurd hwithin (by decide)

end Catchb.Proofs.Framing
