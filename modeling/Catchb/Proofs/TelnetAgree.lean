import Mathlib.Algebra.BigOperators.Ring.List
import Mathlib.Algebra.Ring.Nat
import Mathlib.Data.List.Dedup
import Catchb.Proofs.TelnetWire

/-! Two users of the telnet library come to agree on every option. -/

namespace Catchb.Proofs.TelnetAgree
open Lib Telnet
open Negotiation (Want Pair Policy Act receiveAll)
open TelnetTable
open TelnetWire

/-- The commands about an option, either at the end that they come to or at the other one. -/
def about (telopt : UInt8) (local_ : Bool) (cmds : List (Command × UInt8)) : List Bool :=
  (cmds.filter fun c => c.2 = telopt ∧ c.1.local_ = local_).map fun c => on c.1

/-- An end with room for the options that are negotiated. -/
structure Ready (options : List UInt8) (telopts : List Telopt) (telnet : Telnet) : Prop where
  table : ∃ keys, Table options keys telnet
  proxy : telnet.proxy = false
  telopts : telnet.telopts = telopts

/-- Whether an end that supports `telopts` grants an option. -/
def grants (telopts : List Telopt) (telopt : UInt8) (us : Bool) : Bool :=
  (telnetInit telopts false).checkTelopt telopt us

/-- Whether the far end makes the step. -/
def byFar : LinkStep → Bool
  | .near _ | .toNear _ => false
  | .far _ | .toFar _ => true

/-- What a step is asked to negotiate. -/
def request : LinkStep → Option (Command × UInt8)
  | .near (.negotiate cmd telopt) | .far (.negotiate cmd telopt) => some (cmd, telopt)
  | _ => none

/-- The options that a run is asked to negotiate. -/
def requested (os : List LinkStep) : List UInt8 := ((os.filterMap request).map (·.2)).dedup

/-- Nobody asks for an option whose refusal is not confirmed yet. -/
def Patient (o : UInt8) (s : TelnetLink) (a : LinkStep) : Prop :=
  request a = some (.do_, o) →
    ((if byFar a then s.far else s.near).getRfc1143 o).him ≠ .wantNo

instance (o : UInt8) (s : TelnetLink) (a : LinkStep) : Decidable (Patient o s a) :=
  inferInstanceAs (Decidable (_ → _))

/-- The commands of a step about an option at the near end. -/
def sentAbout (o : UInt8) (s : TelnetLink) (a : LinkStep) : Nat :=
  (about o (byFar a) (commands (s.result a).2)).length

def asksAbout (o : UInt8) (a : LinkStep) : Nat := (about o (byFar a) (request a).toList).length

/-- Two ends with the commands that are on their way. -/
structure Linked (options : List UInt8) (near far : List Telopt) (s : TelnetLink)
    (out back : List (Command × UInt8)) : Prop where
  near : Ready options near s.near
  far : Ready options far s.far
  toFar : ∃ l, Matches s.far.state l ∧ lex l s.toFar = some (.text, out)
  toNear : ∃ l, Matches s.near.state l ∧ lex l s.toNear = some (.text, back)
  outOptions : ∀ c ∈ out, c.2 ∈ options
  backOptions : ∀ c ∈ back, c.2 ∈ options

/-- The two ends as they are about an option at the near one. -/
def pair (o : UInt8) (s : TelnetLink) (out back : List (Command × UInt8)) : Pair where
  near := want (side (s.near.getRfc1143 o) true)
  far := want (side (s.far.getRfc1143 o) false)
  toFar := about o false out
  toNear := about o true back

/-- The library forgets to send a DO. -/
def policy (near far : List Telopt) (o : UInt8) : Policy where
  nearGrants := grants near o true
  farGrants := grants far o false
  farResends := false

/-- A run about one option. -/
structure Tracks (p : Policy) (o : UInt8) (s : TelnetLink) (os : List LinkStep)
    (before after : Pair) (acts : List Act) : Prop where
  after : acts.foldl (Pair.step p) before = after
  sent : total (Pair.step p) (Pair.sends p) before acts = total TelnetLink.step (sentAbout o) s os
  asks : (acts.map Act.asks).sum = (os.map (asksAbout o)).sum
  waits : Admitted TelnetLink.step (Patient o) s os → Admitted (Pair.step p) Pair.Waits before acts

variable {options : List UInt8} {telopts near far : List Telopt} {t u : Telnet} {o telopt : UInt8}
  {us : Bool} {state : Q} {s : TelnetLink} {cmds out back : List (Command × UInt8)}

@[simp] theorem about_nil (local_ : Bool) : about o local_ [] = [] := rfl

@[simp] theorem about_append (local_ : Bool) (xs ys : List (Command × UInt8)) :
    about o local_ (xs ++ ys) = about o local_ xs ++ about o local_ ys := by
  simp [about]

theorem about_cons (local_ : Bool) (c : Command × UInt8) :
    about o local_ (c :: cmds) =
      (if c.2 = o ∧ c.1.local_ = local_ then [on c.1] else []) ++ about o local_ cmds := by
  by_cases h : c.2 = o ∧ c.1.local_ = local_ <;> simp [about, h]

theorem about_replies (local_ : Bool) (vs : List Bool) :
    about o local_ (vs.map fun v => (command us v, telopt)) =
      if telopt = o ∧ (!us) = local_ then vs else [] := by
  induction vs with
  | nil => simp
  | cons v vs ih =>
    rw [List.map_cons, about_cons, ih]
    simp only [command_local, command_on]
    split <;> rfl

theorem Ready.check (h : Ready options telopts t) (telopt : UInt8) (us : Bool) :
    t.checkTelopt telopt us = grants telopts telopt us := by
  simp only [grants, checkTelopt, h.telopts, telnetInit]

theorem Ready.same (h : Ready options telopts t) (hs : Same u t) : Ready options telopts u := by
  obtain ⟨keys, hk⟩ := h.table
  refine ⟨⟨keys, ?_, ?_, hk.nodup, hk.subset⟩, hs.proxy.trans h.proxy, hs.telopts.trans h.telopts⟩
  · rw [hs.q, hs.qSize, hk.size]
  · rw [hs.q, hk.telopts]

theorem Ready.sets (h : Ready options telopts t) (hs : Sets options t telopt us state u) :
    Ready options telopts u := by
  refine ⟨hs.table, ?_, ?_⟩
  · rw [hs.frame]
    exact h.proxy
  · rw [hs.frame]
    exact h.telopts

theorem sets_side (h : Sets options t telopt us state u) (o : UInt8) (us' : Bool) :
    side (u.getRfc1143 o) us' =
      if telopt = o ∧ us = us' then state else side (t.getRfc1143 o) us' := by
  by_cases ho : o = telopt
  · subst ho
    by_cases hus : us = us'
    · subst hus
      simpa using h.set
    · obtain rfl : us' = !us := Bool.eq_not_of_ne (Ne.symm hus)
      simpa using h.other
  · rw [h.options o ho]
    simp [Ne.symm ho]

/-- Commands that come in, as messages about one side of one option. -/
theorem negotiateAll_receives (h : Ready options telopts t) (hlt : options.length < 64)
    (hc : ∀ c ∈ cmds, c.2 ∈ options) (o : UInt8) (us : Bool) :
    let r := receiveAll (grants telopts o us) us (want (side (t.getRfc1143 o) us)) (about o us cmds)
    Ready options telopts (negotiateAll t cmds).1 ∧
      want (side ((negotiateAll t cmds).1.getRfc1143 o) us) = r.1 ∧
      about o (!us) (commands (negotiateAll t cmds).2) = r.2 ∧
      ∀ c ∈ commands (negotiateAll t cmds).2, c.2 ∈ options := by
  induction cmds generalizing t with
  | nil => exact ⟨h, rfl, rfl, by simp [negotiateAll, commands]⟩
  | cons c cmds ih =>
    obtain ⟨cmd, telopt⟩ := c
    obtain ⟨ho, hcmds⟩ := List.forall_mem_cons.mp hc
    obtain ⟨keys, hk⟩ := h.table
    obtain ⟨state, hwant, hsets, hsent⟩ := negotiate_receives hk hlt ho h.proxy cmd
    obtain ⟨hready, hend, habout, hin⟩ := ih (h.sets hsets) hcmds
    have hsplit : commands (negotiateAll t ((cmd, telopt) :: cmds)).2 =
        commands (t.negotiate cmd telopt).2 ++
          commands (negotiateAll (t.negotiate cmd telopt).1 cmds).2 :=
      List.filterMap_append
    have hin' : ∀ c ∈ commands (t.negotiate cmd telopt).2, c.2 ∈ options := by
      intro c hc
      rw [hsent] at hc
      obtain ⟨v, -, rfl⟩ := List.mem_map.mp hc
      exact ho
    rw [sets_side hsets] at hend habout
    have hall := List.forall_mem_append.mpr ⟨hin', hin⟩
    refine ⟨hready, ?_, ?_, hsplit ▸ hall⟩
    all_goals rw [about_cons]
    on_goal 2 => rw [hsplit, about_append, habout, hsent, about_replies]
    all_goals
      by_cases hthis : telopt = o ∧ cmd.local_ = us
      · obtain ⟨rfl, rfl⟩ := hthis
        simp [receiveAll, hwant, h.check, hend, negotiateAll]
      · simp [hthis, hend, negotiateAll]

theorem tracks_cons {p : Policy} {a : LinkStep} {os : List LinkStep} {before mid after : Pair}
    {acts acts' : List Act} (h : Tracks p o s [a] before mid acts)
    (h' : Tracks p o (s.step a) os mid after acts') :
    Tracks p o s (a :: os) before after (acts ++ acts') := by
  obtain ⟨hmid, hsent, hasks, hwaits⟩ := h
  obtain ⟨hafter, hsent', hasks', hwaits'⟩ := h'
  subst hmid
  refine ⟨?_, ?_, ?_, ?_⟩
  · rw [List.foldl_append, hafter]
  · simp only [total] at hsent ⊢
    rw [total_append, hsent, hsent']
    omega
  · simp only [List.map_append, List.sum_append, List.map_cons, List.sum_cons] at hasks ⊢
    rw [hasks, hasks']
    simp
  · rintro ⟨ha, hrest⟩
    exact admitted_append.mpr ⟨hwaits ⟨ha, trivial⟩, hwaits' hrest⟩

theorem about_request (local_ : Bool) (r : Option (Command × UInt8)) :
    about o local_ r.toList = [] ∨
      ∃ cmd, r = some (cmd, o) ∧ cmd.local_ = local_ ∧ about o local_ r.toList = [on cmd] := by
  cases r with
  | none => exact .inl rfl
  | some c =>
    obtain ⟨cmd, telopt⟩ := c
    rw [Option.toList, about_cons]
    by_cases hthis : telopt = o ∧ cmd.local_ = local_
    · obtain ⟨rfl, rfl⟩ := hthis
      exact .inr ⟨cmd, rfl, rfl, by simp⟩
    · exact .inl (by simp [hthis])

/-- What a call does to one side of an option, of which it asks for `vs`. -/
structure Asks (options : List UInt8) (telopts : List Telopt) (t : Telnet) (o : UInt8) (us : Bool)
    (vs : List Bool) (r : Telnet × List Event) : Prop where
  ready : Ready options telopts r.1
  options : ∀ c ∈ commands r.2, c.2 ∈ options
  state : r.1.state = t.state
  spells : Spells r.2
  quiet : vs = [] → side (r.1.getRfc1143 o) us = side (t.getRfc1143 o) us ∧
    about o (!us) (commands r.2) = []
  asks : ∀ v, vs = [v] → want (side (r.1.getRfc1143 o) us) =
      (Negotiation.ask v (want (side (t.getRfc1143 o) us))).1 ∧
    about o (!us) (commands r.2) = (Negotiation.ask v (want (side (t.getRfc1143 o) us))).2

theorem asks_quiet (h : Ready options telopts t) {events : List Event} (hs : Spells events)
    (hnone : commands events = []) (o : UInt8) (us : Bool) :
    Asks options telopts t o us [] (t, events) :=
  ⟨h, by simp [hnone], rfl, hs, fun _ => ⟨rfl, by simp [hnone]⟩, by simp⟩

theorem run_asks (h : Ready options telopts t) (hlt : options.length < 64) {call : TelnetSend}
    (hc : ∀ c ∈ request (.near call), c.2 ∈ options) (o : UInt8) (us : Bool) :
    Asks options telopts t o us (about o (!us) (request (.near call)).toList) (call.run t) := by
  cases call with
  | negotiate cmd telopt =>
    have ho := hc _ rfl
    obtain ⟨keys, hk⟩ := h.table
    obtain ⟨state, hwant, hsets, hsent⟩ := telnetNegotiate_asks hk hlt ho h.proxy cmd
    have hin : ∀ c ∈ commands (t.telnetNegotiate cmd telopt).2, c.2 ∈ options := by
      intro c hc
      rw [hsent] at hc
      obtain ⟨v, -, rfl⟩ := List.mem_map.mp hc
      exact ho
    have hstate : (t.telnetNegotiate cmd telopt).1.state = t.state := by
      rw [hsets.frame]
    refine ⟨h.sets hsets, hin, hstate, telnetNegotiate_spells t cmd telopt, ?_, ?_⟩
    · intro hvs
      have hother : ¬(telopt = o ∧ (!cmd.local_) = us) := by
        rintro ⟨rfl, rfl⟩
        simp [request, about_cons] at hvs
      simp only [TelnetSend.run, hsent, about_replies, sets_side hsets, Bool.not_not]
      constructor
      · rw [if_neg hother]
      · rw [if_neg]
        rintro ⟨rfl, hus⟩
        exact hother ⟨rfl, by rw [hus, Bool.not_not]⟩
    · intro v hvs
      obtain ⟨⟨rfl, hus⟩, rfl⟩ : (telopt = o ∧ cmd.local_ = !us) ∧ on cmd = v := by
        by_cases hthis : telopt = o ∧ cmd.local_ = !us
        · simpa [request, about_cons, hthis] using hvs
        · simp [request, about_cons, hthis] at hvs
      obtain rfl : us = !cmd.local_ := by rw [hus, Bool.not_not]
      simp [TelnetSend.run, hsent, about_replies, sets_side hsets, hwant]
  | data buffer =>
    exact asks_quiet h (run_spells t (.data buffer)) (telnetSend_plain (.inl rfl) buffer).2 o us
  | printf output =>
    exact asks_quiet h (run_spells t (.printf output))
      (sendLoop_plain printf_escapes (.inl rfl) plain_nil List.not_mem_nil output).2 o us
  | subnegotiation telopt buffer =>
    obtain ⟨hs, hnone⟩ := telnetSubnegotiation_spells telopt buffer
    exact asks_quiet h hs hnone o us

/-- Bytes that are sent go behind those that are on their way. -/
theorem sent_lexes {xs : List UInt8} {l : Lex} {events : List Event}
    (h : lex l xs = some (.text, cmds)) (hs : Spells events) :
    lex l (xs ++ TelnetLink.wire events) = some (.text, cmds ++ commands events) := by
  unfold Spells at hs
  simp [lex_append, h, hs]

theorem near_tracks (h : Linked options near far s out back) (hlt : options.length < 64)
    {call : TelnetSend} (hc : ∀ c ∈ request (.near call), c.2 ∈ options) (o : UInt8) :
    ∃ out' acts, Linked options near far (s.step (.near call)) out' back ∧
      Tracks (policy near far o) o s [.near call] (pair o s out back)
        (pair o (s.step (.near call)) out' back) acts := by
  have hasks := run_asks h.near hlt hc o true
  have hlinked : Linked options near far (s.step (.near call))
      (out ++ commands (call.run s.near).2) back := by
    refine ⟨hasks.ready, h.far, ?_, ?_, List.forall_mem_append.mpr ⟨h.outOptions, hasks.options⟩,
      h.backOptions⟩
    · obtain ⟨l, hm, hl⟩ := h.toFar
      exact ⟨l, hm, sent_lexes hl hasks.spells⟩
    · obtain ⟨l, hm, hl⟩ := h.toNear
      exact ⟨l, by rwa [← hasks.state] at hm, hl⟩
  rcases about_request (o := o) false (request (.near call)) with hvs | ⟨cmd, -, -, hvs⟩
  · obtain ⟨hside, hnone⟩ := hasks.quiet hvs
    rw [Bool.not_true] at hnone
    refine ⟨_, [], hlinked, ?_, ?_, ?_, fun _ => trivial⟩
    · simp [pair, TelnetLink.step, TelnetLink.result, hside, hnone]
    · simp [total, sentAbout, TelnetLink.result, byFar, hnone]
    · simp [asksAbout, byFar, hvs]
  · obtain ⟨hside, hsent⟩ := hasks.asks _ hvs
    rw [Bool.not_true] at hsent
    refine ⟨_, [.askNear (on cmd)], hlinked, ?_, ?_, ?_, ?_⟩
    · simp [pair, Pair.step, TelnetLink.step, TelnetLink.result, hside, hsent]
    · simp [total, sentAbout, TelnetLink.result, byFar, hsent, Pair.sends, pair]
    · simp [asksAbout, byFar, hvs, Act.asks]
    · intro _
      exact ⟨by simp [Pair.Waits], trivial⟩

theorem want_eq_waiting {q : Q} : want q = .want false false ↔ q = .wantNo := by
  cases q <;> simp [want]

theorem far_tracks (h : Linked options near far s out back) (hlt : options.length < 64)
    {call : TelnetSend} (hc : ∀ c ∈ request (.far call), c.2 ∈ options) (o : UInt8) :
    ∃ back' acts, Linked options near far (s.step (.far call)) out back' ∧
      Tracks (policy near far o) o s [.far call] (pair o s out back)
        (pair o (s.step (.far call)) out back') acts := by
  have hreq : request (.far call) = request (.near call) := by cases call <;> rfl
  have hasks := run_asks h.far hlt (hreq ▸ hc) o false
  have hlinked : Linked options near far (s.step (.far call)) out
      (back ++ commands (call.run s.far).2) := by
    refine ⟨h.near, hasks.ready, ?_, ?_, h.outOptions,
      List.forall_mem_append.mpr ⟨h.backOptions, hasks.options⟩⟩
    · obtain ⟨l, hm, hl⟩ := h.toFar
      exact ⟨l, by rwa [← hasks.state] at hm, hl⟩
    · obtain ⟨l, hm, hl⟩ := h.toNear
      exact ⟨l, hm, sent_lexes hl hasks.spells⟩
  rcases about_request (o := o) true (request (.near call)) with hvs | ⟨cmd, hr, hcmd, hvs⟩
  · obtain ⟨hside, hnone⟩ := hasks.quiet hvs
    rw [Bool.not_false] at hnone
    refine ⟨_, [], hlinked, ?_, ?_, ?_, fun _ => trivial⟩
    · simp [pair, TelnetLink.step, TelnetLink.result, hside, hnone]
    · simp [total, sentAbout, TelnetLink.result, byFar, hnone]
    · simp [asksAbout, byFar, hreq, hvs]
  · obtain ⟨hside, hsent⟩ := hasks.asks _ hvs
    rw [Bool.not_false] at hsent
    refine ⟨_, [.askFar (on cmd)], hlinked, ?_, ?_, ?_, ?_⟩
    · simp [pair, Pair.step, TelnetLink.step, TelnetLink.result, hside, hsent]
    · simp [total, sentAbout, TelnetLink.result, byFar, hsent, Pair.sends, pair]
    · simp [asksAbout, byFar, hreq, hvs, Act.asks]
    · rintro ⟨hpatient, -⟩
      refine ⟨?_, trivial⟩
      intro hask hwait
      have hon : on cmd = true := by simpa using hask
      obtain rfl : cmd = .do_ := by cases cmd <;> simp_all [Command.local_, on]
      exact hpatient (hreq.trans hr) (want_eq_waiting.mp hwait)

/-- The first bytes that are on their way, and the others. -/
theorem taken_lexes {xs : List UInt8} {l : Lex} (size : UInt64)
    (h : lex l xs = some (.text, cmds)) : ∃ m taken left,
      lex l (xs.take size.toNat) = some (m, taken) ∧
      lex m (xs.drop size.toNat) = some (.text, left) ∧ taken ++ left = cmds := by
  rw [← List.take_append_drop size.toNat xs, lex_append] at h
  cases htake : lex l (xs.take size.toNat) with
  | none => simp [htake] at h
  | some r =>
    obtain ⟨m, taken⟩ := r
    cases hdrop : lex m (xs.drop size.toNat) with
    | none => simp [htake, hdrop] at h
    | some r =>
      obtain ⟨m', left⟩ := r
      obtain ⟨rfl, hcmds⟩ : m' = .text ∧ taken ++ left = cmds := by
        simpa [htake, hdrop] using h
      exact ⟨m, taken, left, rfl, hdrop, hcmds⟩

theorem asks_replicate {a : Act} (ha : a.asks = 0) (n : Nat) :
    ((List.replicate n a).map Act.asks).sum = 0 := by
  simp [ha]

/-- Nobody waits in vain while messages are taken. -/
theorem waits_replicate {p : Policy} {a : Act} (ha : a ≠ .askFar true) (n : Nat) (before : Pair) :
    Admitted (Pair.step p) Pair.Waits before (List.replicate n a) := by
  refine admitted_of_forall ?_ before
  intro b hb s heq
  exact absurd (List.eq_of_mem_replicate hb ▸ heq) ha

theorem toFar_tracks (h : Linked options near far s out back) (hlt : options.length < 64)
    (size : UInt64) (o : UInt8) :
    ∃ out' back' acts, Linked options near far (s.step (.toFar size)) out' back' ∧
      Tracks (policy near far o) o s [.toFar size] (pair o s out back)
        (pair o (s.step (.toFar size)) out' back') acts := by
  obtain ⟨l, hm, hl⟩ := h.toFar
  obtain ⟨m, taken, left, htake, hdrop, rfl⟩ := taken_lexes size hl
  obtain ⟨htaken, hleft⟩ := List.forall_mem_append.mp h.outOptions
  obtain ⟨hend, hsame, hcommands, hspells⟩ := telnetRecv_receives (TelnetStream.take_lt size s.toFar) hm htake
  obtain ⟨hready, hside, hsent, hin⟩ := negotiateAll_receives h.far hlt htaken o false
  have hside' : want (side ((s.far.telnetRecv (s.toFar.take size.toNat)).1.getRfc1143 o) false) =
      (receiveAll (grants far o false) false (want (side (s.far.getRfc1143 o) false))
        (about o false taken)).1 := by
    rw [hsame.get, hside]
  rw [← hcommands] at hsent hin
  rw [Bool.not_false] at hsent
  have hlinked : Linked options near far (s.step (.toFar size)) left
      (back ++ commands (s.far.telnetRecv (s.toFar.take size.toNat)).2) := by
    refine ⟨h.near, hready.same hsame, ⟨m, hend, hdrop⟩, ?_, hleft,
      List.forall_mem_append.mpr ⟨h.backOptions, hin⟩⟩
    obtain ⟨l, hm, hl⟩ := h.toNear
    exact ⟨l, hm, sent_lexes hl hspells⟩
  have hqueue : (pair o s (taken ++ left) back).toFar = about o false taken ++ about o false left :=
    about_append false taken left
  obtain ⟨hafter, htotal⟩ := Pair.run_toFar (p := policy near far o) hqueue
  refine ⟨_, _, _, hlinked, ?_, htotal.trans ?_, ?_, fun _ => waits_replicate (by simp) _ _⟩
  · rw [hafter]
    simp [pair, policy, TelnetLink.step, TelnetLink.result, hside', hsent]
  · simp [total, sentAbout, TelnetLink.result, byFar, hsent, pair, policy]
  · rw [asks_replicate rfl]
    simp [asksAbout, request, byFar]

theorem toNear_tracks (h : Linked options near far s out back) (hlt : options.length < 64)
    (size : UInt64) (o : UInt8) :
    ∃ out' back' acts, Linked options near far (s.step (.toNear size)) out' back' ∧
      Tracks (policy near far o) o s [.toNear size] (pair o s out back)
        (pair o (s.step (.toNear size)) out' back') acts := by
  obtain ⟨l, hm, hl⟩ := h.toNear
  obtain ⟨m, taken, left, htake, hdrop, rfl⟩ := taken_lexes size hl
  obtain ⟨htaken, hleft⟩ := List.forall_mem_append.mp h.backOptions
  obtain ⟨hend, hsame, hcommands, hspells⟩ := telnetRecv_receives (TelnetStream.take_lt size s.toNear) hm htake
  obtain ⟨hready, hside, hsent, hin⟩ := negotiateAll_receives h.near hlt htaken o true
  have hside' : want (side ((s.near.telnetRecv (s.toNear.take size.toNat)).1.getRfc1143 o) true) =
      (receiveAll (grants near o true) true (want (side (s.near.getRfc1143 o) true))
        (about o true taken)).1 := by
    rw [hsame.get, hside]
  rw [← hcommands] at hsent hin
  rw [Bool.not_true] at hsent
  have hlinked : Linked options near far (s.step (.toNear size))
      (out ++ commands (s.near.telnetRecv (s.toNear.take size.toNat)).2) left := by
    refine ⟨hready.same hsame, h.far, ?_, ⟨m, hend, hdrop⟩,
      List.forall_mem_append.mpr ⟨h.outOptions, hin⟩, hleft⟩
    obtain ⟨l, hm, hl⟩ := h.toFar
    exact ⟨l, hm, sent_lexes hl hspells⟩
  have hqueue : (pair o s out (taken ++ left)).toNear = about o true taken ++ about o true left :=
    about_append true taken left
  obtain ⟨hafter, htotal⟩ := Pair.run_toNear (p := policy near far o) hqueue
  refine ⟨_, _, _, hlinked, ?_, htotal.trans ?_, ?_, fun _ => waits_replicate (by simp) _ _⟩
  · rw [hafter]
    simp [pair, policy, TelnetLink.step, TelnetLink.result, hside', hsent]
  · simp [total, sentAbout, TelnetLink.result, byFar, hsent, pair, policy]
  · rw [asks_replicate rfl]
    simp [asksAbout, request, byFar]

theorem step_tracks (h : Linked options near far s out back) (hlt : options.length < 64)
    {a : LinkStep} (hc : ∀ c ∈ request a, c.2 ∈ options) (o : UInt8) :
    ∃ out' back' acts, Linked options near far (s.step a) out' back' ∧
      Tracks (policy near far o) o s [a] (pair o s out back) (pair o (s.step a) out' back') acts := by
  cases a with
  | near call =>
    obtain ⟨out', acts, hlinked, htracks⟩ := near_tracks h hlt hc o
    exact ⟨out', back, acts, hlinked, htracks⟩
  | far call =>
    obtain ⟨back', acts, hlinked, htracks⟩ := far_tracks h hlt hc o
    exact ⟨out, back', acts, hlinked, htracks⟩
  | toFar size => exact toFar_tracks h hlt size o
  | toNear size => exact toNear_tracks h hlt size o

theorem run_tracks (h : Linked options near far s out back) (hlt : options.length < 64)
    {os : List LinkStep} (hc : ∀ a ∈ os, ∀ c ∈ request a, c.2 ∈ options) (o : UInt8) :
    ∃ out' back' acts, Linked options near far (os.foldl TelnetLink.step s) out' back' ∧
      Tracks (policy near far o) o s os (pair o s out back)
        (pair o (os.foldl TelnetLink.step s) out' back') acts := by
  induction os generalizing s out back with
  | nil => exact ⟨out, back, [], h, rfl, rfl, rfl, fun _ => trivial⟩
  | cons a os ih =>
    obtain ⟨ha, hos⟩ := List.forall_mem_cons.mp hc
    obtain ⟨out₁, back₁, acts₁, hlinked, hfirst⟩ := step_tracks h hlt ha o
    obtain ⟨out₂, back₂, acts₂, hend, hrest⟩ := ih hlinked hos
    exact ⟨out₂, back₂, acts₁ ++ acts₂, hend, tracks_cons hfirst hrest⟩

theorem start_linked (options : List UInt8) (near far : List Telopt) :
    Linked options near far (.start near far) [] [] := by
  have hready : ∀ telopts, Ready options telopts (telnetInit telopts false) :=
    fun telopts => ⟨⟨[], init_table options telopts false⟩, rfl, rfl⟩
  exact ⟨hready near, hready far, ⟨.text, trivial, rfl⟩, ⟨.text, trivial, rfl⟩, by simp, by simp⟩

theorem mem_requested {os : List LinkStep} :
    ∀ a ∈ os, ∀ c ∈ request a, c.2 ∈ requested os := by
  intro a ha c hc
  exact List.mem_dedup.mpr
    (List.mem_map.mpr ⟨c, List.mem_filterMap.mpr ⟨a, ha, hc⟩, rfl⟩)

theorem step_swap (s : TelnetLink) (a : LinkStep) : (s.step a).swap = s.swap.step a.swap := by
  cases a <;> rfl

theorem foldl_swap (s : TelnetLink) (os : List LinkStep) :
    (os.foldl TelnetLink.step s).swap = (os.map LinkStep.swap).foldl TelnetLink.step s.swap := by
  induction os generalizing s with
  | nil => rfl
  | cons a os ih => rw [List.foldl_cons, ih, step_swap, List.map_cons, List.foldl_cons]

@[simp] theorem request_swap (a : LinkStep) : request a.swap = request a := by
  cases a with
  | near call | far call => cases call <;> rfl
  | _ => rfl

@[simp] theorem byFar_swap (a : LinkStep) : byFar a.swap = !byFar a := by
  cases a <;> rfl

@[simp] theorem result_swap (s : TelnetLink) (a : LinkStep) :
    s.swap.result a.swap = s.result a := by
  cases a <;> rfl

theorem requested_swap (os : List LinkStep) :
    requested (os.map LinkStep.swap) = requested os := by
  have hmap : (os.map LinkStep.swap).filterMap request = os.filterMap request := by
    rw [List.filterMap_map]
    exact List.filterMap_congr fun a _ => request_swap a
  rw [requested, hmap, requested]

theorem patient_swap (s : TelnetLink) (a : LinkStep) :
    Patient o s.swap a.swap ↔ Patient o s a := by
  unfold Patient
  rw [request_swap, byFar_swap]
  cases byFar a <;> rfl

theorem admitted_swap {os : List LinkStep} (h : Admitted TelnetLink.step (Patient o) s os) :
    Admitted TelnetLink.step (Patient o) s.swap (os.map LinkStep.swap) := by
  induction os generalizing s with
  | nil => trivial
  | cons a os ih =>
    obtain ⟨ha, hos⟩ := h
    refine ⟨(patient_swap s a).mpr ha, ?_⟩
    rw [← step_swap]
    exact ih hos

/-- Neither end waits for an answer, and they hold the same. -/
def Agree (us him : Q) : Prop := us = him ∧ (us = .no ∨ us = .yes)

theorem agree_of_want {us him : Q} {v : Bool} (hus : want us = .is v) (hhim : want him = .is v) :
    Agree us him := by
  cases v <;> cases us <;> cases him <;> simp_all [want, Agree]

/-- With nothing on its way, the pair's queues are empty. -/
theorem settled_pair (h : Linked options near far s out back) (hfar : s.toFar = [])
    (hnear : s.toNear = []) : out = [] ∧ back = [] := by
  obtain ⟨l, -, hl⟩ := h.toFar
  obtain ⟨l', -, hl'⟩ := h.toNear
  rw [hfar] at hl
  rw [hnear] at hl'
  simp only [lex, Option.some.injEq, Prod.mk.injEq] at hl hl'
  exact ⟨hl.2.symm, hl'.2.symm⟩

theorem settled_agree_near (near far : List Telopt) {os : List LinkStep} (hfew : (requested os).length < 64)
    (hp : Admitted TelnetLink.step (Patient o) (.start near far) os)
    (hfar : (os.foldl TelnetLink.step (.start near far)).toFar = [])
    (hnear : (os.foldl TelnetLink.step (.start near far)).toNear = []) :
    Agree ((os.foldl TelnetLink.step (.start near far)).near.getRfc1143 o).us
      ((os.foldl TelnetLink.step (.start near far)).far.getRfc1143 o).him := by
  obtain ⟨out, back, acts, hlinked, htracks⟩ :=
    run_tracks (start_linked (requested os) near far) hfew mem_requested o
  obtain ⟨rfl, rfl⟩ := settled_pair hlinked hfar hnear
  have hwaits := htracks.waits hp
  obtain ⟨heven, -⟩ := Pair.run_waits Pair.start_even (by simp [Pair.start]) hwaits
  rw [show Pair.start = pair o (.start near far) [] [] from rfl, htracks.after] at heven
  obtain ⟨v, hus, hhim⟩ := Negotiation.even_nil heven
  exact agree_of_want hus hhim

/-- When nothing is on its way any more, the two ends agree on an option that was not asked for
while its refusal was not confirmed. -/
theorem settled_agree (near far : List Telopt) (o : UInt8) (os : List LinkStep)
    (hfew : (requested os).length < 64)
    (hp : Admitted TelnetLink.step (Patient o) (.start near far) os) :
    let s := os.foldl TelnetLink.step (.start near far)
    s.toFar = [] → s.toNear = [] →
      Agree (s.near.getRfc1143 o).us (s.far.getRfc1143 o).him ∧
        Agree (s.far.getRfc1143 o).us (s.near.getRfc1143 o).him := by
  intro s hfar hnear
  refine ⟨settled_agree_near near far hfew hp hfar hnear, ?_⟩
  have hswap := foldl_swap (.start near far) os
  have hfew' : (requested (os.map LinkStep.swap)).length < 64 := by rwa [requested_swap]
  have h := settled_agree_near far near hfew' (admitted_swap hp)
  rw [show TelnetLink.start far near = (TelnetLink.start near far).swap from rfl, ← hswap] at h
  exact h hnear hfar

theorem settled_agree_after_crossing :
    let s := [.near (.negotiate .will 1), .far (.negotiate .do_ 1), .toFar 2, .toFar 8,
      .toNear 8].foldl TelnetLink.step (.start [] [])
    Agree (s.near.getRfc1143 1).us (s.far.getRfc1143 1).him ∧
      Agree (s.far.getRfc1143 1).us (s.near.getRfc1143 1).him :=
  settled_agree [] [] 1 _ (by decide) (by decide) (by decide) (by decide)

def Waiting (q : Q) : Prop := q ≠ .no ∧ q ≠ .yes

theorem waiting_eq (q : Q) : (want q).waiting = 1 ↔ Waiting q := by
  cases q <;> simp [want, Want.waiting, Waiting]

theorem settled_or_waits_near (near far : List Telopt) (o : UInt8) {os : List LinkStep}
    (hfew : (requested os).length < 64)
    (hfar : (os.foldl TelnetLink.step (.start near far)).toFar = [])
    (hnear : (os.foldl TelnetLink.step (.start near far)).toNear = []) :
    let us := ((os.foldl TelnetLink.step (.start near far)).near.getRfc1143 o).us
    let him := ((os.foldl TelnetLink.step (.start near far)).far.getRfc1143 o).him
    Agree us him ∨ (Waiting us ↔ ¬Waiting him) := by
  obtain ⟨out, back, acts, hlinked, htracks⟩ :=
    run_tracks (start_linked (requested os) near far) hfew mem_requested o
  obtain ⟨rfl, rfl⟩ := settled_pair hlinked hfar hnear
  obtain ⟨heven, hlost⟩ := Pair.run_even (p := policy near far o) Pair.start_even acts
  rw [show Pair.start = pair o (.start near far) [] [] from rfl, htracks.after] at heven hlost
  by_cases hforgets : Admitted (Pair.step (policy near far o))
      (fun s a => ¬Pair.Forgets (policy near far o) s a) (pair o (.start near far) [] []) acts
  · obtain ⟨v, hus, hhim⟩ := Negotiation.even_nil (heven hforgets)
    exact .inl (agree_of_want hus hhim)
  · rcases hlost hforgets with h | h
    · have hone := Negotiation.uneven_nil h
      right
      rw [← waiting_eq, ← waiting_eq]
      simp only [side, pair, Bool.false_eq_true, ↓reduceIte] at hone
      omega
    · exact absurd h Negotiation.not_lapsed_nil

/-- When nothing is on its way any more and the two ends do not agree on an option, exactly one of
them waits for an answer. -/
theorem settled_or_waits (near far : List Telopt) (o : UInt8) (os : List LinkStep)
    (hfew : (requested os).length < 64) :
    let s := os.foldl TelnetLink.step (.start near far)
    let near := s.near.getRfc1143 o
    let far := s.far.getRfc1143 o
    s.toFar = [] → s.toNear = [] →
      (Agree near.us far.him ∨ (Waiting near.us ↔ ¬Waiting far.him)) ∧
        (Agree far.us near.him ∨ (Waiting far.us ↔ ¬Waiting near.him)) := by
  intro s n f hfar hnear
  refine ⟨settled_or_waits_near near far o hfew hfar hnear, ?_⟩
  have hswap := foldl_swap (.start near far) os
  have hfew' : (requested (os.map LinkStep.swap)).length < 64 := by rwa [requested_swap]
  have h := settled_or_waits_near far near o hfew'
  rw [show TelnetLink.start far near = (TelnetLink.start near far).swap from rfl, ← hswap] at h
  exact h hnear hfar

theorem settled_or_waits_after_forgetting :
    let s := [.near (.negotiate .will 1), .far (.negotiate .do_ 1), .toFar 3, .toNear 3,
      .far (.negotiate .dont 1), .far (.negotiate .do_ 1), .toNear 3,
      .toFar 3].foldl TelnetLink.step (.start [] [])
    let near := s.near.getRfc1143 1
    let far := s.far.getRfc1143 1
    (Agree near.us far.him ∨ (Waiting near.us ↔ ¬Waiting far.him)) ∧
      (Agree far.us near.him ∨ (Waiting far.us ↔ ¬Waiting near.him)) :=
  settled_or_waits [] [] 1 _ (by decide) (by decide) (by decide)

/-- The commands of a step about an option. -/
def sent (o : UInt8) (s : TelnetLink) (a : LinkStep) : Nat :=
  (commands (s.result a).2).countP (·.2 = o)

def asksFor (o : UInt8) (a : LinkStep) : Bool := (request a).any (·.2 = o)

theorem about_count (o : UInt8) (local_ : Bool) (cmds : List (Command × UInt8)) :
    (about o local_ cmds).length + (about o (!local_) cmds).length = cmds.countP (·.2 = o) := by
  induction cmds with
  | nil => rfl
  | cons c cmds ih =>
    rw [about_cons, about_cons, List.countP_cons, ← ih]
    by_cases ho : c.2 = o
    · by_cases hl : c.1.local_ = local_
      · simp [ho, hl]
        omega
      · have hl' : c.1.local_ = !local_ := Bool.eq_not_of_ne hl
        simp [ho, hl']
        omega
    · simp [ho]

theorem total_sent (s : TelnetLink) (os : List LinkStep) :
    total TelnetLink.step (sent o) s os = total TelnetLink.step (sentAbout o) s os +
      total TelnetLink.step (sentAbout o) s.swap (os.map LinkStep.swap) := by
  induction os generalizing s with
  | nil => rfl
  | cons a os ih =>
    have hhead : sent o s a = sentAbout o s a + sentAbout o s.swap a.swap := by
      simp only [sent, sentAbout, result_swap, byFar_swap, about_count]
    simp only [total, List.map_cons, ih, step_swap, hhead]
    omega

theorem count_toList (r : Option (Command × UInt8)) (p : Command × UInt8 → Bool) :
    r.toList.countP p = if r.any p then 1 else 0 := by
  cases r with
  | none => rfl
  | some c => simp [List.countP_cons]

theorem sum_asks (os : List LinkStep) : (os.map (asksAbout o)).sum +
    ((os.map LinkStep.swap).map (asksAbout o)).sum = os.countP (asksFor o) := by
  induction os with
  | nil => rfl
  | cons a os ih =>
    have hhead : asksAbout o a + asksAbout o a.swap = if asksFor o a then 1 else 0 := by
      simp only [asksAbout, request_swap, byFar_swap, about_count, asksFor]
      exact count_toList _ _
    simp only [List.map_cons, List.sum_cons, List.countP_cons, ← ih, ← hhead]
    omega

theorem sent_about_le (near far : List Telopt) (o : UInt8) {os : List LinkStep}
    (hfew : (requested os).length < 64) :
    total TelnetLink.step (sentAbout o) (.start near far) os ≤
      2 * (os.map (asksAbout o)).sum := by
  obtain ⟨out, back, acts, hlinked, htracks⟩ :=
    run_tracks (start_linked (requested os) near far) hfew mem_requested o
  have h := Pair.run_sends (policy near far o) acts
  rw [show Pair.start = pair o (.start near far) [] [] from rfl, htracks.sent] at h
  rwa [List.sum_map_mul_left acts Act.asks 2, htracks.asks] at h

/-- The two ends send at most two commands about an option for each call that negotiates it. -/
theorem sent_le (near far : List Telopt) (o : UInt8) (os : List LinkStep)
    (hfew : (requested os).length < 64) :
    total TelnetLink.step (sent o) (.start near far) os ≤ 2 * os.countP (asksFor o) := by
  have hnear := sent_about_le near far o hfew
  have hfew' : (requested (os.map LinkStep.swap)).length < 64 := by rwa [requested_swap]
  have hfar := sent_about_le far near o hfew'
  rw [total_sent, ← sum_asks, show (TelnetLink.start near far).swap = .start far near from rfl]
  omega

theorem sent_le_after_crossing :
    let os : List LinkStep := [.near (.negotiate .will 1), .far (.negotiate .do_ 1), .toFar 2,
      .toFar 8, .toNear 8]
    total TelnetLink.step (sent 1) (.start [] []) os ≤ 2 * os.countP (asksFor 1) :=
  sent_le [] [] 1 _ (by decide)

end Catchb.Proofs.TelnetAgree
