import Catchb.Proofs.TelnetDelivery
import Catchb.TelnetThread

/-! What the telnet client lets itself be talked into, whatever it receives. -/

namespace Catchb.Proofs.TelnetRefusals
open Lib Telnet
open TelnetStream
open TelnetTable
open TelnetWire (Same)
open TelnetDelivery (iac_quiet)

/-- The options that the other end may turn on. -/
def granted : List UInt8 := [teloptCompress2, teloptMssp]

/-- A command that a client may send. -/
def Allowed (c : Telnet.Command × UInt8) : Prop := c.1 ≠ .will ∧ (c.1 = .do_ → c.2 ∈ granted)

/-- Nothing is on at this end, and nothing but what is granted at the other one. -/
structure Modest (t : Telnet) : Prop where
  telopts : t.telopts = TelnetThread.telopts
  proxy : t.proxy = false
  table : ∃ keys, Table granted keys t
  us : ∀ o, (t.getRfc1143 o).us = .no
  him : ∀ o, (t.getRfc1143 o).him = .no ∨ (t.getRfc1143 o).him = .yes ∧ o ∈ granted

variable {t u : Telnet} {o : UInt8}

theorem modest_same (h : Modest t) (hs : Same u t) : Modest u := by
  obtain ⟨keys, hk⟩ := h.table
  refine ⟨hs.telopts.trans h.telopts, hs.proxy.trans h.proxy, ⟨keys, ?_, ?_, hk.nodup, hk.subset⟩,
    fun o => ?_, fun o => ?_⟩
  · rw [hs.q, hs.qSize, hk.size]
  · rw [hs.q, hk.telopts]
  · rw [hs.get]
    exact h.us o
  · rw [hs.get]
    exact h.him o

/-- The other end's side of a granted option changes. -/
theorem modest_sets (h : Modest t) {state : Q} (hstate : state = .no ∨ state = .yes)
    (ho : o ∈ granted) : Modest (t.setSide o false (some state)) := by
  obtain ⟨keys, hk⟩ := h.table
  obtain ⟨htable, hset, hother, hoptions, hframe⟩ :=
    setSide_sets hk (show granted.length < 64 by decide) ho false (some state)
  refine ⟨?_, ?_, htable, fun o' => ?_, fun o' => ?_⟩
  · rw [hframe]
    exact h.telopts
  · rw [hframe]
    exact h.proxy
  · by_cases he : o' = o
    · subst he
      have hus : ((t.setSide o' false (some state)).getRfc1143 o').us = (t.getRfc1143 o').us := hother
      rw [hus, h.us]
    · rw [hoptions o' he]
      exact h.us o'
  · by_cases he : o' = o
    · subst he
      have hhim : ((t.setSide o' false (some state)).getRfc1143 o').him = state := hset
      rw [hhim]
      exact hstate.imp id fun hy => ⟨hy, ho⟩
    · rw [hoptions o' he]
      exact h.him o'

theorem check_client (h : Modest t) (o : UInt8) : t.checkTelopt o true = false ∧
    (t.checkTelopt o false = true → o ∈ granted) := by
  simp only [checkTelopt, h.telopts, TelnetThread.telopts, List.find?_cons, List.find?_nil]
  by_cases h86 : teloptCompress2 = o
  · subst h86
    decide
  · by_cases h70 : teloptMssp = o
    · subst h70
      decide
    · simp [h86, h70]

/-- What is sent are commands, all of which are allowed. -/
def Answers (sent : List (List UInt8)) : Prop :=
  ∃ cmds : List (Telnet.Command × UInt8), sent = cmds.map (fun c => [iac, c.1.byte, c.2]) ∧
    ∀ c ∈ cmds, Allowed c

theorem answers_append {xs ys : List (List UInt8)} (h : Answers xs) (h' : Answers ys) :
    Answers (xs ++ ys) := by
  obtain ⟨cmds, rfl, hall⟩ := h
  obtain ⟨cmds', rfl, hall'⟩ := h'
  refine ⟨cmds ++ cmds', List.map_append.symm, fun c hc => ?_⟩
  rcases List.mem_append.mp hc with hc | hc
  · exact hall c hc
  · exact hall' c hc

theorem answers_nil : Answers [] := ⟨[], rfl, by simp⟩

theorem commands_bytes (cmds : List (Telnet.Command × UInt8)) :
    (cmds.map fun c => [iac, c.1.byte, c.2]).filterMap (fun bytes => commandOf (.send bytes)) =
      cmds := by
  induction cmds with
  | nil => rfl
  | cons c cmds ih =>
    obtain ⟨cmd, telopt⟩ := c
    have hc : commandOf (.send [iac, cmd.byte, telopt]) = some (cmd, telopt) :=
      commandOf_send cmd telopt
    simp only [List.map_cons, List.filterMap_cons, hc, ih]

theorem negotiate_modest (h : Modest t) (cmd : Telnet.Command) (o : UInt8) :
    Modest (t.negotiate cmd o).1 ∧ Answers (sends (t.negotiate cmd o).2) := by
  suffices h' : Modest (t.negotiate cmd o).1 ∧ ∀ c ∈ commands (t.negotiate cmd o).2, Allowed c by
    obtain ⟨cmds, hcmds⟩ := TelnetDelivery.negotiate_only t cmd o
    have hlist : commands (t.negotiate cmd o).2 = cmds := by
      rw [TelnetWire.commands_eq, hcmds]
      exact commands_bytes cmds
    exact ⟨h'.1, cmds, hcmds, hlist ▸ h'.2⟩
  obtain ⟨hus, hhim⟩ := check_client h o
  have hno := h.us o
  simp only [negotiate, h.proxy, Bool.false_eq_true, ↓reduceIte, commands_events]
  cases cmd with
  | will =>
    simp only [negotiateCase]
    rcases h.him o with hq | ⟨hq, ho⟩
    · cases hcheck : t.checkTelopt o false with
      | false => simp [hq, onWill, setSide, h, Allowed]
      | true =>
        simp only [hq, onWill, ↓reduceIte, Command.local_]
        exact ⟨modest_sets h (.inr rfl) (hhim hcheck), by simp [Allowed, hhim hcheck]⟩
    · simp [hq, onWill, Case.none, setSide, h]
  | wont =>
    simp only [negotiateCase]
    rcases h.him o with hq | ⟨hq, ho⟩
    · simp [hq, onWont, Case.none, setSide, h]
    · simp only [hq, onWont, Command.local_]
      exact ⟨modest_sets h (.inl rfl) ho, by simp [Allowed]⟩
  | do_ => simp [negotiateCase, hno, hus, onDo, setSide, h, Allowed]
  | dont => simp [negotiateCase, hno, onDont, Case.none, setSide, h]

theorem iac_same {nested : Telnet → UInt8 → Telnet × List Event} (h : t.state = .iac)
    (byte : UInt8) : Same (processByte nested t [] 0 0 byte).1 t := by
  simp only [processByte, h]
  split
  · exact ⟨rfl, rfl, rfl, rfl⟩
  · split <;> exact ⟨rfl, rfl, rfl, rfl⟩

/-- Only a byte behind a command is part of the negotiation. -/
theorem processByte_same (h : ∀ cmd, t.state ≠ .negotiating cmd) (byte : UInt8) :
    Same (processByte processNested t [] 0 0 byte).1 t ∧
      sends (processByte processNested t [] 0 0 byte).2.1 = [] := by
  have hframe : ∀ state, Same { t with state } t := fun _ => ⟨rfl, rfl, rfl, rfl⟩
  have hbuffered : ∀ (c : UInt8) (state : State),
      Same { (t.bufferByte c).2.1 with state } t := by
    intro c state
    obtain ⟨hsame, -, -⟩ := TelnetWire.bufferByte_same t c
    exact ⟨hsame.telopts, hsame.proxy, hsame.q, hsame.qSize⟩
  cases hstate : t.state with
  | data =>
    simp only [processByte, hstate]
    split
    · exact ⟨hframe _, rfl⟩
    · exact ⟨.refl t, rfl⟩
  | iac =>
    refine ⟨?_, iac_quiet _ hstate byte⟩
    simp only [processByte, hstate]
    split
    · exact hframe _
    · split <;> exact hframe _
  | negotiating cmd => exact absurd hstate (h cmd)
  | sb =>
    simp only [processByte, hstate]
    exact ⟨⟨rfl, rfl, rfl, rfl⟩, rfl⟩
  | sbData =>
    simp only [processByte, hstate]
    split
    · exact ⟨hframe _, rfl⟩
    · split
      · exact ⟨hframe _, rfl⟩
      · obtain ⟨hsame, -, hsends⟩ := TelnetWire.bufferByte_same t byte
        have hgiven := hbuffered byte .data
        split <;> rename_i he <;> rw [he] at hsame hsends hgiven
        · exact ⟨hsame, hsends⟩
        · exact ⟨hgiven, hsends⟩
  | sbDataIac =>
    simp only [processByte, hstate]
    split
    · obtain ⟨hsame, -, hsends⟩ := TelnetWire.subnegotiate_same { t with state := .data }
      exact ⟨hsame.trans (hframe _), hsends⟩
    · split
      · obtain ⟨-, -, hsends⟩ := TelnetWire.bufferByte_same t iac
        have htaken := hbuffered iac .sbData
        have hgiven := hbuffered iac .data
        split <;> rename_i he <;> rw [he] at hsends htaken hgiven
        · exact ⟨htaken, hsends⟩
        · exact ⟨hgiven, hsends⟩
      · obtain ⟨hsame, -, hsends⟩ := TelnetWire.subnegotiate_same { t with state := .iac }
        have hsub := hsame.trans (hframe .iac)
        split
        · exact ⟨hsub, hsends⟩
        · -- the byte is a command behind what was taken for the subnegotiation's end
          rw [processNested_iac rfl]
          refine ⟨(iac_same rfl byte).trans hsub, ?_⟩
          rw [sends_append, iac_quiet _ rfl]
          exact (List.append_nil _).trans hsends

theorem step_modest {s : Feed} (h : Modest s.telnet) (byte : UInt8) :
    Modest (step s byte).1.telnet ∧ Answers (itemSends (step s byte).2) := by
  by_cases hdata : s.telnet.state = .data
  · obtain ⟨ht, hs⟩ := TelnetWire.step_data hdata byte
    rw [ht, hs]
    refine ⟨modest_same h ?_, answers_nil⟩
    split <;> exact ⟨rfl, rfl, rfl, rfl⟩
  · obtain ⟨ht, hs⟩ := TelnetWire.step_other hdata byte
    rw [ht, hs]
    by_cases hcmd : ∃ cmd, s.telnet.state = .negotiating cmd
    · obtain ⟨cmd, hcmd⟩ := hcmd
      simp only [processByte, hcmd]
      obtain ⟨hmodest, hsent⟩ := negotiate_modest h cmd byte
      exact ⟨modest_same hmodest ⟨rfl, rfl, rfl, rfl⟩, hsent⟩
    · obtain ⟨hsame, hquiet⟩ := processByte_same (not_exists.mp hcmd) byte
      rw [hquiet]
      exact ⟨modest_same h hsame, answers_nil⟩

theorem feed_modest {s : Feed} (h : Modest s.telnet) (xs : List UInt8) :
    Modest (feed s xs).1.telnet ∧ Answers (itemSends (feed s xs).2) := by
  induction xs generalizing s with
  | nil => exact ⟨h, answers_nil⟩
  | cons x xs ih =>
    obtain ⟨hnext, hsent⟩ := step_modest h x
    obtain ⟨hend, hrest⟩ := ih hnext
    refine ⟨hend, ?_⟩
    rw [feed, itemSends_append]
    exact answers_append hsent hrest

theorem recvAll_modest (h : Modest t) (chunks : List Chunk) :
    Modest (recvAll t chunks).1 ∧ Answers (sends (recvAll t chunks).2) := by
  induction chunks generalizing t with
  | nil => exact ⟨h, answers_nil⟩
  | cons chunk chunks ih =>
    have hreads := telnetRecv_reads t chunk
    obtain ⟨hnext, hsent⟩ := feed_modest (s := ⟨t, false⟩) h chunk.val
    rw [← hreads.telnet] at hnext
    rw [← hreads.sends] at hsent
    obtain ⟨hend, hrest⟩ := ih hnext
    refine ⟨hend, ?_⟩
    simp only [recvAll, sends_append]
    exact answers_append hsent hrest

theorem opened_modest : Modest TelnetThread.opened.telnet where
  telopts := rfl
  proxy := rfl
  table := ⟨[], rfl, rfl, List.nodup_nil, List.nil_subset _⟩
  us _ := rfl
  him _ := .inl rfl

/-- Whatever a client receives, in whatever pieces, it never turns anything on at its own end, it
lets the other end turn on compression and MSSP only, and all that it sends are the answers. -/
theorem client_never_offers (chunks : List Chunk) :
    let r := recvAll TelnetThread.opened.telnet chunks
    (∀ o, (r.1.getRfc1143 o).us = .no ∧
      ((r.1.getRfc1143 o).him = .no ∨ (r.1.getRfc1143 o).him = .yes ∧ o ∈ granted)) ∧
      Answers (sends r.2) := by
  obtain ⟨hmodest, hanswers⟩ := recvAll_modest opened_modest chunks
  exact ⟨fun o => ⟨hmodest.us o, hmodest.him o⟩, hanswers⟩

end Catchb.Proofs.TelnetRefusals
