import Mathlib.Data.List.Dedup
import Mathlib.Data.List.Induction
import Catchb.Lib.Negotiation
import Catchb.Telnet

/-! The table of the options' states as a map, and the negotiation of one option. -/

namespace Catchb.Proofs.TelnetTable
open Lib Telnet
open Negotiation (Want)

/-- The entries that are in use, each with three zeroed ones behind it. -/
structure Table (options : List UInt8) (keys : List UInt8) (telnet : Telnet) : Prop where
  size : telnet.qSize.toNat = telnet.q.length
  telopts : telnet.q.map (·.telopt) = keys.flatMap fun key => [key, 0, 0, 0]
  nodup : keys.Nodup
  subset : keys ⊆ options

variable {options keys : List UInt8} {telnet : Telnet} {telopt other : UInt8} {us him : Q}

theorem Table.entries (h : Table options keys telnet) : telnet.entries = telnet.q := by
  rw [Telnet.entries, h.size, List.take_length]

theorem length_groups (keys : List UInt8) :
    (keys.flatMap fun key => [key, (0 : UInt8), 0, 0]).length = 4 * keys.length := by
  simp [List.length_flatMap, Nat.mul_comm]

theorem Table.length (h : Table options keys telnet) : telnet.q.length = 4 * keys.length := by
  rw [← length_groups, ← h.telopts, List.length_map]

theorem init_table (options : List UInt8) (telopts : List Telopt) (proxy : Bool) :
    Table options [] (telnetInit telopts proxy) :=
  ⟨rfl, rfl, List.nodup_nil, List.nil_subset _⟩

theorem findIdx_none (h : Table options keys telnet)
    (hn : telnet.q.findIdx? (·.telopt = telopt) = none) : telopt ∉ keys := by
  intro hk
  have hm : telopt ∈ telnet.q.map (·.telopt) := by
    rw [h.telopts]
    exact List.mem_flatMap.mpr ⟨telopt, hk, List.mem_cons_self⟩
  obtain ⟨entry, he, rfl⟩ := List.mem_map.mp hm
  have hne := List.findIdx?_eq_none_iff.mp hn entry he
  simp at hne

/-- As long as there are fewer than 64 options, the size of the table does not wrap around. -/
theorem set_table (h : Table options keys telnet) (hlt : options.length < 64)
    (ho : telopt ∈ options) :
    ∃ keys', Table options keys' (telnet.setRfc1143 telopt us him) := by
  unfold setRfc1143
  rw [h.entries]
  cases hi : telnet.q.findIdx? (·.telopt = telopt) with
  | some i =>
    refine ⟨keys, ?_, ?_, h.nodup, h.subset⟩
    · simpa using h.size
    · obtain ⟨hlt, hp, -⟩ := List.findIdx?_eq_some_iff_getElem.mp hi
      have hsame : telnet.q[i].telopt = telopt := by simpa using hp
      have hi' : i < (telnet.q.map (·.telopt)).length := by simpa using hlt
      have hat : (telnet.q.map (·.telopt))[i] = telopt := by simpa using hsame
      rw [← h.telopts, List.map_set, ← hat]
      exact List.set_getElem_self hi'
  | none =>
    have hnew := findIdx_none h hi
    have hnodup : (telopt :: keys).Nodup := List.nodup_cons.mpr ⟨hnew, h.nodup⟩
    have hcard := hnodup.length_le_of_subset (List.cons_subset.mpr ⟨ho, h.subset⟩)
    have hlen := h.length
    simp only [List.length_cons] at hcard
    refine ⟨keys ++ [telopt], ?_, ?_, ?_, ?_⟩
    · have hsize := h.size
      simp only [UInt8.toNat_add, List.length_append, List.length_cons, List.length_replicate]
      rw [Nat.mod_eq_of_lt (by simp only [UInt8.reduceToNat]; omega)]
      simp only [UInt8.reduceToNat]
      omega
    · simp [h.telopts, List.replicate]
    · exact List.nodup_append.mpr ⟨h.nodup, by simp, by
        intro a ha b hb
        obtain rfl := List.mem_singleton.mp hb
        rintro rfl
        exact hnew ha⟩
    · exact List.append_subset.mpr ⟨h.subset, by simpa using ho⟩

/-- The first entry of an option is the one that is set. -/
theorem find_set (q : List Rfc1143) {i : Nat} (entry : Rfc1143) (other : UInt8)
    (hi : q.findIdx? (·.telopt = entry.telopt) = some i) :
    (q.set i entry).find? (·.telopt = other) =
      if other = entry.telopt then some entry else q.find? (·.telopt = other) := by
  induction q generalizing i with
  | nil => simp at hi
  | cons e q ih =>
    rw [List.findIdx?_cons] at hi
    by_cases he : e.telopt = entry.telopt
    · obtain rfl : 0 = i := by simpa [he] using hi
      by_cases ho : other = entry.telopt
      · simp [ho]
      · have hne : ¬entry.telopt = other := fun h => ho h.symm
        simp [ho, hne, he]
    · obtain ⟨j, hj, rfl⟩ : ∃ j, q.findIdx? (·.telopt = entry.telopt) = some j ∧ j + 1 = i := by
        simpa [he] using hi
      rw [List.set_cons_succ, List.find?_cons, List.find?_cons, ih hj]
      by_cases ho : e.telopt = other
      · have hne : ¬other = entry.telopt := fun h => he (ho.trans h)
        simp [ho, hne]
      · simp [ho]

/-- An option reads as it was set last, and the others are as they were. -/
theorem get_set (h : Table options keys telnet) (hlt : options.length < 64)
    (ho : telopt ∈ options) (other : UInt8) :
    (telnet.setRfc1143 telopt us him).getRfc1143 other =
      if other = telopt then ⟨telopt, us, him⟩ else telnet.getRfc1143 other := by
  obtain ⟨keys', h'⟩ : ∃ keys', Table options keys' (telnet.setRfc1143 telopt us him) :=
    set_table h hlt ho
  simp only [getRfc1143, h'.entries, h.entries]
  unfold setRfc1143
  rw [h.entries]
  cases hi : telnet.q.findIdx? (·.telopt = telopt) with
  | some i =>
    simp only [find_set telnet.q ⟨telopt, us, him⟩ other hi]
    split <;> simp [*]
  | none =>
    have hnone := List.findIdx?_eq_none_iff.mp hi
    by_cases heq : other = telopt
    · subst heq
      have hfind : telnet.q.find? (·.telopt = other) = none := by
        rw [List.find?_eq_none]
        intro e he
        simpa using hnone e he
      simp [List.find?_append, hfind]
    · simp only [heq, ↓reduceIte, List.find?_append]
      cases hfind : telnet.q.find? (·.telopt = other) with
      | some e => simp
      | none =>
        have hne : ¬telopt = other := fun he => heq he.symm
        by_cases hzero : other = 0
        · subst hzero
          simp [hne, List.replicate]
        · have hz : ¬(0 : UInt8) = other := fun he => hzero he.symm
          simp [hne, hz, List.replicate]

/-- Options that are set one after the other. -/
def setAll (telnet : Telnet) (sets : List (UInt8 × Q × Q)) : Telnet :=
  sets.foldl (fun telnet set => telnet.setRfc1143 set.1 set.2.1 set.2.2) telnet

/-- An option as it is set last. -/
def lastSet (sets : List (UInt8 × Q × Q)) (o : UInt8) : Rfc1143 :=
  ((sets.reverse.find? (·.1 = o)).map fun set => ⟨o, set.2.1, set.2.2⟩).getD ⟨o, .no, .no⟩

theorem lastSet_append (sets : List (UInt8 × Q × Q)) (set : UInt8 × Q × Q) (o : UInt8) :
    lastSet (sets ++ [set]) o = if o = set.1 then ⟨set.1, set.2.1, set.2.2⟩ else lastSet sets o := by
  by_cases ho : o = set.1
  · simp [lastSet, ho]
  · simp [lastSet, ho, Ne.symm ho]

theorem setAll_append (telnet : Telnet) (sets : List (UInt8 × Q × Q)) (set : UInt8 × Q × Q) :
    setAll telnet (sets ++ [set]) = (setAll telnet sets).setRfc1143 set.1 set.2.1 set.2.2 := by
  simp [setAll]

theorem setAll_holds (telopts : List Telopt) (proxy : Bool) (hlt : options.length < 64)
    {sets : List (UInt8 × Q × Q)} (hin : ∀ set ∈ sets, set.1 ∈ options) :
    (∃ keys, Table options keys (setAll (telnetInit telopts proxy) sets)) ∧
      ∀ o, (setAll (telnetInit telopts proxy) sets).getRfc1143 o = lastSet sets o := by
  induction sets using List.reverseRecOn with
  | nil => exact ⟨⟨[], init_table _ _ _⟩, fun o => rfl⟩
  | append_singleton sets set ih =>
    obtain ⟨hsets, hset⟩ := List.forall_mem_append.mp hin
    obtain ⟨⟨keys, hk⟩, hget⟩ := ih hsets
    have ho := hset set List.mem_cons_self
    rw [setAll_append]
    refine ⟨set_table hk hlt ho, fun o => ?_⟩
    rw [get_set hk hlt ho, lastSet_append, hget]

/-- An option that is not in the table takes four entries more. -/
theorem set_new (hsize : telnet.qSize.toNat = telnet.q.length)
    (hkeys : ∀ entry ∈ telnet.q, entry.telopt ∈ 0 :: keys) (hzero : telopt ≠ 0)
    (hnew : telopt ∉ keys) : telnet.setRfc1143 telopt us him =
      { telnet with
        q := telnet.q ++ ⟨telopt, us, him⟩ :: List.replicate 3 ⟨0, .no, .no⟩
        qSize := telnet.qSize + 4 } := by
  have hentries : telnet.entries = telnet.q := by
    rw [Telnet.entries, hsize, List.take_length]
  have hnone : telnet.q.findIdx? (·.telopt = telopt) = none := by
    refine List.findIdx?_eq_none_iff.mpr fun entry he => ?_
    rcases List.mem_cons.mp (hkeys entry he) with h | h
    · simpa [h] using Ne.symm hzero
    · have hne : entry.telopt ≠ telopt := by
        rintro rfl
        exact hnew h
      simpa using hne
  simp only [setRfc1143, hentries, hnone]

/-- A table of different options, none of them the filling, as it has grown. -/
theorem setAll_grows (telopts : List Telopt) (proxy : Bool) {sets : List (UInt8 × Q × Q)}
    (hnodup : (sets.map (·.1)).Nodup) (hzero : ∀ set ∈ sets, set.1 ≠ 0) (hlen : sets.length < 64) :
    let telnet := setAll (telnetInit telopts proxy) sets
    telnet.qSize.toNat = 4 * sets.length ∧ telnet.qSize.toNat = telnet.q.length ∧
      ∀ entry ∈ telnet.q, entry.telopt ∈ (0 : UInt8) :: sets.map (·.1) := by
  induction sets using List.reverseRecOn with
  | nil => exact ⟨rfl, rfl, by simp [setAll, telnetInit]⟩
  | append_singleton sets set ih =>
    obtain ⟨hsets, hset⟩ := List.forall_mem_append.mp hzero
    rw [List.map_append, List.nodup_append] at hnodup
    obtain ⟨hnodup, -, hnew⟩ := hnodup
    rw [List.length_append, List.length_singleton] at hlen
    obtain ⟨hsize, hq, hkeys⟩ := ih hnodup hsets (by omega)
    have hset' : set.1 ∉ sets.map (·.1) := fun hm => hnew _ hm set.1 (by simp) rfl
    rw [setAll_append, set_new hq hkeys (hset set List.mem_cons_self) hset']
    have hgrown : ((setAll (telnetInit telopts proxy) sets).qSize + 4).toNat =
        4 * sets.length + 4 := by
      simp only [UInt8.toNat_add, hsize, UInt8.reduceToNat]
      omega
    refine ⟨?_, ?_, ?_⟩
    · rw [hgrown, List.length_append, List.length_singleton]
      omega
    · rw [hgrown, ← hsize, hq, List.length_append, List.length_cons, List.length_replicate]
    · intro entry he
      rcases List.mem_append.mp he with he | he
      · rcases List.mem_cons.mp (hkeys entry he) with h | h
        · simp [h]
        · simp only [List.map_append, List.mem_cons, List.mem_append]
          exact .inr (.inl h)
      · rcases List.mem_cons.mp he with rfl | he
        · simp
        · simp [List.eq_of_mem_replicate he]

/-- As long as there are fewer than 64 options the table holds them as they were set last, and the
64th one empties it. -/
theorem table_holds_below_64 (telopts : List Telopt) (proxy : Bool) (sets : List (UInt8 × Q × Q)) :
    ((sets.map (·.1)).dedup.length < 64 →
      ∀ o, (setAll (telnetInit telopts proxy) sets).getRfc1143 o = lastSet sets o) ∧
    ((sets.map (·.1)).Nodup → (∀ set ∈ sets, set.1 ≠ 0) → sets.length = 64 →
      ∀ o, (setAll (telnetInit telopts proxy) sets).getRfc1143 o = ⟨o, .no, .no⟩) := by
  constructor
  · intro hfew
    refine (setAll_holds telopts proxy hfew ?_).2
    intro set hset
    exact List.mem_dedup.mpr (List.mem_map_of_mem hset)
  · intro hnodup hzero hlen o
    cases sets using List.reverseRecOn with
    | nil => cases hlen
    | append_singleton sets set =>
      rw [List.length_append, List.length_singleton] at hlen
      obtain ⟨hsets, hset⟩ := List.forall_mem_append.mp hzero
      rw [List.map_append, List.nodup_append] at hnodup
      obtain ⟨hnodup, -, hnew⟩ := hnodup
      obtain ⟨hsize, hq, hkeys⟩ := setAll_grows telopts proxy hnodup hsets (by omega)
      have hset' : set.1 ∉ sets.map (·.1) := fun hm => hnew _ hm set.1 (by simp) rfl
      rw [setAll_append, set_new hq hkeys (hset set List.mem_cons_self) hset']
      have hwrapped : ((setAll (telnetInit telopts proxy) sets).qSize + 4).toNat = 0 := by
        simp only [UInt8.toNat_add, hsize, UInt8.reduceToNat]
        omega
      simp [getRfc1143, entries, hwrapped]

/-- The state of an option at this end or at the other one. -/
def side (entry : Rfc1143) (us : Bool) : Q := if us then entry.us else entry.him

def want : Q → Want
  | .no => .is false
  | .yes => .is true
  | .wantNo => .want false false
  | .wantYes => .want true false
  | .wantNoOp => .want false true
  | .wantYesOp => .want true true

/-- Whether a command turns an option on. -/
def on : Command → Bool
  | .will | .do_ => true
  | .wont | .dont => false

/-- The command about this end's own side, or about the other one's. -/
def command (us v : Bool) : Command :=
  match us, v with
  | true, true => .will
  | true, false => .wont
  | false, true => .do_
  | false, false => .dont

theorem command_local (us v : Bool) : (command us v).local_ = !us := by
  cases us <;> cases v <;> rfl

theorem command_on (us v : Bool) : on (command us v) = v := by
  cases us <;> cases v <;> rfl

/-- The commands that are sent about an option. -/
def commandOf : Event → Option (Command × UInt8)
  | .send [first, cmd, telopt] => if first = iac then (Command.ofByte cmd).map (·, telopt) else none
  | _ => none

def commands (events : List Event) : List (Command × UInt8) := events.filterMap commandOf

@[simp] theorem commandOf_send (cmd : Command) (telopt : UInt8) :
    commandOf (sendNegotiate cmd telopt) = some (cmd, telopt) := by
  cases cmd <;> rfl

/-- What a case makes of a state, against what a message makes of it. -/
def Agrees (us : Bool) (q : Q) (case : Case) (r : Want × List Bool) : Prop :=
  want (case.set.getD q) = r.1 ∧ case.sent.toList = r.2.map (command us)

theorem onWill_agrees (grants : Bool) (q : Q) :
    Agrees false q (onWill grants q) (Negotiation.receive grants false (want q) true) := by
  cases grants <;> cases q <;> exact ⟨rfl, rfl⟩

theorem onWont_agrees (grants : Bool) (q : Q) :
    Agrees false q (onWont q) (Negotiation.receive grants false (want q) false) := by
  cases q <;> exact ⟨rfl, rfl⟩

theorem onDo_agrees (grants : Bool) (q : Q) :
    Agrees true q (onDo grants q) (Negotiation.receive grants true (want q) true) := by
  cases grants <;> cases q <;> exact ⟨rfl, rfl⟩

theorem onDont_agrees (grants : Bool) (q : Q) :
    Agrees true q (onDont q) (Negotiation.receive grants true (want q) false) := by
  cases q <;> exact ⟨rfl, rfl⟩

theorem negotiateCase_agrees (telnet : Telnet) (cmd : Command) (telopt : UInt8) :
    let q := side (telnet.getRfc1143 telopt) cmd.local_
    Agrees cmd.local_ q (telnet.negotiateCase cmd telopt)
      (Negotiation.receive (telnet.checkTelopt telopt cmd.local_) cmd.local_ (want q) (on cmd)) := by
  cases cmd with
  | will => exact onWill_agrees _ _
  | wont => exact onWont_agrees _ _
  | do_ => exact onDo_agrees _ _
  | dont => exact onDont_agrees _ _

theorem turnOn_asks (us : Bool) (q : Q) :
    want ((turnOn q).1.getD q) = (Negotiation.ask true (want q)).1 ∧
      (if (turnOn q).2 then [command us true] else []) =
        (Negotiation.ask true (want q)).2.map (command us) := by
  cases q <;> exact ⟨rfl, rfl⟩

theorem turnOff_asks (us : Bool) (q : Q) :
    want ((turnOff q).1.getD q) = (Negotiation.ask false (want q)).1 ∧
      (if (turnOff q).2 then [command us false] else []) =
        (Negotiation.ask false (want q)).2.map (command us) := by
  cases q <;> exact ⟨rfl, rfl⟩

theorem requestCase_asks (telnet : Telnet) (cmd : Command) (telopt : UInt8) :
    let q := side (telnet.getRfc1143 telopt) (!cmd.local_)
    let case := telnet.requestCase cmd telopt
    let r := Negotiation.ask (on cmd) (want q)
    want (case.1.getD q) = r.1 ∧ (if case.2 then [cmd] else []) = r.2.map (command (!cmd.local_)) := by
  cases cmd with
  | will => exact turnOn_asks true _
  | wont => exact turnOff_asks true _
  | do_ => exact turnOn_asks false _
  | dont => exact turnOff_asks false _

/-- One side of one option is set, and all else is as it was. -/
structure Sets (options : List UInt8) (telnet : Telnet) (telopt : UInt8) (us : Bool)
    (state : Q) (next : Telnet) : Prop where
  table : ∃ keys, Table options keys next
  set : side (next.getRfc1143 telopt) us = state
  other : side (next.getRfc1143 telopt) (!us) = side (telnet.getRfc1143 telopt) (!us)
  options : ∀ o, o ≠ telopt → next.getRfc1143 o = telnet.getRfc1143 o
  frame : next = { telnet with q := next.q, qSize := next.qSize }

theorem setSide_sets (h : Table options keys telnet) (hlt : options.length < 64)
    (ho : telopt ∈ options) (us : Bool) (state : Option Q) :
    Sets options telnet telopt us (state.getD (side (telnet.getRfc1143 telopt) us))
      (telnet.setSide telopt us state) := by
  cases state with
  | none => exact ⟨⟨keys, h⟩, rfl, rfl, fun _ _ => rfl, rfl⟩
  | some state =>
    have hframe : ∀ us him, telnet.setRfc1143 telopt us him =
        { telnet with
          q := (telnet.setRfc1143 telopt us him).q
          qSize := (telnet.setRfc1143 telopt us him).qSize } := by
      intro us him
      unfold setRfc1143
      split <;> rfl
    cases us with
    | false =>
      refine ⟨set_table h hlt ho, ?_, ?_, ?_, hframe _ _⟩
      · simp [setSide, get_set h hlt ho, side]
      · simp [setSide, get_set h hlt ho, side]
      · intro o hne
        simp [setSide, get_set h hlt ho, hne]
    | true =>
      refine ⟨set_table h hlt ho, ?_, ?_, ?_, hframe _ _⟩
      · simp [setSide, get_set h hlt ho, side]
      · simp [setSide, get_set h hlt ho, side]
      · intro o hne
        simp [setSide, get_set h hlt ho, hne]

/-- Which commands a case sends. -/
theorem commands_events (case : Case) (cmd : Command) (telopt : UInt8) :
    commands (case.events cmd telopt) = case.sent.toList.map (·, telopt) := by
  obtain ⟨set, sent, event, error⟩ := case
  cases sent <;> cases event <;> cases error <;>
    simp only [commands, Case.events, Option.toList, List.map_cons, List.map_nil, List.nil_append,
      List.append_nil, List.cons_append, List.filterMap_cons, List.filterMap_nil, commandOf_send,
      Bool.false_eq_true, ↓reduceIte] <;> rfl

/-- A command that comes in, as a message to the side that it is about. -/
theorem negotiate_receives (h : Table options keys telnet) (hlt : options.length < 64)
    (ho : telopt ∈ options) (hproxy : telnet.proxy = false) (cmd : Command) :
    let us := cmd.local_
    let r := Negotiation.receive (telnet.checkTelopt telopt us) us
      (want (side (telnet.getRfc1143 telopt) us)) (on cmd)
    ∃ state, want state = r.1 ∧ Sets options telnet telopt us state (telnet.negotiate cmd telopt).1 ∧
      commands (telnet.negotiate cmd telopt).2 = r.2.map fun v => (command us v, telopt) := by
  obtain ⟨hwant, hsent⟩ := negotiateCase_agrees telnet cmd telopt
  refine ⟨_, hwant, ?_, ?_⟩
  · simpa [negotiate, hproxy] using setSide_sets h hlt ho _ _
  · simp only [negotiate, hproxy, Bool.false_eq_true, ↓reduceIte, commands_events]
    rw [hsent, List.map_map]
    rfl

theorem telnetNegotiate_asks (h : Table options keys telnet) (hlt : options.length < 64)
    (ho : telopt ∈ options) (hproxy : telnet.proxy = false) (cmd : Command) :
    let us := !cmd.local_
    let r := Negotiation.ask (on cmd) (want (side (telnet.getRfc1143 telopt) us))
    ∃ state, want state = r.1 ∧
      Sets options telnet telopt us state (telnet.telnetNegotiate cmd telopt).1 ∧
      commands (telnet.telnetNegotiate cmd telopt).2 = r.2.map fun v => (command us v, telopt) := by
  obtain ⟨hwant, hsent⟩ := requestCase_asks telnet cmd telopt
  refine ⟨_, hwant, ?_, ?_⟩
  · simpa [telnetNegotiate, hproxy] using setSide_sets h hlt ho _ _
  · simp only [telnetNegotiate, hproxy, Bool.false_eq_true, ↓reduceIte]
    rw [show (fun v => (command (!cmd.local_) v, telopt)) =
      (fun cmd => (cmd, telopt)) ∘ command (!cmd.local_) from rfl, ← List.map_map, ← hsent]
    split <;> simp [commands]

end Catchb.Proofs.TelnetTable
