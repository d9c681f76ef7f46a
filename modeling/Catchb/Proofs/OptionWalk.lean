import Catchb.Lib.Walk
import Catchb.Score

/-! How both option loops walk from one TCP option to the next. -/

namespace Catchb.Packet
open Lib FtmScore

variable (p : Packet)

def ulIPHdrLen : Nat := (p 14).toNat % 16 * 4

def ulTCPOptLen : Nat := tcpOptLen ((p (14 + p.ulIPHdrLen + 12)).toNat / 16)

def flags : UInt8 := p (14 + p.ulIPHdrLen + 13)

/-- A TCP packet with SYN. -/
def syn : Bool := p.protocol = 6 && p.flags &&& 2 ≠ 0

/-- The offset of an option. -/
def option (i : Nat) : Nat := 14 + p.ulIPHdrLen + 20 + i

def kind (i : Nat) : UInt8 := p (p.option i)

/-- The kinds that have a length byte. -/
def Long (i : Nat) : Prop := p.kind i = 2 ∨ p.kind i = 3 ∨ p.kind i = 4 ∨ p.kind i = 8

instance : Decidable (p.Long i) := inferInstanceAs (Decidable (_ ∨ _ ∨ _ ∨ _))

def optionLength (i : Nat) : Nat := (p (p.option i + 1)).toNat

/-- The index behind an option, if the loops go on there. -/
def next (i : Nat) : Option Nat :=
  if i < p.ulTCPOptLen then
    if p.kind i = 1 then some (i + 1)
    else if p.Long i then some (i + p.optionLength i)
    else none
  else none

/-- A loop comes to the option at an index. -/
def Reached (i : Nat) : Prop := Reaches p.next 0 i

/-- The indices of the options, if the loops end. -/
def path : Option (List Nat) := walk p.next (p.ulTCPOptLen + 1) 0

/-- A TCP packet with SYN and some options, with nothing but zeros behind it. -/
def withOptions (options : List UInt8) : Packet :=
  memory (List.replicate 12 0 ++
    [8, 0, 0x45, 0, 0, UInt8.ofNat (40 + options.length), 0, 0, 0x40, 0, 64, 6] ++
    List.replicate 22 0 ++ [UInt8.ofNat (80 + 4 * options.length), 2, 0x20, 0, 0, 0, 0, 0] ++
    options) (fun _ => 0)

/-- Twenty NOPs, for which a TCP header has room. -/
def nops : Packet := withOptions (List.replicate 20 1)

section
variable {p} {i j : Nat}

theorem syn_iff : p.syn = true ↔ p.protocol = 6 ∧ p.flags &&& 2 ≠ 0 := by
  simp [syn]

theorem protocol_of_syn (h : p.syn = true) : p.protocol = 6 := (syn_iff.mp h).1

theorem not_nop (hlong : p.Long i) : p.kind i ≠ 1 := by
  intro hnop
  unfold Long at hlong
  rw [hnop] at hlong
  revert hlong
  decide

theorem next_cases (h : p.next i = some j) : i < p.ulTCPOptLen ∧
    ((p.kind i = 1 ∧ j = i + 1) ∨ (p.Long i ∧ j = i + p.optionLength i)) := by
  unfold next at h
  split at h
  · rename_i hi
    split at h
    · rename_i hnop
      exact ⟨hi, .inl ⟨hnop, (Option.some.inj h).symm⟩⟩
    · split at h
      · rename_i hlong
        exact ⟨hi, .inr ⟨hlong, (Option.some.inj h).symm⟩⟩
      · cases h
  · cases h

/-- A loop does not go back, and it does not go on behind the options. -/
theorem next_left (i j : Nat) (h : p.next i = some j) :
    j = i ∨ p.ulTCPOptLen - j < p.ulTCPOptLen - i := by
  obtain ⟨hi, ⟨-, rfl⟩ | ⟨-, rfl⟩⟩ := next_cases h <;> omega

/-- The walk of a loop that ends with some number of turns. -/
theorem path_of_walk {turns : Nat} {l : List Nat} (h : walk p.next turns 0 = some l) :
    p.path = some l := by
  have henough := walk_enough next_left h
  rwa [Nat.sub_zero] at henough

theorem path_ends_iff : (∃ l, p.path = some l) ↔ ∀ i, p.Reached i → p.next i ≠ some i := by
  constructor
  · intro ⟨l, hl⟩
    exact (walk_ends_iff next_left).mp ⟨_, l, hl⟩
  · intro h
    obtain ⟨l, hl⟩ := walk_ends next_left h
    exact ⟨l, path_of_walk hl⟩

/-- An option with a length of zero keeps the loops where they are. -/
theorem next_stands (i : Nat) : p.next i = some i ↔
    i < p.ulTCPOptLen ∧ p.Long i ∧ p.optionLength i = 0 := by
  constructor
  · intro h
    obtain ⟨hi, ⟨-, heq⟩ | ⟨hlong, heq⟩⟩ := next_cases h
    · omega
    · exact ⟨hi, hlong, by omega⟩
  · intro ⟨hi, hlong, hzero⟩
    rw [next, if_pos hi, if_neg (not_nop hlong), if_pos hlong, hzero, Nat.add_zero]

end
end Catchb.Packet

namespace Catchb.Proofs.OptionWalk
open Lib FtmScore Program

variable {p : Packet} {β : Type} {visit : UInt8 → Nat → β → PacketReader β} {turns i j : Nat}
  {x : β}

theorem next_nop (hi : i < p.ulTCPOptLen) (hnop : p.kind i = 1) : p.next i = some (i + 1) := by
  rw [Packet.next, if_pos hi, if_pos hnop]

theorem next_long (hi : i < p.ulTCPOptLen) (hlong : p.Long i) :
    p.next i = some (i + p.optionLength i) := by
  rw [Packet.next, if_pos hi, if_neg (Packet.not_nop hlong), if_pos hlong]

theorem next_last (hnop : p.kind i ≠ 1) (hlong : ¬p.Long i) : p.next i = none := by
  rw [Packet.next, if_neg hnop, if_neg hlong, ite_self]

theorem next_over (hi : ¬i < p.ulTCPOptLen) : p.next i = none := by
  rw [Packet.next, if_neg hi]

/-- One turn of a loop. -/
theorem result_switch (hi : i < p.ulTCPOptLen) :
    result p (switchOption visit (p.option i) i x) =
      match p.next i with
      | none => .ok (none, x)
      | some j => (result p (visit (p.kind i) (p.option i) x)).map fun x => (some j, x) := by
  rw [switchOption, Packet.result_read]
  change result p (if p.kind i = 1 then _ else if p.Long i then _ else _) = _
  by_cases hnop : p.kind i = 1
  · rw [if_pos hnop, next_nop hi hnop, result_bind]
    rfl
  · by_cases hlong : p.Long i
    · rw [if_neg hnop, if_pos hlong, next_long hi hlong, result_bind]
      rfl
    · rw [if_neg hnop, if_neg hlong, next_last hnop hlong]
      rfl

theorem mem_asked_switch {q : Nat} (h : q ∈ asked p (switchOption visit (p.option i) i x)) :
    q = p.option i ∨ q ∈ asked p (visit (p.kind i) (p.option i) x) ∨
      p.Long i ∧ q = p.option i + 1 := by
  rw [switchOption, Packet.asked_read, List.mem_cons] at h
  refine h.imp id fun h => ?_
  change q ∈ asked p (if p.kind i = 1 then _ else if p.Long i then _ else _) at h
  split at h
  · rcases mem_asked_bind.mp h with h | ⟨y, -, h⟩
    · exact .inl h
    · cases h
  · split at h
    · rename_i hlong
      rcases mem_asked_bind.mp h with h | ⟨y, -, h⟩
      · exact .inl h
      · exact .inr ⟨hlong, List.mem_singleton.mp h⟩
    · cases h

theorem result_turn : result p (options p.ulIPHdrLen p.ulTCPOptLen visit (turns + 1) i x) =
    match p.next i with
    | none => .ok x
    | some j => (result p (visit (p.kind i) (p.option i) x)).bind fun x =>
        result p (options p.ulIPHdrLen p.ulTCPOptLen visit turns j x) := by
  by_cases hi : i < p.ulTCPOptLen
  · rw [options, if_pos hi, result_bind]
    change Except.bind (result p (switchOption visit (p.option i) i x)) _ = _
    rw [result_switch hi]
    cases p.next i with
    | none => rfl
    | some j => cases result p (visit (p.kind i) (p.option i) x) <;> rfl
  · rw [options, if_neg hi, next_over hi]
    rfl

/-- A loop that ends visits the options one after the other. -/
theorem result_options {l : List Nat} (h : walk p.next turns i = some l) :
    result p (options p.ulIPHdrLen p.ulTCPOptLen visit turns i x) =
      l.foldlM (fun x i => result p (visit (p.kind i) (p.option i) x)) x := by
  induction turns generalizing i l x with
  | zero => cases h
  | succ turns ih =>
    rw [result_turn]
    cases hnext : p.next i with
    | none =>
      cases (walk_none hnext).symm.trans h
      rfl
    | some j =>
      obtain ⟨rest, hrest, rfl⟩ := Option.map_eq_some_iff.mp ((walk_some hnext).symm.trans h)
      rw [List.foldlM_cons]
      cases result p (visit (p.kind i) (p.option i) x) with
      | error e => rfl
      | ok y => exact ih hrest

/-- Without an end the turns are used up, if no visit fails before. -/
theorem turns_used_up (hvisit : ∀ k o x, ∃ y, result p (visit k o x) = .ok y)
    (h : walk p.next turns i = none) :
    result p (options p.ulIPHdrLen p.ulTCPOptLen visit turns i x) = .error .turns := by
  induction turns generalizing i x with
  | zero => rfl
  | succ turns ih =>
    rw [result_turn]
    cases hnext : p.next i with
    | none => cases (walk_none hnext).symm.trans h
    | some j =>
      obtain ⟨y, hy⟩ := hvisit (p.kind i) (p.option i) x
      rw [hy]
      exact ih (Option.map_eq_none_iff.mp ((walk_some hnext).symm.trans h))

/-- A loop reads at the options that it comes to. -/
theorem mem_asked_options {q : Nat}
    (h : q ∈ asked p (options p.ulIPHdrLen p.ulTCPOptLen visit turns i x)) :
    ∃ j y, Reaches p.next i j ∧ j < p.ulTCPOptLen ∧
      q ∈ asked p (switchOption visit (p.option j) j y) := by
  induction turns generalizing i x with
  | zero => cases h
  | succ turns ih =>
    by_cases hi : i < p.ulTCPOptLen
    · rw [options, if_pos hi] at h
      rcases mem_asked_bind.mp h with h | ⟨⟨next, y⟩, hy, h⟩
      · exact ⟨i, x, .refl, hi, h⟩
      · have hswitch : result p (switchOption visit (p.option i) i x) = .ok (next, y) := hy
        rw [result_switch hi] at hswitch
        cases hnext : p.next i with
        | none =>
          rw [hnext] at hswitch
          cases hswitch
          cases h
        | some j =>
          rw [hnext] at hswitch
          cases hvisit : result p (visit (p.kind i) (p.option i) x) with
          | error e =>
            rw [hvisit] at hswitch
            cases hswitch
          | ok z =>
            rw [hvisit] at hswitch
            cases hswitch
            obtain ⟨k, y, hk, hrest⟩ := ih h
            exact ⟨k, y, .head hnext hk, hrest⟩
    · rw [options, if_neg hi] at h
      cases h

/-- What is read at an option is read in some number of turns, if no visit fails before. -/
theorem asked_options (hvisit : ∀ k o x, ∃ y, result p (visit k o x) = .ok y)
    (hij : Reaches p.next i j) (hj : j < p.ulTCPOptLen) : ∃ turns y,
      asked p (switchOption visit (p.option j) j y) ⊆
        asked p (options p.ulIPHdrLen p.ulTCPOptLen visit turns i x) := by
  induction hij using Relation.ReflTransGen.head_induction_on generalizing x with
  | refl =>
    refine ⟨1, x, fun q hq => ?_⟩
    rw [options, if_pos hj]
    exact mem_asked_bind.mpr (.inl hq)
  | @head i k hnext _ ih =>
    have hi := (Packet.next_cases hnext).1
    obtain ⟨z, hz⟩ := hvisit (p.kind i) (p.option i) x
    obtain ⟨turns, y, hsub⟩ := ih (x := z)
    refine ⟨turns + 1, y, fun q hq => ?_⟩
    have hswitch : result p (switchOption visit (p.option i) i x) = .ok (some k, z) := by
      rw [result_switch hi, hnext, hz]
      rfl
    rw [options, if_pos hi]
    exact mem_asked_bind.mpr (.inr ⟨(some k, z), hswitch, hsub hq⟩)

/-- What the first loop knows behind an option. -/
def seen (p : Packet) (kind : UInt8) (i : Nat) (x : Nat × Int) : Nat × Int :=
  if kind = 2 then (p.word (i + 2), x.2)
  else if kind = 3 then (x.1, (p (i + 2)).toNat)
  else x

theorem result_scan (p : Packet) (kind : UInt8) (i : Nat) (x : Nat × Int) :
    result p (scan kind i x) = .ok (seen p kind i x) := by
  unfold scan seen
  split
  · rfl
  · split <;> rfl

theorem scan_succeeds (p : Packet) (kind : UInt8) (i : Nat) (x : Nat × Int) :
    ∃ y, result p (scan kind i x) = .ok y := ⟨_, result_scan p kind i x⟩

theorem result_order (p : Packet) (kind : UInt8) (i : Nat) (s : Text) :
    result p (order kind i s) = if s.length < 19 then .ok (s ++ [letter kind])
      else .error .overflow := by
  unfold order
  split <;> rfl

theorem result_scans {l : List Nat} (h : walk p.next turns 0 = some l) :
    result p (options p.ulIPHdrLen p.ulTCPOptLen scan turns 0 (0, -1)) =
      .ok (l.foldl (fun x i => seen p (p.kind i) (p.option i) x) (0, -1)) := by
  rw [result_options h]
  simp only [result_scan]
  exact List.foldlM_pure

theorem foldlM_order (l : List Nat) (s : Text) (hs : s.length ≤ 19) :
    l.foldlM (fun s i => result p (order (p.kind i) (p.option i) s)) s =
      if s.length + l.length ≤ 19 then .ok (s ++ l.map (fun i => letter (p.kind i)))
      else .error .overflow := by
  induction l generalizing s with
  | nil =>
    rw [List.length_nil, Nat.add_zero, if_pos hs, List.map_nil, List.append_nil]
    rfl
  | cons i l ih =>
    rw [List.foldlM_cons, result_order]
    by_cases hlt : s.length < 19
    · have hlen : (s ++ [letter (p.kind i)]).length = s.length + 1 := List.length_append
      rw [if_pos hlt]
      refine (ih (s ++ [letter (p.kind i)]) (hlen ▸ hlt)).trans ?_
      rw [hlen, List.append_assoc, List.length_cons, Nat.add_right_comm, Nat.add_assoc]
      rfl
    · rw [if_neg hlt, if_neg (by rw [List.length_cons]; omega)]
      rfl

/-- The string of the second loop has at most 19 characters. -/
theorem result_orders {l : List Nat} (h : walk p.next turns 0 = some l) :
    result p (options p.ulIPHdrLen p.ulTCPOptLen order turns 0 []) =
      if l.length ≤ 19 then .ok (l.map (fun i => letter (p.kind i)))
      else .error .overflow := by
  rw [result_options h, foldlM_order l [] (Nat.zero_le 19), List.length_nil, Nat.zero_add,
    List.nil_append]

end Catchb.Proofs.OptionWalk
