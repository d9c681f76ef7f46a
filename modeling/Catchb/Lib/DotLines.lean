import Catchb.Lib.Text
import Mathlib.Data.List.Infix

/-! Text that ends at a line with a single dot, as mail is sent. -/

namespace Catchb.Lib.DotLines

def crlf : Text := ['\r', '\n']

def crlfDot : Text := ['\r', '\n', '.']

def ending : Text := ['\r', '\n', '.', '\r', '\n']

/-- What is read up to the ending. The dot that a line begins with is dropped; without an ending,
nothing is read. -/
def receive : Text → Option Text
  | '\r' :: '\n' :: '.' :: '\r' :: '\n' :: _ => some []
  | '\r' :: '\n' :: '.' :: rest => (receive rest).map (fun t => '\r' :: '\n' :: t)
  | c :: rest => (receive rest).map (fun t => c :: t)
  | [] => none

/-- A text begins at the beginning of a line. -/
def mailOf (data : Text) : Option Text := (receive (crlf ++ data)).map (List.drop 2)

/-- Some line begins with a dot. -/
def Dotted (t : Text) : Prop := crlfDot <:+: t

/-- Some line is a single dot. -/
def Ended (t : Text) : Prop := ending <:+: t

instance (t : Text) : Decidable (Dotted t) := inferInstanceAs (Decidable (_ <:+: _))

instance (t : Text) : Decidable (Ended t) := inferInstanceAs (Decidable (_ <:+: _))

theorem receive_dot {rest : Text} (h : ¬crlf <+: rest) :
    receive (crlfDot ++ rest) = (receive rest).map (fun t => '\r' :: '\n' :: t) := by
  change receive ('\r' :: '\n' :: '.' :: rest) = _
  rw [receive]
  intro r hr
  exact h ⟨r, hr.symm⟩

theorem receive_cons {c : Char} {rest : Text} (h : ¬crlfDot <+: c :: rest) :
    receive (c :: rest) = (receive rest).map (fun t => c :: t) := by
  rw [receive]
  · rintro r rfl rfl
    exact h ⟨_, rfl⟩
  · rintro r rfl rfl
    exact h ⟨r, rfl⟩

/-- The dot of an ending that follows is not at the beginning of a line of `t`. -/
theorem crlfDot_prefix_append {c : Char} {rest : Text} (h : crlfDot <+: c :: (rest ++ ending)) :
    crlfDot <+: c :: rest := by
  match rest with
  | [] | [_] =>
    simp [crlfDot, ending] at h
  | d :: e :: rest =>
    simpa [crlfDot] using h

theorem dotted_cons {c : Char} {rest : Text} (h : ¬crlfDot <+: c :: rest) :
    Dotted (c :: rest) ↔ Dotted rest := by
  rw [Dotted, List.infix_cons_iff]
  exact or_iff_right h

theorem ended_cons {c : Char} {rest : Text} (h : ¬ending <+: c :: rest) :
    Ended (c :: rest) ↔ Ended rest := by
  rw [Ended, List.infix_cons_iff]
  exact or_iff_right h

/-- A line that begins with a dot does not reach over another character. -/
theorem dotted_append_cons {c : Char} (hc : c ∉ crlfDot) (t rest : Text) :
    Dotted (t ++ c :: rest) ↔ Dotted t ∨ Dotted rest := by
  induction t with
  | nil =>
    have hfirst : ¬crlfDot <+: c :: rest := by
      rintro ⟨u, hu⟩
      exact hc ((List.cons.inj hu).1 ▸ List.mem_cons_self)
    rw [List.nil_append, dotted_cons hfirst]
    exact (or_iff_right (by decide)).symm
  | cons d t ih =>
    have hprefix : crlfDot <+: d :: (t ++ c :: rest) ↔ crlfDot <+: d :: t := by
      match t with
      | [] | [_] =>
        simp only [crlfDot, List.mem_cons, List.not_mem_nil, or_false, not_or] at hc
        simp [crlfDot, Ne.symm hc.2.1, Ne.symm hc.2.2]
      | e :: f :: t => simp [crlfDot]
    rw [List.cons_append, Dotted, List.infix_cons_iff, hprefix, Dotted, List.infix_cons_iff, or_assoc]
    exact or_congr_right ih

/-- Nor into the end of a line. -/
theorem dotted_append_crlf (t : Text) : Dotted (t ++ crlf) ↔ Dotted t := by
  induction t with
  | nil => decide
  | cons d t ih =>
    have hprefix : crlfDot <+: d :: (t ++ crlf) ↔ crlfDot <+: d :: t := by
      match t with
      | [] | [_] => simp [crlfDot, crlf]
      | e :: f :: t => simp [crlfDot]
    rw [List.cons_append, Dotted, List.infix_cons_iff, hprefix, Dotted, List.infix_cons_iff]
    exact or_congr_right ih

/-- Nothing is read of a text without an ending. -/
theorem receive_eq_none_iff (t : Text) : receive t = none ↔ ¬Ended t := by
  induction t using receive.induct with
  | case1 rest =>
    have hended : Ended (ending ++ rest) := (List.prefix_append ending rest).isInfix
    exact iff_of_false nofun (fun h => h hended)
  | case2 rest hrest ih =>
    have hdot : ¬crlf <+: rest := by
      rintro ⟨u, rfl⟩
      exact hrest u rfl
    have hended : Ended ('\r' :: '\n' :: '.' :: rest) ↔ Ended rest := by
      rw [ended_cons, ended_cons, ended_cons]
      · simp [ending]
      · simp [ending]
      · simpa [ending, crlf] using hdot
    have hreceive := receive_dot hdot
    change receive ('\r' :: '\n' :: '.' :: rest) = _ at hreceive
    rw [hreceive, Option.map_eq_none_iff, ih, hended]
  | case3 c rest _ hother ih =>
    have hdot : ¬crlfDot <+: c :: rest := by
      rintro ⟨u, hu⟩
      obtain ⟨rfl, rfl⟩ := List.cons.inj hu
      exact hother u rfl rfl
    have hended : ¬ending <+: c :: rest :=
      fun h => hdot (List.IsPrefix.trans ⟨crlf, rfl⟩ h)
    rw [receive_cons hdot, Option.map_eq_none_iff, ih, ended_cons hended]
  | case4 => exact iff_of_true rfl (by decide)

/-- A text and the ending behind it are read as a text that is no longer, and is shorter if a line
begins with a dot. -/
theorem receive_append_ending (t : Text) : ∃ u, receive (t ++ ending) = some u ∧
    u.length ≤ t.length ∧ (Dotted t → u.length < t.length) ∧ (¬Dotted t → u = t) := by
  induction t using receive.induct with
  | case1 rest =>
    have hdotted : Dotted (ending ++ rest) :=
      (List.IsPrefix.trans (List.prefix_append crlfDot crlf) (List.prefix_append ending rest)).isInfix
    exact ⟨[], rfl, Nat.zero_le _, fun _ => Nat.zero_lt_succ _, fun h => absurd hdotted h⟩
  | case2 rest hrest ih =>
    have hdotted : Dotted ('\r' :: '\n' :: '.' :: rest) := (List.prefix_append crlfDot rest).isInfix
    by_cases hend : crlf <+: rest ++ ending
    · obtain ⟨v, hv⟩ := hend
      refine ⟨[], ?_, Nat.zero_le _, fun _ => Nat.zero_lt_succ _, fun h => absurd hdotted h⟩
      change receive ('\r' :: '\n' :: '.' :: (rest ++ ending)) = _
      rw [← hv]
      rfl
    · obtain ⟨u, hu, hle, -, -⟩ := ih
      have hreceive := receive_dot hend
      change receive ('\r' :: '\n' :: '.' :: rest ++ ending) = _ at hreceive
      refine ⟨'\r' :: '\n' :: u, by rw [hreceive, hu, Option.map_some], ?_, ?_, ?_⟩
      · simp only [List.length_cons]
        omega
      · intro _
        simp only [List.length_cons]
        omega
      · exact fun h => absurd hdotted h
  | case3 c rest _ hother ih =>
    have hdot : ¬crlfDot <+: c :: rest := by
      rintro ⟨u, hu⟩
      obtain ⟨rfl, rfl⟩ := List.cons.inj hu
      exact hother u rfl rfl
    obtain ⟨u, hu, hle, hlt, heq⟩ := ih
    have hreceive := receive_cons (fun h => hdot (crlfDot_prefix_append h))
    refine ⟨c :: u, by rw [List.cons_append, hreceive, hu, Option.map_some], ?_, ?_, ?_⟩
    · exact Nat.succ_le_succ hle
    · intro hdotted
      exact Nat.succ_lt_succ (hlt ((dotted_cons hdot).mp hdotted))
    · intro hplain
      rw [heq (fun h => hplain ((dotted_cons hdot).mpr h))]
  | case4 => exact ⟨[], rfl, Nat.le_refl _, fun h => absurd h (by decide), fun _ => rfl⟩

theorem mailOf_eq_none_iff (t : Text) : mailOf t = none ↔ ¬Ended (crlf ++ t) := by
  rw [mailOf, Option.map_eq_none_iff, receive_eq_none_iff]

/-- With the ending behind it a text is received as it is, exactly if no line begins with a dot. -/
theorem mailOf_append_ending (t : Text) :
    ∃ mail, mailOf (t ++ ending) = some mail ∧ (mail = t ↔ ¬Dotted (crlf ++ t)) := by
  obtain ⟨u, hu, -, hlt, heq⟩ := receive_append_ending (crlf ++ t)
  rw [List.append_assoc] at hu
  refine ⟨u.drop 2, by rw [mailOf, hu, Option.map_some], ?_⟩
  constructor
  · intro hmail hdotted
    have hlen := hlt hdotted
    have hmail := congrArg List.length hmail
    rw [List.length_append, show crlf.length = 2 from rfl] at hlen
    rw [List.length_drop] at hmail
    have hempty : t = [] := List.length_eq_zero_iff.mp (by omega)
    rw [hempty] at hdotted
    revert hdotted
    decide
  · intro hplain
    rw [heq hplain]
    rfl

end Catchb.Lib.DotLines
