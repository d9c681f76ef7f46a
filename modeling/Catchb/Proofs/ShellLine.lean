import Catchb.FtmShell
import Mathlib.Data.List.Forall2

/-! What the shell reads from a line that was written argument by argument. -/

namespace Catchb.Proofs.ShellLine
open Lib FtmShell

variable {done text line : Text} {c : Char} {n : Nat} {nMaxArgs : Int} {argv : List Nat}

/-- An argument as it is typed. -/
inductive Argument
  | word (t : Text)
  | quoted (t : Text)

namespace Argument

def value : Argument → Text
  | word t => t
  | quoted t => t

def typed : Argument → Text
  | word t => t
  | quoted t => '"' :: t ++ ['"']

/-- A word has no white space and begins with no quotation mark. A quoted string has no quotation
mark. -/
def Proper : Argument → Prop
  | word t => t ≠ [] ∧ t.head? ≠ some '"' ∧ ∀ c ∈ t, c ≠ '\x00' ∧ isBlank c = false
  | quoted t => ∀ c ∈ t, c ≠ '"' ∧ c ≠ '\x00'

end Argument

/-- White space, each argument with the white space behind it. -/
def typed (lead : Text) (items : List (Argument × Text)) : Text :=
  lead ++ items.flatMap (fun item => item.1.typed ++ item.2)

/-- White space stands between any two arguments. -/
def Spaced : List (Argument × Text) → Prop
  | [] => True
  | [item] => ∀ c ∈ item.2, isBlank c = true
  | item :: items => item.2 ≠ [] ∧ (∀ c ∈ item.2, isBlank c = true) ∧ Spaced items

section Places

theorem charAt_length : charAt (done ++ c :: text) done.length = c := by
  simp [charAt, List.getD]

theorem set_length (d : Char) : (done ++ c :: text).set done.length d = done ++ d :: text := by
  rw [List.set_append_right _ _ (Nat.le_refl _), Nat.sub_self, List.set_cons_zero]

/-- A loop over characters that do not stop it ends at the first one that does. -/
theorem wordEnd_eq (done text : Text) {t : Text} (ht : ∀ d ∈ t, d ≠ '\x00' ∧ isBlank d = false)
    (hc : c = '\x00' ∨ isBlank c = true) (hn : t.length < n) :
    wordEnd (done ++ (t ++ c :: text)) n done.length = done.length + t.length := by
  induction t generalizing done n with
  | nil =>
    cases n with
    | zero => omega
    | succ n =>
      rw [List.nil_append, wordEnd, charAt_length, if_pos hc]
      rfl
  | cons d t ih =>
    cases n with
    | zero => simp at hn
    | succ n =>
      obtain ⟨hd, ht⟩ := List.forall_mem_cons.mp ht
      have hgo : ¬ (d = '\x00' ∨ isBlank d = true) := by simp [hd]
      have hrest := ih (done ++ [d]) ht (Nat.lt_of_succ_lt_succ hn)
      rw [List.cons_append, wordEnd, charAt_length, if_neg hgo]
      simp only [List.append_assoc, List.singleton_append, List.length_append,
        List.length_singleton] at hrest
      rw [hrest, List.length_cons]
      omega

theorem strchr_eq (done text : Text) {t : Text} (ht : ∀ d ∈ t, d ≠ c ∧ d ≠ '\x00')
    (hn : t.length < n) :
    strchr (done ++ (t ++ c :: text)) c n done.length = some (done.length + t.length) := by
  induction t generalizing done n with
  | nil =>
    cases n with
    | zero => omega
    | succ n =>
      rw [List.nil_append, strchr, charAt_length, if_pos rfl]
      rfl
  | cons d t ih =>
    cases n with
    | zero => simp at hn
    | succ n =>
      obtain ⟨hd, ht⟩ := List.forall_mem_cons.mp ht
      have hrest := ih (done ++ [d]) ht (Nat.lt_of_succ_lt_succ hn)
      rw [List.cons_append, strchr, charAt_length, if_neg hd.1, if_neg hd.2]
      simp only [List.append_assoc, List.singleton_append, List.length_append,
        List.length_singleton] at hrest
      rw [hrest, List.length_cons, Option.some.injEq]
      omega

/-- A string in the line ends at its NUL, whatever is behind it. -/
theorem stringAt_eq (done text : Text) {t : Text} (ht : ∀ d ∈ t, d ≠ '\x00') :
    stringAt (done ++ (t ++ '\x00' :: text)) done.length = t := by
  rw [stringAt, List.drop_left, List.takeWhile_append_of_pos (by simpa using ht)]
  simp

end Places

section Steps

theorem blank_ne_nul (hc : isBlank c = true) : c ≠ '\x00' := by
  rintro rfl
  exact absurd hc (by decide)

/-- The rest of the white space is passed, unless all arguments are found. -/
theorem parse_end (nMaxArgs : Int) (done text : Text) (argv : List Nat) {lead : Text}
    (hlead : ∀ c ∈ lead, isBlank c = true) (hn : lead.length < n) :
    parseFrom nMaxArgs n (done ++ (lead ++ '\x00' :: text)) done.length argv =
      some ⟨.ok, done ++ (lead ++ '\x00' :: text), argv, some argv.length⟩ := by
  induction lead generalizing done n with
  | nil =>
    cases n with
    | zero => omega
    | succ n => rw [List.nil_append, parseFrom, charAt_length, if_pos (.inl rfl)]
  | cons b lead ih =>
    cases n with
    | zero => simp at hn
    | succ n =>
      obtain ⟨hb, hlead⟩ := List.forall_mem_cons.mp hlead
      have hrest := ih (done ++ [b]) hlead (Nat.lt_of_succ_lt_succ hn)
      simp only [List.append_assoc, List.singleton_append, List.length_append,
        List.length_singleton] at hrest
      rw [List.cons_append, parseFrom, charAt_length]
      by_cases hmax : nMaxArgs ≤ argv.length
      · rw [if_pos (.inr hmax)]
      · rw [if_neg (not_or.mpr ⟨blank_ne_nul hb, hmax⟩), if_pos hb, hrest]

/-- There is room for the next argument. -/
theorem go_on (hc : c ≠ '\x00') (hroom : (argv.length : Int) < nMaxArgs) :
    ¬ (c = '\x00' ∨ nMaxArgs ≤ argv.length) := not_or.mpr ⟨hc, Int.not_le.mpr hroom⟩

theorem parse_blanks (n : Nat) (done text : Text) {lead : Text}
    (hlead : ∀ c ∈ lead, isBlank c = true) (hroom : (argv.length : Int) < nMaxArgs) :
    parseFrom nMaxArgs (n + lead.length) (done ++ (lead ++ text)) done.length argv =
      parseFrom nMaxArgs n (done ++ lead ++ text) (done ++ lead).length argv := by
  induction lead generalizing done with
  | nil => simp
  | cons b lead ih =>
    obtain ⟨hb, hlead⟩ := List.forall_mem_cons.mp hlead
    have hrest := ih (done ++ [b]) hlead
    simp only [List.append_assoc, List.singleton_append, List.length_append,
      List.length_singleton] at hrest
    rw [List.cons_append, List.length_cons, ← Nat.add_assoc, parseFrom, charAt_length,
      if_neg (go_on (blank_ne_nul hb) hroom), if_pos hb, hrest]
    simp

/-- A word and the character behind it, which its NUL takes the place of. -/
theorem parse_word (n : Nat) (done text : Text) {t : Text} (ht : (Argument.word t).Proper)
    (hroom : (argv.length : Int) < nMaxArgs) (hc : c = '\x00' ∨ isBlank c = true) :
    parseFrom nMaxArgs (n + 1) (done ++ (t ++ c :: text)) done.length argv =
      if c = '\x00' then
        parseFrom nMaxArgs n (done ++ t ++ c :: text) (done ++ t).length (argv ++ [done.length])
      else
        parseFrom nMaxArgs n (done ++ t ++ '\x00' :: text) ((done ++ t).length + 1)
          (argv ++ [done.length]) := by
  obtain ⟨hne, hquote, hall⟩ := ht
  obtain ⟨d, u, rfl⟩ := List.exists_cons_of_ne_nil hne
  obtain ⟨hnul, hblank⟩ := hall d List.mem_cons_self
  have hd : d ≠ '"' := fun he => hquote (by rw [he]; rfl)
  have hlong : (d :: u).length < (done ++ (d :: u ++ c :: text)).length := by
    simp only [List.length_append, List.length_cons]
    omega
  have hend := wordEnd_eq done text hall hc hlong
  have hfirst : charAt (done ++ (d :: u ++ c :: text)) done.length = d := charAt_length
  have hlast : charAt (done ++ (d :: u ++ c :: text)) (done.length + (d :: u).length) = c := by
    rw [← List.append_assoc, ← List.length_append]
    exact charAt_length
  have hset : (done ++ (d :: u ++ c :: text)).set (done.length + (d :: u).length) '\x00' =
      done ++ (d :: u) ++ '\x00' :: text := by
    rw [← List.append_assoc, ← List.length_append]
    exact set_length '\x00'
  rw [parseFrom, hfirst, if_neg (go_on hnul hroom),
    if_neg (by rw [hblank]; exact Bool.false_ne_true), if_neg hd, hend]
  simp only [hlast, hset, List.append_assoc, List.length_append]

/-- A quoted string. Its NUL takes the place of the second quotation mark. -/
theorem parse_quoted (n : Nat) (done text : Text) {t : Text} (ht : (Argument.quoted t).Proper)
    (hroom : (argv.length : Int) < nMaxArgs) :
    parseFrom nMaxArgs (n + 1) (done ++ ('"' :: t ++ '"' :: text)) done.length argv =
      parseFrom nMaxArgs n (done ++ ('"' :: t) ++ '\x00' :: text)
        ((done ++ ('"' :: t)).length + 1) (argv ++ [done.length + 1]) := by
  have hlong : t.length < (done ++ ('"' :: t ++ '"' :: text)).length := by
    simp only [List.length_append, List.length_cons]
    omega
  have hend : strchr (done ++ ('"' :: t ++ '"' :: text)) '"'
      (done ++ ('"' :: t ++ '"' :: text)).length (done.length + 1) =
        some (done ++ ('"' :: t)).length := by
    have hchr := strchr_eq (done ++ ['"']) text ht hlong
    have hplace : done.length + 1 + t.length = (done ++ ('"' :: t)).length := by
      rw [List.length_append, List.length_cons]
      omega
    have hone : (done ++ ['"']).length = done.length + 1 := List.length_append
    rw [List.append_assoc, hone, hplace] at hchr
    exact hchr
  have hfirst : charAt (done ++ ('"' :: t ++ '"' :: text)) done.length = '"' := charAt_length
  have hset : (done ++ ('"' :: t ++ '"' :: text)).set (done ++ ('"' :: t)).length '\x00' =
      done ++ ('"' :: t) ++ '\x00' :: text := by
    rw [← List.append_assoc]
    exact set_length '\x00'
  rw [parseFrom, hfirst, if_neg (go_on (by decide) hroom), if_neg (by decide), if_pos rfl, hend]
  simp only [hset]

end Steps

theorem typed_cons (lead : Text) (item : Argument × Text) (items : List (Argument × Text)) :
    typed lead (item :: items) = lead ++ (item.1.typed ++ typed item.2 items) := by
  rw [typed, typed, List.flatMap_cons, List.append_assoc]

theorem Spaced.tail {item : Argument × Text} {items : List (Argument × Text)}
    (h : Spaced (item :: items)) : (∀ c ∈ item.2, isBlank c = true) ∧ Spaced items := by
  cases items with
  | nil => exact ⟨h, trivial⟩
  | cons next items => exact h.2

/-- The arguments of a line are found in order, behind what is done of the line. -/
def Found (nMaxArgs : Int) (n : Nat) (done text : Text) (argv : List Nat) (values : List Text) :
    Prop :=
  ∃ rest ps, parseFrom nMaxArgs n (done ++ text) done.length argv =
      some ⟨.ok, done ++ rest, argv ++ ps, some (argv.length + values.length)⟩ ∧
    ps.map (stringAt (done ++ rest)) = values

/-- An argument that ends with a NUL in the line, and the others behind it. -/
theorem Found.next {m : Nat} {before t rest : Text} {values : List Text}
    (h : Found nMaxArgs n (done ++ before ++ t ++ ['\x00']) rest
      (argv ++ [(done ++ before).length]) values)
    (ht : ∀ c ∈ t, c ≠ '\x00')
    (hstep : parseFrom nMaxArgs m (done ++ text) done.length argv =
      parseFrom nMaxArgs n (done ++ before ++ t ++ ['\x00'] ++ rest)
        (done ++ before ++ t ++ ['\x00']).length (argv ++ [(done ++ before).length])) :
    Found nMaxArgs m done text argv (t :: values) := by
  obtain ⟨tail, ps, hparse, hvalues⟩ := h
  have hline : done ++ before ++ t ++ ['\x00'] ++ tail =
      done ++ (before ++ (t ++ '\x00' :: tail)) := by simp
  refine ⟨before ++ (t ++ '\x00' :: tail), (done ++ before).length :: ps, ?_, ?_⟩
  · have hcount : (argv ++ [(done ++ before).length]).length + values.length =
        argv.length + (t :: values).length := by
      rw [List.length_append, List.length_singleton, List.length_cons]
      omega
    rw [hstep, hparse, hline, hcount, List.append_assoc, List.singleton_append]
  · have hfirst := stringAt_eq (done ++ before) tail ht
    rw [List.append_assoc] at hfirst
    rw [List.map_cons, hfirst, ← hline, hvalues]

theorem found_items (items : List (Argument × Text)) (done behind : Text) (argv : List Nat)
    (hproper : ∀ item ∈ items, item.1.Proper) (hspaced : Spaced items) {lead : Text}
    (hlead : ∀ c ∈ lead, isBlank c = true)
    (hroom : ((argv.length + items.length : Nat) : Int) ≤ nMaxArgs)
    (hn : (typed lead items).length < n) :
    Found nMaxArgs n done (typed lead items ++ '\x00' :: behind) argv
      (items.map (fun item => item.1.value)) := by
  induction items generalizing done lead n argv with
  | nil =>
    have htyped : typed lead [] = lead := by simp [typed]
    rw [htyped] at hn ⊢
    refine ⟨lead ++ '\x00' :: behind, [], ?_, rfl⟩
    rw [parse_end nMaxArgs done behind argv hlead hn, List.append_nil]
    rfl
  | cons item items ih =>
    obtain ⟨hitem, hitems⟩ := List.forall_mem_cons.mp hproper
    obtain ⟨hgap, hrest⟩ := hspaced.tail
    have hmore : (argv.length : Int) < nMaxArgs := by
      rw [List.length_cons] at hroom
      omega
    rw [typed_cons] at hn ⊢
    have hlen : (lead ++ (item.1.typed ++ typed item.2 items)).length =
        lead.length + (item.1.typed.length + (typed item.2 items).length) := by
      rw [List.length_append, List.length_append]
    rw [hlen] at hn
    obtain ⟨m, rfl⟩ : ∃ m, n = m + 1 + lead.length := ⟨n - 1 - lead.length, by omega⟩
    have hblanks := parse_blanks (m + 1) done
      (item.1.typed ++ typed item.2 items ++ '\x00' :: behind) hlead hmore
    have hcount : (((argv ++ [(done ++ lead).length]).length + items.length : Nat) : Int) ≤
        nMaxArgs := by
      rw [List.length_append, List.length_singleton]
      rw [List.length_cons] at hroom
      omega
    obtain ⟨arg, gap⟩ := item
    dsimp only at hgap hn hblanks ⊢
    cases arg with
    | word t =>
      have ht : ∀ c ∈ t, c ≠ '\x00' := fun c hc => (hitem.2.2 c hc).1
      have htyped : (Argument.word t).typed = t := rfl
      rw [htyped] at hn hblanks ⊢
      cases gap with
      | nil =>
        -- a word at the line's end is the last one, and its NUL is the line's own
        have hnil : items = [] := by
          cases items with
          | nil => rfl
          | cons next items => exact absurd rfl hspaced.1
        subst hnil
        have hword := parse_word m (done ++ lead) behind hitem hmore (.inl rfl)
        have hpos : 0 < t.length := List.length_pos_iff.mpr hitem.1
        have hend := parse_end nMaxArgs (done ++ lead ++ t) behind (argv ++ [(done ++ lead).length])
          (n := m) (fun _ hc => absurd hc List.not_mem_nil) (by rw [List.length_nil]; omega)
        rw [if_pos rfl] at hword
        refine ⟨lead ++ (t ++ '\x00' :: behind), [(done ++ lead).length], ?_, ?_⟩
        · have htext : typed [] ([] : List (Argument × Text)) = [] := rfl
          rw [htext, List.append_nil] at hblanks ⊢
          rw [List.append_assoc lead, hblanks, hword]
          rw [List.nil_append] at hend
          rw [hend]
          simp only [List.append_assoc, List.length_append, List.length_singleton, List.map_cons,
            List.map_nil]
        · have hfirst := stringAt_eq (done ++ lead) behind ht
          rw [List.append_assoc] at hfirst
          rw [List.map_singleton, hfirst]
          rfl
      | cons b gap =>
        obtain ⟨hb, hgap⟩ := List.forall_mem_cons.mp hgap
        have htext : typed (b :: gap) items = b :: typed gap items := rfl
        have hword := parse_word m (done ++ lead) (typed gap items ++ '\x00' :: behind) hitem hmore
          (.inr hb)
        rw [if_neg (blank_ne_nul hb)] at hword
        rw [htext] at hn hblanks ⊢
        have hfound := ih (done ++ lead ++ t ++ ['\x00'])
          (argv ++ [(done ++ lead).length]) hitems hrest hgap hcount (n := m) (by
            rw [List.length_cons] at hn
            omega)
        refine hfound.next ht ?_
        rw [List.append_assoc lead, hblanks, List.append_assoc t, List.cons_append, hword]
        simp only [List.append_assoc, List.singleton_append, List.length_append,
          List.length_singleton, Nat.add_assoc]
    | quoted t =>
      have ht : ∀ c ∈ t, c ≠ '\x00' := fun c hc => (hitem c hc).2
      have htyped : (Argument.quoted t).typed = '"' :: t ++ ['"'] := rfl
      rw [htyped] at hn hblanks ⊢
      have hquoted := parse_quoted m (done ++ lead) (typed gap items ++ '\x00' :: behind) hitem
        hmore
      have hplace : (done ++ lead).length + 1 = (done ++ (lead ++ ['"'])).length := by
        simp only [List.length_append, List.length_singleton, Nat.add_assoc]
      rw [hplace] at hquoted
      have hfound := ih (done ++ (lead ++ ['"']) ++ t ++ ['\x00'])
        (argv ++ [(done ++ (lead ++ ['"'])).length]) hitems hrest hgap
        (by simpa using hcount) (n := m) (by
          simp only [List.length_append, List.length_cons, List.length_nil] at hn
          omega)
      refine hfound.next ht ?_
      have hline : '"' :: t ++ ['"'] ++ typed gap items ++ '\x00' :: behind =
          '"' :: t ++ '"' :: (typed gap items ++ '\x00' :: behind) := by simp
      rw [List.append_assoc lead, hblanks, hline, hquoted]
      simp only [List.append_assoc, List.length_append, List.cons_append, List.length_cons,
        List.nil_append, List.length_nil, Nat.zero_add, Nat.add_assoc]

/-- A line of arguments with white space between them is read back: the result is OK, and the
arguments are found in order and counted. -/
theorem parseLine_typed (lead : Text) (items : List (Argument × Text)) (behind : Text)
    (nMaxArgs : Int) (hlead : ∀ c ∈ lead, isBlank c = true)
    (hproper : ∀ item ∈ items, item.1.Proper) (hspaced : Spaced items)
    (hmax : (items.length : Int) ≤ nMaxArgs) :
    ∃ r, parseLine (typed lead items ++ '\x00' :: behind) nMaxArgs = some r ∧ r.xRet = .ok ∧
      r.pArgv.map (stringAt r.line) = items.map (fun item => item.1.value) ∧
      r.pArgc = some items.length := by
  have hn : (typed lead items).length < (typed lead items ++ '\x00' :: behind).length + 1 := by
    rw [List.length_append]
    omega
  have hroom : ((([] : List Nat).length + items.length : Nat) : Int) ≤ nMaxArgs := by
    simpa using hmax
  obtain ⟨rest, ps, hparse, hvalues⟩ :=
    found_items items [] behind [] hproper hspaced hlead hroom hn
  refine ⟨_, hparse, rfl, hvalues, ?_⟩
  simp

/-- `log  "a b" ` as it is typed. -/
theorem log_line : ∃ r, parseLine ("log  \"a b\" ".toList ++ ['\x00']) 16 = some r ∧ r.xRet = .ok ∧
    r.pArgv.map (stringAt r.line) = ["log".toList, "a b".toList] ∧ r.pArgc = some 2 :=
  parseLine_typed [] [(.word "log".toList, "  ".toList), (.quoted "a b".toList, " ".toList)] [] 16
    (fun _ hc => absurd hc List.not_mem_nil)
    (by simp [Argument.Proper, isBlank]) (by simp [Spaced, isBlank]) (by decide)

end Catchb.Proofs.ShellLine
