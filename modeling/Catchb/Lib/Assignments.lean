import Mathlib.Algebra.BigOperators.Group.List.Basic
import Mathlib.Data.List.Perm.Subperm
import Catchb.Lib.Quoting

/-! The variables that a POSIX shell assigns for a command, and when they come out as they are
written. -/

namespace Catchb.Lib.Shell

/-- A simple command, with the variables that it is given. -/
structure Command where
  vars : List (Text × Text)
  args : List Text
  deriving DecidableEq

/-- A character of a name, which nothing may quote. -/
def named (p : Char × Bool) : Bool := !p.2 && (p.1.isAlphanum || p.1 == '_')

/-- The name that a word assigns to, and what it assigns. -/
def assigns (w : Word) : Option (Text × Word) :=
  let name := text (w.takeWhile named)
  match w.dropWhile named with
  | ('=', false) :: value =>
    if (name.head?.map (fun c => !c.isDigit)).getD false then some (name, value) else none
  | _ => none

/-- Whether a user's directory is looked up, at the beginning of a value or behind a colon. -/
def tilded : Bool → Word → Bool
  | _, [] => false
  | start, p :: rest => start && p == ('~', false) || tilded (p == (':', false)) rest

/-- What is assigned. Such a value is neither split into fields nor looked up as a file's name. -/
def assigned (home : Word → Text) (value : Word) : Text :=
  if tilded true value then home value else text value

/-- Only the words before the command's name assign. -/
def command (env : Env) (home : Word → Text) : List Word → Command
  | [] => ⟨[], []⟩
  | w :: ws =>
    match assigns w with
    | some (name, value) =>
      let c := command env home ws
      { c with vars := (name, assigned home value) :: c.vars }
    | none => ⟨[], (w :: ws).flatMap env.fields⟩

/-- The commands that a line makes the shell run, with their variables. -/
def simple (env : Env) (home : Word → Text) (line : Text) : Option (List Command) :=
  (words line).map (fun cs => cs.map (command env home))

/-- What a command finds in a variable that it is given. -/
def Command.value? (c : Command) (name : Text) : Option Text :=
  (c.vars.reverse.find? (fun v => v.1 == name)).map Prod.snd

section
variable {w : Word} {ws : List Word} {name v : Text} {value : Word} {env : Env}
  {home : Word → Text}

/-- A word that assigns is written with the name first. -/
theorem text_of_assigns (h : assigns w = some (name, value)) :
    text w = name ++ '=' :: text value := by
  unfold assigns at h
  simp only at h
  split at h
  · rename_i v hdrop
    split at h
    · cases h
      have hw := List.takeWhile_append_dropWhile (p := named) (l := w)
      rw [hdrop] at hw
      conv_lhs => rw [← hw]
      simp [text]
    · cases h
  · cases h

/-- An assignment that is written without quotation. -/
theorem assigns_bare (name v : Text) (hname : ∀ p ∈ bare name, named p = true)
    (hdigit : (name.head?.map (fun c => !c.isDigit)).getD false = true) :
    assigns (bare (name ++ '=' :: v)) = some (name, bare v) := by
  have hbare : bare (name ++ '=' :: v) = bare name ++ ('=', false) :: bare v := by simp [bare]
  have hstop : named ('=', false) = false := rfl
  have htake : (bare (name ++ '=' :: v)).takeWhile named = bare name := by
    rw [hbare, List.takeWhile_append_of_pos hname, List.takeWhile_cons_of_neg (by simp [hstop]),
      List.append_nil]
  have hdrop : (bare (name ++ '=' :: v)).dropWhile named = ('=', false) :: bare v := by
    rw [hbare, List.dropWhile_append_of_pos hname, List.dropWhile_cons_of_neg (by simp [hstop])]
  simp only [assigns, htake, hdrop, text_bare, hdigit, ↓reduceIte]

theorem command_assigns (h : assigns w = some (name, value)) :
    command env home (w :: ws) =
      { command env home ws with
        vars := (name, assigned home value) :: (command env home ws).vars } := by
  simp only [command, h]

theorem command_args (h : assigns w = none) :
    command env home (w :: ws) = ⟨[], (w :: ws).flatMap env.fields⟩ := by
  simp only [command, h]

/-- What is assigned stands in a word of the command. -/
theorem word_of_var (h : (name, v) ∈ (command env home ws).vars) :
    ∃ w ∈ ws, ∃ value, text w = name ++ '=' :: text value ∧ v = assigned home value := by
  induction ws with
  | nil => cases h
  | cons w ws ih =>
    cases hw : assigns w with
    | none =>
      rw [command_args hw] at h
      cases h
    | some assignment =>
      obtain ⟨x, value⟩ := assignment
      rw [command_assigns hw] at h
      rcases List.mem_cons.mp h with heq | htail
      · cases heq
        exact ⟨w, List.mem_cons_self, value, text_of_assigns hw, rfl⟩
      · obtain ⟨u, hu, hrest⟩ := ih htail
        exact ⟨u, List.mem_cons_of_mem _ hu, hrest⟩

/-- The arguments of a command are words of it, where nothing is looked up. -/
theorem word_of_arg (h : v ∈ (command .still home ws).args) : ∃ w ∈ ws, text w = v := by
  induction ws with
  | nil => cases h
  | cons w ws ih =>
    cases hw : assigns w with
    | none =>
      rw [command_args hw, flatMap_still] at h
      exact List.mem_map.mp h
    | some assignment =>
      rw [command_assigns hw] at h
      obtain ⟨u, hu, heq⟩ := ih h
      exact ⟨u, List.mem_cons_of_mem _ hu, heq⟩

/-- What a variable holds has been assigned to it. -/
theorem mem_of_value {c : Command} (h : c.value? name = some v) : (name, v) ∈ c.vars := by
  obtain ⟨⟨x, u⟩, hfind, rfl⟩ := Option.map_eq_some_iff.mp h
  have hkey : x = name := by simpa using List.find?_some hfind
  subst hkey
  exact List.mem_reverse.mp (List.mem_of_find?_eq_some hfind)

end

namespace Reader
variable {r r' : Reader} {c : Char} {s t : Text} {w : Option Word} {cs : List (List Word)}

/-- How many words have come to their end. -/
def ended (r : Reader) : Nat := r.done.flatten.length + r.args.length

theorem ended_endLine : r.endLine.ended = r.ended := by
  unfold endLine
  split
  · rfl
  · simp [ended]

theorem ended_endWord : (r.endWord w).ended = r.ended + w.toList.length := by
  simp [ended, endWord, Nat.add_assoc]

/-- A line whose end is not lost ends with a word. -/
theorem endLine_whole (hplace : r.place = .unquoted w) (hc : taken c = false)
    (hsize : r.size < (r.endWord w).endLine.size) :
    (∃ u, (r.endWord w).endLine.place = .unquoted u) ∧
      (r.endWord w).endLine.ended = r.ended + if taken c then 0 else 1 := by
  cases w with
  | none =>
    rw [size_endLine] at hsize
    simp [size, Place.size, endWord, hplace] at hsize
  | some u =>
    refine ⟨?_, by simp [ended_endLine, ended_endWord, hc]⟩
    unfold endLine
    split
    · exact ⟨none, rfl⟩
    · exact ⟨none, rfl⟩

/-- A character that is not lost is taken into a word, or ends one. -/
theorem step_whole (h : r.step c = some r') (hplace : r.place = .unquoted w)
    (hsize : r.size < r'.size) : (∃ u, r'.place = .unquoted u) ∧
      r'.ended = r.ended + if taken c then 0 else 1 := by
  obtain ⟨done, args, place⟩ := r
  subst hplace
  simp only [step, unquoted] at h
  cases hk : kind c <;> simp only [hk, Option.some.injEq, reduceCtorEq] at h
  case blank =>
    subst h
    cases w with
    | none => simp [size, endWord, Place.size] at hsize
    | some u => exact ⟨⟨none, rfl⟩, by simp [ended_endWord, taken, hk]⟩
  case newline =>
    subst h
    exact endLine_whole rfl (by simp [taken, hk]) hsize
  case separator =>
    have heq := endCommand_eq h
    subst heq
    exact endLine_whole rfl (by simp [taken, hk]) hsize
  case hash =>
    cases w with
    | none =>
      cases h
      simp [size, Place.size] at hsize
    | some u =>
      cases h
      exact ⟨⟨_, rfl⟩, by simp [ended, taken, hk]⟩
  case plain =>
    subst h
    exact ⟨⟨_, rfl⟩, by simp [ended, taken, hk]⟩
  all_goals
    subst h
    simp [size, Place.size] at hsize

/-- Where nothing is lost, a word ends with each character that is not taken into one. -/
theorem steps_whole (h : r.steps t = some r') (hplace : r.place = .unquoted w)
    (hsize : r.size + t.length ≤ r'.size) : (∃ u, r'.place = .unquoted u) ∧
      r'.ended = r.ended + t.countP (fun c => !taken c) := by
  induction t generalizing r w with
  | nil =>
    cases h
    exact ⟨⟨w, hplace⟩, rfl⟩
  | cons c t ih =>
    obtain ⟨r₁, hstep, hrest⟩ := Option.bind_eq_some_iff.mp h
    have hone := step_size hstep
    have hmore := steps_size hrest
    rw [List.length_cons] at hsize
    obtain ⟨⟨u, hplace'⟩, hended⟩ := step_whole hstep hplace (by omega)
    obtain ⟨hlast, hcount⟩ := ih hrest hplace' (by omega)
    refine ⟨hlast, ?_⟩
    rw [hcount, hended, List.countP_cons]
    cases taken c with
    | false =>
      simp
      omega
    | true => simp

/-- A quotation that is not closed. -/
theorem single_open (hplace : ∃ w, r.place = .single w) (ht : '\x27' ∉ t) : r.read t = none := by
  induction t generalizing r with
  | nil =>
    obtain ⟨w, hplace⟩ := hplace
    simp [read, steps, finish, hplace]
  | cons c t ih =>
    obtain ⟨w, hplace⟩ := hplace
    obtain ⟨hc, ht⟩ := List.ne_and_not_mem_of_not_mem_cons ht
    rw [read_cons, step, hplace]
    simp only [if_neg (Ne.symm hc), Option.bind_some]
    exact ih ⟨_, rfl⟩ ht

theorem double_open (hplace : ∃ w, r.place = .double w) (ht : '\x22' ∉ t) (hback : '\\' ∉ t) :
    r.read t = none := by
  induction t generalizing r with
  | nil =>
    obtain ⟨w, hplace⟩ := hplace
    simp [read, steps, finish, hplace]
  | cons c t ih =>
    obtain ⟨w, hplace⟩ := hplace
    obtain ⟨hc, ht⟩ := List.ne_and_not_mem_of_not_mem_cons ht
    obtain ⟨hb, hback⟩ := List.ne_and_not_mem_of_not_mem_cons hback
    rw [read_cons, step, hplace]
    simp only [if_neg (Ne.symm hc), if_neg (Ne.symm hb)]
    split
    · rfl
    · exact ih ⟨_, rfl⟩ ht hback

/-- Nothing comes of the rest of a line that is a comment. -/
theorem comment_total (hplace : r.place = .comment) (ht : '\n' ∉ t) (h : r.read t = some cs) :
    total cs = r.size := by
  induction t generalizing r with
  | nil =>
    rcases finish_cases h with ⟨w, hnot, -⟩ | ⟨-, rfl⟩
    · rw [hplace] at hnot
      cases hnot
    · rw [total_endLine, size, hplace]
      rfl
  | cons c t ih =>
    obtain ⟨hc, ht⟩ := List.ne_and_not_mem_of_not_mem_cons ht
    rw [read_cons, step, hplace] at h
    simp only [if_neg (Ne.symm hc), Option.bind_some] at h
    exact ih hplace ht h

/-- Behind a plain character no escape is open. -/
theorem step_plain (h : r.step c = some r') (hc : kind c = .plain) :
    (∃ u, r'.place = .unquoted (some u)) ∨ (∃ w, r'.place = .single w) ∨
      (∃ w, r'.place = .double w) ∨ r'.place = .comment := by
  have hne : ∀ d : Char, kind d ≠ .plain → c ≠ d := fun d hd heq => hd (heq ▸ hc)
  have hnewline := hne '\n' (by decide)
  obtain ⟨done, args, place⟩ := r
  cases place with
  | unquoted w =>
    simp only [step, unquoted, hc] at h
    cases h
    exact .inl ⟨_, rfl⟩
  | escaped w =>
    simp only [step, if_neg hnewline] at h
    cases h
    exact .inl ⟨_, rfl⟩
  | single w =>
    simp only [step, if_neg (hne '\x27' (by decide))] at h
    cases h
    exact .inr (.inl ⟨_, rfl⟩)
  | double w =>
    simp only [step, if_neg (hne '\x22' (by decide)), if_neg (hne '\\' (by decide))] at h
    split at h
    · cases h
    · cases h
      exact .inr (.inr (.inl ⟨_, rfl⟩))
  | doubleEscaped w =>
    simp only [step, if_neg hnewline] at h
    split at h
    · cases h
      exact .inr (.inr (.inl ⟨_, rfl⟩))
    · cases h
      exact .inr (.inr (.inl ⟨_, rfl⟩))
  | comment =>
    simp only [step, if_neg hnewline] at h
    cases h
    exact .inr (.inr (.inr rfl))

/-- Words that need no quotation hold nothing that quotes. -/
theorem not_mem_lead {xs : List Text} {y : Text} (hxs : ∀ u ∈ xs ++ [y], literal u = true)
    (hc : taken c = false) (hblank : c ≠ ' ') : c ∉ lead xs ++ y := by
  have hword : ∀ u ∈ xs ++ [y], c ∉ u := by
    intro u hu hmem
    have hlit := hxs u hu
    cases u with
    | nil => cases hmem
    | cons d u =>
      obtain ⟨hd, hall⟩ := (Bool.and_eq_true _ _).mp hlit
      rcases List.mem_cons.mp hmem with rfl | hmem
      · have hplain : kind c = .plain := of_decide_eq_true hd
        simp [taken, hplain] at hc
      · rw [List.all_eq_true.mp hall c hmem] at hc
        cases hc
  rw [List.mem_append, lead, List.mem_flatMap]
  rintro (⟨u, hu, hmem⟩ | hmem)
  · rcases List.mem_append.mp hmem with hmem | hmem
    · exact hword u (List.mem_append_left _ hu) hmem
    · exact hblank (List.mem_singleton.mp hmem)
  · exact hword y (by simp) hmem

/-- What is read behind two blanks that end a word. -/
theorem read_tail {xs : List Text} {y : Text} (hxs : ∀ u ∈ xs ++ [y], literal u = true)
    {u : Word} (hplace : r.place = .unquoted (some u)) :
    r.read (' ' :: ' ' :: (lead xs ++ y)) =
      some (r.done ++ [r.args ++ u :: (xs ++ [y]).map bare]) := by
  obtain ⟨done, args, place⟩ := r
  subst hplace
  have hlast : ∀ t ∈ xs, literal t = true := fun t ht => hxs t (by simp [ht])
  rw [read_cons, step_blank, Option.bind_some, read_cons, step_blank, Option.bind_some,
    read_append (steps_lead hlast), read, steps_literal (hxs y (by simp))]
  simp [finish, endWord, endLine]

/-- A line whose words have all its characters, but for the second of two blanks, is read as it is
written: as many words as characters that are not taken into one. -/
theorem whole_of_total {xs : List Text} {y : Text} (hxs : ∀ u ∈ xs ++ [y], literal u = true)
    (hc : kind c = .plain) (h : start.read (s ++ c :: ' ' :: ' ' :: (lead xs ++ y)) = some cs)
    (htotal : s.length + 3 + (lead xs ++ y).length ≤ total cs) :
    total cs = s.length + 3 + (lead xs ++ y).length ∧
      cs.flatten.length = s.countP (fun c => !taken c) + xs.length + 2 := by
  have hnone : ∀ d : Char, taken d = false → d ≠ ' ' → d ∉ ' ' :: ' ' :: (lead xs ++ y) := by
    intro d hd hblank hmem
    rcases List.mem_cons.mp hmem with heq | hmem
    · exact hblank heq
    · rcases List.mem_cons.mp hmem with heq | hmem
      · exact hblank heq
      · exact not_mem_lead hxs hd hblank hmem
  have hline : s ++ c :: ' ' :: ' ' :: (lead xs ++ y) =
      (s ++ [c]) ++ ' ' :: ' ' :: (lead xs ++ y) := by simp
  rw [hline] at h
  obtain ⟨r, hall, hfinish⟩ := Option.bind_eq_some_iff.mp h
  rw [steps_append] at hall
  obtain ⟨r₀, hsteps, hrest⟩ := Option.bind_eq_some_iff.mp hall
  have hread : r₀.read (' ' :: ' ' :: (lead xs ++ y)) = some cs := by
    rw [read, hrest]
    exact hfinish
  have hle := steps_size hsteps
  have hstart : start.size = 0 := rfl
  rw [hstart, List.length_append, List.length_singleton] at hle
  rw [steps_append] at hsteps
  obtain ⟨r₁, hfirst, hlast⟩ := Option.bind_eq_some_iff.mp hsteps
  have hstep : r₁.step c = some r₀ := by
    obtain ⟨r₂, hstep, hnil⟩ := Option.bind_eq_some_iff.mp hlast
    cases hnil
    exact hstep
  rcases step_plain hstep hc with ⟨u, hplace⟩ | hsingle | hdouble | hcomment
  · have hcs := Option.some.inj (hread.symm.trans (read_tail hxs hplace))
    have hcount : count ((xs ++ [y]).map bare) = (lead xs ++ y).length + 1 := by
      have htext : ((xs ++ [y]).map bare).map text = xs ++ [y] := by simp [Function.comp_def]
      rw [count_of_text htext]
      simp [lead, Nat.add_assoc]
    have hexact : total cs = r₀.size + 2 + (lead xs ++ y).length := by
      rw [hcs, size, hplace, total_append_singleton, count_append]
      have hu : count (u :: (xs ++ [y]).map bare) = u.length + 1 + count ((xs ++ [y]).map bare) :=
        rfl
      rw [hu, hcount]
      simp only [Place.size, Option.getD_some]
      omega
    have hsteps' : start.steps (s ++ [c]) = some r₀ := by rw [steps_append, hfirst]; exact hlast
    obtain ⟨-, hended⟩ := steps_whole (w := none) hsteps' rfl (by
      rw [hstart, List.length_append, List.length_singleton]
      omega)
    refine ⟨by omega, ?_⟩
    have htaken : taken c = true := by simp [taken, hc]
    have hwords : r₀.ended = s.countP (fun c => !taken c) := by
      rw [hended, List.countP_append]
      simp [htaken, ended, start]
    rw [hcs, ← hwords, ended]
    simp
    omega
  · rw [single_open hsingle (hnone _ (by decide) (by decide))] at hread
    cases hread
  · rw [double_open hdouble (hnone _ (by decide) (by decide)) (hnone _ (by decide) (by decide))]
      at hread
    cases hread
  · have hsize := comment_total hcomment (hnone _ (by decide) (by decide)) hread
    omega

end Reader

theorem length_lead (ts : List Text) :
    (lead ts).length = (ts.map (fun t => t.length + 1)).sum := by
  induction ts with
  | nil => rfl
  | cons t ts ih =>
    rw [lead_cons, List.length_append, List.length_cons, ih, List.map_cons, List.sum_cons]
    omega

/-- Every text that is left out weighs something. -/
theorem lead_sublist {us ts : List Text} (h : us.Sublist ts) :
    (lead us).length + ts.length ≤ (lead ts).length + us.length := by
  induction h with
  | slnil => exact Nat.le_refl _
  | cons t _ ih =>
    rw [lead_cons, List.length_append, List.length_cons, List.length_cons]
    omega
  | cons_cons t _ ih =>
    rw [lead_cons, lead_cons, List.length_append, List.length_append, List.length_cons,
      List.length_cons, List.length_cons, List.length_cons]
    omega

theorem total_flatten (cs : List (List Word)) :
    total cs = (lead (cs.flatten.map text)).length := by
  induction cs with
  | nil => rfl
  | cons ws cs ih =>
    have hcons : total (ws :: cs) = count ws + total cs := rfl
    rw [hcons, ih, Reader.count_of_text rfl, List.flatten_cons, List.map_append, length_lead,
      length_lead, length_lead, List.map_append, List.sum_append]

section
variable {ts : List Text} {cs : List (List Word)}

/-- Distinct texts that stand among the words weigh no more than all of them, and every word that is
left out weighs something. -/
theorem total_of_mem (hn : ts.Nodup) (hmem : ∀ t ∈ ts, ∃ w ∈ cs.flatten, text w = t) :
    (lead ts).length + cs.flatten.length ≤ total cs + ts.length := by
  have hsub : ts ⊆ cs.flatten.map text := fun t ht => List.mem_map.mpr (hmem t ht)
  obtain ⟨us, hperm, hsublist⟩ := List.subperm_of_subset hn hsub
  have hweight : (lead us).length = (lead ts).length := by
    rw [length_lead, length_lead]
    exact (hperm.map _).sum_eq
  have hle := lead_sublist hsublist
  rwa [hweight, ← total_flatten, List.length_map, hperm.length_eq] at hle

theorem length_le_flatten (hn : ts.Nodup) (hmem : ∀ t ∈ ts, ∃ w ∈ cs.flatten, text w = t) :
    ts.length ≤ cs.flatten.length := by
  have hsub : ts ⊆ cs.flatten.map text := fun t ht => List.mem_map.mpr (hmem t ht)
  have hle := (List.subperm_of_subset hn hsub).length_le
  rwa [List.length_map] at hle

end

end Catchb.Lib.Shell
