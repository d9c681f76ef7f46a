import Mathlib.Algebra.GroupWithZero.Nat
import Catchb.Lib.Text

/-! How a POSIX shell reads a command line: its quoting, its words and the commands of a list. -/

namespace Catchb.Lib.Shell

/-- The characters of a word, each with whether something quotes it. -/
abbrev Word := List (Char × Bool)

/-- A word without the quotation. -/
def text (w : Word) : Text := w.map Prod.fst

def bare (t : Text) : Word := t.map (fun c => (c, false))

def quoted (t : Text) : Word := t.map (fun c => (c, true))

@[simp] theorem text_bare (t : Text) : text (bare t) = t := by
  simp [text, bare, Function.comp_def]

@[simp] theorem text_quoted (t : Text) : text (quoted t) = t := by
  simp [text, quoted, Function.comp_def]

@[simp] theorem length_bare (t : Text) : (bare t).length = t.length := by simp [bare]

@[simp] theorem length_quoted (t : Text) : (quoted t).length = t.length := by simp [quoted]

@[simp] theorem length_text (w : Word) : (text w).length = w.length := by simp [text]

/-- What a character is where nothing quotes it. -/
inductive Kind
  | blank
  | newline
  | separator
  | special
  | single
  | double
  | escape
  | hash
  | plain
  deriving DecidableEq

/-- The special ones are the operators that make more than a list of simple commands, and what an
expansion begins with. -/
def kind (c : Char) : Kind :=
  if c = ' ' ∨ c = '\t' then .blank
  else if c = '\n' then .newline
  else if c = ';' ∨ c = '&' then .separator
  else if c ∈ ['|', '<', '>', '(', ')', '$', '\x60'] then .special
  else if c = '\x27' then .single
  else if c = '\x22' then .double
  else if c = '\\' then .escape
  else if c = '#' then .hash
  else .plain

/-- The characters that a backslash takes their meaning from within double quotes. -/
def inDouble : List Char := ['$', '\x60', '\x22', '\\']

/-- Where in a line a reader is. There is no word yet between two words. -/
inductive Place
  | unquoted (w : Option Word)
  | escaped (w : Option Word)
  | single (w : Word)
  | double (w : Word)
  | doubleEscaped (w : Word)
  | comment

/-- `done` are the commands that a separator has ended, `args` the words of the present one. -/
structure Reader where
  done : List (List Word)
  args : List Word
  place : Place

def start : Reader := ⟨[], [], .unquoted none⟩

namespace Reader

def endWord (r : Reader) (w : Option Word) : Reader :=
  { r with args := r.args ++ w.toList, place := .unquoted none }

/-- An empty line is no command. -/
def endLine (r : Reader) : Reader :=
  if r.args = [] then { r with place := .unquoted none }
  else ⟨r.done ++ [r.args], [], .unquoted none⟩

/-- There is nothing that `;` or `&` could end. -/
def endCommand (r : Reader) : Option Reader :=
  if r.args = [] then none else some r.endLine

def unquoted (r : Reader) (w : Option Word) (c : Char) : Option Reader :=
  match kind c with
  | .blank => some (r.endWord w)
  | .newline => some (r.endWord w).endLine
  | .separator => (r.endWord w).endCommand
  | .special => none
  | .single => some { r with place := .single (w.getD []) }
  | .double => some { r with place := .double (w.getD []) }
  | .escape => some { r with place := .escaped w }
  | .hash =>
    match w with
    | none => some { r with place := .comment }
    | some w => some { r with place := .unquoted (some (w ++ [(c, false)])) }
  | .plain => some { r with place := .unquoted (some (w.getD [] ++ [(c, false)])) }

/-- There is no next state where the line leaves open what the shell runs. An escaped end of line
is no part of it. -/
def step (r : Reader) (c : Char) : Option Reader :=
  match r.place with
  | .unquoted w => r.unquoted w c
  | .escaped w =>
    if c = '\n' then some { r with place := .unquoted w }
    else some { r with place := .unquoted (some (w.getD [] ++ [(c, true)])) }
  | .single w =>
    if c = '\x27' then some { r with place := .unquoted (some w) }
    else some { r with place := .single (w ++ [(c, true)]) }
  | .double w =>
    if c = '\x22' then some { r with place := .unquoted (some w) }
    else if c = '\\' then some { r with place := .doubleEscaped w }
    else if c ∈ inDouble then none
    else some { r with place := .double (w ++ [(c, true)]) }
  | .doubleEscaped w =>
    if c = '\n' then some { r with place := .double w }
    else if c ∈ inDouble then some { r with place := .double (w ++ [(c, true)]) }
    else some { r with place := .double (w ++ [('\\', true), (c, true)]) }
  | .comment =>
    if c = '\n' then some r.endLine else some r

/-- A quotation has to come to its end. -/
def finish (r : Reader) : Option (List (List Word)) :=
  match r.place with
  | .unquoted w => some (r.endWord w).endLine.done
  | .comment => some r.endLine.done
  | _ => none

def steps (r : Reader) : Text → Option Reader
  | [] => some r
  | c :: t => (r.step c).bind (fun r => r.steps t)

def read (r : Reader) (t : Text) : Option (List (List Word)) := (r.steps t).bind finish

end Reader

/-- The words of the commands that a line lists. A line that is more than a list of simple commands
has none, and neither has one whose words are made by expansions of `$` or a backquote. -/
def words (line : Text) : Option (List (List Word)) := start.read line

/-- What follows an opening bracket makes it a bracket expression. -/
def bracket (w : Word) : Bool :=
  match if w.head? = some ('!', false) then w.tail else w with
  | [] => false
  | p :: rest => p.1 ≠ '/' && (rest.takeWhile (fun p => p.1 ≠ '/')).contains (']', false)

def pattern : Word → Bool
  | [] => false
  | p :: rest =>
    (!p.2 && (p.1 = '*' || p.1 = '?' || p.1 = '[' && bracket rest)) || pattern rest

/-- Whether a word is looked up, among the users' directories or the names of the files. -/
def looked (w : Word) : Bool := w.head? = some ('~', false) || pattern w

/-- What the shell is run in says what such a word becomes. -/
structure Env where
  expand : Word → List Text

def Env.fields (env : Env) (w : Word) : List Text :=
  if looked w then env.expand w else [text w]

/-- The arguments, the command's name among them, of each command that a line makes the shell run. -/
def commands (env : Env) (line : Text) : Option (List (List Text)) :=
  (words line).map (fun cs => cs.map (fun ws => ws.flatMap env.fields))

/-! The reader makes at most one character of a word, or the end of one, of every character of the
line. What it makes less is quotation. -/

def count (ws : List Word) : Nat := (ws.map (fun w => w.length + 1)).sum

def total (cs : List (List Word)) : Nat := (cs.map count).sum

@[simp] theorem count_nil : count [] = 0 := rfl

@[simp] theorem count_append (ws vs : List Word) : count (ws ++ vs) = count ws + count vs := by
  simp [count]

@[simp] theorem count_singleton (w : Word) : count [w] = w.length + 1 := rfl

@[simp] theorem total_append_singleton (cs : List (List Word)) (ws : List Word) :
    total (cs ++ [ws]) = total cs + count ws := by
  simp [total]

/-- The backslash within double quotes counts until it is known to escape something. -/
def Place.size : Place → Nat
  | .unquoted w => (w.getD []).length
  | .escaped w => (w.getD []).length
  | .single w => w.length
  | .double w => w.length
  | .doubleEscaped w => w.length + 1
  | .comment => 0

/-- What there is of the present word. -/
def Place.word : Place → Word
  | .unquoted w => w.getD []
  | .escaped w => w.getD []
  | .single w => w
  | .double w => w
  | .doubleEscaped w => w
  | .comment => []

namespace Reader
variable {r r' : Reader} {c : Char} {s t : Text} {w : Option Word} {cs : List (List Word)}

def size (r : Reader) : Nat := total r.done + count r.args + r.place.size

@[simp] theorem size_endLine : r.endLine.size = total r.done + count r.args := by
  unfold endLine
  split <;> simp_all [size, Place.size]

@[simp] theorem done_endWord : (r.endWord w).done = r.done := rfl

@[simp] theorem args_endWord : (r.endWord w).args = r.args ++ w.toList := rfl

theorem count_toList_le : count w.toList ≤ (w.getD []).length + 1 := by
  cases w <;> simp

theorem endCommand_eq (h : r.endCommand = some r') : r' = r.endLine := by
  unfold endCommand at h
  split at h
  · cases h
  · exact (Option.some.inj h).symm

/-- A word goes on, or ends. -/
theorem step_cases (h : r.step c = some r') :
    (r'.done = r.done ∧ r'.args = r.args ∧ r.place.word <+: r'.place.word ∧
      r'.place.size ≤ r.place.size + 1) ∨
    (∃ w, r.place = .unquoted w ∧
      (kind c = .blank ∧ r' = r.endWord w ∨ r' = (r.endWord w).endLine)) ∨
    (r.place = .comment ∧ r' = r.endLine) := by
  obtain ⟨done, args, place⟩ := r
  cases place with
  | unquoted w =>
    simp only [step, unquoted] at h
    cases hk : kind c <;> simp only [hk, Option.some.injEq, reduceCtorEq] at h
    case blank => exact .inr (.inl ⟨w, rfl, .inl ⟨rfl, h.symm⟩⟩)
    case newline => exact .inr (.inl ⟨w, rfl, .inr h.symm⟩)
    case separator => exact .inr (.inl ⟨w, rfl, .inr (endCommand_eq h)⟩)
    case hash =>
      refine .inl ?_
      cases w <;> cases h <;> simp [Place.word, Place.size]
    all_goals
      subst h
      refine .inl ⟨rfl, rfl, ?_⟩
      simp [Place.word, Place.size]
  | escaped w =>
    simp only [step] at h
    refine .inl ?_
    split at h <;> cases h <;> simp [Place.word, Place.size]
  | single w =>
    simp only [step] at h
    refine .inl ?_
    split at h <;> cases h <;> simp [Place.word, Place.size]
  | double w =>
    simp only [step] at h
    refine .inl ?_
    split_ifs at h <;> cases h <;> simp [Place.word, Place.size]
  | doubleEscaped w =>
    simp only [step] at h
    refine .inl ?_
    split_ifs at h <;> cases h <;> simp [Place.word, Place.size]
    omega
  | comment =>
    simp only [step] at h
    split at h
    · exact .inr (.inr ⟨rfl, (Option.some.inj h).symm⟩)
    · cases h
      exact .inl ⟨rfl, rfl, List.prefix_rfl, Nat.le_succ _⟩

theorem step_size (h : r.step c = some r') : r'.size ≤ r.size + 1 := by
  rcases step_cases h with ⟨hdone, hargs, -, hsize⟩ | ⟨w, hplace, ⟨-, rfl⟩ | rfl⟩ | ⟨hplace, rfl⟩
  · rw [size, hdone, hargs, size]
    omega
  · have := count_toList_le (w := w)
    simp only [size, endWord, count_append, hplace, Place.size, Option.getD_none, List.length_nil]
    omega
  · have := count_toList_le (w := w)
    rw [size_endLine, done_endWord, args_endWord, count_append, size, hplace, Place.size]
    omega
  · rw [size_endLine, size]
    omega

theorem steps_append (s t : Text) : r.steps (s ++ t) = (r.steps s).bind (fun r => r.steps t) := by
  induction s generalizing r with
  | nil => rfl
  | cons c s ih =>
    cases h : r.step c with
    | none => simp [steps, h]
    | some r' => simp [steps, h, ih]

theorem read_append (h : r.steps s = some r') (t : Text) : r.read (s ++ t) = r'.read t := by
  rw [read, steps_append, h]
  rfl

theorem read_cons (c : Char) (t : Text) : r.read (c :: t) = (r.step c).bind (fun r => r.read t) := by
  cases h : r.step c <;> simp [read, steps, h]

theorem steps_size (h : r.steps t = some r') : r'.size ≤ r.size + t.length := by
  induction t generalizing r with
  | nil =>
    cases h
    simp
  | cons c t ih =>
    obtain ⟨r₁, hstep, hrest⟩ := Option.bind_eq_some_iff.mp h
    have hone := step_size hstep
    have hmore := ih hrest
    rw [List.length_cons]
    omega

theorem finish_cases (h : r.finish = some cs) :
    (∃ w, r.place = .unquoted w ∧ cs = (r.endWord w).endLine.done) ∨
    (r.place = .comment ∧ cs = r.endLine.done) := by
  obtain ⟨done, args, place⟩ := r
  cases place <;> cases h
  · exact .inl ⟨_, rfl, rfl⟩
  · exact .inr ⟨rfl, rfl⟩

theorem total_endLine : total r.endLine.done = total r.done + count r.args := by
  unfold endLine
  split <;> simp_all

theorem finish_size (h : r.finish = some cs) : total cs ≤ r.size + 1 := by
  rcases finish_cases h with ⟨w, hplace, rfl⟩ | ⟨hplace, rfl⟩
  · have := count_toList_le (w := w)
    simp only [total_endLine, done_endWord, args_endWord, count_append, size, hplace, Place.size]
    omega
  · rw [total_endLine, size]
    omega

theorem read_size (h : r.read t = some cs) : total cs ≤ r.size + t.length + 1 := by
  obtain ⟨r', hsteps, hfinish⟩ := Option.bind_eq_some_iff.mp h
  have hall := steps_size hsteps
  have hend := finish_size hfinish
  omega

/-- The words of the first command, as far as they are complete. -/
def first (r : Reader) : List Word := (r.done ++ [r.args]).headD []

theorem first_endWord : r.first <+: (r.endWord w).first := by
  unfold first
  cases hdone : r.done <;> simp [endWord, hdone]

theorem first_endLine : r.endLine.first = r.first := by
  unfold first endLine
  split
  · rfl
  · cases hdone : r.done <;> simp

theorem step_first (h : r.step c = some r') : r.first <+: r'.first := by
  rcases step_cases h with ⟨hdone, hargs, -⟩ | ⟨w, -, ⟨-, rfl⟩ | rfl⟩ | ⟨-, rfl⟩
  · have heq : r'.first = r.first := by simp only [first, hdone, hargs]
    exact heq ▸ List.prefix_rfl
  · exact first_endWord
  · rw [first_endLine]
    exact first_endWord
  · exact first_endLine.symm ▸ List.prefix_rfl

theorem steps_first (h : r.steps t = some r') : r.first <+: r'.first := by
  induction t generalizing r with
  | nil =>
    cases h
    exact List.prefix_rfl
  | cons c t ih =>
    obtain ⟨r₁, hstep, hrest⟩ := Option.bind_eq_some_iff.mp h
    exact (step_first hstep).trans (ih hrest)

theorem first_of_endLine {ws : List Word} (h : r.endLine.done = [ws]) : r.first = ws := by
  unfold endLine at h
  split at h
  · have hdone : r.done = [ws] := h
    simp [first, hdone]
  · cases hdone : r.done with
    | nil => simpa [first, hdone] using h
    | cons c cs => simp [hdone] at h

theorem read_first {ws : List Word} (h : r.read t = some [ws]) : r.first <+: ws := by
  obtain ⟨r', hsteps, hfinish⟩ := Option.bind_eq_some_iff.mp h
  have hprefix := steps_first hsteps
  rcases finish_cases hfinish with ⟨w, -, heq⟩ | ⟨-, heq⟩
  · rw [← first_of_endLine heq.symm]
    exact hprefix.trans first_endWord
  · rwa [← first_of_endLine heq.symm]

theorem done_endLine : r.done <+: r.endLine.done := by
  unfold endLine
  split
  · exact List.prefix_rfl
  · exact List.prefix_append _ _

theorem step_done (h : r.step c = some r') : r.done <+: r'.done := by
  rcases step_cases h with ⟨hdone, -⟩ | ⟨w, -, ⟨-, rfl⟩ | rfl⟩ | ⟨-, rfl⟩
  · exact hdone ▸ List.prefix_rfl
  · exact List.prefix_rfl
  · exact done_endLine (r := r.endWord w)
  · exact done_endLine

theorem steps_done (h : r.steps t = some r') : r.done <+: r'.done := by
  induction t generalizing r with
  | nil =>
    cases h
    exact List.prefix_rfl
  | cons c t ih =>
    obtain ⟨r₁, hstep, hrest⟩ := Option.bind_eq_some_iff.mp h
    exact (step_done hstep).trans (ih hrest)

theorem read_done {cs : List (List Word)} (h : r.read t = some cs) : r.done <+: cs := by
  obtain ⟨r', hsteps, hfinish⟩ := Option.bind_eq_some_iff.mp h
  refine (steps_done hsteps).trans ?_
  rcases finish_cases hfinish with ⟨w, -, rfl⟩ | ⟨-, rfl⟩
  · exact done_endLine (r := r'.endWord w)
  · exact done_endLine

/-- The present word goes on to be the next one of its command. -/
theorem word_prefix {v : Word} {vs : List Word} (hdone : r.done = [])
    (h : r.read t = some [r.args ++ v :: vs]) : r.place.word <+: v := by
  induction t generalizing r with
  | nil =>
    rcases finish_cases h with ⟨w, hplace, heq⟩ | ⟨hplace, -⟩
    · have hfirst := first_of_endLine heq.symm
      cases w with
      | none => simp [hplace, Place.word]
      | some u =>
        simp only [first, done_endWord, hdone, args_endWord, List.nil_append, List.headD_cons,
          Option.toList_some, List.append_cancel_left_eq, List.cons.injEq] at hfirst
        simp [hplace, Place.word, hfirst.1]
    · simp [hplace, Place.word]
  | cons c t ih =>
    rw [read_cons] at h
    obtain ⟨r₁, hstep, hread⟩ := Option.bind_eq_some_iff.mp h
    have hended : ∀ w, r.place = .unquoted w → (r.endWord w).first <+: r₁.first →
        r.place.word <+: v := by
      intro w hplace hfirst
      cases w with
      | none => simp [hplace, Place.word]
      | some u =>
        have hall := hfirst.trans (read_first hread)
        simp only [first, done_endWord, hdone, args_endWord, List.nil_append, List.headD_cons,
          Option.toList_some, List.prefix_append_right_inj, List.cons_prefix_cons] at hall
        simp [hplace, Place.word, hall.1]
    rcases step_cases hstep with ⟨hdone', hargs, hword, -⟩ | ⟨w, hplace, ⟨-, rfl⟩ | rfl⟩ | ⟨hplace, -⟩
    · rw [← hargs] at hread
      exact hword.trans (ih (hdone'.trans hdone) hread)
    · exact hended w hplace List.prefix_rfl
    · exact hended w hplace (first_endLine.symm ▸ List.prefix_rfl)
    · simp [hplace, Place.word]

end Reader

end Catchb.Lib.Shell
