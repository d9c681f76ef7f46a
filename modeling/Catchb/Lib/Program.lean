import Mathlib.Data.List.Basic

/-! Programs that ask the world outside and go on with its answers, and what has to come before
what they do there. -/

namespace Catchb.Lib

/-- `A q` are the answers to a question. A program may give up with an error. -/
inductive Program (Q : Type) (A : Q → Type) (ε α : Type)
  | done (a : α)
  | fail (e : ε)
  | ask (q : Q) (k : A q → Program Q A ε α)

namespace Program
variable {Q : Type} {A : Q → Type} {ε α β : Type}

def bind : Program Q A ε α → (α → Program Q A ε β) → Program Q A ε β
  | done a, f => f a
  | fail e, _ => fail e
  | ask q k, f => ask q (fun a => bind (k a) f)

instance : Monad (Program Q A ε) where
  pure := done
  bind := bind

@[simp] theorem pure_bind' (a : α) (f : α → Program Q A ε β) : (pure a >>= f) = f a := rfl

@[simp] theorem done_bind (a : α) (f : α → Program Q A ε β) : (done a >>= f) = f a := rfl

@[simp] theorem fail_bind (e : ε) (f : α → Program Q A ε β) : (fail e >>= f) = fail e := rfl

@[simp] theorem ask_bind (q : Q) (k : A q → Program Q A ε α) (f : α → Program Q A ε β) :
    (ask q k >>= f) = ask q (fun a => k a >>= f) := rfl

theorem bind_assoc {γ : Type} (p : Program Q A ε α) (f : α → Program Q A ε β)
    (g : β → Program Q A ε γ) : (p >>= f >>= g) = p >>= fun a => f a >>= g := by
  induction p with
  | done a => rfl
  | fail e => rfl
  | ask q k ih =>
    simp only [ask_bind]
    exact congrArg (ask q) (funext ih)

/-- A single question. -/
def query (q : Q) : Program Q A ε (A q) := ask q done

@[simp] theorem query_bind (q : Q) (f : A q → Program Q A ε β) : (query q >>= f) = ask q f := rfl

/-- A world in the state `σ` answers, and `E` is what is seen to happen there. -/
abbrev World (Q : Type) (A : Q → Type) (σ E : Type) := σ → (q : Q) → List E × A q × σ

variable {σ E : Type}

/-- What happens while a program runs, and how it ends. -/
def run (world : World Q A σ E) : σ → Program Q A ε α → List E × Except ε α × σ
  | s, done a => ([], .ok a, s)
  | s, fail e => ([], .error e, s)
  | s, ask q k =>
    let (es, a, s) := world s q
    let (fs, r) := run world s (k a)
    (es ++ fs, r)

/-- What happens while a program runs. -/
def events (world : World Q A σ E) (s : σ) (p : Program Q A ε α) : List E := (p.run world s).1

@[simp] theorem events_done (world : World Q A σ E) (s : σ) (a : α) :
    events world s (done a : Program Q A ε α) = [] := rfl

@[simp] theorem events_fail (world : World Q A σ E) (s : σ) (e : ε) :
    events world s (fail e : Program Q A ε α) = [] := rfl

theorem events_ask (world : World Q A σ E) (s : σ) (q : Q) (k : A q → Program Q A ε α) :
    events world s (ask q k) =
      (world s q).1 ++ events world (world s q).2.2 (k (world s q).2.1) := rfl

/-- A program that asks nothing. -/
def idle : Program Q A ε α → Prop
  | done _ => True
  | fail _ => True
  | ask _ _ => False

theorem events_idle {p : Program Q A ε α} (h : p.idle) (world : World Q A σ E) (s : σ) :
    p.events world s = [] := by
  cases p with
  | done a => rfl
  | fail e => rfl
  | ask q k => exact h.elim

theorem events_ask_idle {q : Q} {k : A q → Program Q A ε α} (h : ∀ a, (k a).idle)
    (world : World Q A σ E) (s : σ) : (ask q k).events world s = (world s q).1 := by
  rw [events_ask, events_idle (h _), List.append_nil]

/-- A world that has no state and where nothing is seen but the questions. -/
def asking (answer : (q : Q) → A q) : World Q A Unit Q := fun _ q => ([q], answer q, ())

/-- The questions of a run. -/
def asked (answer : (q : Q) → A q) (p : Program Q A ε α) : List Q := p.events (asking answer) ()

@[simp] theorem asked_done (answer : (q : Q) → A q) (a : α) :
    asked answer (done a : Program Q A ε α) = [] := rfl

@[simp] theorem asked_fail (answer : (q : Q) → A q) (e : ε) :
    asked answer (fail e : Program Q A ε α) = [] := rfl

@[simp] theorem asked_ask (answer : (q : Q) → A q) (q : Q) (k : A q → Program Q A ε α) :
    asked answer (ask q k) = q :: asked answer (k (answer q)) := rfl

/-- How a run ends. -/
def result (answer : (q : Q) → A q) (p : Program Q A ε α) : Except ε α :=
  (p.run (asking answer) ()).2.1

@[simp] theorem result_done (answer : (q : Q) → A q) (a : α) :
    result answer (done a : Program Q A ε α) = .ok a := rfl

@[simp] theorem result_fail (answer : (q : Q) → A q) (e : ε) :
    result answer (fail e : Program Q A ε α) = .error e := rfl

@[simp] theorem result_ask (answer : (q : Q) → A q) (q : Q) (k : A q → Program Q A ε α) :
    result answer (ask q k) = result answer (k (answer q)) := rfl

theorem result_bind (answer : (q : Q) → A q) (p : Program Q A ε α) (f : α → Program Q A ε β) :
    result answer (p >>= f) = (result answer p).bind fun a => result answer (f a) := by
  induction p with
  | done a => rfl
  | fail e => rfl
  | ask q k ih => exact ih (answer q)

theorem bind_error {answer : (q : Q) → A q} {p : Program Q A ε α} {f : α → Program Q A ε β}
    {e : ε} (h : result answer (p >>= f) = .error e) :
    result answer p = .error e ∨ ∃ a, result answer p = .ok a ∧ result answer (f a) = .error e := by
  rw [result_bind] at h
  cases hp : result answer p with
  | error e' =>
    rw [hp] at h
    cases h
    exact .inl rfl
  | ok a =>
    rw [hp] at h
    exact .inr ⟨a, rfl, h⟩

theorem asked_bind_ok {answer : (q : Q) → A q} {p : Program Q A ε α} {a : α}
    (f : α → Program Q A ε β) (h : result answer p = .ok a) :
    asked answer (p >>= f) = asked answer p ++ asked answer (f a) := by
  induction p with
  | done b =>
    cases h
    rfl
  | fail e => cases h
  | ask q k ih =>
    rw [ask_bind, asked_ask, ih (answer q) h]
    rfl

theorem asked_bind_error {answer : (q : Q) → A q} {p : Program Q A ε α} {e : ε}
    (f : α → Program Q A ε β) (h : result answer p = .error e) :
    asked answer (p >>= f) = asked answer p := by
  induction p with
  | done b => cases h
  | fail e => rfl
  | ask q k ih =>
    rw [ask_bind, asked_ask, ih (answer q) h]
    rfl

/-- What the parts of a program ask together. -/
theorem mem_asked_bind {answer : (q : Q) → A q} {p : Program Q A ε α} {f : α → Program Q A ε β}
    {q : Q} : q ∈ asked answer (p >>= f) ↔
      q ∈ asked answer p ∨ ∃ a, result answer p = .ok a ∧ q ∈ asked answer (f a) := by
  cases h : result answer p with
  | ok a =>
    rw [asked_bind_ok f h, List.mem_append]
    exact or_congr_right ⟨fun hq => ⟨a, rfl, hq⟩, fun ⟨b, hb, hq⟩ => Except.ok.inj hb ▸ hq⟩
  | error e =>
    rw [asked_bind_error f h]
    exact (or_iff_left (fun ⟨b, hb, _⟩ => nomatch hb)).symm

/-- Every one of the acts comes after one that opens the way to it. -/
def Opened (opens acts : E → Prop) (es : List E) : Prop :=
  ∀ pre e post, es = pre ++ e :: post → acts e → ∃ o ∈ pre, opens o

section Opened
variable {opens acts : E → Prop} {es fs : List E}

theorem opened_nil : Opened opens acts [] := by
  intro pre e post h
  cases pre <;> cases h

theorem Opened.head {e : E} (h : Opened opens acts (e :: es)) : ¬acts e := by
  intro hacts
  obtain ⟨o, ho, -⟩ := h [] e es rfl hacts
  cases ho

theorem Opened.cons {o : E} (ho : opens o) (hacts : ¬acts o) (es : List E) :
    Opened opens acts (o :: es) := by
  intro pre e post h hact
  cases pre with
  | nil =>
    obtain ⟨rfl, -⟩ := List.cons.inj h
    exact absurd hact hacts
  | cons d pre =>
    obtain ⟨rfl, -⟩ := List.cons.inj h
    exact ⟨o, List.mem_cons_self, ho⟩

/-- Two parts of a run, the second of which is good by itself or after what opens the way. -/
theorem Opened.append (hes : Opened opens acts es)
    (hfs : Opened opens acts fs ∨ ∃ o ∈ es, opens o) : Opened opens acts (es ++ fs) := by
  intro pre e post heq hacts
  rcases List.append_eq_append_iff.mp heq with ⟨mid, rfl, hmid⟩ | ⟨mid, hmid, hpost⟩
  · rcases hfs with hfs | ⟨o, ho, hopens⟩
    · obtain ⟨o, ho, hopens⟩ := hfs mid e post hmid hacts
      exact ⟨o, List.mem_append_right _ ho, hopens⟩
    · exact ⟨o, List.mem_append_left _ ho, hopens⟩
  · cases mid with
    | nil =>
      rw [List.append_nil] at hmid
      rw [List.nil_append] at hpost
      subst hmid
      rcases hfs with hfs | hopen
      · obtain ⟨o, ho, -⟩ := hfs [] e post hpost.symm hacts
        cases ho
      · exact hopen
    | cons d mid =>
      obtain ⟨rfl, -⟩ := List.cons.inj hpost
      exact hes pre e mid hmid hacts

end Opened

/-- A program that asks what `needs` the way to be open only after an answer that `grants` it. -/
def Guarded (needs : Q → Prop) (grants : (q : Q) → A q → Prop) : Prop → Program Q A ε α → Prop
  | _, done _ => True
  | _, fail _ => True
  | isOpen, ask q k =>
    (needs q → isOpen) ∧ ∀ a, Guarded needs grants (isOpen ∨ grants q a) (k a)

section Guarded
variable {needs : Q → Prop} {grants : (q : Q) → A q → Prop} {isOpen : Prop} {p : Program Q A ε α}
  {f : α → Program Q A ε β}

theorem Guarded.mono {isOpen' : Prop} (h : Guarded needs grants isOpen p) (hopen : isOpen → isOpen') :
    Guarded needs grants isOpen' p := by
  induction p generalizing isOpen isOpen' with
  | done a => trivial
  | fail e => trivial
  | ask q k ih => exact ⟨fun hq => hopen (h.1 hq), fun a => ih a (h.2 a) (Or.imp_left hopen)⟩

/-- A world in which no act happens at a question that needs nothing, or it happens there after
what opens the way, and in which that has happened where the way is granted. -/
structure Lawful (needs : Q → Prop) (grants : (q : Q) → A q → Prop) (opens acts : E → Prop)
    (world : World Q A σ E) : Prop where
  opened : ∀ s q, ¬needs q → Opened opens acts (world s q).1
  granted : ∀ s q, grants q (world s q).2.1 → ∃ o ∈ (world s q).1, opens o

theorem Guarded.opened {opens acts : E → Prop} {world : World Q A σ E}
    (hworld : Lawful needs grants opens acts world) (h : Guarded needs grants isOpen p)
    {es : List E} (hes : Opened opens acts es) (hopen : isOpen → ∃ o ∈ es, opens o) (s : σ) :
    Opened opens acts (es ++ p.events world s) := by
  induction p generalizing isOpen es s with
  | done a => simpa using hes
  | fail e => simpa using hes
  | ask q k ih =>
    rw [events_ask, ← List.append_assoc]
    have hstep : Opened opens acts (es ++ (world s q).1) := by
      by_cases hq : needs q
      · exact hes.append (.inr (hopen (h.1 hq)))
      · exact hes.append (.inl (hworld.opened s q hq))
    refine ih _ (h.2 _) hstep ?_ _
    rintro (ho | hg)
    · obtain ⟨o, ho, hopens⟩ := hopen ho
      exact ⟨o, List.mem_append_left _ ho, hopens⟩
    · obtain ⟨o, ho, hopens⟩ := hworld.granted s q hg
      exact ⟨o, List.mem_append_right _ ho, hopens⟩

/-- In a lawful world a guarded program never acts before the way is open. -/
theorem Guarded.run {opens acts : E → Prop} {world : World Q A σ E}
    (hworld : Lawful needs grants opens acts world) (h : Guarded needs grants False p) (s : σ) :
    Opened opens acts (p.events world s) := by
  have hall : Opened opens acts ([] ++ p.events world s) := h.opened hworld opened_nil False.elim s
  simpa using hall

end Guarded
end Program
end Catchb.Lib
