import Catchb.Lib.Run

/-! Two ends that agree on a switch over two queues. An end has at most one request that is not
answered, and remembers a change of mind until the answer comes. -/

namespace Catchb.Lib.Negotiation

/-- `want v op`: `v` is asked for, and with `op` the opposite is wanted by now. -/
inductive Want
  | is (v : Bool)
  | want (v op : Bool)
  deriving DecidableEq

namespace Want

def waiting : Want → Nat
  | is _ => 0
  | want .. => 1

def opposite : Want → Nat
  | is _ => 0
  | want _ op => op.toNat

end Want

open Want

/-- A request of the end itself, and what it sends. -/
def ask (v : Bool) : Want → Want × List Bool
  | is w => if v = w then (is w, []) else (want v false, [v])
  | want w _ => (want w (v != w), [])

/-- A message that comes in. `grants` is whether a request is agreed to, and an end that does not
resend forgets to send what it wants by now when its old request is confirmed. -/
def receive (grants resends : Bool) : Want → Bool → Want × List Bool
  | is false, true => if grants then (is true, [true]) else (is false, [false])
  | is true, true => (is true, [])
  | is v, false => (is false, if v then [false] else [])
  | want false op, true => (is op, [])
  | want true op, true => if op then (want false false, [false]) else (is true, [])
  | want false op, false =>
    if op then (want true false, if resends then [true] else []) else (is false, [])
  | want true _, false => (is false, [])

/-- Two ends, each with what is on its way to the other one. In the first cases an end has its
message answered or on its way; `overtaken` has an answer with a request behind it. An answer may
refuse what was asked for, and grants nothing else. -/
inductive Half : Want → Want → List Bool → List Bool → Prop
  | settled (v : Bool) : Half (is v) (is v) [] []
  | asked (v op : Bool) : Half (want v op) (is !v) [v] []
  | answered (v w op : Bool) (h : v = true → w = true) : Half (is v) (want w op) [v] []
  | crossed (v op op' : Bool) : Half (want v op) (want v op') [v] [v]
  | overtaken (v w op op' : Bool) (h : v = true → w = true) :
      Half (want (!v) op) (want w op') [v, !v] []

/-- Each end that waits has a message under way. -/
def Even (x y : Want) (out back : List Bool) : Prop := Half x y out back ∨ Half y x back out

/-- One message fewer than there are ends that wait. -/
inductive Short : Want → Want → List Bool → List Bool → Prop
  | idle (v w op : Bool) (h : v = true → w = true) : Short (is v) (want w op) [] []
  | asking (v w op op' : Bool) (h : v = false → w = true) :
      Short (want v op) (want w op') [v] []

/-- The first end waits for what the second one has sent before it forgot to send a request. -/
inductive Lapsed : Want → Want → List Bool → List Bool → Prop
  | lapsed (op op' : Bool) : Lapsed (want false op) (want true op') [] [false]

def Uneven (x y : Want) (out back : List Bool) : Prop := Short x y out back ∨ Short y x back out

/-- The message that would be sent again is not. -/
def Lapses (resends : Bool) (y : Want) (v : Bool) : Prop :=
  resends = false ∧ y = want false true ∧ v = false

instance (resends : Bool) (y : Want) (v : Bool) : Decidable (Lapses resends y v) :=
  inferInstanceAs (Decidable (_ ∧ _ ∧ _))

variable {x y : Want} {out back : List Bool} {v grants resends : Bool}

theorem Half.even (h : Half x y out back) : Even x y out back := Or.inl h

theorem Half.even' (h : Half y x back out) : Even x y out back := Or.inr h

theorem Even.symm (h : Even x y out back) : Even y x back out := Or.symm h

theorem Short.uneven (h : Short x y out back) : Uneven x y out back := Or.inl h

theorem Short.uneven' (h : Short y x back out) : Uneven x y out back := Or.inr h

theorem Uneven.symm (h : Uneven x y out back) : Uneven y x back out := Or.symm h

theorem even_ask (v : Bool) (h : Even x y out back) :
    Even (ask v x).1 y (out ++ (ask v x).2) back := by
  rcases h with h | h
  · cases h with
    | settled w =>
      by_cases hv : v = w
      · simpa [ask, hv] using (Half.settled w).even
      · have hw : w = !v := Bool.eq_not_of_ne (Ne.symm hv)
        simpa [ask, hv, hw] using (Half.asked v false).even
    | asked w op => simpa [ask] using (Half.asked w (v != w)).even
    | answered w w' op h =>
      by_cases hv : v = w
      · simpa [ask, hv] using (Half.answered w w' op h).even
      · have hv' : v = !w := Bool.eq_not_of_ne hv
        simpa [ask, hv'] using (Half.overtaken w w' false op h).even
    | crossed w op op' => simpa [ask] using (Half.crossed w (v != w) op').even
    | overtaken w w' op op' h =>
      simpa [ask] using (Half.overtaken w w' (v != !w) op' h).even
  · cases h with
    | settled w =>
      by_cases hv : v = w
      · simpa [ask, hv] using (Half.settled w).even
      · have hw : w = !v := Bool.eq_not_of_ne (Ne.symm hv)
        simpa [ask, hv, hw] using (Half.asked v false).even
    | asked w op =>
      -- both ask for the same: an end that is asked has the opposite
      by_cases hv : v = !w
      · simpa [ask, hv] using (Half.asked w op).even'
      · have hv' : v = w := by simpa using hv
        simpa [ask, hv'] using (Half.crossed w false op).even
    | answered w w' op h => simpa [ask] using (Half.answered w w' (v != w') h).even'
    | crossed w op op' => simpa [ask] using (Half.crossed w (v != w) op).even
    | overtaken w w' op op' h =>
      simpa [ask] using (Half.overtaken w w' op (v != w') h).even'

/-- The end that the queue leads to takes its first message. -/
theorem even_receive (h : Even x y (v :: out) back) (hl : ¬Lapses resends y v) :
    Even x (receive grants resends y v).1 out (back ++ (receive grants resends y v).2) := by
  rcases h with h | h
  · cases h with
    | asked v op =>
      cases v with
      | false => simpa [receive] using (Half.answered false false op (by simp)).even'
      | true =>
        cases grants with
        | false => simpa [receive] using (Half.answered false true op (by simp)).even'
        | true => simpa [receive] using (Half.answered true true op (by simp)).even'
    | answered v w op hw =>
      cases w with
      | false =>
        obtain rfl : v = false := by simpa using hw
        cases op with
        | false => simpa [receive] using (Half.settled false).even
        | true =>
          have hr : resends = true := by simpa [Lapses] using hl
          simpa [receive, hr] using (Half.asked true false).even'
      | true =>
        cases v with
        | false => simpa [receive] using (Half.settled false).even
        | true =>
          cases op with
          | false => simpa [receive] using (Half.settled true).even
          | true => simpa [receive] using (Half.asked false false).even'
    | crossed v op op' =>
      cases op' with
      | false => cases v <;> simpa [receive] using (Half.answered _ _ op (by simp)).even'
      | true =>
        cases v with
        | false =>
          have hr : resends = true := by simpa [Lapses] using hl
          simpa [receive, hr] using (Half.overtaken false false false op (by simp)).even'
        | true => simpa [receive] using (Half.overtaken true true false op (by simp)).even'
    | overtaken v w op op' hw =>
      cases w with
      | false =>
        obtain rfl : v = false := by simpa using hw
        cases op' with
        | false => simpa [receive] using (Half.asked true op).even
        | true =>
          have hr : resends = true := by simpa [Lapses] using hl
          simpa [receive, hr] using (Half.crossed true op false).even
      | true =>
        cases v with
        | false => simpa [receive] using (Half.asked true op).even
        | true =>
          cases op' with
          | false => simpa [receive] using (Half.asked false op).even
          | true => simpa [receive] using (Half.crossed false op false).even
  · cases h with
    | crossed v op op' =>
      cases op with
      | false => cases v <;> simpa [receive] using (Half.answered _ _ op' (by simp)).even'
      | true =>
        cases v with
        | false =>
          have hr : resends = true := by simpa [Lapses] using hl
          simpa [receive, hr] using (Half.overtaken false false false op' (by simp)).even'
        | true => simpa [receive] using (Half.overtaken true true false op' (by simp)).even'

/-- What is left when the end that the queue leads to forgets to send its request. -/
theorem even_lapse (grants : Bool) (h : Even x y (v :: out) back) (hl : Lapses resends y v) :
    let r := receive grants resends y v
    Uneven x r.1 out (back ++ r.2) ∨ Lapsed x r.1 out (back ++ r.2) := by
  obtain ⟨rfl, hy, rfl⟩ := hl
  rcases h with h | h
  · cases h with
    | asked => cases hy
    | answered v w op =>
      cases hy
      simpa [receive] using Or.inl (Short.idle false true false (by simp)).uneven
    | crossed v op =>
      cases hy
      simpa [receive] using Or.inr (Lapsed.lapsed op false)
    | overtaken v w op =>
      cases hy
      simpa [receive] using Or.inl (Short.asking true true op false (by simp)).uneven
  · cases h with
    | crossed v op op' =>
      cases hy
      simpa [receive] using Or.inr (Lapsed.lapsed op' false)

theorem uneven_ask (v : Bool) (h : Uneven x y out back) :
    Uneven (ask v x).1 y (out ++ (ask v x).2) back := by
  rcases h with h | h
  · cases h with
    | idle w w' op h =>
      by_cases hv : v = w
      · simpa [ask, hv] using (Short.idle w w' op h).uneven
      · have hv' : v = !w := Bool.eq_not_of_ne hv
        simpa [ask, hv'] using (Short.asking (!w) w' false op (by simpa using h)).uneven
    | asking w w' op op' h => simpa [ask] using (Short.asking w w' (v != w) op' h).uneven
  · cases h with
    | idle w w' op h => simpa [ask] using (Short.idle w w' (v != w') h).uneven'
    | asking w w' op op' h => simpa [ask] using (Short.asking w w' op (v != w') h).uneven'

theorem uneven_receive (h : Uneven x y (v :: out) back) :
    Uneven x (receive grants resends y v).1 out (back ++ (receive grants resends y v).2) := by
  rcases h with h | h
  · cases h with
    | asking v w op op' hw =>
      cases w with
      | false =>
        obtain rfl : v = true := by simpa using hw
        simpa [receive] using (Short.idle op' true op (by simp)).uneven'
      | true =>
        cases v with
        | false => simpa [receive] using (Short.idle false false op (by simp)).uneven'
        | true =>
          cases op' with
          | false => simpa [receive] using (Short.idle true true op (by simp)).uneven'
          | true => simpa [receive] using (Short.asking false true false op (by simp)).uneven'
  · cases h

theorem lapsed_ask (v : Bool) (h : Lapsed x y out back) :
    Lapsed (ask v x).1 y (out ++ (ask v x).2) back ∧
      Lapsed x (ask v y).1 out (back ++ (ask v y).2) := by
  cases h with
  | lapsed op op' =>
    constructor
    · simpa [ask] using Lapsed.lapsed v op'
    · simpa [ask] using Lapsed.lapsed op (!v)

/-- The first end takes what is on its way to it, and sends what it wants by now. -/
theorem lapsed_receive (h : Lapsed x y out (v :: back)) :
    Uneven (receive grants true x v).1 y (out ++ (receive grants true x v).2) back := by
  cases h with
  | lapsed op op' =>
    cases op with
    | false => simpa [receive] using (Short.idle false true op' (by simp)).uneven
    | true => simpa [receive] using (Short.asking true true false op' (by simp)).uneven

/-- The messages that an end can still cause: one for its own request that is under way, and two
for each change of mind. -/
def work (x y : Want) (out back : List Bool) : Nat :=
  (if out = [] then 0 else x.waiting) + (if back = [] then 0 else y.waiting) +
    2 * x.opposite + 2 * y.opposite

theorem work_symm (x y : Want) (out back : List Bool) : work x y out back = work y x back out := by
  unfold work
  omega

/-- A request costs two messages. -/
theorem work_ask (v : Bool) (x y : Want) (out back : List Bool) :
    work (ask v x).1 y (out ++ (ask v x).2) back + (ask v x).2.length ≤ work x y out back + 2 := by
  cases x with
  | is w =>
    by_cases hv : v = w
    · simp [ask, hv]
    · simp [ask, hv, work, waiting, opposite]
      omega
  | want w op =>
    have hop : (v != w).toNat ≤ 1 := Bool.toNat_le _
    simp [ask, work, waiting, opposite]
    omega

/-- A message that comes in is paid for. -/
theorem work_even (grants resends : Bool) (h : Even x y (v :: out) back) :
    work x (receive grants resends y v).1 out (back ++ (receive grants resends y v).2) +
      (receive grants resends y v).2.length ≤ work x y (v :: out) back := by
  rcases h with h | h
  · cases h with
    | asked v op =>
      cases v <;> cases grants <;> simp [receive, work, waiting, opposite] <;> omega
    | answered v w op hw =>
      cases v <;> cases w <;> cases op <;> cases resends <;>
        simp [receive, work, waiting, opposite]
    | crossed v op op' =>
      cases v <;> cases op' <;> cases resends <;> simp [receive, work, waiting, opposite] <;> omega
    | overtaken v w op op' hw =>
      cases v <;> cases w <;> cases op' <;> cases resends <;>
        simp [receive, work, waiting, opposite] <;> omega
  · cases h with
    | crossed v op op' =>
      cases v <;> cases op <;> cases resends <;> simp [receive, work, waiting, opposite] <;> omega

theorem work_uneven (grants resends : Bool) (h : Uneven x y (v :: out) back) :
    work x (receive grants resends y v).1 out (back ++ (receive grants resends y v).2) +
      (receive grants resends y v).2.length ≤ work x y (v :: out) back := by
  rcases h with h | h
  · cases h with
    | asking v w op op' hw =>
      cases v <;> cases w <;> cases op' <;> cases resends <;>
        simp [receive, work, waiting, opposite] <;> omega
  · cases h

theorem work_lapsed (h : Lapsed x y out (v :: back)) :
    work (receive grants true x v).1 y (out ++ (receive grants true x v).2) back +
      (receive grants true x v).2.length ≤ work x y out (v :: back) := by
  cases h with
  | lapsed op op' =>
    cases op with
    | false =>
      simp [receive, work, waiting, opposite]
    | true =>
      simp [receive, work, waiting, opposite] <;> omega

theorem Lapsed.nothing_out (h : Lapsed x y out back) : out = [] := by
  cases h
  rfl

/-- With nothing under way the ends agree. -/
theorem even_nil (h : Even x y [] []) : ∃ v, x = is v ∧ y = is v := by
  rcases h with h | h <;> cases h <;> exact ⟨_, rfl, rfl⟩

/-- With nothing under way an end waits for ever. -/
theorem uneven_nil (h : Uneven x y [] []) : x.waiting + y.waiting = 1 := by
  rcases h with h | h <;> cases h <;> rfl

theorem not_lapsed_nil : ¬Lapsed x y [] [] := by
  intro h
  cases h

/-- No message changes an end's mind. -/
theorem receive_opposite (h : y ≠ want false true) :
    (receive grants resends y v).1 ≠ want false true := by
  cases y with
  | is w => cases w <;> cases v <;> cases grants <;> simp [receive]
  | want w op => cases w <;> cases op <;> cases v <;> simp_all [receive]

/-- The two ends with what is on its way. -/
structure Pair where
  near : Want
  far : Want
  toFar : List Bool
  toNear : List Bool

/-- Who grants requests, and whether the far end resends. The near one does. -/
structure Policy where
  nearGrants : Bool
  farGrants : Bool
  farResends : Bool

inductive Act
  | askNear (v : Bool)
  | askFar (v : Bool)
  | toFar
  | toNear
  deriving DecidableEq

def Act.asks : Act → Nat
  | .askNear _ | .askFar _ => 1
  | .toFar | .toNear => 0

namespace Pair

def start : Pair := ⟨is false, is false, [], []⟩

def step (p : Policy) (s : Pair) : Act → Pair
  | .askNear v => { s with near := (ask v s.near).1, toFar := s.toFar ++ (ask v s.near).2 }
  | .askFar v => { s with far := (ask v s.far).1, toNear := s.toNear ++ (ask v s.far).2 }
  | .toFar =>
    match s.toFar with
    | [] => s
    | v :: rest =>
      let r := receive p.farGrants p.farResends s.far v
      { s with far := r.1, toFar := rest, toNear := s.toNear ++ r.2 }
  | .toNear =>
    match s.toNear with
    | [] => s
    | v :: rest =>
      let r := receive p.nearGrants true s.near v
      { s with near := r.1, toNear := rest, toFar := s.toFar ++ r.2 }

/-- The messages that a step sends. -/
def sends (p : Policy) (s : Pair) : Act → Nat
  | .askNear v => (ask v s.near).2.length
  | .askFar v => (ask v s.far).2.length
  | .toFar => (s.toFar.head?.map fun v => (receive p.farGrants p.farResends s.far v).2.length).getD 0
  | .toNear => (s.toNear.head?.map fun v => (receive p.nearGrants true s.near v).2.length).getD 0

/-- The far end forgets a request. -/
def Forgets (p : Policy) (s : Pair) : Act → Prop
  | .toFar => ∃ v, s.toFar.head? = some v ∧ Lapses p.farResends s.far v
  | _ => False

def IsEven (s : Pair) : Prop := Even s.near s.far s.toFar s.toNear

def IsLost (s : Pair) : Prop :=
  Uneven s.near s.far s.toFar s.toNear ∨ Lapsed s.near s.far s.toFar s.toNear

variable {p : Policy} {s : Pair} {a : Act}

theorem start_even : start.IsEven := (Half.settled false).even

theorem even_step (h : s.IsEven) (hf : ¬Forgets p s a) : (s.step p a).IsEven := by
  cases a with
  | askNear v => exact even_ask v h
  | askFar v => exact (even_ask v h.symm).symm
  | toFar =>
    unfold step
    cases hq : s.toFar with
    | nil => exact h
    | cons v rest =>
      rw [IsEven, hq] at h
      exact even_receive h fun hl => hf ⟨v, by rw [hq, List.head?_cons], hl⟩
  | toNear =>
    unfold step
    cases hq : s.toNear with
    | nil => exact h
    | cons v rest =>
      rw [IsEven, hq] at h
      exact (even_receive h.symm (by simp [Lapses])).symm

theorem forgets_step (h : s.IsEven) (hf : Forgets p s a) : (s.step p a).IsLost := by
  cases a with
  | toFar =>
    obtain ⟨v, hv, hl⟩ := hf
    cases hq : s.toFar with
    | nil => simp [hq] at hv
    | cons w rest =>
      obtain rfl : w = v := by simpa [hq] using hv
      rw [IsEven, hq] at h
      simpa [step, hq, IsLost] using even_lapse p.farGrants h hl
  | _ => exact hf.elim

theorem lost_step (h : s.IsLost) : (s.step p a).IsLost := by
  rcases h with h | h
  · left
    cases a with
    | askNear v => exact uneven_ask v h
    | askFar v => exact (uneven_ask v h.symm).symm
    | toFar =>
      unfold step
      cases hq : s.toFar with
      | nil => exact h
      | cons v rest =>
        rw [hq] at h
        exact uneven_receive h
    | toNear =>
      unfold step
      cases hq : s.toNear with
      | nil => exact h
      | cons v rest =>
        rw [hq] at h
        exact (uneven_receive h.symm).symm
  · cases a with
    | askNear v => exact Or.inr (lapsed_ask v h).1
    | askFar v => exact Or.inr (lapsed_ask v h).2
    | toFar =>
      unfold step
      cases hq : s.toFar with
      | nil => exact Or.inr h
      | cons v rest =>
        exact absurd (hq ▸ h.nothing_out) (List.cons_ne_nil v rest)
    | toNear =>
      unfold step
      cases hq : s.toNear with
      | nil => exact Or.inr h
      | cons v rest =>
        rw [hq] at h
        exact Or.inl (lapsed_receive h)

def work (s : Pair) : Nat := Negotiation.work s.near s.far s.toFar s.toNear

theorem work_step (h : s.IsEven ∨ s.IsLost) :
    (s.step p a).work + s.sends p a ≤ s.work + 2 * a.asks := by
  cases a with
  | askNear v => exact work_ask v s.near s.far s.toFar s.toNear
  | askFar v =>
    have hw := work_ask v s.far s.near s.toNear s.toFar
    rw [work_symm, work_symm s.far] at hw
    exact hw
  | toFar =>
    unfold step sends work
    cases hq : s.toFar with
    | nil => simp [hq]
    | cons v rest =>
      simp only [IsEven, IsLost, hq] at h
      rcases h with h | h | h
      · simpa [hq, Act.asks] using work_even _ _ h
      · simpa [hq, Act.asks] using work_uneven _ _ h
      · exact absurd h.nothing_out (List.cons_ne_nil v rest)
  | toNear =>
    unfold step sends work
    cases hq : s.toNear with
    | nil => simp [hq]
    | cons v rest =>
      simp only [IsEven, IsLost, hq] at h
      rcases h with h | h | h
      · have hw := work_even p.nearGrants true h.symm
        rw [work_symm, work_symm s.far] at hw
        simpa [hq, Act.asks] using hw
      · have hw := work_uneven p.nearGrants true h.symm
        rw [work_symm, work_symm s.far] at hw
        simpa [hq, Act.asks] using hw
      · simpa [hq, Act.asks] using work_lapsed h

theorem even_or_lost_step (h : s.IsEven ∨ s.IsLost) :
    (s.step p a).IsEven ∨ (s.step p a).IsLost := by
  rcases h with h | h
  · by_cases hf : Forgets p s a
    · exact Or.inr (forgets_step h hf)
    · exact Or.inl (even_step h hf)
  · exact Or.inr (lost_step h)

theorem lost_run (h : s.IsLost) (acts : List Act) : (acts.foldl (step p) s).IsLost := by
  induction acts generalizing s with
  | nil => exact h
  | cons a acts ih => exact ih (lost_step h)

/-- A run in which nothing is forgotten stays even, and any other one does not come back. -/
theorem run_even (h : s.IsEven) (acts : List Act) :
    (Admitted (step p) (fun s a => ¬Forgets p s a) s acts → (acts.foldl (step p) s).IsEven) ∧
      (¬Admitted (step p) (fun s a => ¬Forgets p s a) s acts →
        (acts.foldl (step p) s).IsLost) := by
  induction acts generalizing s with
  | nil => exact ⟨fun _ => h, fun hnot => absurd trivial hnot⟩
  | cons a acts ih =>
    by_cases hf : Forgets p s a
    · exact ⟨fun ha => absurd hf ha.1, fun _ => lost_run (forgets_step h hf) acts⟩
    · obtain ⟨heven, hlost⟩ := ih (even_step h hf)
      exact ⟨fun ha => heven ha.2, fun hnot => hlost fun hrest => hnot ⟨hf, hrest⟩⟩

/-- At most two messages are sent for each request. -/
theorem run_sends (p : Policy) (acts : List Act) :
    total (step p) (sends p) start acts ≤ (acts.map (2 * ·.asks)).sum := by
  have hinv : ∀ (s : Pair) (a : Act), s.IsEven ∨ s.IsLost →
      (s.step p a).IsEven ∨ (s.step p a).IsLost :=
    fun s a => even_or_lost_step
  have hpaid : ∀ (s : Pair) (a : Act), s.IsEven ∨ s.IsLost →
      (s.step p a).work + s.sends p a ≤ s.work + 2 * a.asks :=
    fun s a => work_step
  have h := total_le hinv hpaid (Or.inl start_even) acts
  have hstart : start.work = 0 := rfl
  omega

/-- The far end is not asked for what it has under way to be turned off. -/
def Waits (s : Pair) (a : Act) : Prop := a = .askFar true → s.far ≠ want false false

theorem waits_step (h : s.far ≠ want false true) (hw : Waits s a) :
    (s.step p a).far ≠ want false true := by
  cases a with
  | askNear v => exact h
  | askFar v =>
    rw [step]
    cases hfar : s.far with
    | is w =>
      simp only [ask]
      split <;> simp
    | want w op =>
      cases w with
      | true => simp [ask]
      | false =>
        cases v with
        | false => simp [ask]
        | true =>
          cases op with
          | false => exact absurd hfar (hw rfl)
          | true => exact absurd hfar h
  | toFar =>
    unfold step
    cases hq : s.toFar with
    | nil => exact h
    | cons v rest => exact receive_opposite h
  | toNear =>
    unfold step
    cases hq : s.toNear with
    | nil => exact h
    | cons v rest => exact h

/-- Where no end is asked for what it turns off, no request is forgotten. -/
theorem run_waits (h : s.IsEven) (hfar : s.far ≠ want false true) {acts : List Act}
    (hw : Admitted (step p) Waits s acts) :
    (acts.foldl (step p) s).IsEven ∧ (acts.foldl (step p) s).far ≠ want false true := by
  induction acts generalizing s with
  | nil => exact ⟨h, hfar⟩
  | cons a acts ih =>
    obtain ⟨ha, hrest⟩ := hw
    refine ih (even_step h ?_) (waits_step hfar ha) hrest
    intro hf
    cases a with
    | toFar =>
      obtain ⟨v, -, hl⟩ := hf
      exact hfar hl.2.1
    | _ => exact hf

end Pair

/-- Messages one after the other. -/
def receiveAll (grants resends : Bool) : Want → List Bool → Want × List Bool
  | w, [] => (w, [])
  | w, v :: rest =>
    let r := receive grants resends w v
    ((receiveAll grants resends r.1 rest).1, r.2 ++ (receiveAll grants resends r.1 rest).2)

namespace Pair

theorem run_toFar {vs rest : List Bool} (h : s.toFar = vs ++ rest) :
    let r := receiveAll p.farGrants p.farResends s.far vs
    (List.replicate vs.length Act.toFar).foldl (step p) s =
        { s with far := r.1, toFar := rest, toNear := s.toNear ++ r.2 } ∧
      total (step p) (sends p) s (List.replicate vs.length Act.toFar) = r.2.length := by
  induction vs generalizing s with
  | nil =>
    simp only [List.nil_append] at h
    simp [receiveAll, total, ← h]
  | cons v vs ih =>
    have hq : s.toFar = v :: (vs ++ rest) := h
    have hnext : (s.step p .toFar).toFar = vs ++ rest := by simp [step, hq]
    obtain ⟨hend, htotal⟩ := ih hnext
    simp only [List.length_cons, List.replicate_succ, List.foldl_cons, total, hend, htotal]
    simp [step, hq, receiveAll, sends]

theorem run_toNear {vs rest : List Bool} (h : s.toNear = vs ++ rest) :
    let r := receiveAll p.nearGrants true s.near vs
    (List.replicate vs.length Act.toNear).foldl (step p) s =
        { s with near := r.1, toNear := rest, toFar := s.toFar ++ r.2 } ∧
      total (step p) (sends p) s (List.replicate vs.length Act.toNear) = r.2.length := by
  induction vs generalizing s with
  | nil =>
    simp only [List.nil_append] at h
    simp [receiveAll, total, ← h]
  | cons v vs ih =>
    have hq : s.toNear = v :: (vs ++ rest) := h
    have hnext : (s.step p .toNear).toNear = vs ++ rest := by simp [step, hq]
    obtain ⟨hend, htotal⟩ := ih hnext
    simp only [List.length_cons, List.replicate_succ, List.foldl_cons, total, hend, htotal]
    simp [step, hq, receiveAll, sends]

end Pair
end Catchb.Lib.Negotiation
