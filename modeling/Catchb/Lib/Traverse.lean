import Catchb.Lib.Run
import Mathlib.Data.List.Perm.Basic
import Mathlib.Data.Bool.Basic
import Mathlib.Logic.Function.Basic

/-! Two traversals that share one cursor. -/

namespace Catchb.Lib.Traverse
variable {σ τ α : Type*}

/-- An iterator, by its operations on the state it lives in. -/
structure Cursor (σ α : Type*) where
  start : σ → σ
  next : σ → Option α × σ

/-- How far one traversal has come. -/
inductive Visit (α : Type*)
  | ready
  | going (seen : List α)
  | ended (seen : List α)
  deriving DecidableEq

def Visit.isOver : Visit α → Bool
  | .ended _ => true
  | _ => false

/-- What a traversal that is under way has met. -/
def Visit.pending : Visit α → List α
  | .going seen => seen
  | _ => []

theorem Visit.pending_eq_nil {v : Visit α} :
    v.pending = [] ↔ ∀ seen, v = .going seen → seen = [] := by
  cases v <;> simp [pending]

structure Pair (σ α : Type*) where
  shared : σ
  visit : Bool → Visit α

/-- One operation of traversal `t`. A traversal that has ended does nothing more. -/
def Cursor.move (k : Cursor σ α) (s : Pair σ α) (t : Bool) : Pair σ α :=
  match s.visit t with
  | .ready => ⟨k.start s.shared, Function.update s.visit t (.going [])⟩
  | .going seen =>
    match k.next s.shared with
    | (some x, shared) => ⟨shared, Function.update s.visit t (.going (seen ++ [x]))⟩
    | (none, shared) => ⟨shared, Function.update s.visit t (.ended seen)⟩
  | .ended _ => s

/-- Nothing is taken between another traversal's first element and its end. -/
def Apart (s : Pair σ α) (t : Bool) : Prop :=
  (s.visit t).isOver = true ∨ (s.visit (!t)).pending = []

instance (s : Pair σ α) (t : Bool) : Decidable (Apart s t) :=
  inferInstanceAs (Decidable (_ ∨ _))

/-- The traversal has ended and has met each element once. -/
def Complete (xs : List α) : Visit α → Prop
  | .ended seen => seen.Perm xs
  | _ => False

def Over (s : Pair σ α) : Prop := ∀ t, ∃ seen, s.visit t = .ended seen

/-- Behind the last element the cursor is where it was before the first one. -/
def ring (xs : List α) : Cursor Nat α where
  start _ := 0
  next n :=
    match xs[n]? with
    | some x => (some x, n + 1)
    | none => (none, 0)

section Ring
variable {xs : List α} {s : Pair Nat α} {t : Bool} {seen : List α}

theorem other_ne (t : Bool) : (!t) ≠ t := by cases t <;> decide

theorem move_ready (h : s.visit t = .ready) :
    (ring xs).move s t = ⟨0, Function.update s.visit t (.going [])⟩ := by
  simp [Cursor.move, h, ring]

theorem move_next {x : α} (h : s.visit t = .going seen) (hx : xs[s.shared]? = some x) :
    (ring xs).move s t = ⟨s.shared + 1, Function.update s.visit t (.going (seen ++ [x]))⟩ := by
  simp [Cursor.move, h, ring, hx]

theorem move_end (h : s.visit t = .going seen) (hx : xs[s.shared]? = none) :
    (ring xs).move s t = ⟨0, Function.update s.visit t (.ended seen)⟩ := by
  simp [Cursor.move, h, ring, hx]

theorem move_ended {k : Cursor σ α} {s : Pair σ α} (h : s.visit t = .ended seen) :
    k.move s t = s := by
  simp [Cursor.move, h]

/-- What has ended has met the whole list; what is under way is alone and has met what is
before the cursor. -/
structure Orderly (xs : List α) (s : Pair Nat α) : Prop where
  whole : ∀ t seen, s.visit t = .ended seen → seen = xs
  alone : ∀ t seen, s.visit t = .going seen → seen ≠ [] →
    seen = xs.take s.shared ∧ ∀ rest, s.visit (!t) = .going rest → rest = []
  fresh : (∀ t seen, s.visit t = .going seen → seen = []) →
    (∃ t seen, s.visit t = .going seen) → s.shared = 0

theorem update_other {f : Bool → Visit α} {v : Visit α} :
    Function.update f t v (!t) = f (!t) := Function.update_of_ne (other_ne t) v f

/-- A traversal whose turn it is has met what is before the cursor. -/
theorem Orderly.met (h : Orderly xs s) (ht : s.visit t = .going seen)
    (hother : ∀ rest, s.visit (!t) = .going rest → rest = []) : seen = xs.take s.shared := by
  by_cases hne : seen = []
  · have hall : ∀ u rest, s.visit u = .going rest → rest = [] := by
      rw [Bool.forall_bool' t]
      refine ⟨?_, hother⟩
      intro rest hrest
      rw [ht] at hrest
      cases hrest
      exact hne
    rw [hne, h.fresh hall ⟨t, seen, ht⟩, List.take_zero]
  · exact (h.alone t seen ht hne).1

theorem Apart.other (h : Apart s t) (ht : (s.visit t).isOver = false) :
    ∀ rest, s.visit (!t) = .going rest → rest = [] :=
  Visit.pending_eq_nil.mp (h.resolve_left (by simp [ht]))

/-- A traversal starts while the other one has met nothing. -/
theorem Orderly.start (h : Orderly xs s)
    (hother : ∀ rest, s.visit (!t) = .going rest → rest = []) :
    Orderly xs ⟨0, Function.update s.visit t (.going [])⟩ := by
  have hnone : ∀ u seen, Function.update s.visit t (.going []) u = .going seen → seen = [] := by
    rw [Bool.forall_bool' t]
    simp only [Function.update_self, update_other]
    exact ⟨fun _ hv => (Visit.going.inj hv).symm, hother⟩
  refine ⟨?_, fun u seen hu hne => absurd (hnone u seen hu) hne, fun _ _ => rfl⟩
  rw [Bool.forall_bool' t]
  simp only [Function.update_self, update_other]
  exact ⟨fun _ hv => (by cases hv), h.whole (!t)⟩

theorem Orderly.take {x : α} (h : Orderly xs s) (ht : s.visit t = .going seen)
    (hother : ∀ rest, s.visit (!t) = .going rest → rest = []) (hx : xs[s.shared]? = some x) :
    Orderly xs ⟨s.shared + 1, Function.update s.visit t (.going (seen ++ [x]))⟩ := by
  have hmet : seen ++ [x] = xs.take (s.shared + 1) := by
    rw [h.met ht hother, List.take_add_one, hx, Option.toList_some]
  have hsome : seen ++ [x] ≠ [] := by simp
  refine ⟨?_, ?_, fun hall _ => absurd (hall t _ (Function.update_self ..)) hsome⟩
  · rw [Bool.forall_bool' t]
    simp only [Function.update_self, update_other]
    exact ⟨fun _ hv => (by cases hv), h.whole (!t)⟩
  · rw [Bool.forall_bool' t]
    simp only [Function.update_self, update_other]
    refine ⟨fun rest hv _ => ?_, fun rest hv hne => absurd (hother rest hv) hne⟩
    rw [← Visit.going.inj hv]
    exact ⟨hmet, hother⟩

theorem Orderly.finish (h : Orderly xs s) (ht : s.visit t = .going seen)
    (hother : ∀ rest, s.visit (!t) = .going rest → rest = []) (hx : xs[s.shared]? = none) :
    Orderly xs ⟨0, Function.update s.visit t (.ended seen)⟩ := by
  have hwhole : seen = xs := by
    rw [h.met ht hother, List.take_of_length_le (List.getElem?_eq_none_iff.mp hx)]
  refine ⟨?_, ?_, fun _ _ => rfl⟩
  · rw [Bool.forall_bool' t]
    simp only [Function.update_self, update_other]
    exact ⟨fun rest hv => (Visit.ended.inj hv).symm.trans hwhole, h.whole (!t)⟩
  · rw [Bool.forall_bool' t]
    simp only [Function.update_self, update_other]
    exact ⟨fun _ hv => (by cases hv), fun rest hv hne => absurd (hother rest hv) hne⟩

theorem Orderly.move (h : Orderly xs s) (ha : Apart s t) : Orderly xs ((ring xs).move s t) := by
  cases ht : s.visit t with
  | ended seen => rwa [move_ended ht]
  | ready =>
    rw [move_ready ht]
    exact h.start (ha.other (by rw [ht]; rfl))
  | going seen =>
    have hother := ha.other (by rw [ht]; rfl)
    cases hx : xs[s.shared]? with
    | some x =>
      rw [move_next ht hx]
      exact h.take ht hother hx
    | none =>
      rw [move_end ht hx]
      exact h.finish ht hother hx

theorem move_le (hs : s.shared ≤ xs.length) : ((ring xs).move s t).shared ≤ xs.length := by
  cases ht : s.visit t with
  | ended seen => rwa [move_ended ht]
  | ready => simp [move_ready ht]
  | going seen =>
    cases hx : xs[s.shared]? with
    | some x =>
      rw [move_next ht hx]
      exact (List.getElem?_eq_some_iff.mp hx).1
    | none => simp [move_end ht hx]

/-- What every run that ends with both traversals complete keeps to: no element is met in
vain. -/
structure Fair (n : Nat) (s : Pair Nat α) : Prop where
  whole : ∀ t seen, s.visit t = .ended seen → seen.length = n
  last : ∀ t seen rest, s.visit t = .ended seen → s.visit (!t) = .going rest →
    rest.length = s.shared
  both : ∀ t seen rest, s.visit t = .going seen → s.visit (!t) = .going rest →
    seen.length + rest.length = s.shared ∧ (seen = [] ∨ rest = [])

/-- The same, said of one traversal and the other. -/
theorem fair_of {n : Nat} (t : Bool) (hw : ∀ seen, s.visit t = .ended seen → seen.length = n)
    (hw' : ∀ seen, s.visit (!t) = .ended seen → seen.length = n)
    (hl : ∀ seen rest, s.visit t = .ended seen → s.visit (!t) = .going rest →
      rest.length = s.shared)
    (hl' : ∀ seen rest, s.visit (!t) = .ended seen → s.visit t = .going rest →
      rest.length = s.shared)
    (hb : ∀ seen rest, s.visit t = .going seen → s.visit (!t) = .going rest →
      seen.length + rest.length = s.shared ∧ (seen = [] ∨ rest = [])) : Fair n s := by
  refine ⟨?_, ?_, ?_⟩ <;> rw [Bool.forall_bool' t]
  · exact ⟨hw, hw'⟩
  · rw [Bool.not_not]
    exact ⟨hl, hl'⟩
  · rw [Bool.not_not]
    refine ⟨hb, fun seen rest hs hr => ?_⟩
    obtain ⟨hsum, hnil⟩ := hb rest seen hr hs
    exact ⟨by omega, hnil.symm⟩

/-- Only operations apart from each other lead to where nothing is met in vain, and only from
there. -/
theorem Fair.back (hs : s.shared ≤ xs.length) (h : Fair xs.length ((ring xs).move s t)) :
    Apart s t ∧ Fair xs.length s := by
  cases ht : s.visit t with
  | ended seen =>
    rw [move_ended ht] at h
    exact ⟨.inl (by rw [ht]; rfl), h⟩
  | ready =>
    rw [move_ready ht] at h
    have hb := h.both t
    have hw := h.whole (!t)
    simp only [Function.update_self, update_other] at hb hw
    refine ⟨.inr (Visit.pending_eq_nil.mpr fun rest hr => ?_), fair_of t ?_ hw ?_ ?_ ?_⟩
    · have hsum := (hb [] rest rfl hr).1
      exact List.length_eq_zero_iff.mp (by omega)
    all_goals simp [ht]
  | going seen =>
    cases hx : xs[s.shared]? with
    | some x =>
      rw [move_next ht hx] at h
      have hb := h.both t
      have hw := h.whole (!t)
      have hl := h.last (!t)
      simp only [Function.update_self, update_other, Bool.not_not] at hb hw hl
      have hnone : ∀ rest, s.visit (!t) = .going rest → seen.length = s.shared ∧ rest = [] := by
        intro rest hr
        obtain ⟨hsum, hnil⟩ := hb _ rest rfl hr
        have hrest : rest = [] := hnil.resolve_left (by simp)
        rw [hrest, List.length_append, List.length_singleton, List.length_nil] at hsum
        exact ⟨by omega, hrest⟩
      refine ⟨.inr (Visit.pending_eq_nil.mpr fun rest hr => (hnone rest hr).2),
        fair_of t (by simp [ht]) hw (by simp [ht]) ?_ ?_⟩
      · intro done rest hd hr
        rw [ht] at hr
        cases hr
        have hlen := hl done _ hd rfl
        rw [List.length_append, List.length_singleton] at hlen
        omega
      · intro rest rest' hr hr'
        rw [ht] at hr
        cases hr
        obtain ⟨hlen, rfl⟩ := hnone rest' hr'
        exact ⟨hlen, .inr rfl⟩
    | none =>
      have hpos : s.shared = xs.length := Nat.le_antisymm hs (List.getElem?_eq_none_iff.mp hx)
      rw [move_end ht hx] at h
      have hw := h.whole t seen
      have hw' := h.whole (!t)
      have hl := h.last t seen
      simp only [Function.update_self, update_other] at hw hw' hl
      have hseen : seen.length = s.shared := (hw trivial).trans hpos.symm
      have hnone : ∀ rest, s.visit (!t) = .going rest → rest = [] := fun rest hr =>
        List.length_eq_zero_iff.mp (hl rest trivial hr)
      refine ⟨.inr (Visit.pending_eq_nil.mpr hnone), fair_of t (by simp [ht]) hw' (by simp [ht]) ?_ ?_⟩
      · intro done rest hd hr
        rw [ht] at hr
        cases hr
        exact hseen
      · intro rest rest' hr hr'
        rw [ht] at hr
        cases hr
        rw [hnone rest' hr']
        exact ⟨hseen, .inr rfl⟩

theorem orderly_run {ts : List Bool} (h : Orderly xs s)
    (ha : Admitted (ring xs).move Apart s ts) : Orderly xs (ts.foldl (ring xs).move s) := by
  induction ts generalizing s with
  | nil => exact h
  | cons t ts ih => exact ih (h.move ha.1) ha.2

theorem fair_run {ts : List Bool} (hs : s.shared ≤ xs.length)
    (h : Fair xs.length (ts.foldl (ring xs).move s)) :
    Fair xs.length s ∧ Admitted (ring xs).move Apart s ts := by
  induction ts generalizing s with
  | nil => exact ⟨h, trivial⟩
  | cons t ts ih =>
    obtain ⟨hnext, hrest⟩ := ih (move_le hs) h
    obtain ⟨ha, hfair⟩ := hnext.back hs
    exact ⟨hfair, ha, hrest⟩

/-- When both traversals have ended, they are complete exactly if all their operations were
apart. -/
theorem complete_iff {ts : List Bool} (h : Orderly xs s) (hs : s.shared ≤ xs.length)
    (hover : Over (ts.foldl (ring xs).move s)) :
    (∀ t, Complete xs ((ts.foldl (ring xs).move s).visit t)) ↔
      Admitted (ring xs).move Apart s ts := by
  constructor
  · intro hc
    have hlen : ∀ t seen, (ts.foldl (ring xs).move s).visit t = .ended seen →
        seen.length = xs.length := by
      intro t seen ht
      have hperm := hc t
      rw [ht] at hperm
      exact hperm.length_eq
    have hgoing : ∀ t seen, (ts.foldl (ring xs).move s).visit t ≠ .going seen := by
      intro t seen ht
      obtain ⟨done, hd⟩ := hover t
      rw [ht] at hd
      cases hd
    refine (fair_run hs ⟨hlen, ?_, ?_⟩).2
    · intro t seen rest _ hr
      exact absurd hr (hgoing _ _)
    · intro t seen rest hr
      exact absurd hr (hgoing _ _)
  · intro ha t
    obtain ⟨seen, ht⟩ := hover t
    rw [ht, (orderly_run h ha).whole t seen ht]
    exact List.Perm.refl xs

end Ring

/-! A cursor that yields like another one is shared like it. -/

section Simulation
variable {k : Cursor σ α} {k' : Cursor τ α} {r₀ r : σ → τ → Prop} {s : Pair σ α} {s' : Pair τ α}

/-- Once a traversal has started, more is known of the cursors. -/
structure Alike (r₀ r : σ → τ → Prop) (s : Pair σ α) (s' : Pair τ α) : Prop where
  visit : s.visit = s'.visit
  shared : r₀ s.shared s'.shared
  started : (∀ t, s.visit t = .ready) ∨ r s.shared s'.shared

theorem Alike.move (hweak : ∀ a b, r a b → r₀ a b)
    (hstart : ∀ a b, r₀ a b → r (k.start a) (k'.start b))
    (hnext : ∀ a b, r a b → (k.next a).1 = (k'.next b).1 ∧ r (k.next a).2 (k'.next b).2)
    (h : Alike r₀ r s s') (t : Bool) : Alike r₀ r (k.move s t) (k'.move s' t) := by
  obtain ⟨hv, h₀, hr⟩ := h
  have ht' : s'.visit t = s.visit t := (congrFun hv t).symm
  cases ht : s.visit t with
  | ready =>
    have hrel := hstart _ _ h₀
    simp only [Cursor.move, ht, ht']
    exact ⟨by rw [hv], hweak _ _ hrel, .inr hrel⟩
  | ended seen =>
    simp only [Cursor.move, ht, ht']
    exact ⟨hv, h₀, hr⟩
  | going seen =>
    have hrel : r s.shared s'.shared := hr.resolve_left (fun hall => by simp [hall t] at ht)
    obtain ⟨hsame, hrel'⟩ := hnext _ _ hrel
    simp only [Cursor.move, ht, ht']
    rcases hk : k.next s.shared with ⟨x, a⟩
    rcases hk' : k'.next s'.shared with ⟨x', b⟩
    rw [hk, hk'] at hsame hrel'
    obtain rfl : x = x' := hsame
    cases x <;> exact ⟨by rw [hv], hweak _ _ hrel', .inr hrel'⟩

theorem Alike.run (hweak : ∀ a b, r a b → r₀ a b)
    (hstart : ∀ a b, r₀ a b → r (k.start a) (k'.start b))
    (hnext : ∀ a b, r a b → (k.next a).1 = (k'.next b).1 ∧ r (k.next a).2 (k'.next b).2)
    (h : Alike r₀ r s s') (ts : List Bool) :
    (ts.foldl k.move s).visit = (ts.foldl k'.move s').visit ∧
      (Admitted k.move Apart s ts ↔ Admitted k'.move Apart s' ts) := by
  induction ts generalizing s s' with
  | nil => exact ⟨h.visit, Iff.rfl⟩
  | cons t ts ih =>
    obtain ⟨hv, hrest⟩ := ih (h.move hweak hstart hnext t)
    refine ⟨hv, and_congr ?_ hrest⟩
    rw [Apart, Apart, h.visit]

end Simulation
end Catchb.Lib.Traverse
