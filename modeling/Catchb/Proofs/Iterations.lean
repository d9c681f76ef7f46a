import Catchb.Lib.Traverse
import Catchb.Proofs.Sequence

/-! Two threads that iterate over one list. -/

namespace Catchb.Proofs.Iterations
open Lib Linked Traverse Sequence

variable {δ κ : Type} {l : IterList δ κ} {ps : List Ptr} {xs : List δ} {n : Nat}

/-- A loop over the list ends with the first call that does not return an element. -/
def iterator : Cursor (IterList δ κ) δ where
  start := IterList.iteratorStart
  next l :=
    match l.iteratorNext with
    | ((.ok, pElement), l) => (pElement, l)
    | (_, l) => (none, l)

/-- Both threads before their first call. -/
def begin (l : IterList δ κ) : Pair (IterList δ κ) δ := ⟨l, fun _ => .ready⟩

/-- Each thread has visited every element once. -/
def Independent (xs : List δ) (s : Pair (IterList δ κ) δ) : Prop :=
  ∀ t, Complete xs (s.visit t)

/-- The iterator is behind the first `n` elements. -/
structure Behind (ps : List Ptr) (xs : List δ) (l : IterList δ κ) (n : Nat) : Prop where
  holds : Holds l.toFtmList ps xs
  flag : l.bIterator = true
  le : n ≤ ps.length
  place : l.pIter = (ps.take n).getLastD l.xHead

theorem start_behind (h : Holds l.toFtmList ps xs) : Behind ps xs l.iteratorStart 0 :=
  ⟨⟨h.ring, h.data, h.live, h.count⟩, rfl, Nat.zero_le _, rfl⟩

theorem Behind.pNext (h : Behind ps xs l n) : l.pNext l.pIter = (ps.drop n).headD l.xHead := by
  have hring : Ring l.pNext l.pPrev l.xHead (ps.take n ++ ps.drop n) := by
    rw [List.take_append_drop]
    exact h.holds.ring
  rw [h.place]
  exact hring.next_last

theorem Behind.step (h : Behind ps xs l n) {p : Ptr} (hp : ps[n]? = some p) :
    Behind ps xs { l with pIter := p } (n + 1) := by
  refine ⟨⟨h.holds.ring, h.holds.data, h.holds.live, h.holds.count⟩, h.flag,
    (List.getElem?_eq_some_iff.mp hp).1, ?_⟩
  simp [List.take_add_one, hp]

/-- There is an element behind the iterator, and a call returns it. -/
theorem Behind.next_some (h : Behind ps xs l n) {x : δ} (hx : xs[n]? = some x) :
    ∃ l', l.iteratorNext = ((.ok, some x), l') ∧ Behind ps xs l' (n + 1) := by
  have hdata : (ps[n]?).map l.pData = (xs[n]?).map some := by
    rw [← List.getElem?_map, ← List.getElem?_map, h.holds.data]
  cases hp : ps[n]? with
  | none => simp [hp, hx] at hdata
  | some p =>
    have hmem : p ∈ ps := List.mem_of_getElem? hp
    have hhead : p ≠ l.xHead := fun he =>
      (List.nodup_cons.mp h.holds.ring.distinct).1 (he ▸ hmem)
    have hpNext : l.pNext l.pIter = p := by
      rw [h.pNext, List.headD_eq_head?_getD, List.head?_drop, hp, Option.getD_some]
    have hpx : l.pData p = some x := by simpa [hp, hx] using hdata
    refine ⟨{ l with pIter := p }, ?_, h.step hp⟩
    simp [IterList.iteratorNext, h.flag, hpNext, hhead, hpx]

/-- There is none, and a call leaves the iterator where it was before the first one. -/
theorem Behind.next_none (h : Behind ps xs l n) (hx : xs[n]? = none) :
    ∃ l', l.iteratorNext = ((.objectNotFound, none), l') ∧ Behind ps xs l' 0 := by
  have hp : ps[n]? = none := by
    rw [List.getElem?_eq_none_iff] at hx ⊢
    rwa [h.holds.length]
  have hpNext : l.pNext l.pIter = l.xHead := by
    rw [h.pNext, List.headD_eq_head?_getD, List.head?_drop, hp, Option.getD_none]
  refine ⟨{ l with pIter := l.xHead }, ?_, ⟨h.holds.ring, h.holds.data, h.holds.live,
    h.holds.count⟩, h.flag, Nat.zero_le _, rfl⟩
  simp [IterList.iteratorNext, h.flag, hpNext]

/-- One call returns what is behind the iterator, like a cursor on the sequence. -/
theorem next_behind (h : Behind ps xs l n) :
    (iterator.next l).1 = ((ring xs).next n).1 ∧
      Behind ps xs (iterator.next l).2 ((ring xs).next n).2 := by
  cases hx : xs[n]? with
  | some x =>
    obtain ⟨l', hcall, hbehind⟩ := h.next_some hx
    simp only [iterator, ring, hcall, hx]
    exact ⟨trivial, hbehind⟩
  | none =>
    obtain ⟨l', hcall, hbehind⟩ := h.next_none hx
    simp only [iterator, ring, hcall, hx]
    exact ⟨trivial, hbehind⟩

/-- Each of two threads that iterate over one list visits every element once exactly if the
calls of each, from the first that returns an element to the last one, have none of the other's
calls between them. -/
theorem independent_iff (h : Holds l.toFtmList ps xs) (ts : List Bool)
    (hover : Over (ts.foldl iterator.move (begin l))) :
    Independent xs (ts.foldl iterator.move (begin l)) ↔
      Admitted iterator.move Apart (begin l) ts := by
  have hstart : Alike (fun l _ => Holds l.toFtmList ps xs) (Behind ps xs) (begin l)
      ⟨0, fun _ => .ready⟩ := ⟨rfl, h, .inl fun _ => rfl⟩
  obtain ⟨hvisit, hadmitted⟩ := hstart.run
    (fun _ _ hb => hb.holds) (fun _ _ => start_behind) (fun _ _ => next_behind) ts
  rw [Over, hvisit] at hover
  rw [Independent, hvisit, hadmitted]
  refine complete_iff ⟨?_, ?_, fun _ _ => rfl⟩ (Nat.zero_le _) hover <;> simp

/-- Two elements at 8 and 16, with the head at 100. -/
def twoItems : IterList Int Int where
  ulCount := 2
  xHead := 100
  entries := fun p =>
    if p = 100 then ⟨16, 8, none⟩ else if p = 8 then ⟨100, 16, some 5⟩ else ⟨8, 100, some 7⟩
  allocated := [8, 16]
  pIter := 0
  fSeeker := none
  fComparator := none
  bIterator := false

theorem twoItems_hold : Holds twoItems.toFtmList [8, 16] [5, 7] where
  ring := ⟨⟨rfl, rfl, rfl⟩, ⟨rfl, rfl, rfl⟩, by decide⟩
  data := rfl
  live := fun _ hp => hp
  count := rfl

/-- One thread after the other. -/
def inTurn : List Bool := [true, true, true, true, false, false, false, false]

theorem turns_independent :
    Independent [5, 7] (inTurn.foldl iterator.move (begin twoItems)) :=
  (independent_iff twoItems_hold inTurn
    (fun t => ⟨[5, 7], by cases t <;> rfl⟩)).mpr (by decide)

/-- The second thread begins when the first has had one element, and goes first from there. -/
def crossed : List Bool := [true, true, false, false, false, false, true, true, true]

/-- The first thread meets the first element twice. -/
theorem element_met_twice :
    ¬ Independent [5, 7] (crossed.foldl iterator.move (begin twoItems)) := by
  intro h
  exact absurd (h true).length_eq (by decide)

end Catchb.Proofs.Iterations
