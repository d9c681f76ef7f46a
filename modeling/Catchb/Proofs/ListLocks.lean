import Catchb.ListLock
import Catchb.Proofs.Sequence

/-! Which operations give the list's semaphore back. -/

namespace Catchb.Proofs.ListLocks
open Lib Sequence FtmList

variable {δ κ : Type} {l : FtmList δ κ} {ps : List Ptr} {xs : List δ}

/-- The position is one of the enumeration, and a comparator is set if it is an ordered one. -/
def Placeable (l : FtmList δ κ) : ListCall δ κ → Prop
  | .insert _ xPos _ => xPos = .front ∨ xPos = .rear ∨
      (xPos = .assending ∨ xPos = .desending) ∧ l.fComparator.isSome
  | _ => True

/-- The loop along a ring ends. -/
theorem scan_ends (h : Holds l ps xs) (stop : Option δ → Bool) :
    ∃ p, l.scan stop fuel (l.pNext l.xHead) = some p := by
  obtain ⟨us, vs, hscan, -⟩ := h.scan stop
  exact ⟨_, hscan⟩

theorem pPrevOf_ok (h : Holds l ps xs) (pItem : δ) {xPos : ListPos} (answer : Ptr)
    (hplace : Placeable l (.insert pItem xPos answer)) :
    ∃ p, l.pPrevOf pItem xPos = .ok (some p) := by
  rcases hplace with rfl | rfl | ⟨rfl | rfl, hcmp⟩
  · exact ⟨_, rfl⟩
  · exact ⟨_, rfl⟩
  · obtain ⟨cmp, hc⟩ := Option.isSome_iff_exists.mp hcmp
    obtain ⟨p, hp⟩ := scan_ends h (fun d => d.any (fun e => cmp e pItem > 0))
    exact ⟨l.pPrev p, by rw [pPrevOf, hc]; simp only [hp, Option.map_some]⟩
  · obtain ⟨cmp, hc⟩ := Option.isSome_iff_exists.mp hcmp
    obtain ⟨p, hp⟩ := scan_ends h (fun d => d.any (fun e => cmp e pItem < 0))
    exact ⟨l.pPrev p, by rw [pPrevOf, hc]; simp only [hp, Option.map_some]⟩

theorem pPrevOf_error {pItem : δ} {xPos : ListPos} {answer : Ptr}
    (hplace : ¬ Placeable l (.insert pItem xPos answer)) :
    ∃ xRet, l.pPrevOf pItem xPos = .error xRet := by
  cases xPos with
  | front => exact absurd (.inl rfl) hplace
  | rear => exact absurd (.inr (.inl rfl)) hplace
  | unknown => exact ⟨_, rfl⟩
  | assending =>
    cases hc : l.fComparator with
    | none => exact ⟨.listNotInsertable, by rw [pPrevOf, hc]⟩
    | some cmp => exact absurd (.inr (.inr ⟨.inl rfl, by rw [hc, Option.isSome_some]⟩)) hplace
  | desending =>
    cases hc : l.fComparator with
    | none => exact ⟨.listNotInsertable, by rw [pPrevOf, hc]⟩
    | some cmp => exact absurd (.inr (.inr ⟨.inr rfl, by rw [hc, Option.isSome_some]⟩)) hplace

/-- The operation returns, and has taken the semaphore once and given it back once. -/
def ReleasedOnce [DecidableEq δ] (l : IterList δ κ) (op : ListCall δ κ) : Prop :=
  ∃ r, l.call op = some r ∧ r.sem = [.wait, .post]

section Calls
variable [DecidableEq δ] {l : IterList δ κ}

theorem insert_released (h : Holds l.toFtmList ps xs) (pItem : δ) (xPos : ListPos) (answer : Ptr) :
    ReleasedOnce l (.insert pItem xPos answer) ↔
      Placeable l.toFtmList (.insert pItem xPos answer) := by
  constructor
  · intro hreleased
    by_contra hplace
    obtain ⟨xRet, herror⟩ := pPrevOf_error hplace
    obtain ⟨r, hr, hsem⟩ := hreleased
    simp only [IterList.call, herror, Option.some.injEq] at hr
    rw [← hr] at hsem
    cases hsem
  · intro hplace
    obtain ⟨p, hp⟩ := pPrevOf_ok h pItem answer hplace
    refine ⟨l.finish none (l.insertBehind p pItem answer), ?_, rfl⟩
    simp only [IterList.call, hp, Option.map_some]

omit [DecidableEq δ] in
theorem seek_returns (h : Holds l.toFtmList ps xs) (pKey : κ) : (l.seek pKey).isSome := by
  unfold IterList.seek
  cases hs : l.fSeeker with
  | none => rfl
  | some seek =>
    obtain ⟨p, hscan⟩ := scan_ends h (fun d => d.any (fun e => seek e pKey))
    simp only [hscan, Option.map_some, Option.isSome_some]

omit [DecidableEq δ] in
theorem get_returns (h : Holds l.toFtmList ps xs) (pKey : κ) : (l.get pKey).isSome := by
  unfold FtmList.get
  cases hs : l.fSeeker with
  | none => rfl
  | some seek =>
    obtain ⟨p, hscan⟩ := scan_ends h (fun d => d.any (fun e => seek e pKey))
    simp only [hscan, Option.map_some, Option.isSome_some]

omit [DecidableEq δ] in
theorem getAt_returns (h : Holds l.toFtmList ps xs) (i : UInt32) : (l.getAt i).isSome := by
  have hget := getAt_eq i h
  cases hr : l.getAt i with
  | none => rw [hr] at hget; cases hget
  | some r => rfl

theorem remove_returns (h : Holds l.toFtmList ps xs) (pItem : δ) : (l.remove pItem).isSome := by
  have hremove := remove_yields pItem h
  split at hremove
  all_goals
    obtain ⟨l', qs, hl', -⟩ := hremove
    rw [hl', Option.isSome_some]

omit [DecidableEq δ] in
theorem removeAt_returns (h : Holds l.toFtmList ps xs) (i : UInt32) : (l.removeAt i).isSome := by
  have hremove := removeAt_yields i h
  split at hremove
  all_goals
    obtain ⟨l', qs, hl', -⟩ := hremove
    rw [hl', Option.isSome_some]

omit [DecidableEq δ] in
/-- What goes on to the end of its operation gives the semaphore back. -/
theorem finish_released {α : Type} {result : Option α} {f : α → Returned δ κ}
    (hr : result.isSome) (hf : ∀ a, (f a).sem = [.wait, .post]) :
    ∃ r, result.map f = some r ∧ r.sem = [.wait, .post] := by
  obtain ⟨a, rfl⟩ := Option.isSome_iff_exists.mp hr
  exact ⟨f a, rfl, hf a⟩

/-- Every operation gives the semaphore back once, an insertion exactly if its position is known
and, where it is an ordered one, there is a comparator. -/
theorem released_iff (h : Holds l.toFtmList ps xs) (op : ListCall δ κ) :
    ReleasedOnce l op ↔ Placeable l.toFtmList op := by
  cases op with
  | insert pItem xPos answer => exact insert_released h pItem xPos answer
  | append pItem answer => exact iff_of_true ⟨_, rfl, rfl⟩ trivial
  | iteratorStart => exact iff_of_true ⟨_, rfl, rfl⟩ trivial
  | iteratorNext => exact iff_of_true ⟨_, rfl, rfl⟩ trivial
  | seek pKey => exact iff_of_true (finish_released (seek_returns h pKey) fun _ => rfl) trivial
  | get pKey => exact iff_of_true (finish_released (get_returns h pKey) fun _ => rfl) trivial
  | getAt i => exact iff_of_true (finish_released (getAt_returns h i) fun _ => rfl) trivial
  | remove pItem =>
    exact iff_of_true (finish_released (remove_returns h pItem) fun _ => rfl) trivial
  | removeAt i => exact iff_of_true (finish_released (removeAt_returns h i) fun _ => rfl) trivial

end Calls

/-- An empty list whose head is at 100, without a comparator. -/
def bare : IterList Nat Nat where
  ulCount := 0
  xHead := 100
  entries := fun _ => ⟨100, 100, none⟩
  allocated := []
  pIter := 0
  fSeeker := none
  fComparator := none
  bIterator := false

theorem bare_holds : Holds bare.toFtmList [] [] where
  ring := ⟨rfl, rfl, List.nodup_singleton 100⟩
  data := rfl
  live := fun _ hp => absurd hp (List.not_mem_nil)
  count := rfl

theorem rear_released : ReleasedOnce bare (.insert 5 .rear 8) :=
  (released_iff bare_holds (.insert 5 .rear 8)).mpr (.inr (.inl rfl))

theorem ordered_not_released : ¬ ReleasedOnce bare (.insert 5 .assending 8) := by
  rintro ⟨r, hr, hsem⟩
  rw [← Option.some.inj hr] at hsem
  exact absurd hsem (by decide)

section Stuck
variable [DecidableEq δ] {l : SharedList δ κ}

theorem call_sem {r : Returned δ κ} {l : IterList δ κ} {op : ListCall δ κ}
    (hr : l.call op = some r) : ∃ calls, r.sem = .wait :: calls := by
  cases op with
  | append pItem answer => cases hr; exact ⟨_, rfl⟩
  | iteratorStart => cases hr; exact ⟨_, rfl⟩
  | iteratorNext => cases hr; exact ⟨_, rfl⟩
  | insert pItem xPos answer =>
    rw [IterList.call] at hr
    split at hr
    · cases hr; exact ⟨_, rfl⟩
    · obtain ⟨p, -, rfl⟩ := Option.map_eq_some_iff.mp hr
      exact ⟨_, rfl⟩
  | _ =>
    obtain ⟨p, -, rfl⟩ := Option.map_eq_some_iff.mp hr
    exact ⟨_, rfl⟩

theorem stuck_call (hlock : l.xLock = 0) (op : ListCall δ κ) : l.call op = none := by
  rw [SharedList.call, hlock]
  cases hr : l.toIterList.call op with
  | none => rfl
  | some r =>
    obtain ⟨calls, hsem⟩ := call_sem hr
    simp only [Option.bind_eq_bind, Option.bind_some, hsem, SemCall.run, Option.bind_none]

theorem stuck_step (hlock : l.xLock = 0) (op : ListCall δ κ) : l.step op = l := by
  rw [SharedList.step, stuck_call hlock]
  rfl

/-- Once the semaphore is not given back, no operation on the list returns any more. -/
theorem stuck_run (hlock : l.xLock = 0) (ops : List (ListCall δ κ)) (op : ListCall δ κ) :
    (ops.foldl SharedList.step l).call op = none := by
  induction ops with
  | nil => exact stuck_call hlock op
  | cons o ops ih => rwa [List.foldl_cons, stuck_step hlock]

end Stuck
end Catchb.Proofs.ListLocks
