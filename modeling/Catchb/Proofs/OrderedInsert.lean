import Catchb.Lib.Ordered
import Catchb.Proofs.Sequence

/-! Insertion at the ordered positions of a list. -/

namespace Catchb.Proofs.OrderedInsert
open Lib Sequence FtmList

variable {δ κ : Type} {l : FtmList δ κ} {ps : List Ptr} {xs : List δ} {cmp : δ → δ → Int}

/-- The comparator's sign tells a total preorder. -/
structure TotalPreorder (cmp : δ → δ → Int) : Prop where
  opposite : ∀ a b, 0 < cmp a b ↔ cmp b a < 0
  trans : ∀ a b c, cmp a b ≤ 0 → cmp b c ≤ 0 → cmp a c ≤ 0

def Ascending (cmp : δ → δ → Int) (a b : δ) : Prop := cmp a b ≤ 0

def Descending (cmp : δ → δ → Int) (a b : δ) : Prop := 0 ≤ cmp a b

/-- With memory for an entry, the new item splits the sequence: it is behind everything that may
stand before it, its equals included, and before everything else. -/
def Inserts (l : FtmList δ κ) (xPos : ListPos) (le : δ → δ → Prop) (xs : List δ) (pItem : δ)
    (answer : Ptr) : Prop :=
  match l.malloc answer with
  | none => l.insert pItem xPos answer = some (.notEnoughMemory, l)
  | some _ => ∃ l' qs us vs, l.insert pItem xPos answer = some (.ok, l') ∧ xs = us ++ vs ∧
      Holds l' qs (us ++ pItem :: vs) ∧ (us ++ pItem :: vs).Pairwise le ∧
      (∀ e ∈ us, le e pItem) ∧ ∀ e ∈ vs, ¬ le e pItem

theorem TotalPreorder.le_iff (h : TotalPreorder cmp) (a b : δ) : 0 ≤ cmp a b ↔ cmp b a ≤ 0 := by
  rw [← Int.not_lt, ← Int.not_lt, h.opposite b a]

theorem TotalPreorder.descending_trans (h : TotalPreorder cmp) (a b c : δ)
    (hab : Descending cmp a b) (hbc : Descending cmp b c) : Descending cmp a c :=
  (h.le_iff a c).mpr (h.trans c b a ((h.le_iff b c).mp hbc) ((h.le_iff a b).mp hab))

/-- The loop that stops at the first element that may not stand before the item. -/
theorem insert_at (stop : δ → Bool) {le : δ → δ → Prop} {xPos : ListPos} {pItem : δ} {answer : Ptr}
    (htrans : ∀ a b c, le a b → le b c → le a c) (hstop : ∀ e, stop e = false ↔ le e pItem)
    (hback : ∀ e, ¬ le e pItem → le pItem e) (h : Holds l ps xs) (hs : xs.Pairwise le)
    (hpos : l.insert pItem xPos answer =
      ((l.scan (fun d => d.any stop) fuel (l.pNext l.xHead)).map l.pPrev).map
        (fun p => l.insertBehind p pItem answer)) :
    Inserts l xPos le xs pItem answer := by
  have hgo : ∀ e, (!stop e) = true ↔ le e pItem := by
    intro e
    rw [Bool.not_eq_true', hstop]
  unfold Inserts
  cases hm : l.malloc answer with
  | none =>
    obtain ⟨us, vs, hscan, -, -, -⟩ := h.scan (fun d => d.any stop)
    rw [hpos, hscan, Option.map_some, Option.map_some, insertBehind, hm]
  | some p =>
    have hsome : (l.malloc answer).isSome := by rw [hm, Option.isSome_some]
    obtain ⟨l', qs, hins, hl', -, -⟩ := ordered_yields h hsome stop
    rw [insertBefore] at hl'
    refine ⟨l', qs, _, _, hpos.trans hins, List.takeWhile_append_dropWhile.symm, hl', ?_, ?_, ?_⟩
    · apply Ordered.pairwise_place htrans hs
      · exact fun e _ he => (hgo e).mp he
      · intro e _ he
        apply hback e
        rw [← hgo, he]
        exact Bool.false_ne_true
    · exact fun e he => (hgo e).mp (List.mem_takeWhile_imp (p := fun e => !stop e) he)
    · exact Ordered.forall_dropWhile htrans hs (fun e _ => hgo e)

/-- Both ordered positions keep a sorted list sorted, and put the new item behind its equals. -/
theorem insert_sorted (hcmp : TotalPreorder cmp) (h : Holds l ps xs)
    (hc : l.fComparator = some cmp) (pItem : δ) (answer : Ptr) :
    (xs.Pairwise (Ascending cmp) → Inserts l .assending (Ascending cmp) xs pItem answer) ∧
      (xs.Pairwise (Descending cmp) →
        Inserts l .desending (Descending cmp) xs pItem answer) := by
  constructor
  · intro hs
    have hstop : ∀ e, decide (cmp e pItem > 0) = false ↔ Ascending cmp e pItem := by
      intro e
      rw [decide_eq_false_iff_not]
      exact Int.not_lt
    refine insert_at (fun e => cmp e pItem > 0) hcmp.trans hstop ?_ h hs ?_
    · intro e he
      exact Int.le_of_lt ((hcmp.opposite e pItem).mp (Int.not_le.mp he))
    · simp only [FtmList.insert, pPrevOf, hc]
  · intro hs
    have hstop : ∀ e, decide (cmp e pItem < 0) = false ↔ Descending cmp e pItem := by
      intro e
      rw [decide_eq_false_iff_not]
      exact Int.not_lt
    refine insert_at (fun e => cmp e pItem < 0) hcmp.descending_trans hstop ?_ h hs ?_
    · intro e he
      exact Int.le_of_lt ((hcmp.opposite pItem e).mpr (Int.not_le.mp he))
    · simp only [FtmList.insert, pPrevOf, hc]

/-- Numbers by their tens, in a list of two at 8 and 16 with its head at 100. -/
def byTens : FtmList Nat Nat where
  ulCount := 2
  xHead := 100
  entries := fun p =>
    if p = 100 then ⟨16, 8, none⟩ else if p = 8 then ⟨100, 16, some 21⟩ else ⟨8, 100, some 30⟩
  allocated := [8, 16]
  pIter := 0
  fSeeker := none
  fComparator := some (fun a b => (a / 10 : Nat) - (b / 10 : Nat))

theorem byTens_holds : Holds byTens [8, 16] [21, 30] where
  ring := ⟨⟨rfl, rfl, rfl⟩, ⟨rfl, rfl, rfl⟩, by decide⟩
  data := rfl
  live := fun _ hp => hp
  count := rfl

theorem byTens_inserts :
    Inserts byTens .assending (Ascending fun a b => (a / 10 : Nat) - (b / 10 : Nat)) [21, 30] 25
      24 := by
  refine (insert_sorted ⟨?_, ?_⟩ byTens_holds rfl 25 24).1 ?_
  · intro a b
    omega
  · intro a b c hab hbc
    omega
  · exact List.pairwise_pair.mpr (by decide : ((21 / 10 : Nat) : Int) - (30 / 10 : Nat) ≤ 0)

end Catchb.Proofs.OrderedInsert
