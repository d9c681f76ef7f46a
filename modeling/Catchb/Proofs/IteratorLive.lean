import Catchb.Lib.Run
import Catchb.Proofs.ListLocks

/-! Where the list's iterator points while the list changes. -/

namespace Catchb.Proofs.IteratorLive
open Lib Linked Sequence ListLocks FtmList

variable {δ κ : Type} {ps qs : List Ptr} {xs : List δ} {p : Ptr}

section Nodes
variable {l : FtmList δ κ} {a : Ptr}

/-- The places that are passed on the way from `p` to the head. -/
def nodesFrom (l : FtmList δ κ) : Nat → Ptr → List Ptr
  | 0, _ => []
  | n + 1, p => if p = l.xHead then [] else p :: nodesFrom l n (l.pNext p)

def nodes (l : FtmList δ κ) : List Ptr := nodesFrom l fuel (l.pNext l.xHead)

theorem nodesFrom_path {n : Nat} (h : Path l.pNext a ps l.xHead) (hhead : l.xHead ∉ ps)
    (hn : ps.length < n) : nodesFrom l n (l.pNext a) = ps := by
  induction ps generalizing a n with
  | nil =>
    cases n with
    | zero => omega
    | succ n =>
      have ha : l.pNext a = l.xHead := h
      rw [nodesFrom, if_pos ha]
  | cons q qs ih =>
    cases n with
    | zero => simp at hn
    | succ n =>
      obtain ⟨ha, hq⟩ := h
      rw [List.mem_cons, not_or] at hhead
      rw [ha, nodesFrom, if_neg (Ne.symm hhead.1), ih hq hhead.2 (Nat.lt_of_succ_lt_succ hn)]

theorem nodes_eq (h : Holds l ps xs) : nodes l = ps :=
  nodesFrom_path h.ring.forward (List.nodup_cons.mp h.ring.distinct).1
    (length_lt_fuel h.ring.distinct)

/-- The places of a list are told by its links. -/
theorem places_unique {ys : List δ} (h : Holds l ps xs) (h' : Holds l qs ys) : ps = qs :=
  (nodes_eq h).symm.trans (nodes_eq h')

end Nodes

/-- An iterator that is started points to the head or to a node of the list. -/
def Live (l : SharedList δ κ) : Prop :=
  l.bIterator = true → l.pIter = l.xHead ∨ l.pIter ∈ nodes l.toFtmList

/-- A node is not removed by its position while the iterator is at it. -/
def Clear (l : SharedList δ κ) : ListCall δ κ → Prop
  | .removeAt ulPosition => l.xLock = 0 ∨ l.bIterator = false ∨
      (nodes l.toFtmList)[ulPosition.toNat]? ≠ some l.pIter
  | _ => True

section Ops
variable {l : IterList δ κ} {r : Returned δ κ}

/-- The list is a ring, and an iterator that is started is in it. -/
def Pointed (l : IterList δ κ) (ps : List Ptr) (xs : List δ) : Prop :=
  Holds l.toFtmList ps xs ∧ (l.bIterator = true → l.pIter ∈ l.xHead :: ps)

/-- New places leave the iterator where it was. -/
theorem Pointed.grow {l' : FtmList δ κ} {ys : List δ} (h : Pointed l ps xs) (hl' : Holds l' qs ys)
    (hsub : ps ⊆ qs) (hhead : l'.xHead = l.xHead) (hiter : l'.pIter = l.pIter) :
    Pointed { l with toFtmList := l' } qs ys := by
  refine ⟨hl', fun hstarted => ?_⟩
  rw [hhead, hiter]
  exact List.cons_subset_cons _ hsub (h.2 hstarted)

theorem append_pointed (h : Pointed l ps xs) (pItem : δ) (answer : Ptr) : ∃ qs ys,
    Pointed { l with toFtmList := (l.append pItem answer).2 } qs ys := by
  cases hm : l.malloc answer with
  | none =>
    refine ⟨ps, xs, ?_⟩
    rw [append, hm]
    exact h
  | some p =>
    have hl' := (append_holds pItem h.1 hm).2
    refine ⟨_, _, h.grow hl' (List.subset_append_left ps [p]) ?_ ?_⟩
    all_goals simp only [append, hm]; rfl

/-- A place for a new entry is behind the first places. -/
theorem pPrevOf_split (h : Holds l.toFtmList ps xs) {pItem : δ} {xPos : ListPos} {q : Ptr}
    (hq : l.pPrevOf pItem xPos = .ok (some q)) : ∃ us vs ys zs,
      ps = us ++ vs ∧ xs = ys ++ zs ∧ us.length = ys.length ∧ q = us.getLastD l.xHead := by
  have hscan : ∀ stop, (l.scan stop fuel (l.pNext l.xHead)).map l.pPrev = some q → ∃ us vs ys zs,
      ps = us ++ vs ∧ xs = ys ++ zs ∧ us.length = ys.length ∧ q = us.getLastD l.xHead := by
    intro stop hstop
    obtain ⟨us, vs, hend, hh, hlen, -⟩ := h.scan stop
    rw [hend, Option.map_some, Option.some.injEq, hh.ring.prev_head] at hstop
    exact ⟨us, vs, _, _, places_unique h hh, List.takeWhile_append_dropWhile.symm, hlen,
      hstop.symm⟩
  cases xPos with
  | front =>
    cases hq
    exact ⟨[], ps, [], xs, rfl, rfl, rfl, rfl⟩
  | rear =>
    cases hq
    refine ⟨ps, [], xs, [], (List.append_nil ps).symm, (List.append_nil xs).symm, h.length, ?_⟩
    exact h.ring.prev_of_head
  | unknown => cases hq
  | assending =>
    rw [pPrevOf] at hq
    split at hq
    · cases hq
    · exact hscan _ (Except.ok.inj hq)
  | desending =>
    rw [pPrevOf] at hq
    split at hq
    · cases hq
    · exact hscan _ (Except.ok.inj hq)

theorem insertBehind_pointed (h : Pointed l ps xs) {pItem : δ} {xPos : ListPos} {q : Ptr}
    (hq : l.pPrevOf pItem xPos = .ok (some q)) (answer : Ptr) : ∃ qs ys,
      Pointed { l with toFtmList := (l.insertBehind q pItem answer).2 } qs ys := by
  cases hm : l.malloc answer with
  | none =>
    refine ⟨ps, xs, ?_⟩
    rw [insertBehind, hm]
    exact h
  | some p =>
    obtain ⟨us, vs, ys, zs, rfl, rfl, hlen, rfl⟩ := pPrevOf_split h.1 hq
    have hl' := (insertBehind_holds pItem h.1 hlen hm).2
    have hsub : us ++ vs ⊆ us ++ p :: vs :=
      (List.sublist_cons_self p vs).append_left us |>.subset
    refine ⟨_, _, h.grow hl' hsub ?_ ?_⟩
    all_goals simp only [insertBehind, hm]; rfl

/-- A node is out of the list, and an iterator that was at it is back at the place before. -/
theorem Pointed.unlink {us vs : List Ptr} {ys zs : List δ} {x : δ}
    (h : Pointed l (us ++ p :: vs) (ys ++ x :: zs)) (hlen : us.length = ys.length) :
    Pointed { l with
      toFtmList := { l.unlink p with pIter := if l.pIter = p then l.pPrev p else l.pIter } }
      (us ++ vs) (ys ++ zs) := by
  refine ⟨(unlink_holds h.1 hlen).setIter _, fun hstarted => ?_⟩
  have hplace := h.2 hstarted
  change (if l.pIter = p then l.pPrev p else l.pIter) ∈ l.xHead :: (us ++ vs)
  split
  · have hprev : l.pPrev p = us.getLastD l.xHead := h.1.ring.prev_head
    rw [hprev]
    exact List.cons_subset_cons _ (List.subset_append_left us vs) (getLastD_mem _ _)
  · rename_i hne
    simp only [List.mem_cons, List.mem_append] at hplace ⊢
    tauto

theorem remove_pointed [DecidableEq δ] (h : Pointed l ps xs) {pItem : δ}
    {result : Ret × FtmList δ κ} (hr : l.remove pItem = some result) : ∃ qs ys,
      Pointed { l with toFtmList := result.2 } qs ys := by
  obtain ⟨us, vs, hscan, hh, hlen, hdata⟩ := h.1.scan (fun d => d = some pItem)
  obtain rfl := places_unique h.1 hh
  simp only [FtmList.remove, hscan, Option.map_some, Option.some.injEq] at hr
  cases vs with
  | nil =>
    rw [List.headD_nil, if_pos rfl] at hr
    subst hr
    exact ⟨_, _, h⟩
  | cons p vs =>
    cases hdrop : xs.dropWhile (fun x => !decide (some x = some pItem)) with
    | nil =>
      rw [hdrop] at hdata
      cases hdata
    | cons y zs =>
      rw [hdrop] at hh
      rw [List.headD_cons, if_neg hh.ne_head] at hr
      have hpointed : Pointed l (us ++ p :: vs)
          (xs.takeWhile (fun x => !decide (some x = some pItem)) ++ y :: zs) := ⟨hh, h.2⟩
      subst hr
      exact ⟨_, _, hpointed.unlink hlen⟩

/-- The removed node is the one of that position, and the iterator stays where it was. -/
theorem removeAt_result (h : Holds l.toFtmList ps xs) {i : UInt32} {result : Ret × FtmList δ κ}
    (hr : l.removeAt i = some result) :
    (result.2 = l.toFtmList ∧ ps[i.toNat]? = none) ∨
      ∃ us p vs ys, ps = us ++ p :: vs ∧ ps[i.toNat]? = some p ∧ result.2.xHead = l.xHead ∧
        result.2.pIter = l.pIter ∧ Holds result.2 (us ++ vs) ys := by
  obtain ⟨us, vs, hscan, hh, hlen, hdata⟩ := h.scanAt i
  obtain rfl := places_unique h hh
  have hlt : i < l.ulCount ↔ i.toNat < xs.length := by rw [UInt32.lt_iff_toNat_lt, h.count]
  simp only [FtmList.removeAt, hlt] at hr
  split at hr
  · rename_i hi
    right
    rw [hscan, Option.map_some, Option.some.injEq] at hr
    rw [List.length_take, Nat.min_eq_left (Nat.le_of_lt hi)] at hlen
    rw [List.drop_eq_getElem_cons hi] at hh hdata
    cases vs with
    | nil => cases hdata
    | cons p vs =>
      rw [List.headD_cons, if_neg hh.ne_head] at hr
      have hun := unlink_holds hh
        (by rw [hlen, List.length_take, Nat.min_eq_left (Nat.le_of_lt hi)])
      subst hr
      refine ⟨us, p, vs, _, rfl, ?_, rfl, rfl, hun⟩
      rw [← hlen, List.getElem?_append_right (Nat.le_refl _), Nat.sub_self,
        List.getElem?_cons_zero]
  · rename_i hi
    left
    rw [Option.some.injEq] at hr
    refine ⟨by rw [← hr], List.getElem?_eq_none ?_⟩
    rw [h.length]
    exact Nat.le_of_not_lt hi

/-- Without the node of that position, the iterator is in the list unless it was at that node. -/
theorem removeAt_pointed (h : Pointed l ps xs) {i : UInt32} {result : Ret × FtmList δ κ}
    (hr : l.removeAt i = some result) : ∃ qs ys, Holds result.2 qs ys ∧
      ((l.bIterator = true → result.2.pIter ∈ result.2.xHead :: qs) ↔
        (l.bIterator = true → ps[i.toNat]? ≠ some l.pIter)) := by
  rcases removeAt_result h.1 hr with ⟨hsame, hnone⟩ | ⟨us, p, vs, ys, rfl, hi, hhead, hiter, hl'⟩
  · refine ⟨ps, xs, hsame ▸ h.1, iff_of_true (hsame ▸ h.2) fun _ => ?_⟩
    rw [hnone]
    exact Option.some_ne_none _ |>.symm
  · refine ⟨us ++ vs, ys, hl', imp_congr_right fun hstarted => ?_⟩
    have hplace := h.2 hstarted
    have hd := h.1.ring.distinct
    rw [List.nodup_cons, List.nodup_middle, List.nodup_cons] at hd
    rw [hhead, hiter, hi, ne_eq, Option.some.injEq]
    constructor
    · rintro hmem rfl
      rcases List.mem_cons.mp hmem with he | hmem
      · exact hd.1 (he ▸ List.mem_append_right us List.mem_cons_self)
      · exact hd.2.1 hmem
    · intro hne
      simp only [List.mem_cons, List.mem_append] at hplace ⊢
      tauto

theorem next_pointed (h : Pointed l ps xs) : Pointed l.iteratorNext.2 ps xs := by
  have hnext : l.bIterator = true → l.pNext l.pIter ∈ l.xHead :: ps := by
    intro hstarted
    obtain ⟨us, vs, rfl, hlast⟩ : ∃ us vs, ps = us ++ vs ∧ l.pIter = us.getLastD l.xHead := by
      rcases List.mem_cons.mp (h.2 hstarted) with he | hmem
      · exact ⟨[], ps, rfl, he⟩
      · obtain ⟨us, vs, rfl⟩ := List.append_of_mem hmem
        exact ⟨us ++ [l.pIter], vs, by simp, by simp⟩
    rw [hlast, h.1.ring.next_last]
    cases vs with
    | nil => exact List.mem_cons_self
    | cons q vs => simp
  unfold IterList.iteratorNext
  split
  · rename_i hstarted
    dsimp only
    split
    all_goals exact ⟨h.1.setIter _, fun _ => hnext hstarted⟩
  · exact h

end Ops

section Runs
variable [DecidableEq δ] {l : SharedList δ κ} {op : ListCall δ κ}

/-- The invariant of a list's runs. -/
def Sound (l : SharedList δ κ) : Prop := ∃ ps xs, Pointed l.toIterList ps xs

omit [DecidableEq δ] in
theorem Pointed.live_iff (h : Holds l.toFtmList ps xs) :
    Live l ↔ (l.bIterator = true → l.pIter ∈ l.xHead :: ps) := by
  rw [Live, nodes_eq h]
  exact imp_congr_right fun _ => List.mem_cons.symm

omit [DecidableEq δ] in
theorem Sound.live (h : Sound l) : Live l := by
  obtain ⟨ps, xs, hl⟩ := h
  exact (Pointed.live_iff hl.1).mpr hl.2

/-- Each operation but the removal by a position leaves the iterator in the list. -/
theorem call_pointed {l : IterList δ κ} (h : Pointed l ps xs) {r : Returned δ κ}
    (hr : l.call op = some r) (hop : ∀ i, op ≠ .removeAt i) : ∃ qs ys, Pointed r.list qs ys := by
  cases op with
  | append pItem answer =>
    cases hr
    exact append_pointed h pItem answer
  | insert pItem xPos answer =>
    rw [IterList.call] at hr
    split at hr
    · cases hr
      exact ⟨ps, xs, h⟩
    · rename_i hq
      obtain ⟨q, rfl, rfl⟩ := Option.map_eq_some_iff.mp hr
      exact insertBehind_pointed h hq answer
  | remove pItem =>
    obtain ⟨result, hresult, rfl⟩ := Option.map_eq_some_iff.mp hr
    exact remove_pointed h hresult
  | removeAt i => exact absurd rfl (hop i)
  | seek pKey =>
    obtain ⟨xRet, -, rfl⟩ := Option.map_eq_some_iff.mp hr
    exact ⟨ps, xs, h⟩
  | get pKey =>
    obtain ⟨result, -, rfl⟩ := Option.map_eq_some_iff.mp hr
    exact ⟨ps, xs, h⟩
  | getAt i =>
    obtain ⟨result, -, rfl⟩ := Option.map_eq_some_iff.mp hr
    exact ⟨ps, xs, h⟩
  | iteratorStart =>
    cases hr
    exact ⟨ps, xs, h.1.setIter _, fun _ => List.mem_cons_self⟩
  | iteratorNext =>
    cases hr
    exact ⟨ps, xs, next_pointed h⟩

/-- An operation returns, or it leaves the list as it is. -/
theorem step_cases (l : SharedList δ κ) (op : ListCall δ κ) :
    SharedList.step l op = l ∨
      ∃ r xLock, l.toIterList.call op = some r ∧ SharedList.step l op = { r.list with xLock } := by
  unfold SharedList.step SharedList.call
  cases hr : l.toIterList.call op with
  | none => exact .inl rfl
  | some r =>
    cases hlock : SemCall.run l.xLock r.sem with
    | none => exact .inl (by simp [hlock])
    | some xLock => exact .inr ⟨r, xLock, rfl, by simp [hlock]⟩

/-- With the semaphore free, a removal by a position is made. -/
theorem removeAt_step (h : Pointed l.toIterList ps xs) (hlock : l.xLock ≠ 0) (i : UInt32) :
    ∃ result, l.removeAt i = some result ∧
      l.step (.removeAt i) = { l with toFtmList := result.2 } := by
  obtain ⟨n, hn⟩ := Nat.exists_eq_succ_of_ne_zero hlock
  obtain ⟨result, hresult⟩ := Option.isSome_iff_exists.mp (removeAt_returns h.1 i)
  refine ⟨result, hresult, ?_⟩
  simp only [SharedList.step, SharedList.call, IterList.call, hresult, hn, IterList.finish,
    SemCall.run, Option.map_some, Option.bind_eq_bind, Option.bind_some, Option.getD_some]

omit [DecidableEq δ] in
theorem clear_removeAt_iff (h : Pointed l.toIterList ps xs) (hlock : l.xLock ≠ 0) {i : UInt32} :
    Clear l (.removeAt i) ↔ (l.bIterator = true → ps[i.toNat]? ≠ some l.pIter) := by
  rw [Clear, nodes_eq h.1, ← Bool.not_eq_true, ← imp_iff_not_or]
  exact or_iff_right hlock

theorem step_sound (h : Sound l) (hclear : Clear l op) : Sound (l.step op) := by
  by_cases hlock : l.xLock = 0
  · rw [stuck_step hlock]
    exact h
  · obtain ⟨ps, xs, hl⟩ := h
    by_cases hop : ∃ i, op = .removeAt i
    · obtain ⟨i, rfl⟩ := hop
      obtain ⟨result, hresult, hstep⟩ := removeAt_step hl hlock i
      obtain ⟨qs, ys, hholds, hiff⟩ := removeAt_pointed hl hresult
      rw [hstep]
      exact ⟨qs, ys, hholds, hiff.mpr ((clear_removeAt_iff hl hlock).mp hclear)⟩
    · rcases step_cases l op with hsame | ⟨r, xLock, hr, hstep⟩
      · rw [hsame]
        exact ⟨ps, xs, hl⟩
      · rw [hstep]
        exact call_pointed hl hr (fun i he => hop ⟨i, he⟩)

/-- Only a removal by the iterator's position leaves it outside. -/
theorem clear_of_live (h : Sound l) (hlive : Live (l.step op)) : Clear l op := by
  by_cases hop : ∃ i, op = .removeAt i
  · obtain ⟨i, rfl⟩ := hop
    by_cases hlock : l.xLock = 0
    · exact .inl hlock
    · obtain ⟨ps, xs, hl⟩ := h
      obtain ⟨result, hresult, hstep⟩ := removeAt_step hl hlock i
      obtain ⟨qs, ys, hholds, hiff⟩ := removeAt_pointed hl hresult
      rw [hstep, Pointed.live_iff hholds] at hlive
      exact (clear_removeAt_iff hl hlock).mpr (hiff.mp hlive)
  · cases op with
    | removeAt i => exact absurd ⟨i, rfl⟩ hop
    | _ => trivial

omit [DecidableEq δ] in
theorem init_sound (l : SharedList δ κ) : Sound l.init :=
  ⟨[], [], init_holds l.toFtmList, fun hstarted => absurd hstarted Bool.false_ne_true⟩

/-- From an initialised list, an iterator that is started points to the head or to a node of the
list throughout a run exactly if no node is removed by its position while the iterator is at it. -/
theorem iterator_live_iff (l : SharedList δ κ) (ops : List (ListCall δ κ)) :
    (∀ t ∈ states SharedList.step l.init ops, Live t) ↔
      Admitted SharedList.step Clear l.init ops := by
  have hsound : Sound l.init := init_sound l
  refine safe_iff_admitted ?_ ?_ ?_ hsound ops
  · intro t ht
    exact ht.live
  · intro t op ht hclear
    exact step_sound ht hclear
  · intro t op ht hlive
    exact clear_of_live ht hlive

end Runs

/-- A list with its head at 100. -/
def somewhere : SharedList Nat Nat where
  ulCount := 0
  xHead := 100
  entries := fun _ => ⟨0, 0, none⟩
  allocated := []
  pIter := 0
  fSeeker := none
  fComparator := none
  bIterator := false
  xLock := 1

/-- The only element is removed when the iterator has just returned it. -/
def visited : List (ListCall Nat Nat) :=
  [.append 5 8, .iteratorStart, .iteratorNext, .removeAt 0]

theorem iterator_dangles : ¬ ∀ t ∈ states SharedList.step somewhere.init visited, Live t := by
  intro h
  have hlast := h _ (foldl_mem_states somewhere.init (List.cons_ne_nil _ _)) rfl
  exact absurd hlast (by decide)

end Catchb.Proofs.IteratorLive
