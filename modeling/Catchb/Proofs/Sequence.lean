import Catchb.Lib.Linked
import Catchb.Lib.Run
import Catchb.LinkedList

/-! The linked list against a plain sequence. -/

namespace Catchb.Proofs.Sequence
open Lib Linked FtmList

variable {δ κ : Type} {l : FtmList δ κ} {ps qs : List Ptr} {xs : List δ} {p a : Ptr}

/-- The ring's places hold the sequence, and the counter is its length. -/
structure Holds (l : FtmList δ κ) (ps : List Ptr) (xs : List δ) : Prop where
  ring : Ring l.pNext l.pPrev l.xHead ps
  data : ps.map l.pData = xs.map some
  live : ∀ p ∈ ps, p ∈ l.allocated
  count : l.ulCount.toNat = xs.length

theorem Holds.length (h : Holds l ps xs) : ps.length = xs.length := by
  have hlen := congrArg List.length h.data
  rwa [List.length_map, List.length_map] at hlen

section Writes
variable (l : FtmList δ κ) (p q v : Ptr) (entry : Entry δ)

@[simp] theorem pNext_setNext :
    (l.setNext p v).pNext q = if q = p then v else l.pNext q := by
  by_cases h : q = p <;> simp [pNext, setNext, h]

@[simp] theorem pPrev_setNext : (l.setNext p v).pPrev q = l.pPrev q := by
  by_cases h : q = p <;> simp [pPrev, setNext, h]

@[simp] theorem pData_setNext : (l.setNext p v).pData q = l.pData q := by
  by_cases h : q = p <;> simp [pData, setNext, h]

@[simp] theorem pPrev_setPrev :
    (l.setPrev p v).pPrev q = if q = p then v else l.pPrev q := by
  by_cases h : q = p <;> simp [pPrev, setPrev, h]

@[simp] theorem pNext_setPrev : (l.setPrev p v).pNext q = l.pNext q := by
  by_cases h : q = p <;> simp [pNext, setPrev, h]

@[simp] theorem pData_setPrev : (l.setPrev p v).pData q = l.pData q := by
  by_cases h : q = p <;> simp [pData, setPrev, h]

@[simp] theorem pNext_newEntry :
    (l.newEntry p entry).pNext q = if q = p then entry.pNext else l.pNext q := by
  by_cases h : q = p <;> simp [pNext, newEntry, h]

@[simp] theorem pPrev_newEntry :
    (l.newEntry p entry).pPrev q = if q = p then entry.pPrev else l.pPrev q := by
  by_cases h : q = p <;> simp [pPrev, newEntry, h]

@[simp] theorem pData_newEntry :
    (l.newEntry p entry).pData q = if q = p then entry.pData else l.pData q := by
  by_cases h : q = p <;> simp [pData, newEntry, h]

@[simp] theorem xHead_setNext : (l.setNext p v).xHead = l.xHead := rfl
@[simp] theorem xHead_setPrev : (l.setPrev p v).xHead = l.xHead := rfl
@[simp] theorem xHead_newEntry : (l.newEntry p entry).xHead = l.xHead := rfl
@[simp] theorem ulCount_setNext : (l.setNext p v).ulCount = l.ulCount := rfl
@[simp] theorem ulCount_setPrev : (l.setPrev p v).ulCount = l.ulCount := rfl
@[simp] theorem ulCount_newEntry : (l.newEntry p entry).ulCount = l.ulCount := rfl
@[simp] theorem allocated_setNext : (l.setNext p v).allocated = l.allocated := rfl
@[simp] theorem allocated_setPrev : (l.setPrev p v).allocated = l.allocated := rfl
@[simp] theorem allocated_newEntry : (l.newEntry p entry).allocated = p :: l.allocated := rfl

end Writes

/-- Distinct addresses are fewer than the counter can count. -/
theorem length_lt_fuel (h : (a :: ps).Nodup) : ps.length < fuel := by
  have hn : ((a :: ps).map UInt32.toNat).Nodup := h.map (fun _ _ => UInt32.toNat.inj)
  have hsub : (a :: ps).map UInt32.toNat ⊆ List.range UInt32.size := by
    intro n hn
    obtain ⟨p, -, rfl⟩ := List.mem_map.mp hn
    exact List.mem_range.mpr p.toNat_lt
  have hle := hn.length_le_of_subset hsub
  rwa [List.length_map, List.length_cons, List.length_range] at hle

/-- The loop over the places of a path stops at the first one that stops it, or at the head. -/
theorem scan_path (stop : Option δ → Bool) {n : Nat} (h : Path l.pNext a ps l.xHead)
    (hhead : l.xHead ∉ ps) (hn : ps.length < n) :
    l.scan stop n (l.pNext a) =
      some ((ps.dropWhile (fun p => !stop (l.pData p))).headD l.xHead) := by
  induction ps generalizing a n with
  | nil =>
    cases n with
    | zero => omega
    | succ n =>
      have ha : l.pNext a = l.xHead := h
      simp [scan, ha]
  | cons q qs ih =>
    cases n with
    | zero => simp at hn
    | succ n =>
      obtain ⟨ha, hq⟩ := h
      rw [List.mem_cons, not_or] at hhead
      rw [ha, scan, if_neg (Ne.symm hhead.1)]
      cases hs : stop (l.pData q) with
      | true => simp [hs]
      | false =>
        rw [if_neg Bool.false_ne_true, ih hq hhead.2 (Nat.lt_of_succ_lt_succ hn)]
        simp [hs]

theorem scanAt_path {n : Nat} {i : UInt32} (h : Path l.pNext a ps l.xHead)
    (hhead : l.xHead ∉ ps) (hn : ps.length < n) :
    l.scanAt n (l.pNext a) i = some ((ps.drop i.toNat).headD l.xHead) := by
  induction ps generalizing a n i with
  | nil =>
    cases n with
    | zero => omega
    | succ n =>
      have ha : l.pNext a = l.xHead := h
      simp [scanAt, ha]
  | cons q qs ih =>
    cases n with
    | zero => simp at hn
    | succ n =>
      obtain ⟨ha, hq⟩ := h
      rw [List.mem_cons, not_or] at hhead
      rw [ha, scanAt, if_neg (Ne.symm hhead.1)]
      by_cases hi : i = 0
      · simp [hi]
      · have hpos : 0 < i.toNat := by
          rw [Nat.pos_iff_ne_zero]
          exact fun he => hi (UInt32.toNat.inj he)
        have hsub : (i - 1).toNat = i.toNat - 1 := by
          rw [UInt32.toNat_sub_of_le]
          · rfl
          · exact UInt32.le_iff_toNat_le.mpr hpos
        rw [if_neg hi, ih hq hhead.2 (Nat.lt_of_succ_lt_succ hn), hsub]
        obtain ⟨k, hk⟩ := Nat.exists_eq_succ_of_ne_zero hpos.ne'
        simp [hk]

theorem malloc_fresh {answer : Ptr} (h : Holds l ps xs) (hm : l.malloc answer = some p) :
    p ∉ l.xHead :: ps := by
  unfold malloc at hm
  split at hm
  · cases hm
  · rename_i hfree
    simp only [not_or] at hfree
    cases hm
    rw [List.mem_cons, not_or]
    exact ⟨hfree.2.1, fun hp => hfree.2.2 (h.live _ hp)⟩

theorem Holds.data_append {ys : List δ} (h : Holds l (ps ++ qs) (xs ++ ys))
    (hlen : ps.length = xs.length) :
    ps.map l.pData = xs.map some ∧ qs.map l.pData = ys.map some := by
  have hd := h.data
  rw [List.map_append, List.map_append] at hd
  apply List.append_inj hd
  rw [List.length_map, List.length_map, hlen]

/-- The count does not wrap round: fewer entries than `fuel` have places of their own. -/
theorem Holds.count_succ (h : Holds l ps xs) (hfuel : xs.length + 1 < fuel) :
    (l.ulCount + 1).toNat = xs.length + 1 := by
  rw [UInt32.toNat_add, h.count]
  exact Nat.mod_eq_of_lt hfuel

/-- One entry is linked in behind the first places. -/
theorem Holds.linkIn {l' : FtmList δ κ} {ys : List δ} {answer : Ptr} {pItem : δ}
    (h : Holds l (ps ++ qs) (xs ++ ys)) (hlen : ps.length = xs.length)
    (hm : l.malloc answer = some p) (hhead : l'.xHead = l.xHead)
    (hlive : l'.allocated = p :: l.allocated) (hcount : l'.ulCount = l.ulCount + 1)
    (hnext : ∀ q, l'.pNext q =
      if q = ps.getLastD l.xHead then p else if q = p then qs.headD l.xHead else l.pNext q)
    (hprev : ∀ q, l'.pPrev q =
      if q = qs.headD l.xHead then p else if q = p then ps.getLastD l.xHead else l.pPrev q)
    (hdata : ∀ q, l'.pData q = if q = p then some pItem else l.pData q) :
    Holds l' (ps ++ p :: qs) (xs ++ pItem :: ys) := by
  have hfresh := malloc_fresh h hm
  have hlast : ps.getLastD l.xHead ∈ l.xHead :: (ps ++ qs) :=
    List.cons_subset_cons _ (List.subset_append_left ps qs) (getLastD_mem _ _)
  have hfirst : qs.headD l.xHead ∈ l.xHead :: (ps ++ qs) := by
    cases qs with
    | nil => exact List.mem_cons_self
    | cons q qs => simp
  have hpl : p ≠ ps.getLastD l.xHead := fun he => hfresh (he ▸ hlast)
  have hpf : p ≠ qs.headD l.xHead := fun he => hfresh (he ▸ hfirst)
  have hother : ∀ q ∈ l.xHead :: (ps ++ qs), q ≠ p := by
    rintro q hq rfl
    exact hfresh hq
  have hring : Ring l'.pNext l'.pPrev l.xHead (ps ++ p :: qs) := by
    apply h.ring.insert hfresh
    · rw [hnext, if_pos rfl]
    · rw [hnext, if_neg hpl, if_pos rfl]
    · rw [hprev, if_pos rfl]
    · rw [hprev, if_neg hpf, if_pos rfl]
    · intro q hq hne
      rw [hnext, if_neg hne, if_neg (hother q hq)]
    · intro q hq hne
      rw [hprev, if_neg hne, if_neg (hother q hq)]
  refine ⟨hhead ▸ hring, ?_, ?_, ?_⟩
  · have hold : ∀ rs : List Ptr, (∀ q ∈ rs, q ∈ ps ++ qs) → rs.map l'.pData = rs.map l.pData := by
      intro rs hrs
      apply List.map_congr_left
      intro q hq
      rw [hdata, if_neg (hother q (List.mem_cons_of_mem _ (hrs q hq)))]
    obtain ⟨hxs, hys⟩ := h.data_append hlen
    rw [List.map_append, List.map_append, List.map_cons, List.map_cons,
      hold ps (fun q hq => List.mem_append_left qs hq),
      hold qs (fun q hq => List.mem_append_right ps hq), hxs, hys, hdata, if_pos rfl]
  · intro q hq
    rw [hlive]
    rcases List.mem_append.mp hq with hq | hq
    · exact List.mem_cons_of_mem p (h.live q (List.mem_append_left qs hq))
    · rcases List.mem_cons.mp hq with rfl | hq
      · exact List.mem_cons_self
      · exact List.mem_cons_of_mem p (h.live q (List.mem_append_right ps hq))
  · have hbound := length_lt_fuel hring.distinct
    have hsame := h.length
    simp only [List.length_append, List.length_cons] at hsame hbound ⊢
    rw [hcount, h.count_succ (by rw [List.length_append]; omega), List.length_append]
    omega

/-- The entry behind the first places is linked out. -/
theorem Holds.linkOut {l' : FtmList δ κ} {x : δ} {ys : List δ}
    (h : Holds l (ps ++ p :: qs) (xs ++ x :: ys)) (hlen : ps.length = xs.length)
    (hhead : l'.xHead = l.xHead) (hlive : l'.allocated = l.allocated.erase p)
    (hcount : l'.ulCount = l.ulCount - 1)
    (hnext : ∀ q, l'.pNext q = if q = ps.getLastD l.xHead then qs.headD l.xHead else l.pNext q)
    (hprev : ∀ q, l'.pPrev q = if q = qs.headD l.xHead then ps.getLastD l.xHead else l.pPrev q)
    (hdata : ∀ q, l'.pData q = l.pData q) : Holds l' (ps ++ qs) (xs ++ ys) := by
  have hring : Ring l'.pNext l'.pPrev l.xHead (ps ++ qs) := by
    apply h.ring.remove
    · rw [hnext, if_pos rfl]
    · rw [hprev, if_pos rfl]
    · intro q hq hne
      rw [hnext, if_neg hne]
    · intro q hq hne
      rw [hprev, if_neg hne]
  have hn := h.ring.distinct
  rw [List.nodup_cons, List.nodup_middle, List.nodup_cons] at hn
  refine ⟨hhead ▸ hring, ?_, ?_, ?_⟩
  · obtain ⟨hxs, hys⟩ := h.data_append hlen
    simp only [List.map_cons, List.cons.injEq] at hys
    have hsame : l'.pData = l.pData := funext hdata
    rw [List.map_append, List.map_append, hsame, hxs, hys.2]
  · intro q hq
    have hqp : q ≠ p := by
      rintro rfl
      exact hn.2.1 hq
    rw [hlive, List.mem_erase_of_ne hqp]
    apply h.live
    rw [List.mem_append] at hq ⊢
    exact hq.imp_right (List.mem_cons_of_mem p)
  · have hold := h.count
    simp only [List.length_append, List.length_cons] at hold ⊢
    have hle : (1 : UInt32) ≤ l.ulCount := by
      rw [UInt32.le_iff_toNat_le, hold]
      exact Nat.le_add_left 1 _
    have hone : (1 : UInt32).toNat = 1 := rfl
    rw [hcount, UInt32.toNat_sub_of_le _ _ hle, hold, hone]
    omega

theorem append_holds {answer : Ptr} (pItem : δ) (h : Holds l ps xs)
    (hm : l.malloc answer = some p) :
    (l.append pItem answer).1 = .ok ∧
      Holds (l.append pItem answer).2 (ps ++ [p]) (xs ++ [pItem]) := by
  have hfresh := malloc_fresh h hm
  have hph : p ≠ l.xHead := fun he => hfresh (he ▸ List.mem_cons_self)
  have hlast := h.ring.prev_of_head
  have hback : Holds l (ps ++ []) (xs ++ []) := by simpa using h
  have hpl : p ≠ ps.getLastD l.xHead := fun he => hfresh (he ▸ getLastD_mem _ _)
  refine ⟨by simp [append, hm], ?_⟩
  apply Holds.linkIn hback h.length hm
  all_goals simp only [append, hm]
  · rfl
  · rfl
  · rfl
  · intro q
    change FtmList.pNext (FtmList.setPrev _ _ _) q = _
    simp only [pNext_setPrev, pNext_setNext, pNext_newEntry, pPrev_newEntry, xHead_newEntry,
      if_neg (Ne.symm hph), hlast, List.headD_nil]
  · intro q
    change FtmList.pPrev (FtmList.setPrev _ _ _) q = _
    simp only [pPrev_setPrev, pPrev_setNext, pPrev_newEntry, xHead_setNext, xHead_newEntry,
      hlast, List.headD_nil]
    rfl
  · intro q
    change FtmList.pData (FtmList.setPrev _ _ _) q = _
    simp only [pData_setPrev, pData_setNext, pData_newEntry]

theorem insertBehind_holds {answer : Ptr} (pItem : δ) {ys : List δ}
    (h : Holds l (ps ++ qs) (xs ++ ys)) (hlen : ps.length = xs.length)
    (hm : l.malloc answer = some p) :
    (l.insertBehind (ps.getLastD l.xHead) pItem answer).1 = .ok ∧
      Holds (l.insertBehind (ps.getLastD l.xHead) pItem answer).2 (ps ++ p :: qs)
        (xs ++ pItem :: ys) := by
  have hfresh := malloc_fresh h hm
  have hnext := h.ring.next_last
  have hpl : ps.getLastD l.xHead ≠ p := by
    intro he
    exact hfresh (List.cons_subset_cons _ (List.subset_append_left ps qs)
      (he ▸ getLastD_mem l.xHead ps))
  refine ⟨by simp [insertBehind, hm], ?_⟩
  apply Holds.linkIn h hlen hm
  all_goals simp only [insertBehind, hm]
  · rfl
  · rfl
  · rfl
  · intro q
    change FtmList.pNext (FtmList.setNext _ _ _) q = _
    simp only [pNext_setNext, pNext_setPrev, pNext_newEntry, hnext]
  · intro q
    change FtmList.pPrev (FtmList.setNext _ _ _) q = _
    simp only [pPrev_setNext, pPrev_setPrev, pPrev_newEntry, pNext_newEntry, if_neg hpl, hnext]
  · intro q
    change FtmList.pData (FtmList.setNext _ _ _) q = _
    simp only [pData_setNext, pData_setPrev, pData_newEntry]

theorem unlink_holds {x : δ} {ys : List δ} (h : Holds l (ps ++ p :: qs) (xs ++ x :: ys))
    (hlen : ps.length = xs.length) : Holds (l.unlink p) (ps ++ qs) (xs ++ ys) := by
  have hprev : l.pPrev p = ps.getLastD l.xHead := h.ring.prev_head
  have hnext : l.pNext p = qs.headD l.xHead := by
    have hsplit : Ring l.pNext l.pPrev l.xHead ((ps ++ [p]) ++ qs) := by simpa using h.ring
    simpa using hsplit.next_last
  apply Holds.linkOut h hlen
  all_goals simp only [unlink]
  · rfl
  · rfl
  · rfl
  · intro q
    change FtmList.pNext (FtmList.setPrev _ _ _) q = _
    simp only [pNext_setPrev, pNext_setNext, hprev, hnext]
  · intro q
    change FtmList.pPrev (FtmList.setPrev _ _ _) q = _
    simp only [pPrev_setPrev, pPrev_setNext, hprev, hnext]
  · intro q
    change FtmList.pData (FtmList.setPrev _ _ _) q = _
    simp only [pData_setPrev, pData_setNext]

section Loops
variable {stop : Option δ → Bool}

theorem takeWhile_data {f : Ptr → Option δ} (h : ps.map f = xs.map some) :
    (ps.takeWhile (fun p => !stop (f p))).map f =
      (xs.takeWhile (fun x => !stop (some x))).map some := by
  have ht := congrArg (List.takeWhile (fun d => !stop d)) h
  rw [List.takeWhile_map, List.takeWhile_map] at ht
  exact ht

theorem dropWhile_data {f : Ptr → Option δ} (h : ps.map f = xs.map some) :
    (ps.dropWhile (fun p => !stop (f p))).map f =
      (xs.dropWhile (fun x => !stop (some x))).map some := by
  have ht := congrArg (List.dropWhile (fun d => !stop d)) h
  rw [List.dropWhile_map, List.dropWhile_map] at ht
  exact ht

/-- Where the loop over the whole list stops, and what is before and behind. -/
theorem Holds.scan (h : Holds l ps xs) (stop : Option δ → Bool) : ∃ us vs,
    l.scan stop fuel (l.pNext l.xHead) = some (vs.headD l.xHead) ∧
      Holds l (us ++ vs) (xs.takeWhile (fun x => !stop (some x)) ++
        xs.dropWhile (fun x => !stop (some x))) ∧
      us.length = (xs.takeWhile (fun x => !stop (some x))).length ∧
      vs.map l.pData = (xs.dropWhile (fun x => !stop (some x))).map some := by
  have hhead := (List.nodup_cons.mp h.ring.distinct).1
  have hscan := scan_path stop h.ring.forward hhead (length_lt_fuel h.ring.distinct)
  refine ⟨ps.takeWhile (fun p => !stop (l.pData p)), _, hscan, ?_, ?_, dropWhile_data h.data⟩
  · rwa [List.takeWhile_append_dropWhile, List.takeWhile_append_dropWhile]
  · have htake : (ps.takeWhile (fun p => !stop (l.pData p))).map l.pData =
        (xs.takeWhile (fun x => !stop (some x))).map some := takeWhile_data h.data
    simpa using congrArg List.length htake

theorem Holds.scanAt (h : Holds l ps xs) (i : UInt32) : ∃ us vs,
    l.scanAt fuel (l.pNext l.xHead) i = some (vs.headD l.xHead) ∧
      Holds l (us ++ vs) (xs.take i.toNat ++ xs.drop i.toNat) ∧
      us.length = (xs.take i.toNat).length ∧
      vs.map l.pData = (xs.drop i.toNat).map some := by
  have hhead := (List.nodup_cons.mp h.ring.distinct).1
  have hscan := scanAt_path (i := i) h.ring.forward hhead (length_lt_fuel h.ring.distinct)
  refine ⟨ps.take i.toNat, _, hscan, ?_, ?_, ?_⟩
  · rwa [List.take_append_drop, List.take_append_drop]
  · rw [List.length_take, List.length_take, h.length]
  · rw [List.map_drop, List.map_drop, h.data]

end Loops

/-- The item before the first element that `stop` holds of. -/
def insertBefore (stop : δ → Bool) (x : δ) (xs : List δ) : List δ :=
  xs.takeWhile (fun e => !stop e) ++ x :: xs.dropWhile (fun e => !stop e)

/-- An operation ends with this result, and its list holds this sequence. -/
def Yields {α : Type} (l : FtmList δ κ) (result : Option (α × FtmList δ κ)) (a : α)
    (xs : List δ) : Prop :=
  ∃ l' ps, result = some (a, l') ∧ Holds l' ps xs ∧ l'.fSeeker = l.fSeeker ∧
    l'.fComparator = l.fComparator

theorem insertBehind_frame (l : FtmList δ κ) (p : Ptr) (pItem : δ) (answer : Ptr) :
    (l.insertBehind p pItem answer).2.fSeeker = l.fSeeker ∧
      (l.insertBehind p pItem answer).2.fComparator = l.fComparator := by
  unfold insertBehind
  cases l.malloc answer <;> exact ⟨rfl, rfl⟩

theorem insert_frame {l' : FtmList δ κ} {pItem : δ} {xPos : ListPos} {answer : Ptr} {xRet : Ret}
    (h : l.insert pItem xPos answer = some (xRet, l')) :
    l'.fSeeker = l.fSeeker ∧ l'.fComparator = l.fComparator := by
  unfold FtmList.insert at h
  split at h
  · cases h
    exact ⟨rfl, rfl⟩
  · obtain ⟨p, -, hl'⟩ := Option.map_eq_some_iff.mp h
    have hframe := insertBehind_frame l p pItem answer
    rwa [hl'] at hframe

theorem insertBehind_yields {answer : Ptr} (pItem : δ) {ys : List δ}
    (h : Holds l (ps ++ qs) (xs ++ ys)) (hlen : ps.length = xs.length)
    (hm : (l.malloc answer).isSome) :
    Yields l (some (l.insertBehind (ps.getLastD l.xHead) pItem answer)) .ok
      (xs ++ pItem :: ys) := by
  obtain ⟨p, hm⟩ := Option.isSome_iff_exists.mp hm
  obtain ⟨hret, hl⟩ := insertBehind_holds pItem h hlen hm
  refine ⟨_, _, ?_, hl, insertBehind_frame l _ pItem answer⟩
  rw [← hret]

theorem append_yields {answer : Ptr} {pItem : δ} (h : Holds l ps xs)
    (hm : (l.malloc answer).isSome) :
    Yields l (some (l.append pItem answer)) .ok (xs ++ [pItem]) := by
  obtain ⟨p, hm⟩ := Option.isSome_iff_exists.mp hm
  obtain ⟨hret, hl⟩ := append_holds pItem h hm
  refine ⟨_, _, ?_, hl, ?_⟩
  · rw [← hret]
  · simp only [append, hm]
    exact ⟨rfl, rfl⟩

/-- The ordered positions: the item goes before the first element where the loop stops. -/
theorem ordered_yields {answer : Ptr} {pItem : δ} (h : Holds l ps xs)
    (hm : (l.malloc answer).isSome) (stop : δ → Bool) :
    Yields l (((l.scan (fun d => d.any stop) fuel (l.pNext l.xHead)).map l.pPrev).map
      (fun p => l.insertBehind p pItem answer)) .ok (insertBefore stop pItem xs) := by
  obtain ⟨us, vs, hscan, hh, hlen, -⟩ := h.scan (fun d => d.any stop)
  rw [hscan, Option.map_some, Option.map_some, hh.ring.prev_head]
  exact insertBehind_yields pItem hh hlen hm

/-- The operations, with what `malloc` answers. -/
inductive ListOp (δ κ : Type)
  | append (pItem : δ) (answer : Ptr)
  | insert (pItem : δ) (xPos : ListPos) (answer : Ptr)
  | remove (pItem : δ)
  | removeAt (ulPosition : UInt32)
  | get (pKey : κ)
  | getAt (ulPosition : UInt32)
  | getFirst
  | getLast
  | count

inductive Answer (δ : Type)
  | done (ret : Ret)
  | element (ret : Ret) (pElement : Option δ)
  | count (ret : Ret) (ulCount : Nat)
  deriving DecidableEq

def done (result : Ret × FtmList δ κ) : Answer δ × FtmList δ κ := (.done result.1, result.2)

def element (l : FtmList δ κ) (result : Ret × Option δ) : Answer δ × FtmList δ κ :=
  (.element result.1 result.2, l)

section Ops
variable [DecidableEq δ]

/-- An operation's answer and the list it leaves. `none` is a loop that does not end. -/
def apply (l : FtmList δ κ) : ListOp δ κ → Option (Answer δ × FtmList δ κ)
  | .append pItem answer => some (done (l.append pItem answer))
  | .insert pItem xPos answer => (l.insert pItem xPos answer).map done
  | .remove pItem => (l.remove pItem).map done
  | .removeAt ulPosition => (l.removeAt ulPosition).map done
  | .get pKey => (l.get pKey).map (element l)
  | .getAt ulPosition => (l.getAt ulPosition).map (element l)
  | .getFirst => some (element l l.getFirst)
  | .getLast => some (element l l.getLast)
  | .count => some (.count l.count.1 l.count.2.toNat, l)

def found (missing : Ret) : Option δ → Answer δ
  | some x => .element .ok (some x)
  | none => .element missing none

/-- The same operations on a plain sequence. -/
def plain (seek : δ → κ → Bool) (cmp : δ → δ → Int) (xs : List δ) :
    ListOp δ κ → Answer δ × List δ
  | .append x _ => (.done .ok, xs ++ [x])
  | .insert x .front _ => (.done .ok, x :: xs)
  | .insert x .rear _ => (.done .ok, xs ++ [x])
  | .insert x .assending _ => (.done .ok, insertBefore (fun e => cmp e x > 0) x xs)
  | .insert x .desending _ => (.done .ok, insertBefore (fun e => cmp e x < 0) x xs)
  | .insert _ .unknown _ => (.done .invalidArguments, xs)
  | .remove x => if x ∈ xs then (.done .ok, xs.erase x) else (.done .objectNotFound, xs)
  | .removeAt i =>
    if i.toNat < xs.length then (.done .ok, xs.eraseIdx i.toNat) else (.done .objectNotFound, xs)
  | .get k => (found .objectNotFound (xs.find? (fun e => seek e k)), xs)
  | .getAt i => (found .objectNotFound xs[i.toNat]?, xs)
  | .getFirst => (found .listEmpty xs.head?, xs)
  | .getLast => (found .listEmpty xs.getLast?, xs)
  | .count => (.count .ok xs.length, xs)

omit [DecidableEq δ] in
theorem Yields.done {r : Option (Ret × FtmList δ κ)} {ret : Ret} (h : Yields l r ret xs) :
    Yields l (r.map done) (.done ret) xs := by
  obtain ⟨l', ps, rfl, hl⟩ := h
  exact ⟨l', ps, rfl, hl⟩

theorem insert_yields {answer : Ptr} {pItem : δ} {cmp : δ → δ → Int} (xPos : ListPos)
    (h : Holds l ps xs) (hc : l.fComparator = some cmp) (hm : (l.malloc answer).isSome)
    (seek : δ → κ → Bool) :
    Yields l ((l.insert pItem xPos answer).map done)
      (plain seek cmp xs (.insert pItem xPos answer)).1
      (plain seek cmp xs (.insert pItem xPos answer)).2 := by
  cases xPos with
  | front =>
    have hfront : Holds l ([] ++ ps) ([] ++ xs) := h
    exact (insertBehind_yields pItem hfront rfl hm).done
  | rear =>
    have hlast := h.ring.prev_of_head
    have hback : Holds l (ps ++ []) (xs ++ []) := by simpa using h
    have hy := insertBehind_yields pItem hback h.length hm
    rw [← hlast] at hy
    exact hy.done
  | assending =>
    simp only [FtmList.insert, pPrevOf, hc]
    exact (ordered_yields h hm (fun e => cmp e pItem > 0)).done
  | desending =>
    simp only [FtmList.insert, pPrevOf, hc]
    exact (ordered_yields h hm (fun e => cmp e pItem < 0)).done
  | unknown => exact ⟨l, ps, rfl, h, rfl, rfl⟩

theorem erase_eq_split {x : δ} (hx : x ∈ xs) :
    xs.takeWhile (fun e => !decide (some e = some x)) ++
      (xs.dropWhile (fun e => !decide (some e = some x))).tail = xs.erase x := by
  induction xs with
  | nil => cases hx
  | cons y ys ih =>
    by_cases hy : y = x
    · simp [hy]
    · have hys : x ∈ ys := (List.mem_cons.mp hx).resolve_left (Ne.symm hy)
      simpa [hy] using ih hys

omit [DecidableEq δ] in
/-- A place behind a split is not the head. -/
theorem Holds.ne_head (h : Holds l (ps ++ p :: qs) xs) : p ≠ l.xHead := by
  rintro rfl
  exact (List.nodup_cons.mp h.ring.distinct).1 (List.mem_append_right ps List.mem_cons_self)

omit [DecidableEq δ] in
theorem Holds.setIter (h : Holds l ps xs) (pIter : Ptr) : Holds { l with pIter } ps xs :=
  ⟨h.ring, h.data, h.live, h.count⟩

theorem remove_yields (pItem : δ) (h : Holds l ps xs) :
    if pItem ∈ xs then Yields l (l.remove pItem) .ok (xs.erase pItem)
    else Yields l (l.remove pItem) .objectNotFound xs := by
  obtain ⟨us, vs, hscan, hh, hlen, hdata⟩ := h.scan (fun d => d = some pItem)
  have hmem : pItem ∈ xs ↔ xs.dropWhile (fun x => !decide (some x = some pItem)) ≠ [] := by
    rw [ne_eq, List.dropWhile_eq_nil_iff]
    simp
  simp only [FtmList.remove, hscan, Option.map_some]
  cases vs with
  | nil =>
    have hnil : xs.dropWhile (fun x => !decide (some x = some pItem)) = [] := by
      simpa using hdata.symm
    rw [if_neg (by rw [hmem, hnil]; exact fun h => h rfl)]
    exact ⟨l, ps, by simp, h, rfl, rfl⟩
  | cons p qs =>
    cases hdrop : xs.dropWhile (fun x => !decide (some x = some pItem)) with
    | nil =>
      rw [hdrop] at hdata
      cases hdata
    | cons y ys =>
      have hx : pItem ∈ xs := by rw [hmem, hdrop]; exact List.cons_ne_nil y ys
      rw [hdrop] at hh
      have hun := unlink_holds hh hlen
      have herase := erase_eq_split hx
      rw [hdrop, List.tail_cons] at herase
      rw [if_pos hx, List.headD_cons, if_neg hh.ne_head, ← herase]
      exact ⟨_, us ++ qs, rfl, hun.setIter _, rfl, rfl⟩

omit [DecidableEq δ] in
theorem removeAt_yields (i : UInt32) (h : Holds l ps xs) :
    if i.toNat < xs.length then Yields l (l.removeAt i) .ok (xs.eraseIdx i.toNat)
    else Yields l (l.removeAt i) .objectNotFound xs := by
  obtain ⟨us, vs, hscan, hh, hlen, hdata⟩ := h.scanAt i
  have hlt : i < l.ulCount ↔ i.toNat < xs.length := by rw [UInt32.lt_iff_toNat_lt, h.count]
  simp only [FtmList.removeAt, hlt]
  split
  · rename_i hi
    rw [hscan, Option.map_some, List.eraseIdx_eq_take_drop_succ]
    rw [List.drop_eq_getElem_cons hi] at hh hdata
    cases vs with
    | nil => cases hdata
    | cons p qs =>
      rw [List.headD_cons, if_neg hh.ne_head]
      exact ⟨_, us ++ qs, rfl, unlink_holds hh hlen, rfl, rfl⟩
  · exact ⟨l, ps, rfl, h, rfl, rfl⟩

omit [DecidableEq δ] in
theorem get_eq {seek : δ → κ → Bool} (pKey : κ) (h : Holds l ps xs)
    (hs : l.fSeeker = some seek) :
    (l.get pKey).map (element l) =
      some (found .objectNotFound (xs.find? (fun e => seek e pKey)), l) := by
  obtain ⟨us, vs, hscan, hh, hlen, hdata⟩ := h.scan (fun d => d.any (fun e => seek e pKey))
  have hfind : xs.find? (fun e => seek e pKey) =
      (xs.dropWhile (fun e => !seek e pKey)).head? := by
    rw [List.find?_eq_head?_dropWhile_not]
  simp only [FtmList.get, hs, hscan, Option.map_some, hfind]
  simp only [Option.any_some] at hdata hh
  cases vs with
  | nil =>
    have hnil : xs.dropWhile (fun e => !seek e pKey) = [] := by simpa using hdata.symm
    simp [hnil, found, element]
  | cons p qs =>
    cases hdrop : xs.dropWhile (fun e => !seek e pKey) with
    | nil => simp [hdrop] at hdata
    | cons y ys =>
      have hy : l.pData p = some y := by
        rw [hdrop] at hdata
        exact (List.cons.inj hdata).1
      rw [List.headD_cons, if_neg hh.ne_head, hy]
      rfl

omit [DecidableEq δ] in
theorem getAt_eq (i : UInt32) (h : Holds l ps xs) :
    (l.getAt i).map (element l) = some (found .objectNotFound xs[i.toNat]?, l) := by
  obtain ⟨us, vs, hscan, hh, hlen, hdata⟩ := h.scanAt i
  have hlt : i < l.ulCount ↔ i.toNat < xs.length := by rw [UInt32.lt_iff_toNat_lt, h.count]
  simp only [FtmList.getAt, hlt]
  split
  · rename_i hi
    rw [hscan, Option.map_some, List.getElem?_eq_getElem hi]
    rw [List.drop_eq_getElem_cons hi] at hh hdata
    cases vs with
    | nil => cases hdata
    | cons p qs =>
      have hy := (List.cons.inj hdata).1
      rw [List.headD_cons, if_neg hh.ne_head, hy]
      rfl
  · rename_i hi
    rw [List.getElem?_eq_none (Nat.le_of_not_lt hi)]
    rfl

omit [DecidableEq δ] in
theorem getFirst_eq (h : Holds l ps xs) :
    element l l.getFirst = (found .listEmpty xs.head?, l) := by
  have hnext := h.ring.next_head
  have hdata := h.data
  have hcount := h.count
  cases xs with
  | nil =>
    have hz : l.ulCount = 0 := UInt32.toNat.inj hcount
    simp [getFirst, hz, element, found]
  | cons x xs =>
    have hz : l.ulCount ≠ 0 := by
      intro hz
      simp [hz] at hcount
    cases ps with
    | nil => simp at hdata
    | cons p ps =>
      have hy : l.pData p = some x := (List.cons.inj hdata).1
      rw [List.headD_cons] at hnext
      simp [getFirst, hz, element, found, hnext, hy]

omit [DecidableEq δ] in
theorem getLast_eq (h : Holds l ps xs) :
    element l l.getLast = (found .listEmpty xs.getLast?, l) := by
  have hprev := h.ring.prev_of_head
  have hdata := h.data
  have hcount := h.count
  cases xs using List.reverseRecOn with
  | nil =>
    have hz : l.ulCount = 0 := UInt32.toNat.inj hcount
    simp [getLast, hz, element, found]
  | append_singleton xs x =>
    have hz : l.ulCount ≠ 0 := by
      intro hz
      simp [hz] at hcount
    cases ps using List.reverseRecOn with
    | nil => simp at hdata
    | append_singleton ps p =>
      have hy : l.pData p = some x := by
        have hlast := congrArg List.getLast? hdata
        simpa using hlast
      simp at hprev
      simp [getLast, hz, element, found, hprev, hy]

/-- `malloc` has memory for the operation's entry. -/
def Given (l : FtmList δ κ) : ListOp δ κ → Prop
  | .append _ answer | .insert _ _ answer => (l.malloc answer).isSome
  | .remove _ | .removeAt _ | .get _ | .getAt _ | .getFirst | .getLast | .count => True

variable {seek : δ → κ → Bool} {cmp : δ → δ → Int}

/-- One operation answers and changes its list as on the plain sequence. -/
theorem apply_yields (h : Holds l ps xs) (hs : l.fSeeker = some seek)
    (hc : l.fComparator = some cmp) {op : ListOp δ κ} (hm : Given l op) :
    Yields l (apply l op) (plain seek cmp xs op).1 (plain seek cmp xs op).2 := by
  cases op with
  | append pItem answer => exact (append_yields h hm).done
  | insert pItem xPos answer => exact insert_yields xPos h hc hm seek
  | remove pItem =>
    have hy := remove_yields pItem h
    simp only [apply, plain]
    split <;> rename_i hx <;> simp only [hx, ↓reduceIte] at hy <;> exact hy.done
  | removeAt i =>
    have hy := removeAt_yields i h
    simp only [apply, plain]
    split <;> rename_i hi <;> simp only [hi, ↓reduceIte] at hy <;> exact hy.done
  | get pKey => exact ⟨l, ps, get_eq pKey h hs, h, rfl, rfl⟩
  | getAt i => exact ⟨l, ps, getAt_eq i h, h, rfl, rfl⟩
  | getFirst => exact ⟨l, ps, congrArg some (getFirst_eq h), h, rfl, rfl⟩
  | getLast => exact ⟨l, ps, congrArg some (getLast_eq h), h, rfl, rfl⟩
  | count =>
    refine ⟨l, ps, ?_, h, rfl, rfl⟩
    rw [plain, ← h.count]
    rfl

def step (l : FtmList δ κ) (op : ListOp δ κ) : FtmList δ κ := ((apply l op).map Prod.snd).getD l

def answers (l : FtmList δ κ) : List (ListOp δ κ) → List (Option (Answer δ))
  | [] => []
  | op :: ops => (apply l op).map Prod.fst :: answers (step l op) ops

def plainAnswers (seek : δ → κ → Bool) (cmp : δ → δ → Int) (xs : List δ) :
    List (ListOp δ κ) → List (Answer δ)
  | [] => []
  | op :: ops => (plain seek cmp xs op).1 :: plainAnswers seek cmp (plain seek cmp xs op).2 ops

omit [DecidableEq δ] in
/-- The data on a walk from `p` along one kind of link, up to the head. -/
def walk (l : FtmList δ κ) (link : Ptr → Ptr) : Nat → Ptr → List (Option δ)
  | 0, _ => []
  | n + 1, p => if p = l.xHead then [] else l.pData p :: walk l link n (link p)

def forward (l : FtmList δ κ) : List (Option δ) := walk l l.pNext fuel (l.pNext l.xHead)
def backward (l : FtmList δ κ) : List (Option δ) := walk l l.pPrev fuel (l.pPrev l.xHead)

/-- Both walks visit the sequence, and the counter is its length. -/
structure Refines (l : FtmList δ κ) (xs : List δ) : Prop where
  forward : forward l = xs.map some
  backward : (backward l).reverse = xs.map some
  count : l.ulCount.toNat = xs.length

omit [DecidableEq δ] in
theorem walk_path {link : Ptr → Ptr} {n : Nat} (h : Path link a ps l.xHead)
    (hhead : l.xHead ∉ ps) (hn : ps.length < n) : walk l link n (link a) = ps.map l.pData := by
  induction ps generalizing a n with
  | nil =>
    cases n with
    | zero => omega
    | succ n =>
      have ha : link a = l.xHead := h
      simp [walk, ha]
  | cons q qs ih =>
    cases n with
    | zero => simp at hn
    | succ n =>
      obtain ⟨ha, hq⟩ := h
      rw [List.mem_cons, not_or] at hhead
      rw [ha, walk, if_neg (Ne.symm hhead.1), ih hq hhead.2 (Nat.lt_of_succ_lt_succ hn),
        List.map_cons]

omit [DecidableEq δ] in
theorem Holds.refines (h : Holds l ps xs) : Refines l xs := by
  have hhead := (List.nodup_cons.mp h.ring.distinct).1
  have hsize := length_lt_fuel h.ring.distinct
  refine ⟨?_, ?_, h.count⟩
  · rw [forward, walk_path h.ring.forward hhead hsize, h.data]
  · rw [backward, walk_path h.ring.backward (by simpa using hhead) (by simpa using hsize),
      List.map_reverse, List.reverse_reverse, h.data]

omit [DecidableEq δ] in
theorem init_holds (l : FtmList δ κ) : Holds l.init [] [] where
  ring := Ring.empty (by simp [init, pNext]) (by simp [init, pPrev])
  data := rfl
  live := by simp
  count := rfl

theorem run_refines (ops : List (ListOp δ κ)) (h : Holds l ps xs) (hs : l.fSeeker = some seek)
    (hc : l.fComparator = some cmp) (hm : Admitted step Given l ops) :
    answers l ops = (plainAnswers seek cmp xs ops).map some ∧
      Refines (ops.foldl step l) (ops.foldl (fun xs op => (plain seek cmp xs op).2) xs) := by
  induction ops generalizing l ps xs with
  | nil => exact ⟨rfl, h.refines⟩
  | cons op ops ih =>
    obtain ⟨hop, hm⟩ := hm
    obtain ⟨l', qs, hl, h', hs', hc'⟩ := apply_yields h hs hc hop
    have hstep : step l op = l' := by rw [step, hl]; rfl
    rw [hstep] at hm
    obtain ⟨hans, href⟩ := ih h' (hs'.trans hs) (hc'.trans hc) hm
    rw [answers, plainAnswers, hstep, hl, hans, List.foldl_cons, List.foldl_cons, hstep]
    exact ⟨rfl, href⟩

/-- From an initialised list, every run with memory for its entries answers as on a plain
sequence, which both walks visit afterwards. -/
theorem list_refines_sequence (l : FtmList δ κ) (hs : l.fSeeker = some seek)
    (hc : l.fComparator = some cmp) (ops : List (ListOp δ κ))
    (hm : Admitted step Given l.init ops) :
    answers l.init ops = (plainAnswers seek cmp [] ops).map some ∧
      Refines (ops.foldl step l.init) (ops.foldl (fun xs op => (plain seek cmp xs op).2) []) :=
  run_refines ops (init_holds l) hs hc hm

end Ops

/-- A list of numbers, sought by value and ordered by size, with its head at 100. -/
def numbers : FtmList Int Int :=
  ⟨7, 100, fun _ => ⟨0, 0, none⟩, [], 0, some (fun x k => x == k), some (fun x y => x - y)⟩

def exercise : List (ListOp Int Int) :=
  [.append 5 8, .insert 9 .front 16, .insert 7 .assending 24, .removeAt 1, .getAt 0, .remove 3,
    .getLast, .count]

theorem numbers_refine :
    answers numbers.init exercise =
      (plainAnswers (fun x k => x == k) (fun x y => x - y) [] exercise).map some ∧
    Refines (exercise.foldl step numbers.init) (exercise.foldl
      (fun xs op => (plain (fun x k => x == k) (fun x y => x - y) xs op).2) []) :=
  list_refines_sequence numbers rfl rfl exercise
    ⟨rfl, rfl, rfl, trivial, trivial, trivial, trivial, trivial, trivial⟩

end Catchb.Proofs.Sequence
