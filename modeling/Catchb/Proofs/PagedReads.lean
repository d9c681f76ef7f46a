import Catchb.ListPages
import Catchb.Proofs.LogPaging
import Catchb.Proofs.StatisticsSlices

/-! When a list that is read page by page is read to its end, and is what one page would be. -/

namespace Catchb.Proofs.PagedReads
open Lib ListClient ListServer

variable {α : Type} {s : ListServer α} {l : Listing} {n : Nat} {ulIndex ulMaxCount : UInt32}

/-- The part of a list that a client asks for. -/
def slice (xs : List α) (ulIndex ulMaxCount : UInt32) : List α :=
  (xs.drop ulIndex.toNat).take ulMaxCount.toNat

/-- The call ends, with the part of the server's list that it asks for. -/
def Reads (s : ListServer α) (l : Listing) (ulIndex ulMaxCount : UInt32) : Prop :=
  ∃ n, (s.client l).getList l n ulIndex ulMaxCount =
    some (retOK, slice s.pList ulIndex ulMaxCount)

theorem allowed_pos (l : Listing) : 0 < l.ulAllowedNumber.toNat := by
  cases l <;> decide

section Turn

end Turn

section Loop

end Loop

/-- A server has room for a page that one response may hold, or for the end of its list. Where there
are more pages, the list of statistics has all that is asked for; for the logs a page with something
on it is enough. -/
structure Covers (s : ListServer α) (l : Listing) (ulIndex ulMaxCount : UInt32) : Prop where
  single : ulMaxCount.toNat ≤ l.ulAllowedNumber.toNat →
    ulMaxCount.toNat ≤ s.room l ∨ s.pList.length ≤ ulIndex.toNat + s.room l
  filled : l.ulAllowedNumber.toNat < ulMaxCount.toNat → l.stops = false →
    ulIndex.toNat + ulMaxCount.toNat ≤ s.pList.length
  room : l.ulAllowedNumber.toNat < ulMaxCount.toNat →
    0 < s.room l ∨ s.pList.length ≤ ulIndex.toNat

section Reads

end Reads

/-- With buffers of the default length only a count that the list of statistics does not have is
not read. -/
theorem covers_default (h : s.ulBufferLen = 4096) : Covers s l ulIndex ulMaxCount ↔
    (l.ulAllowedNumber.toNat < ulMaxCount.toNat → l.stops = false →
      ulIndex.toNat + ulMaxCount.toNat ≤ s.pList.length) := by
  have hroom : s.room l = l.ulAllowedNumber.toNat := by
    rw [room, h]
    rfl
  constructor
  · intro hcovers
    exact hcovers.filled
  · intro hfilled
    refine ⟨fun hle => .inl (hroom ▸ hle), hfilled, fun _ => .inl ?_⟩
    rw [hroom]
    exact allowed_pos l

/-- The daemon's statistics are such a list. -/
theorem stat_answer {store : StatisticsStore} (hl : StatisticsKept.Live store)
    (hcounted : (StatisticsKept.entries store).length < UInt32.size) (ulBufferLen : UInt32) :
    store.answer ulBufferLen =
      (⟨StatisticsKept.entries store, hcounted, ulBufferLen⟩ : ListServer _).answer .stat := by
  funext ulIndex ulCount
  rw [StatisticsStore.answer, StatisticsSlices.getStatisticsList_eq _ _ hl, toNat_clamp]
  rfl

section Logs
open DB

variable {t : LogTable} {selection : LogSelection} {p : LogRow → Bool} {stack : Text}
  {xs ys zs : List LogRow}

/-- Rows whose times increase as texts. -/
def Increasing (rows : List LogRow) : Prop := rows.Pairwise (fun a b => a.time < b.time)

/-- The times of consecutive rows find these rows. -/
theorem filter_block (h : Increasing (xs ++ (ys ++ zs))) :
    (xs ++ (ys ++ zs)).filter (fun r => r.time ∈ ys.map LogRow.time) = ys := by
  obtain ⟨-, hrest, hbefore⟩ := List.pairwise_append.mp h
  obtain ⟨-, -, hafter⟩ := List.pairwise_append.mp hrest
  have hxs : xs.filter (fun r => r.time ∈ ys.map LogRow.time) = [] := by
    refine List.filter_eq_nil_iff.mpr ?_
    intro r hr hmem
    obtain ⟨y, hy, heq⟩ := List.mem_map.mp (of_decide_eq_true hmem)
    exact (hbefore r hr y (List.mem_append_left zs hy)).ne heq.symm
  have hys : ys.filter (fun r => r.time ∈ ys.map LogRow.time) = ys := by
    refine List.filter_eq_self.mpr ?_
    intro r hr
    exact decide_eq_true (List.mem_map_of_mem hr)
  have hzs : zs.filter (fun r => r.time ∈ ys.map LogRow.time) = [] := by
    refine List.filter_eq_nil_iff.mpr ?_
    intro r hr hmem
    obtain ⟨y, hy, heq⟩ := List.mem_map.mp (of_decide_eq_true hmem)
    exact (hafter y hy r hr).ne heq
  rw [List.filter_append, List.filter_append, hxs, hys, hzs, List.nil_append, List.append_nil]

/-- The newest comes first. -/
theorem mergeSort_increasing (h : Increasing ys) : ys.mergeSort LogRow.newer = ys.reverse := by
  have hsorted : ys.reverse.Pairwise (fun a b => a.newer b = true) := by
    rw [List.pairwise_reverse]
    exact h.imp fun hlt => LogPaging.newer_iff.mpr (.inl hlt)
  have hnodup : (ys.map LogRow.time).Nodup := by
    rw [List.Nodup, List.pairwise_map]
    exact h.imp fun hlt => hlt.ne
  refine @List.Perm.eq_of_pairwise _ (fun a b => a.newer b = true) _ _ ?_ ?_ ?_ ?_
  · intro a b ha hb hab hba
    have htime := le_antisymm (LogPaging.newer_time_le b a hba) (LogPaging.newer_time_le a b hab)
    exact List.inj_on_of_nodup_map hnodup (List.mem_mergeSort.mp ha) (List.mem_reverse.mp hb) htime
  · exact List.pairwise_mergeSort LogPaging.newer_trans LogPaging.newer_total ys
  · exact hsorted
  · exact (List.mergeSort_perm ys _).trans (List.reverse_perm ys).symm

/-- The inner query's window, for any index and count. -/
theorem page_increasing {rows : List LogRow} (hrows : t.rows.filter p = rows)
    (h : Increasing rows) {o k : Nat} :
    t.page p k o = ((rows.drop o).take k).reverse := by
  have hsplit : rows = rows.take o ++ ((rows.drop o).take k ++ (rows.drop o).drop k) := by
    rw [List.take_append_drop, List.take_append_drop]
  have hblock : Increasing ((rows.drop o).take k) :=
    h.sublist ((List.take_sublist _ _).trans (List.drop_sublist _ _))
  have hfilter := filter_block (hsplit ▸ h)
  rw [← hsplit] at hfilter
  rw [LogTable.page, hrows]
  simp only [hfilter, mergeSort_increasing hblock]

theorem slice_reverse (rows : List LogRow) (ulIndex ulMaxCount : UInt32) :
    slice rows.reverse ulIndex ulMaxCount =
      ((rows.drop (rows.length - ulIndex.toNat - ulMaxCount.toNat)).take
        (min ulMaxCount.toNat (rows.length - ulIndex.toNat))).reverse := by
  have hlen : min (rows.length - ulIndex.toNat) rows.length = rows.length - ulIndex.toNat :=
    Nat.min_eq_left (Nat.sub_le ..)
  have hcount : rows.length - ulIndex.toNat - (rows.length - ulIndex.toNat - ulMaxCount.toNat) =
      min ulMaxCount.toNat (rows.length - ulIndex.toNat) := by
    omega
  rw [slice, List.drop_reverse, List.take_reverse, List.length_take, List.drop_take, hlen, hcount]

/-- The first elements of a page are all of it. -/
theorem take_page (h : Increasing (t.rows.filter p)) {m o k : Nat} (hk : k ≤ m) :
    (t.page p k o).take m = (((t.rows.filter p).drop o).take k).reverse := by
  rw [page_increasing rfl h, List.take_of_length_le]
  rw [List.length_reverse]
  exact Nat.le_trans (List.length_take_le ..) hk

/-- The rows of a page, counted from the newest. -/
theorem getLogList_increasing (hp : (selection.condition stack).select = some p)
    (hfew : (t.rows.filter p).length < 0x80000000) (h : Increasing (t.rows.filter p))
    (db : Sqlite) (hsum : ulIndex.toNat + ulMaxCount.toNat < UInt32.size) :
    (getLogList db t selection stack ulIndex ulMaxCount).2 =
      slice (t.rows.filter p).reverse ulIndex ulMaxCount := by
  have htotal : (UInt32.ofNat (t.rows.filter p).length).toNat = (t.rows.filter p).length :=
    UInt32.toNat_ofNat_of_lt' (Nat.lt_trans hfew (by decide))
  have hend : (ulIndex + ulMaxCount).toNat = ulIndex.toNat + ulMaxCount.toNat := by
    rw [UInt32.toNat_add]
    exact Nat.mod_eq_of_lt hsum
  unfold getLogList
  simp only [LogPaging.getElementCount2_of_select hp, LogPaging.atoi_of_lt hfew, hp, gt_iff_lt,
    UInt32.lt_iff_toNat_lt, htotal, hend]
  rw [slice_reverse]
  by_cases hmore : ulIndex.toNat + ulMaxCount.toNat < (t.rows.filter p).length
  · rw [if_pos hmore, take_page h (Nat.le_refl _), UInt32.toNat_sub_of_le _ _
      (UInt32.le_iff_toNat_le.mpr (by omega)), htotal, hend, Nat.min_eq_left (by omega),
      Nat.sub_sub]
  · rw [if_neg hmore, Nat.sub_eq_zero_of_le (by omega : _ - _ ≤ ulMaxCount.toNat)]
    by_cases hsome : ulIndex.toNat < (t.rows.filter p).length
    · have hleft : (UInt32.ofNat (t.rows.filter p).length - ulIndex).toNat =
          (t.rows.filter p).length - ulIndex.toNat := by
        rw [UInt32.toNat_sub_of_le _ _ (UInt32.le_iff_toNat_le.mpr (by omega)), htotal]
      have hle : (t.rows.filter p).length - ulIndex.toNat ≤ ulMaxCount.toNat := by omega
      rw [if_pos hsome]
      simp only [hleft, take_page h hle, Nat.min_eq_right hle]
      rfl
    · rw [if_neg hsome, Nat.sub_eq_zero_of_le (Nat.not_lt.mp hsome), Nat.min_zero]
      exact take_page h (Nat.zero_le _)

/-- The logs of a selection are such a list too, the newest first, where their times increase and
the index and the count make no more than a word. -/
theorem log_answer (hp : (selection.condition stack).select = some p)
    (hfew : (t.rows.filter p).length < 0x80000000) (h : Increasing (t.rows.filter p))
    (hcounted : (t.rows.filter p).reverse.length < UInt32.size) (db : Sqlite)
    {ulBufferLen ulCount : UInt32} (hsum : ulIndex.toNat + ulCount.toNat < UInt32.size) :
    t.answer db selection stack ulBufferLen ulIndex ulCount =
      (⟨(t.rows.filter p).reverse, hcounted, ulBufferLen⟩ : ListServer _).answer .log
        ulIndex ulCount := by
  have hclamp := toNat_clamp (roomFor ulBufferLen .logGetList Params.log) ulCount
  rw [LogTable.answer, getLogList_increasing hp hfew h db (by rw [hclamp]; omega), slice, hclamp]
  rfl

end Logs

end Catchb.Proofs.PagedReads
