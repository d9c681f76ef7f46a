import Catchb.LogStore
import Catchb.Lib.Numerals
import Catchb.Lib.Paging

/-! When the pages of the logs are the logs that were asked for, each once, the newest first. -/

namespace Catchb.Proofs.LogPaging
open Lib DB

/-- What the selection asks for. -/
def wanted (s : LogSelection) (r : LogRow) : Bool :=
  (s.xType == 0 || r.xType == s.xType) &&
  s.pID.all (fun pID => r.pID == pID) &&
  s.pIP.all (fun pIP => r.pIP == pIP) &&
  (s.xStat == .unregistered || r.xStat == s.xStat) &&
  (s.ulStartTime == 0 || decide (s.ulStartTime ≤ r.ulTime)) &&
  (s.ulEndTime == 0 || decide (r.ulTime ≤ s.ulEndTime))

def matching (t : LogTable) (s : LogSelection) : List LogRow := t.rows.filter (wanted s)

/-- The pages that `n` rows fill. -/
def pageCount (n k : Nat) : Nat := (n + k - 1) / k

/-- The pages from the first on, as many as the matching rows fill. -/
def readAll (db : Sqlite) (t : LogTable) (s : LogSelection) (held : Nat → Text) (k : UInt32) :
    List LogRow :=
  (List.range (pageCount (matching t s).length k.toNat)).flatMap (fun j =>
    (getLogList db t s (held j) (UInt32.ofNat (j * k.toNat)) k).2)

/-- Whatever the stack holds, and whatever the database makes of another text. -/
def Exact (t : LogTable) (s : LogSelection) (k : UInt32) : Prop :=
  ∀ (db : Sqlite) (held : Nat → Text) (stack : Text),
    (readAll db t s held k).Perm (matching t s) ∧
    (readAll db t s held k).Pairwise (fun a b => b.ulTime.toNat ≤ a.ulTime.toNat) ∧
    (readAll db t s held k).length = (getLogCount2 db t s stack).2.toNat

/-- The condition is there, its literals close, and it means what the selection asks for. No page's
times are on another one, and a page's times have the order of their texts. -/
structure Pageable (t : LogTable) (s : LogSelection) (k : UInt32) : Prop where
  given : s.tests ≠ []
  closed : ∀ x ∈ s.tests, x.closed = true
  means : ∀ r ∈ t.rows, s.tests.all (LogTest.holds r) = wanted s r
  few : (matching t s).length < 0x80000000
  blocks : Paging.Blocks LogRow.time (fun r => r.ulTime.toNat) k.toNat (matching t s)

section Order
variable {t : LogTable} {s : LogSelection} {a b : LogRow}

theorem time_eq_iff (a b : LogRow) : a.time = b.time ↔ a.ulTime.toNat = b.ulTime.toNat := by
  rw [LogRow.time, LogRow.time, Numerals.decimal_injective.eq_iff, BitVec.toInt_inj,
    UInt32.toBitVec_inj, UInt32.toNat_inj]

theorem newer_iff : a.newer b = true ↔ b.time < a.time ∨ a.time = b.time ∧ a.rowid ≤ b.rowid := by
  rw [LogRow.newer, Bool.or_eq_true, Bool.and_eq_true, decide_eq_true_eq, decide_eq_true_eq,
    beq_iff_eq]

theorem nodup_rowids (t : LogTable) : (t.rows.map LogRow.rowid).Nodup :=
  t.rowids.imp Nat.ne_of_lt

theorem eq_of_rowid (ha : a ∈ t.rows) (hb : b ∈ t.rows) (h : a.rowid = b.rowid) : a = b :=
  List.inj_on_of_nodup_map (nodup_rowids t) ha hb h

theorem newer_trans (a b c : LogRow) (hab : a.newer b = true) (hbc : b.newer c = true) :
    a.newer c = true := by
  rw [newer_iff] at hab hbc ⊢
  rcases hab with hab | ⟨hab, hid⟩
  · rcases hbc with hbc | ⟨hbc, -⟩
    · exact Or.inl (hbc.trans hab)
    · exact Or.inl (hbc ▸ hab)
  · rcases hbc with hbc | ⟨hbc, hid'⟩
    · exact Or.inl (hab ▸ hbc)
    · exact Or.inr ⟨hab.trans hbc, hid.trans hid'⟩

theorem newer_total (a b : LogRow) : (a.newer b || b.newer a) = true := by
  rw [Bool.or_eq_true, newer_iff, newer_iff]
  rcases lt_trichotomy a.time b.time with hlt | heq | hgt
  · exact Or.inr (Or.inl hlt)
  · exact (Nat.le_total a.rowid b.rowid).imp (fun h => Or.inr ⟨heq, h⟩)
      (fun h => Or.inr ⟨heq.symm, h⟩)
  · exact Or.inl (Or.inl hgt)

theorem newer_time_le (a b : LogRow) (hab : a.newer b = true) : b.time ≤ a.time := by
  rcases newer_iff.mp hab with hlt | ⟨heq, -⟩
  · exact hlt.le
  · exact heq.ge

theorem ranking : Paging.Ranking LogRow.newer LogRow.time (matching t s) where
  trans := newer_trans
  total := newer_total
  antisymm := by
    intro a ha b hb hab hba
    rw [newer_iff] at hab hba
    rcases hab with hlt | ⟨heq, hid⟩
    · rcases hba with hgt | ⟨heq, -⟩
      · exact absurd hlt hgt.asymm
      · exact absurd hlt (heq ▸ lt_irrefl _)
    · rcases hba with hgt | ⟨-, hid'⟩
      · exact absurd hgt (heq ▸ lt_irrefl _)
      · exact eq_of_rowid (List.mem_of_mem_filter ha) (List.mem_of_mem_filter hb)
          (Nat.le_antisymm hid hid')
  key_le := newer_time_le

theorem nodup_matching : (matching t s).Nodup := (nodup_rowids t).of_map.filter _

end Order

section Pages
variable {n j : Nat} {k : UInt32} {db : Sqlite} {t : LogTable} {s : LogSelection}
  {p : LogRow → Bool} {held : Nat → Text} {stack : Text}

theorem lt_pageCount (hk : 0 < k) (hj : j < pageCount n k.toNat) : j * k.toNat < n := by
  have hpos : 0 < k.toNat := UInt32.lt_iff_toNat_lt.mp hk
  have hle := (Nat.le_div_iff_mul_le hpos).mp (Nat.succ_le_of_lt hj)
  rw [Nat.succ_mul] at hle
  omega

theorem le_pageCount_mul (hk : 0 < k) : n ≤ pageCount n k.toNat * k.toNat := by
  have hpos : 0 < k.toNat := UInt32.lt_iff_toNat_lt.mp hk
  have hlt := Nat.lt_div_mul_add (a := n + k.toNat - 1) hpos
  rw [pageCount]
  omega

/-- The index of a page that is not empty and the one behind it are numbers of 32 bits. -/
theorem index_lt (hn : n < 0x80000000) (hj : j * k.toNat < n) :
    j * k.toNat + k.toNat < 0x100000000 := by
  have hk := k.toNat_lt
  cases j with
  | zero => omega
  | succ i =>
    rw [Nat.succ_mul] at hj ⊢
    omega

theorem getElementCount2_of_select {c : LogCondition} (hp : c.select = some p) :
    getElementCount2 db t c = (.ok, db.atoi (t.rows.filter p).length) := by
  rw [getElementCount2, hp]

theorem atoi_of_lt (hn : n < 0x80000000) : db.atoi n = UInt32.ofNat n := if_pos hn

theorem take_page {l o : Nat} (hw : ((t.rows.filter p).drop o).take l =
    Paging.window k.toNat (t.rows.filter p) j) :
    (t.page p l o).take k.toNat =
      Paging.page LogRow.newer LogRow.time k.toNat (t.rows.filter p) j := by
  have halike : (t.rows.filter p).filter (fun r =>
      r.time ∈ (Paging.window k.toNat (t.rows.filter p) j).map LogRow.time) =
      Paging.alike LogRow.time (t.rows.filter p) (Paging.window k.toNat (t.rows.filter p) j) :=
    List.filter_congr (fun r _ => decide_eq_decide.mpr Iff.rfl)
  rw [LogTable.page, hw, halike]
  rfl

/-- The inner query finds the times of the window. -/
theorem getLogList_eq (hp : (s.condition stack).select = some p)
    (hn : (t.rows.filter p).length < 0x80000000) (hj : j * k.toNat < (t.rows.filter p).length) :
    (getLogList db t s stack (UInt32.ofNat (j * k.toNat)) k).2 =
      Paging.page LogRow.newer LogRow.time k.toNat (t.rows.filter p) j := by
  have hindex := index_lt hn hj
  have htotal : (UInt32.ofNat (t.rows.filter p).length).toNat = (t.rows.filter p).length :=
    UInt32.toNat_ofNat_of_lt' (by rw [UInt32.size]; omega)
  have hstart : (UInt32.ofNat (j * k.toNat)).toNat = j * k.toNat :=
    UInt32.toNat_ofNat_of_lt' (by rw [UInt32.size]; omega)
  have hend : (UInt32.ofNat (j * k.toNat) + k).toNat = (j + 1) * k.toNat := by
    rw [UInt32.toNat_add, hstart, Nat.succ_mul, Nat.mod_eq_of_lt hindex]
  unfold getLogList
  simp only [getElementCount2_of_select hp, atoi_of_lt hn, hp, gt_iff_lt, UInt32.lt_iff_toNat_lt,
    htotal, hstart, hend, hj, ↓reduceIte]
  split
  · rename_i hmore
    refine take_page ?_
    rw [UInt32.toNat_sub_of_le _ _ (UInt32.le_iff_toNat_le.mpr (by omega)), htotal, hend,
      Paging.window_eq_take_drop hmore.le]
  · rename_i hmore
    refine take_page ?_
    rw [UInt32.toNat_sub_of_le _ _ (UInt32.le_iff_toNat_le.mpr (by omega)), htotal, hstart,
      Paging.window_eq_take (Nat.not_lt.mp hmore)]
    rfl

theorem select_condition (hgiven : s.tests ≠ []) (hclosed : ∀ x ∈ s.tests, x.closed = true) :
    (s.condition stack).select = some (fun r => s.tests.all (LogTest.holds r)) := by
  have hne : s.tests.isEmpty = false := List.isEmpty_eq_false_iff.mpr hgiven
  have hall : s.tests.all LogTest.closed = true := List.all_eq_true.mpr hclosed
  rw [LogSelection.condition, hne]
  exact if_pos hall

/-- What is not a list of tests that close is another text. -/
theorem given_of_select (hp : (s.condition ['0']).select = some p) :
    s.tests ≠ [] ∧ ∀ x ∈ s.tests, x.closed = true := by
  rw [LogSelection.condition] at hp
  split at hp
  · cases hp
  · rename_i hne
    rw [LogCondition.select] at hp
    split at hp
    · rename_i hall
      exact ⟨fun hnil => hne (List.isEmpty_iff.mpr hnil), List.all_eq_true.mp hall⟩
    · cases hp

/-- The pages of a condition that selects what is asked for. -/
theorem readAll_eq (hk : 0 < k) (hp : ∀ stack, (s.condition stack).select = some p)
    (hrows : t.rows.filter p = matching t s) (hn : (matching t s).length < 0x80000000) :
    readAll db t s held k = Paging.pages LogRow.newer LogRow.time k.toNat (matching t s)
      (pageCount (matching t s).length k.toNat) := by
  unfold readAll Paging.pages
  refine List.flatMap_congr ?_
  intro j hj
  have hlt := lt_pageCount hk (List.mem_range.mp hj)
  rw [← hrows] at hn hlt ⊢
  exact getLogList_eq (hp _) hn hlt

/-- A page holds rows that the condition selects. -/
theorem mem_of_mem_getLogList {index : UInt32} {r : LogRow}
    (hp : (s.condition stack).select = some p)
    (hr : r ∈ (getLogList db t s stack index k).2) : r ∈ t.rows.filter p := by
  unfold getLogList at hr
  simp only [hp] at hr
  exact List.mem_of_mem_filter ((List.mergeSort_perm _ _).mem_iff.mp (List.mem_of_mem_take hr))

end Pages

section Exact
variable {t : LogTable} {s : LogSelection} {k : UInt32}

theorem exact_of_pageable (hk : 0 < k) (h : Pageable t s k) : Exact t s k := by
  intro db held stack
  have hselect (stack : Text) :
      (s.condition stack).select = some (fun r => s.tests.all (LogTest.holds r)) :=
    select_condition h.given h.closed
  have hrows : t.rows.filter (fun r => s.tests.all (LogTest.holds r)) = matching t s :=
    List.filter_congr h.means
  rw [readAll_eq hk hselect hrows h.few]
  obtain ⟨hperm, hnewest⟩ := (Paging.pages_iff_blocks ranking time_eq_iff nodup_matching
    (le_pageCount_mul hk)).mpr h.blocks
  refine ⟨hperm, hnewest, ?_⟩
  have hfew := h.few
  rw [hperm.length_eq, getLogCount2, getElementCount2_of_select (hselect stack), hrows,
    atoi_of_lt hfew, UInt32.toNat_ofNat_of_lt' (by rw [UInt32.size]; omega)]

/-- The count is the number of the logs, whatever else the database answers. -/
theorem Exact.count (h : Exact t s k) (db : Sqlite) (stack : Text) :
    (getLogCount2 db t s stack).2.toNat = (matching t s).length := by
  obtain ⟨hperm, -, htotal⟩ := h db (fun _ => []) stack
  rw [← htotal, hperm.length_eq]

/-- A text of its own could be counted as anything. -/
theorem Exact.select (h : Exact t s k) (stack : Text) :
    ∃ p, (s.condition stack).select = some p := by
  cases hp : (s.condition stack).select with
  | some p => exact ⟨p, rfl⟩
  | none =>
    have hzero := h.count ⟨fun _ => some 0, fun _ _ _ => [], 0⟩ stack
    have hone := h.count ⟨fun _ => some 1, fun _ _ _ => [], 0⟩ stack
    simp only [getLogCount2, getElementCount2, hp] at hzero hone
    rw [← hone] at hzero
    cases hzero

theorem Exact.few {p : LogRow → Bool} (h : Exact t s k) {stack : Text}
    (hp : (s.condition stack).select = some p) :
    (t.rows.filter p).length < 0x80000000 ∧
      (t.rows.filter p).length = (matching t s).length := by
  have hcount (overflow : UInt32) :
      ((⟨fun _ => none, fun _ _ _ => [], overflow⟩ : Sqlite).atoi
        (t.rows.filter p).length).toNat = (matching t s).length := by
    have hc := h.count ⟨fun _ => none, fun _ _ _ => [], overflow⟩ stack
    rwa [getLogCount2, getElementCount2_of_select hp] at hc
  by_cases hn : (t.rows.filter p).length < 0x80000000
  · refine ⟨hn, ?_⟩
    rw [← hcount 0, atoi_of_lt hn, UInt32.toNat_ofNat_of_lt' (by rw [UInt32.size]; omega)]
  · have hzero := hcount 0
    have hone := hcount 1
    rw [Sqlite.atoi, if_neg hn] at hzero hone
    rw [← hone] at hzero
    cases hzero

/-- Every log that is asked for is read, so that the condition selects it; and it selects no
more. -/
theorem Exact.means {p : LogRow → Bool} (h : Exact t s k)
    (hp : ∀ stack, (s.condition stack).select = some p) : ∀ r ∈ t.rows, p r = wanted s r := by
  obtain ⟨hperm, -, -⟩ := h ⟨fun _ => none, fun _ _ _ => [], 0⟩ (fun _ => []) []
  have hsub : matching t s ⊆ t.rows.filter p := by
    intro r hr
    obtain ⟨j, -, hj⟩ := List.mem_flatMap.mp (hperm.mem_iff.mpr hr)
    exact mem_of_mem_getLogList (hp _) hj
  have hsame : (matching t s).Perm (t.rows.filter p) :=
    (nodup_matching.subperm hsub).perm_of_length_le (h.few (hp [])).2.le
  intro r hr
  rw [Bool.eq_iff_iff]
  have hiff := hsame.mem_iff (a := r)
  rw [matching, List.mem_filter, List.mem_filter] at hiff
  exact ⟨fun hr' => (hiff.mpr ⟨hr, hr'⟩).2, fun hr' => (hiff.mp ⟨hr, hr'⟩).2⟩

theorem pageable_of_exact (hk : 0 < k) (h : Exact t s k) : Pageable t s k := by
  obtain ⟨p, hp⟩ := h.select ['0']
  obtain ⟨hgiven, hclosed⟩ := given_of_select hp
  have hselect (stack : Text) :
      (s.condition stack).select = some (fun r => s.tests.all (LogTest.holds r)) :=
    select_condition hgiven hclosed
  have hmeans := h.means hselect
  have hrows : t.rows.filter (fun r => s.tests.all (LogTest.holds r)) = matching t s :=
    List.filter_congr hmeans
  have hfew := (h.few (hselect [])).1
  rw [hrows] at hfew
  obtain ⟨hperm, hnewest, -⟩ := h ⟨fun _ => none, fun _ _ _ => [], 0⟩ (fun _ => []) []
  rw [readAll_eq hk hselect hrows hfew] at hperm hnewest
  exact ⟨hgiven, hclosed, hmeans, hfew, (Paging.pages_iff_blocks ranking time_eq_iff
    nodup_matching (le_pageCount_mul hk)).mp ⟨hperm, hnewest⟩⟩

/-- Paging is exact just when the selection has a condition that means what it asks for, and no
time stands on two pages or is out of order as a text. -/
theorem log_paging_exact_iff (hk : 0 < k) : Exact t s k ↔ Pageable t s k :=
  ⟨pageable_of_exact hk, exact_of_pageable hk⟩

end Exact

def log (rowid : Nat) (ulTime : UInt32) : LogRow :=
  ⟨rowid, 1, ulTime, ⟨"lobby".toList, by decide⟩, ⟨"10.0.0.21".toList, by decide⟩, .normal,
    ⟨[], by decide⟩⟩

def typeOne : LogSelection := ⟨1, none, none, .unregistered, 0, 0⟩

def twoLogs (first second : UInt32) : LogTable :=
  ⟨[log 1 first, log 2 second], by simp [log]⟩

/-- A page of one log for each of two logs of one time: both are the first log. -/
theorem same_time_repeated : ¬Exact (twoLogs 1000 1000) typeOne 1 := by
  intro h
  obtain ⟨hperm, -, -⟩ := h ⟨fun _ => none, fun _ _ _ => [], 0⟩ (fun _ => []) []
  have hcount : pageCount (matching (twoLogs 1000 1000) typeOne).length (1 : UInt32).toNat = 2 := by
    decide +kernel
  have hsort : [log 1 1000, log 2 1000].mergeSort LogRow.newer = [log 1 1000, log 2 1000] :=
    List.mergeSort_of_pairwise (by decide +kernel)
  let page := ([log 1 1000, log 2 1000].mergeSort LogRow.newer).take 1
  have hread : readAll ⟨fun _ => none, fun _ _ _ => [], 0⟩ (twoLogs 1000 1000) typeOne
      (fun _ => []) 1 = page ++ (page ++ []) := by
    rw [readAll, hcount]
    rfl
  have hpage : page = [log 1 1000] := congrArg (List.take 1) hsort
  rw [hread, hpage] at hperm
  exact absurd hperm (by decide +kernel)

theorem two_logs_paged : Exact (twoLogs 1000 2000) typeOne 1 := by
  refine (log_paging_exact_iff (by decide)).mpr ⟨by decide, by decide, by decide +kernel, ?_, ?_⟩
  · decide +kernel
  · exact Paging.blocks_of_increasing (by decide +kernel) (by decide +kernel)

end Catchb.Proofs.LogPaging
