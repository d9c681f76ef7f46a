import Catchb.LogStore
import Catchb.Lib.Ranks
import Catchb.Proofs.LogPaging

/-! When the logs that are deleted by position are those at the positions. -/

namespace Catchb.Proofs.LogDeletion
open Lib DB Ranks LogPaging

def number (r : LogRow) : Nat := r.ulTime.toNat

/-- The logs of the camera, or all. -/
def asked (t : LogTable) (pID : Option ID) : List LogRow :=
  t.rows.filter (fun r => pID.all (fun pID => r.pID == pID))

/-- What the statement takes for these. -/
def selected (t : LogTable) (pID : Option ID) : List LogRow :=
  t.rows.filter (fun r => (idTests pID).all (LogTest.holds r))

/-- The position behind the last one of the call. -/
def stop (ulIndex ulCount : UInt32) (rows : List LogRow) : Nat :=
  if ulCount = 0 then rows.length else ulIndex.toNat + ulCount.toNat

def positions (ulIndex ulCount : UInt32) (rows : List LogRow) : List LogRow :=
  slice ulIndex.toNat (stop ulIndex ulCount rows) rows

/-- The logs are gone that stand at the positions when the newest comes first, and no others. -/
def Deletes (t : LogTable) (pID : Option ID) (ulIndex ulCount : UInt32) : Prop :=
  ∀ other, ∃ rows, rows.Perm (asked t pID) ∧ Descending number rows ∧
    (deleteLogFrom other t pID ulIndex ulCount).2 =
      t.remove (fun r => r ∈ positions ulIndex ulCount rows)

/-- No log is at the positions, and the statement finds none or is none. -/
def Nothing (t : LogTable) (pID : Option ID) (ulIndex ulCount : UInt32) : Prop :=
  (asked t pID).length ≤ ulIndex.toNat ∧
    ((selected t pID).length ≤ ulIndex.toNat ∨ ulCount = 0 ∧ ulIndex ≠ 0)

/-- The texts of the times and the times put each log on the same side of both positions, together
with the others of its time; and these are no other camera's. -/
structure Apart (t : LogTable) (pID : Option ID) (ulIndex ulCount : UInt32) : Prop where
  means : selected t pID = asked t pID
  limited : ulCount ≠ 0 ∨ ulIndex = 0
  agree : Agree LogRow.time number (asked t pID) ulIndex.toNat
    (stop ulIndex ulCount (asked t pID))
  own : ∀ a ∈ asked t pID, Inside number (asked t pID) ulIndex.toNat
    (stop ulIndex ulCount (asked t pID)) a → ∀ b ∈ t.rows, b.ulTime = a.ulTime → b ∈ asked t pID

/-- The quotes of the ID close. -/
structure Deletable (t : LogTable) (pID : Option ID) (ulIndex ulCount : UInt32) : Prop where
  closed : (idTests pID).all LogTest.closed = true
  logs : Nothing t pID ulIndex ulCount ∨ Apart t pID ulIndex ulCount

section Positions
variable {t : LogTable} {pID : Option ID} {ulIndex ulCount : UInt32} {rows rows' : List LogRow}

theorem stop_perm (h : rows.Perm rows') :
    stop ulIndex ulCount rows = stop ulIndex ulCount rows' := by
  rw [stop, stop, h.length_eq]

theorem lt_stop (ulIndex ulCount : UInt32) (rows : List LogRow) :
    ulIndex.toNat < stop ulIndex ulCount rows ∨ rows.length ≤ ulIndex.toNat := by
  rw [stop]
  split
  · exact Nat.lt_or_ge _ _
  · rename_i hcount
    have hpos : ulCount.toNat ≠ 0 := fun h => hcount (UInt32.toNat_inj.mp h)
    left
    omega

theorem length_positions_perm (h : rows.Perm rows') :
    (positions ulIndex ulCount rows).length = (positions ulIndex ulCount rows').length := by
  simp only [positions, slice, List.length_drop, List.length_take, stop_perm h, h.length_eq]

theorem positions_eq_nil_iff :
    positions ulIndex ulCount rows = [] ↔ rows.length ≤ ulIndex.toNat := by
  rw [positions, slice, List.drop_eq_nil_iff, List.length_take]
  have hlt := lt_stop ulIndex ulCount rows
  omega

/-- The rows whose times the inner query finds. -/
def found (t : LogTable) (pID : Option ID) (ulIndex ulCount : UInt32) : List LogRow :=
  positions ulIndex ulCount ((selected t pID).mergeSort LogRow.newer)

theorem times_eq (t : LogTable) (pID : Option ID) (ulIndex ulCount : UInt32) :
    t.times (fun r => (idTests pID).all (LogTest.holds r)) ulIndex ulCount =
      (found t pID ulIndex ulCount).map LogRow.time := by
  rw [LogTable.times, found, positions, slice, stop, selected]
  split
  · rw [List.take_length]
  · rw [List.drop_take, Nat.add_sub_cancel_left]

theorem nodup_asked (t : LogTable) (pID : Option ID) : (asked t pID).Nodup :=
  (nodup_rowids t).of_map.filter _

theorem mem_of_mem_positions {a : LogRow} (hp : rows.Perm (asked t pID))
    (ha : a ∈ positions ulIndex ulCount rows) : a ∈ t.rows :=
  List.mem_of_mem_filter (hp.mem_iff.mp (mem_of_mem_slice ha))

theorem found_subset {a : LogRow} (ha : a ∈ found t pID ulIndex ulCount) :
    a ∈ selected t pID :=
  (List.mergeSort_perm _ _).mem_iff.mp (mem_of_mem_slice ha)

theorem descending_newer (rows : List LogRow) :
    Descending LogRow.time (rows.mergeSort LogRow.newer) :=
  (List.pairwise_mergeSort newer_trans newer_total rows).imp (newer_time_le _ _)

/-- There is an arrangement with the newest first. -/
theorem exists_descending (rows : List LogRow) :
    ∃ rows', rows'.Perm rows ∧ Descending number rows' := by
  let le (a b : LogRow) : Bool := decide (number b ≤ number a)
  have htrans : ∀ a b c, le a b = true → le b c = true → le a c = true := by
    intro a b c hab hbc
    simp only [le, decide_eq_true_eq] at hab hbc ⊢
    exact hbc.trans hab
  have htotal : ∀ a b, (le a b || le b a) = true := by
    intro a b
    simpa [le] using Nat.le_total (number b) (number a)
  refine ⟨rows.mergeSort le, List.mergeSort_perm _ _, ?_⟩
  exact (List.pairwise_mergeSort htrans htotal rows).imp (fun h => of_decide_eq_true h)

/-- A literal that is not the ID itself finds only other cameras' logs. -/
theorem selected_eq_or_disjoint (t : LogTable) (pID : Option ID) :
    selected t pID = asked t pID ∨ ∀ r ∈ selected t pID, r ∉ asked t pID := by
  cases pID with
  | none => exact .inl rfl
  | some id =>
    by_cases hid : literal id.val = some id.val
    · left
      refine List.filter_congr fun r _ => ?_
      simp [idTests, LogTest.holds, hid]
    · right
      intro r hr ha
      simp only [selected, asked, idTests, List.mem_filter, Option.map_some, Option.toList_some,
        List.all_cons, List.all_nil, Bool.and_true, LogTest.holds, Option.all_some, beq_iff_eq]
        at hr ha
      exact hid (hr.2 ▸ congrArg (fun i => some i.val) ha.2)

end Positions

section Deletes
variable {t other : LogTable} {pID : Option ID} {ulIndex ulCount : UInt32} {rows : List LogRow}

theorem deleteLogFrom_refused (hclosed : (idTests pID).all LogTest.closed = true)
    (h : ulCount = 0 ∧ ulIndex ≠ 0) : (deleteLogFrom other t pID ulIndex ulCount).2 = t := by
  rw [deleteLogFrom, if_pos hclosed, if_pos h]

theorem deleteLogFrom_taken (hclosed : (idTests pID).all LogTest.closed = true)
    (h : ¬(ulCount = 0 ∧ ulIndex ≠ 0)) :
    (deleteLogFrom other t pID ulIndex ulCount).2 =
      t.remove (fun r => r.time ∈ (found t pID ulIndex ulCount).map LogRow.time) := by
  rw [deleteLogFrom, if_pos hclosed, if_neg h, times_eq]

/-- Log by log, what has a time that is found is at the positions. -/
def Exactly (t : LogTable) (pID : Option ID) (ulIndex ulCount : UInt32) (rows : List LogRow) :
    Prop :=
  ∀ r ∈ t.rows, (∃ a ∈ found t pID ulIndex ulCount, a.time = r.time) ↔
    r ∈ positions ulIndex ulCount rows

theorem exactly_iff : Exactly t pID ulIndex ulCount rows ↔
    t.remove (fun r => r.time ∈ (found t pID ulIndex ulCount).map LogRow.time) =
      t.remove (fun r => r ∈ positions ulIndex ulCount rows) := by
  simp only [LogTable.remove_eq_iff, decide_eq_decide, List.mem_map]
  rfl

theorem Exactly.found_subset (h : Exactly t pID ulIndex ulCount rows) {a : LogRow}
    (ha : a ∈ found t pID ulIndex ulCount) : a ∈ positions ulIndex ulCount rows :=
  (h a (List.mem_of_mem_filter (LogDeletion.found_subset ha))).mp ⟨a, ha, rfl⟩

theorem Exactly.whole (h : Exactly t pID ulIndex ulCount rows) (hp : rows.Perm (asked t pID))
    {a b : LogRow} (ha : a ∈ positions ulIndex ulCount rows) (hb : b ∈ t.rows)
    (hab : b.time = a.time) : b ∈ positions ulIndex ulCount rows := by
  obtain ⟨c, hc, hca⟩ := (h a (mem_of_mem_positions hp ha)).mpr ha
  exact (h b hb).mp ⟨c, hc, hca.trans hab.symm⟩

theorem Agree.perm {xs ys : List LogRow} {i j : Nat} (h : Agree LogRow.time number xs i j)
    (hp : xs.Perm ys) : Agree LogRow.time number ys i j := by
  intro a ha
  refine (h a (hp.mem_iff.mpr ha)).imp ?_ ?_
  · exact fun hin => ⟨hin.1.perm hp, hin.2.perm hp⟩
  · exact fun hout => ⟨hout.1.perm hp, hout.2.perm hp⟩

/-- Both arrangements of the logs, with their stops. -/
theorem slices_of_asked (hmeans : selected t pID = asked t pID) (hp : rows.Perm (asked t pID))
    (hdesc : Descending number rows) :
    (∀ a, a ∈ found t pID ulIndex ulCount ↔ a ∈ positions ulIndex ulCount rows) ∧
      Whole number ulIndex.toNat (stop ulIndex ulCount rows) rows ↔
    Agree LogRow.time number (asked t pID) ulIndex.toNat
      (stop ulIndex ulCount (asked t pID)) := by
  have hsort : ((asked t pID).mergeSort LogRow.newer).Perm (asked t pID) := List.mergeSort_perm _ _
  have hperm := hsort.trans hp.symm
  have hiff := slices_iff_agree (descending_newer (asked t pID)) hdesc hperm
    (hsort.nodup_iff.mpr (nodup_asked t pID)) time_eq_iff
    (lt_stop ulIndex ulCount ((asked t pID).mergeSort LogRow.newer))
  rw [found, positions, positions, hmeans, ← stop_perm hperm, hiff, stop_perm hsort]
  exact ⟨fun h => Agree.perm h hsort, fun h => Agree.perm h hsort.symm⟩

theorem Exactly.apart (h : Exactly t pID ulIndex ulCount rows) (hp : rows.Perm (asked t pID))
    (hdesc : Descending number rows) (hmeans : selected t pID = asked t pID)
    (hlimited : ulCount ≠ 0 ∨ ulIndex = 0) : Apart t pID ulIndex ulCount := by
  have hperm : ((selected t pID).mergeSort LogRow.newer).Perm rows := by
    rw [hmeans]
    exact (List.mergeSort_perm _ _).trans hp.symm
  have hnodup : rows.Nodup := hp.nodup_iff.mpr (nodup_asked t pID)
  have hfound : (found t pID ulIndex ulCount).Nodup := by
    refine (hperm.nodup_iff.mpr hnodup).sublist ?_
    exact (List.drop_sublist _ _).trans (List.take_sublist _ _)
  have hsame : (found t pID ulIndex ulCount).Perm (positions ulIndex ulCount rows) :=
    (hfound.subperm fun a ha => h.found_subset ha).perm_of_length_le
      (length_positions_perm hperm).ge
  have hwhole : Whole number ulIndex.toNat (stop ulIndex ulCount rows) rows := by
    intro a ha b hb hab
    exact h.whole hp ha (List.mem_of_mem_filter (hp.mem_iff.mp hb)) ((time_eq_iff b a).mpr hab)
  refine ⟨hmeans, hlimited, (slices_of_asked hmeans hp hdesc).mp ⟨fun a => hsame.mem_iff, hwhole⟩,
    ?_⟩
  intro a ha hin b hb hab
  have ha' : a ∈ positions ulIndex ulCount rows := by
    refine mem_slice_of_inside hdesc (hp.mem_iff.mpr ha) ?_
    rw [stop_perm hp]
    exact hin.perm hp.symm
  have hb' := h.whole hp ha' hb ((time_eq_iff b a).mpr (congrArg UInt32.toNat hab))
  exact hp.mem_iff.mp (mem_of_mem_slice hb')

theorem Apart.exactly (h : Apart t pID ulIndex ulCount) (hp : rows.Perm (asked t pID))
    (hdesc : Descending number rows) : Exactly t pID ulIndex ulCount rows := by
  obtain ⟨hsame, hwhole⟩ := (slices_of_asked h.means hp hdesc).mpr h.agree
  have hnodup : rows.Nodup := hp.nodup_iff.mpr (nodup_asked t pID)
  intro r hr
  constructor
  · rintro ⟨a, ha, hra⟩
    have ha' := (hsame a).mp ha
    have hin := hwhole.inside hdesc hnodup ha'
    rw [stop_perm hp] at hin
    have htime := (time_eq_iff r a).mp hra.symm
    have hask := h.own a (hp.mem_iff.mp (mem_of_mem_slice ha')) (hin.perm hp) r hr
      (UInt32.toNat_inj.mp htime)
    exact hwhole a ha' r (hp.mem_iff.mpr hask) htime
  · intro hr'
    exact ⟨r, (hsame r).mpr hr', rfl⟩

theorem Nothing.exactly (h : Nothing t pID ulIndex ulCount)
    (hlimited : ¬(ulCount = 0 ∧ ulIndex ≠ 0)) (hp : rows.Perm (asked t pID)) :
    Exactly t pID ulIndex ulCount rows := by
  have hfound : found t pID ulIndex ulCount = [] := by
    rw [found, positions_eq_nil_iff, (List.mergeSort_perm _ _).length_eq]
    exact h.2.resolve_right hlimited
  have hnone : positions ulIndex ulCount rows = [] :=
    positions_eq_nil_iff.mpr (hp.length_eq ▸ h.1)
  intro r hr
  simp [hfound, hnone]

theorem Exactly.deletable (h : Exactly t pID ulIndex ulCount rows) (hp : rows.Perm (asked t pID))
    (hdesc : Descending number rows) (hlimited : ¬(ulCount = 0 ∧ ulIndex ≠ 0)) :
    Nothing t pID ulIndex ulCount ∨ Apart t pID ulIndex ulCount := by
  rcases selected_eq_or_disjoint t pID with hmeans | hdisjoint
  · right
    refine h.apart hp hdesc hmeans ?_
    by_cases hcount : ulCount = 0
    · exact .inr (by_contra fun hindex => hlimited ⟨hcount, hindex⟩)
    · exact .inl hcount
  · left
    have hfound : found t pID ulIndex ulCount = [] := by
      refine List.eq_nil_iff_forall_not_mem.mpr fun a ha => ?_
      exact hdisjoint a (LogDeletion.found_subset ha)
        (hp.mem_iff.mp (mem_of_mem_slice (h.found_subset ha)))
    have hnone : positions ulIndex ulCount rows = [] := by
      refine List.eq_nil_iff_forall_not_mem.mpr fun a ha => ?_
      obtain ⟨b, hb, -⟩ := (h a (mem_of_mem_positions hp ha)).mpr ha
      rw [hfound] at hb
      cases hb
    rw [positions_eq_nil_iff, hp.length_eq] at hnone
    rw [found, positions_eq_nil_iff, (List.mergeSort_perm _ _).length_eq] at hfound
    exact ⟨hnone, .inl hfound⟩

/-- Only an ID whose quotes close is sure to leave a table of these logs. -/
theorem Deletes.closed (h : Deletes t pID ulIndex ulCount) :
    (idTests pID).all LogTest.closed = true := by
  by_contra hclosed
  have hrowids : ((List.range (t.rows.length + 1)).map (fun i => log i 0)).map LogRow.rowid =
      List.range (t.rows.length + 1) := by
    rw [List.map_map]
    exact List.map_id _
  obtain ⟨rows, -, -, hrows⟩ := h ⟨(List.range (t.rows.length + 1)).map (fun i => log i 0), by
    rw [hrowids]
    exact List.pairwise_lt_range⟩
  rw [deleteLogFrom, if_neg hclosed] at hrows
  have hlength := congrArg (fun t' : LogTable => t'.rows.length) hrows
  have hle : (t.remove (fun r => r ∈ positions ulIndex ulCount rows)).rows.length ≤ t.rows.length :=
    List.length_filter_le _ _
  simp only [List.length_map, List.length_range] at hlength
  omega

/-- The logs at the positions are the ones deleted just when the ID closes, and either there are
none on both sides or no group of one time is cut or put elsewhere by the order of the texts. -/
theorem logs_deleted_iff : Deletes t pID ulIndex ulCount ↔ Deletable t pID ulIndex ulCount := by
  constructor
  · intro h
    refine ⟨h.closed, ?_⟩
    obtain ⟨rows, hp, hdesc, hrows⟩ := h t
    by_cases hrefused : ulCount = 0 ∧ ulIndex ≠ 0
    · rw [deleteLogFrom_refused h.closed hrefused, LogTable.eq_remove_iff] at hrows
      have hnone : positions ulIndex ulCount rows = [] := by
        refine List.eq_nil_iff_forall_not_mem.mpr fun a ha => ?_
        exact of_decide_eq_false (hrows a (mem_of_mem_positions hp ha)) ha
      rw [positions_eq_nil_iff, hp.length_eq] at hnone
      exact .inl ⟨hnone, .inr hrefused⟩
    · rw [deleteLogFrom_taken h.closed hrefused, ← exactly_iff] at hrows
      exact hrows.deletable hp hdesc hrefused
  · rintro ⟨hclosed, hlogs⟩ other
    obtain ⟨rows, hp, hdesc⟩ := exists_descending (asked t pID)
    refine ⟨rows, hp, hdesc, ?_⟩
    by_cases hrefused : ulCount = 0 ∧ ulIndex ≠ 0
    · rw [deleteLogFrom_refused hclosed hrefused, LogTable.eq_remove_iff]
      intro r hr
      rcases hlogs with hnothing | hapart
      · have hnone : positions ulIndex ulCount rows = [] :=
          positions_eq_nil_iff.mpr (hp.length_eq ▸ hnothing.1)
        simp [hnone]
      · exact absurd hrefused (not_and_or.mpr (hapart.limited.imp id not_not.mpr))
    · rw [deleteLogFrom_taken hclosed hrefused, ← exactly_iff]
      rcases hlogs with hnothing | hapart
      · exact hnothing.exactly hrefused hp
      · exact hapart.exactly hp hdesc

end Deletes

/-- All but the newest of two logs are to go, and none does. -/
theorem second_log_kept : ¬Deletes (twoLogs 1000 2000) none 1 0 := by
  intro h
  obtain ⟨rows, hp, -, hrows⟩ := h (twoLogs 1000 2000)
  have hone : (1 : UInt32) ≠ 0 := by decide
  rw [deleteLogFrom_refused rfl ⟨rfl, hone⟩, LogTable.eq_remove_iff] at hrows
  have hnone : positions 1 0 rows = [] := by
    refine List.eq_nil_iff_forall_not_mem.mpr fun a ha => ?_
    exact of_decide_eq_false (hrows a (mem_of_mem_positions hp ha)) ha
  rw [positions_eq_nil_iff, hp.length_eq] at hnone
  exact absurd hnone (by decide)

end Catchb.Proofs.LogDeletion
