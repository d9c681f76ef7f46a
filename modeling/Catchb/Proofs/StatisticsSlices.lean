import Catchb.Proofs.StatisticsKept

/-! What is deleted of the statistics, and what is read of them, are slices of the list. -/

namespace Catchb.Proofs.StatisticsSlices
open Lib StatisticsStore StatisticsKept

/-- An entry's time is not in the interval, which does not hold its end. -/
def outside (ulFirstTime ulLastTime : UInt32) (x : FtmStatistics) : Bool :=
  !(decide (ulFirstTime ≤ x.tv_sec) && decide (x.tv_sec < ulLastTime))

/-- The oldest entry comes first. -/
def Sorted (s : StatisticsStore) : Prop := (entries s).Pairwise (fun x y => x.tv_sec ≤ y.tv_sec)

variable {s : StatisticsStore} {p : Ptr} {i : Nat} {ulFirstTime ulLastTime : UInt32}

/-- The list at a position that it has. -/
theorem entries_split (hp : s.pStatisticsList[i]? = some p) :
    ∃ xs ys, xs.length = i ∧ entries s = xs ++ s.heap.memory p :: ys ∧
      entries (s.release i p) = xs ++ ys := by
  obtain ⟨hi, hget⟩ := List.getElem?_eq_some_iff.mp hp
  refine ⟨(s.pStatisticsList.take i).map s.heap.memory,
    (s.pStatisticsList.drop (i + 1)).map s.heap.memory, ?_, ?_, ?_⟩
  · rw [List.length_map, List.length_take, Nat.min_eq_left hi.le]
  · rw [← List.map_cons, ← List.map_append, ← hget, List.getElem_cons_drop,
      List.take_append_drop]
    rfl
  · rw [entries, release, Heap.memory_free, List.eraseIdx_eq_take_drop_succ, List.map_append]

theorem length_le_of_none (hp : s.pStatisticsList[i]? = none) : (entries s).length ≤ i := by
  rw [length_entries]
  exact List.getElem?_eq_none_iff.mp hp

theorem entries_delStatistics (i n : Nat) (s : StatisticsStore) :
    entries (delStatistics i n s) = (entries s).take i ++ (entries s).drop (i + n) := by
  induction n generalizing s with
  | zero => rw [delStatistics, Nat.add_zero, List.take_append_drop]
  | succ n ih =>
    rw [delStatistics]
    cases hp : s.pStatisticsList[i]? with
    | none =>
      have hlen := length_le_of_none hp
      rw [List.take_of_length_le hlen, List.drop_of_length_le (by omega), List.append_nil]
    | some p =>
      obtain ⟨xs, ys, rfl, hs, hrelease⟩ := entries_split hp
      -- the positions behind the removed one move up by one
      rw [ih, hrelease, hs, List.take_left, List.take_left, List.drop_length_add_append,
        List.drop_length_add_append, List.drop_succ_cons]

theorem getStatisticsList_eq (i n : Nat) (hl : Live s) :
    getStatisticsList i n s = (((entries s).drop i).take n, s) := by
  induction n generalizing i with
  | zero => rfl
  | succ n ih =>
    rw [getStatisticsList]
    cases hp : s.pStatisticsList[i]? with
    | none => rw [List.drop_of_length_le (length_le_of_none hp), List.take_nil]
    | some p =>
      obtain ⟨xs, ys, rfl, hs, -⟩ := entries_split hp
      simp only [touched hl hp, ih]
      rw [hs, List.drop_left, List.take_succ_cons, List.drop_length_add_append, List.drop_one,
        List.tail_cons]

/-- The entries up to the loop's position are kept, and the turns that are left reach the end. -/
theorem entries_delBetween (hl : Live s) (hs : Sorted s) {n : Nat}
    (hn : (entries s).length ≤ i + n) :
    entries (delBetween ulFirstTime ulLastTime n i s) = (entries s).take i ++
      ((entries s).drop i).filter (outside ulFirstTime ulLastTime) := by
  induction n generalizing i s with
  | zero =>
    rw [Nat.add_zero] at hn
    rw [delBetween, List.take_of_length_le hn, List.drop_of_length_le hn, List.filter_nil,
      List.append_nil]
  | succ n ih =>
    rw [delBetween]
    cases hp : s.pStatisticsList[i]? with
    | none =>
      have hlen := length_le_of_none hp
      rw [List.take_of_length_le hlen, List.drop_of_length_le hlen, List.filter_nil,
        List.append_nil]
    | some p =>
      obtain ⟨xs, ys, rfl, hsplit, hrelease⟩ := entries_split hp
      have hsorted := hs
      rw [Sorted, hsplit] at hsorted
      have hlater := (List.pairwise_cons.mp (List.pairwise_append.mp hsorted).2.1).1
      simp only [touched hl hp]
      split
      · rename_i hearly
        have hkeep : outside ulFirstTime ulLastTime (s.heap.memory p) = true := by
          rw [outside, decide_eq_false (UInt32.not_le.mpr hearly)]
          rfl
        rw [ih hl hs (by omega), hsplit, List.take_length_add_append, List.drop_length_add_append,
          List.take_left, List.drop_left, List.filter_cons_of_pos hkeep, List.append_assoc]
        rfl
      · rename_i hearly
        split
        · rename_i hlate
          -- what follows is at least as late
          have hkeep : (s.heap.memory p :: ys).filter
              (outside ulFirstTime ulLastTime) = s.heap.memory p :: ys := by
            refine List.filter_eq_self.mpr ?_
            intro x hx
            have hle : ulLastTime ≤ x.tv_sec := by
              rcases List.mem_cons.mp hx with rfl | hx
              · exact hlate
              · exact UInt32.le_trans hlate (hlater x hx)
            rw [outside, decide_eq_false (UInt32.not_lt.mpr hle), Bool.and_false]
            rfl
          rw [hsplit, List.take_left, List.drop_left, hkeep]
        · rename_i hlate
          have hdrop : ¬outside ulFirstTime ulLastTime (s.heap.memory p) = true := by
            rw [outside, decide_eq_true (UInt32.not_lt.mp hearly),
              decide_eq_true (UInt32.not_le.mp hlate)]
            exact Bool.false_ne_true
          have hthin := thinned_release hl hp
          have hlength : (entries (s.release xs.length p)).length ≤ xs.length + n := by
            rw [hsplit, List.length_append, List.length_cons] at hn
            rw [hrelease, List.length_append]
            omega
          rw [ih hthin.live (hs.sublist hthin.sublist) hlength, hrelease, hsplit, List.take_left,
            List.drop_left, List.take_left, List.drop_left, List.filter_cons_of_neg hdrop]

/-- A deletion takes the entries of an interval, or the positions that it names, and leaves the
others as they are; a reading gives the positions that it names and leaves all. -/
theorem statistics_slices (hl : Live s) (ulIndex ulCount : UInt32) :
    (Sorted s → ∀ ulFirstTime ulLastTime,
      entries (delStatistics2 ulFirstTime ulLastTime s) =
        (entries s).filter (outside ulFirstTime ulLastTime)) ∧
    entries (delStatistics ulIndex.toNat ulCount.toNat s) =
      (entries s).take ulIndex.toNat ++ (entries s).drop (ulIndex.toNat + ulCount.toNat) ∧
    getStatisticsList ulIndex.toNat ulCount.toNat s =
      (((entries s).drop ulIndex.toNat).take ulCount.toNat, s) := by
  refine ⟨?_, entries_delStatistics _ _ s, getStatisticsList_eq _ _ hl⟩
  intro hs ulFirstTime ulLastTime
  have hlength : (entries s).length ≤ 0 + s.pStatisticsList.length := by
    rw [length_entries, Nat.zero_add]
  rw [delStatistics2, entries_delBetween hl hs hlength, List.take_zero, List.drop_zero,
    List.nil_append]

def statistics (tv_sec : UInt32) : FtmStatistics := ⟨tv_sec, 0, 0, 512, 256, 0, 0⟩

def filled : StatisticsStore :=
  (addStatistics (statistics 30) (some 3) (addStatistics (statistics 20) (some 2)
    (addStatistics (statistics 10) (some 1) (create 8)).2).2).2

theorem filled_sliced :
    entries (delStatistics2 15 30 filled) = [statistics 10, statistics 30] ∧
    entries (delStatistics 1 5 filled) = [statistics 10] ∧
    (getStatisticsList 1 5 filled).1 = [statistics 20, statistics 30] := by
  have hlive : Live filled := ⟨by decide, by decide, rfl⟩
  have hsorted : Sorted filled := by
    have hpair : (entries filled).Pairwise (fun x y => x.tv_sec ≤ y.tv_sec) := by decide
    exact hpair
  obtain ⟨hbetween, hdelete, hget⟩ := statistics_slices hlive 1 5
  exact ⟨hbetween hsorted 15 30, hdelete, congrArg Prod.fst hget⟩

end Catchb.Proofs.StatisticsSlices
