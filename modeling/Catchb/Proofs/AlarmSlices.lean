import Catchb.Alarms
import Catchb.Proofs.Iterations

/-! When the alarms that are read are a slice of the list. -/

namespace Catchb.Proofs.AlarmSlices
open Lib Sequence Iterations Alarms

variable {γ : Type} {f : FtmAlarm → γ} {s : Alarms} {ps xs : List Ptr} {ys : List γ}
  {i c ulIndex ulMaxCount : UInt32} {n : Nat}

/-- The copying loop over a plain sequence. -/
def copied (ulIndex ulMaxCount : UInt32) : List γ → UInt32 → UInt32 → List γ × UInt32
  | [], _, c => ([], c)
  | y :: ys, i, c =>
    let out := if i ≥ ulIndex then [y] else []
    let c := if i ≥ ulIndex then c + 1 else c
    if c ≥ ulMaxCount then (out, c)
    else
      let rest := copied ulIndex ulMaxCount ys (i + 1) c
      (out ++ rest.1, rest.2)

/-- The positions from the index on, as many as are asked for. -/
def slice (ulIndex ulMaxCount : UInt32) (ys : List γ) : List γ :=
  (ys.drop ulIndex.toNat).take ulMaxCount.toNat

def contents (f : FtmAlarm → γ) (s : Alarms) (xs : List Ptr) : List γ :=
  xs.map (fun p => f (s.memory p))

theorem copyLoop_eq (h : Behind ps xs s.pAlarmList n) {fuel : Nat} (hfuel : xs.length < n + fuel) :
    ∃ s', copyLoop f ulIndex ulMaxCount fuel i c s =
        some (copied ulIndex ulMaxCount (contents f s (xs.drop n)) i c, s') ∧
      Holds s'.pAlarmList.toFtmList ps xs ∧ s'.memory = s.memory := by
  induction fuel generalizing n i c s with
  | zero =>
    have hle := h.le
    rw [h.holds.length] at hle
    omega
  | succ fuel ih =>
    rw [copyLoop]
    cases hx : xs[n]? with
    | none =>
      obtain ⟨l', hnext, hbehind⟩ := h.next_none hx
      rw [hnext, List.drop_of_length_le (List.getElem?_eq_none_iff.mp hx)]
      exact ⟨{ s with pAlarmList := l' }, rfl, hbehind.holds, rfl⟩
    | some x =>
      obtain ⟨l', hnext, hbehind⟩ := h.next_some hx
      obtain ⟨hn, hget⟩ := List.getElem?_eq_some_iff.mp hx
      have hdrop : contents f s (xs.drop n) = f (s.memory x) :: contents f s (xs.drop (n + 1)) := by
        rw [← List.getElem_cons_drop hn, hget]
        rfl
      have hrest (c : UInt32) := ih (s := { s with pAlarmList := l' }) (i := i + 1) (c := c) hbehind
        (by omega)
      rw [hnext, hdrop, copied]
      by_cases hi : i ≥ ulIndex
      · simp only [hi, ↓reduceIte]
        split
        · exact ⟨_, rfl, hbehind.holds, rfl⟩
        · obtain ⟨s', hloop, hholds, hmemory⟩ := hrest (c + 1)
          refine ⟨s', ?_, hholds, hmemory⟩
          rw [hloop]
          rfl
      · simp only [hi, ↓reduceIte]
        split
        · exact ⟨_, rfl, hbehind.holds, rfl⟩
        · obtain ⟨s', hloop, hholds, hmemory⟩ := hrest c
          refine ⟨s', ?_, hholds, hmemory⟩
          rw [hloop]
          rfl

theorem copyList_eq (f : FtmAlarm → γ) (i ulIndex ulMaxCount : UInt32)
    (h : Holds s.pAlarmList.toFtmList ps xs) :
    ∃ s', copyList f i ulIndex ulMaxCount s =
        some (copied ulIndex ulMaxCount (contents f s xs) i 0, s') ∧
      Holds s'.pAlarmList.toFtmList ps xs ∧ s'.memory = s.memory := by
  have hfuel : xs.length < 0 + FtmList.fuel := by
    rw [Nat.zero_add, ← h.length]
    exact length_lt_fuel h.ring.distinct
  have hstart : Behind ps xs
      { s with pAlarmList := s.pAlarmList.iteratorStart }.pAlarmList 0 := start_behind h
  exact copyLoop_eq hstart hfuel

theorem copied_last (hi : ulIndex ≤ i) (hc : ulMaxCount ≤ c + 1) (y : γ) (ys : List γ) :
    copied ulIndex ulMaxCount (y :: ys) i c = ([y], c + 1) := by
  simp [copied, hi, hc]

theorem copied_copy (hi : ulIndex ≤ i) (hc : c + 1 < ulMaxCount) (y : γ) (ys : List γ) :
    copied ulIndex ulMaxCount (y :: ys) i c =
      (y :: (copied ulIndex ulMaxCount ys (i + 1) (c + 1)).1,
        (copied ulIndex ulMaxCount ys (i + 1) (c + 1)).2) := by
  simp [copied, hi, UInt32.not_le.mpr hc]

theorem copied_pass (hi : i < ulIndex) (hc : c < ulMaxCount) (y : γ) (ys : List γ) :
    copied ulIndex ulMaxCount (y :: ys) i c = copied ulIndex ulMaxCount ys (i + 1) c := by
  simp [copied, UInt32.not_le.mpr hi, UInt32.not_le.mpr hc]

theorem add_ofNat_succ (i : UInt32) (j : Nat) :
    i + UInt32.ofNat (j + 1) = i + 1 + UInt32.ofNat j := by
  rw [UInt32.ofNat_add, UInt32.add_comm (UInt32.ofNat j), ← UInt32.add_assoc]
  rfl

theorem toNat_add_ofNat {i : UInt32} {j : Nat} (h : i.toNat + j < UInt32.size) :
    (i + UInt32.ofNat j).toNat = i.toNat + j := by
  rw [UInt32.toNat_add, UInt32.toNat_ofNat', Nat.add_mod_mod]
  exact Nat.mod_eq_of_lt h

/-- While the counter is below the index nothing is copied. -/
theorem copied_skip (hc : c < ulMaxCount) (zs : List γ)
    (hi : ∀ j < zs.length, i + UInt32.ofNat j < ulIndex) :
    copied ulIndex ulMaxCount (zs ++ ys) i c =
      copied ulIndex ulMaxCount ys (i + UInt32.ofNat zs.length) c := by
  induction zs generalizing i with
  | nil => simp
  | cons z zs ih =>
    have hz : i < ulIndex := by simpa using hi 0 (by simp)
    rw [List.cons_append, copied_pass hz hc, ih, List.length_cons, add_ofNat_succ]
    intro j hj
    rw [← add_ofNat_succ]
    exact hi (j + 1) (by simpa using hj)

/-- From the index on everything is, while fewer are copied than asked for. -/
theorem copied_append (zs : List γ) (hc : c.toNat + zs.length < ulMaxCount.toNat)
    (hi : ∀ j < zs.length, ulIndex ≤ i + UInt32.ofNat j) :
    copied ulIndex ulMaxCount (zs ++ ys) i c =
      (zs ++ (copied ulIndex ulMaxCount ys (i + UInt32.ofNat zs.length)
          (c + UInt32.ofNat zs.length)).1,
        (copied ulIndex ulMaxCount ys (i + UInt32.ofNat zs.length)
          (c + UInt32.ofNat zs.length)).2) := by
  induction zs generalizing i c with
  | nil => simp
  | cons z zs ih =>
    have hz : ulIndex ≤ i := by simpa using hi 0 (by simp)
    have hmax : ulMaxCount.toNat < UInt32.size := ulMaxCount.toNat_lt
    rw [List.length_cons] at hc
    have hsucc : (c + 1).toNat = c.toNat + 1 := toNat_add_ofNat (j := 1) (by omega)
    have hlt : c + 1 < ulMaxCount := by
      rw [UInt32.lt_iff_toNat_lt, hsucc]
      omega
    rw [List.cons_append, copied_copy hz hlt, ih, List.length_cons, add_ofNat_succ,
      add_ofNat_succ]
    · rfl
    · omega
    · intro j hj
      rw [← add_ofNat_succ]
      exact hi (j + 1) (by simpa using hj)

/-- Where the counter stays at the index or above, the loop copies as many as are still asked
for. -/
theorem copied_take {m : Nat} (hm : c.toNat + m = ulMaxCount.toNat) (hpos : 0 < m)
    (hi : ∀ j < ys.length, j < m → ulIndex ≤ i + UInt32.ofNat j) :
    (copied ulIndex ulMaxCount ys i c).1 = ys.take m := by
  have hmax : ulMaxCount.toNat < UInt32.size := ulMaxCount.toNat_lt
  by_cases hlen : ys.length < m
  · have happend : copied ulIndex ulMaxCount (ys ++ []) i c = _ :=
      copied_append ys (by omega) (fun j hj => hi j hj (by omega))
    rw [List.append_nil] at happend
    rw [happend, copied, List.append_nil, List.take_of_length_le (by omega)]
  · obtain ⟨m, rfl⟩ : ∃ k, m = k + 1 := ⟨m - 1, by omega⟩
    have hlast : m < ys.length := by omega
    have hlength : (ys.take m).length = m := by simp; omega
    have hsplit : ys.take m ++ (ys[m] :: ys.drop (m + 1)) = ys := by
      rw [List.getElem_cons_drop, List.take_append_drop]
    have happend : copied ulIndex ulMaxCount (ys.take m ++ (ys[m] :: ys.drop (m + 1))) i c = _ :=
      copied_append (ys.take m) (by rw [hlength]; omega)
        (fun j hj => hi j (by omega) (by omega))
    have hcount : (c + UInt32.ofNat m).toNat = c.toNat + m := toNat_add_ofNat (by omega)
    have hcount' : (c + UInt32.ofNat m + 1).toNat = c.toNat + m + 1 := by
      rw [← hcount]
      exact toNat_add_ofNat (j := 1) (by omega)
    rw [hsplit, hlength, copied_last (hi m hlast (by omega))] at happend
    · rw [happend]
      exact List.take_append_getElem hlast
    · rw [UInt32.le_iff_toNat_le, hcount']
      omega

/-- The counter and the count are never confused: the count is that of the copies. -/
theorem copied_count (hc : c.toNat + 1 < UInt32.size) :
    (copied ulIndex ulMaxCount ys i c).2.toNat =
      c.toNat + (copied ulIndex ulMaxCount ys i c).1.length := by
  induction ys generalizing i c with
  | nil => rfl
  | cons y ys ih =>
    have hsucc : (c + 1).toNat = c.toNat + 1 := toNat_add_ofNat (j := 1) hc
    have hmax : ulMaxCount.toNat < UInt32.size := ulMaxCount.toNat_lt
    by_cases hi : ulIndex ≤ i
    · by_cases hlast : ulMaxCount ≤ c + 1
      · rw [copied_last hi hlast, hsucc]
        rfl
      · have hlt := UInt32.not_le.mp hlast
        rw [copied_copy hi hlt, List.length_cons, ih, hsucc]
        · omega
        · rw [UInt32.lt_iff_toNat_lt] at hlt
          omega
    · by_cases hstop : ulMaxCount ≤ c
      · simp [copied, hi, hstop]
      · rw [copied_pass (UInt32.not_le.mp hi) (UInt32.not_le.mp hstop)]
        exact ih hc

/-- A counter that reaches the index after `k` alarms, and does not wrap, leaves out `k`. -/
theorem copied_drop {k : Nat} (hpos : 0 < ulMaxCount.toNat) (hk : i.toNat + k = ulIndex.toNat)
    (hwrap : ulIndex.toNat + min ulMaxCount.toNat (ys.length - k) ≤ UInt32.size) :
    (copied ulIndex ulMaxCount ys i 0).1 = (ys.drop k).take ulMaxCount.toNat := by
  have hsize : ulIndex.toNat < UInt32.size := ulIndex.toNat_lt
  have hskip : copied ulIndex ulMaxCount (ys.take k ++ ys.drop k) i 0 = _ :=
    copied_skip (UInt32.lt_iff_toNat_lt.mpr (by simpa using hpos)) (ys.take k) (by
      intro j hj
      have hj' : j < k := (List.length_take_le k ys).trans_lt' hj
      rw [UInt32.lt_iff_toNat_lt, toNat_add_ofNat (by omega)]
      omega)
  rw [List.take_append_drop] at hskip
  rw [hskip]
  refine copied_take (Nat.zero_add _) hpos fun j hj hjm => ?_
  rw [List.length_drop] at hj
  have hlength : (ys.take k).length = k := by simp; omega
  have hbase : (i + UInt32.ofNat k).toNat = i.toNat + k := toNat_add_ofNat (by omega)
  rw [hlength, UInt32.le_iff_toNat_le, toNat_add_ofNat (by omega)]
  omega

/-- As many as are asked for are there, and up to them all are the same. -/
def Alike (n : Nat) (ys : List γ) : Prop := ∃ v, ys.take n = List.replicate n v

theorem Alike.length {n : Nat} (h : Alike n ys) : n ≤ ys.length := by
  obtain ⟨v, hv⟩ := h
  have hlength := congrArg List.length hv
  rw [List.length_take, List.length_replicate] at hlength
  omega

theorem window_of_take {k m n : Nat} {v : γ} (h : ys.take n = List.replicate n v)
    (hn : k + m ≤ n) : (ys.drop k).take m = List.replicate m v := by
  have hpre : ys.take (k + m) = List.replicate (k + m) v := by
    rw [← Nat.min_eq_left hn, ← List.take_take, h, List.take_replicate]
  rw [List.take_drop, hpre, List.drop_replicate, Nat.add_sub_cancel_left]

/-- Where the windows at all places up to `k` hold the same, they hold one element. -/
theorem alike_of_windows {k m : Nat} (hk : 0 < k) (hm : 0 < m) (hlen : k + m ≤ ys.length)
    (h : ∀ j ≤ k, (ys.drop j).take m = (ys.drop k).take m) : Alike (k + m) ys := by
  have hplace : ∀ j ≤ k, ∀ r < m, ys[j + r]? = ys[k + r]? := by
    intro j hj r hr
    have hget := congrArg (fun zs => zs[r]?) (h j hj)
    simpa [List.getElem?_take_of_lt hr, List.getElem?_drop] using hget
  have hnext : ∀ p, p + 1 < k + m → ys[p + 1]? = ys[p]? := by
    intro p hp
    obtain ⟨q, r, hq, hr, rfl⟩ : ∃ q r, q + 1 ≤ k ∧ r < m ∧ p = q + r :=
      ⟨min p (k - 1), p - min p (k - 1), by omega, by omega, by omega⟩
    rw [hplace q (by omega) r hr, ← hplace (q + 1) hq r hr, Nat.add_right_comm]
  have hfirst : ∀ p < k + m, ys[p]? = ys[0]? := by
    intro p hp
    induction p with
    | zero => rfl
    | succ p ih => rw [hnext p hp, ih (by omega)]
  have hzero : 0 < ys.length := by omega
  refine ⟨ys[0], List.eq_replicate_iff.mpr ⟨by rw [List.length_take]; omega, ?_⟩⟩
  intro b hb
  obtain ⟨p, hp, hget⟩ := List.mem_iff_getElem.mp hb
  rw [List.length_take] at hp
  rw [List.getElem_take] at hget
  have h0 := hfirst p (by omega)
  rw [List.getElem?_eq_getElem (by omega), List.getElem?_eq_getElem hzero, hget] at h0
  exact Option.some.inj h0

/-- The reading is the slice whatever the counter is set to. -/
def ForEach (ulIndex ulMaxCount : UInt32) (ys : List γ) : Prop :=
  ∀ i, (copied ulIndex ulMaxCount ys i 0).1 = slice ulIndex ulMaxCount ys

theorem ForEach.count_pos (h : ForEach ulIndex ulMaxCount ys) (hne : ys ≠ []) :
    0 < ulMaxCount.toNat := by
  by_contra hzero
  have hmax : ulMaxCount.toNat = 0 := by omega
  cases ys with
  | nil => exact hne rfl
  | cons y ys =>
    have hslice := h ulIndex
    rw [copied_last (UInt32.le_refl _), slice, hmax, List.take_zero] at hslice
    · cases hslice
    · rw [UInt32.le_iff_toNat_le, hmax]
      exact Nat.zero_le _

/-- A counter set to the index finds the first alarm. -/
theorem ForEach.index_lt (h : ForEach ulIndex ulMaxCount ys) (hne : ys ≠ []) :
    ulIndex.toNat < ys.length := by
  by_contra hlen
  have hslice := h ulIndex
  rw [slice, List.drop_of_length_le (by omega), List.take_nil] at hslice
  cases ys with
  | nil => exact hne rfl
  | cons y ys =>
    by_cases hlast : ulMaxCount ≤ 0 + 1
    · rw [copied_last (UInt32.le_refl _) hlast] at hslice
      cases hslice
    · rw [copied_copy (UInt32.le_refl _) (UInt32.not_le.mp hlast)] at hslice
      cases hslice

/-- A counter set to one leaves out one alarm less than it should. -/
theorem ForEach.length_le (h : ForEach ulIndex ulMaxCount ys) (hsize : ys.length < UInt32.size)
    (hne : ys ≠ []) (hindex : 0 < ulIndex.toNat) :
    ulIndex.toNat + ulMaxCount.toNat ≤ ys.length := by
  have hpos := h.count_pos hne
  have hlt := h.index_lt hne
  have hslice := h 1
  rw [copied_drop (k := ulIndex.toNat - 1) hpos (by simp; omega) (by omega), slice] at hslice
  have hlength := congrArg List.length hslice
  rw [List.length_take, List.length_drop, List.length_take, List.length_drop] at hlength
  omega

theorem ForEach.alike (h : ForEach ulIndex ulMaxCount ys) (hsize : ys.length < UInt32.size)
    (hne : ys ≠ []) (hindex : 0 < ulIndex.toNat) :
    Alike (ulIndex.toNat + ulMaxCount.toNat) ys := by
  have hpos := h.count_pos hne
  have hlen := h.length_le hsize hne hindex
  refine alike_of_windows hindex hpos hlen fun j hj => ?_
  have hsub : (UInt32.ofNat (ulIndex.toNat - j)).toNat + j = ulIndex.toNat := by
    rw [UInt32.toNat_ofNat_of_lt']
    · omega
    · exact (Nat.sub_le _ _).trans_lt ulIndex.toNat_lt
  rw [← copied_drop hpos hsub (by omega)]
  exact h _

/-- A counter that wraps takes the alarms up to there, and the rest of them further on. -/
theorem copied_wrap (hpos : 0 < ulIndex.toNat) (hi : ulIndex ≤ i)
    (hwrap : UInt32.size < i.toNat + ulMaxCount.toNat) {k : Nat} (hk : i.toNat + k = UInt32.size)
    (hlen : ulIndex.toNat + k ≤ ys.length) (hsize : ys.length < UInt32.size) :
    (copied ulIndex ulMaxCount ys i 0).1 =
      ys.take k ++ (ys.drop (k + ulIndex.toNat)).take (ulMaxCount.toNat - k) := by
  have hmax : ulMaxCount.toNat < UInt32.size := ulMaxCount.toNat_lt
  have hindex : (0 + UInt32.ofNat ulIndex.toNat).toNat = ulIndex.toNat := by simp
  have hile := UInt32.le_iff_toNat_le.mp hi
  have hlength : (ys.take k).length = k := by simp; omega
  have hlength' : ((ys.drop k).take ulIndex.toNat).length = ulIndex.toNat := by simp; omega
  have hzero : i + UInt32.ofNat k = 0 := by
    rw [← UInt32.toNat_inj, UInt32.toNat_add, UInt32.toNat_ofNat', Nat.add_mod_mod, hk]
    rfl
  have hcount : (0 + UInt32.ofNat k).toNat = k := by
    rw [toNat_add_ofNat (by simp; omega)]
    simp
  have happend : copied ulIndex ulMaxCount (ys.take k ++ ys.drop k) i 0 = _ :=
    copied_append (ys.take k) (by simp; omega) (by
      intro j hj
      rw [UInt32.le_iff_toNat_le, toNat_add_ofNat (by omega)]
      omega)
  have hskip : copied ulIndex ulMaxCount
      ((ys.drop k).take ulIndex.toNat ++ (ys.drop k).drop ulIndex.toNat) 0
      (0 + UInt32.ofNat k) = _ :=
    copied_skip (by rw [UInt32.lt_iff_toNat_lt, hcount]; omega) _ (by
      intro j hj
      rw [UInt32.lt_iff_toNat_lt, toNat_add_ofNat (by simp; omega)]
      simp
      omega)
  rw [List.take_append_drop, hlength, hzero] at happend
  rw [List.take_append_drop, hlength'] at hskip
  rw [happend, hskip, List.drop_drop, copied_take (m := ulMaxCount.toNat - k)]
  · rw [hcount]
    omega
  · omega
  · intro j hj hjm
    rw [List.length_drop] at hj
    rw [UInt32.le_iff_toNat_le, toNat_add_ofNat (by omega), hindex]
    omega

/-- From alarms that are alike any counter takes the same copies. -/
theorem forEach_of_alike (hpos : 0 < ulMaxCount.toNat) (hindex : 0 < ulIndex.toNat)
    (h : Alike (ulIndex.toNat + ulMaxCount.toNat) ys) (hsize : ys.length < UInt32.size) :
    ForEach ulIndex ulMaxCount ys := by
  intro i
  have hlen := h.length
  obtain ⟨v, hv⟩ := h
  rw [slice, window_of_take hv (Nat.le_refl _)]
  by_cases hi : ulIndex ≤ i
  · have hile := UInt32.le_iff_toNat_le.mp hi
    by_cases hwrap : i.toNat + ulMaxCount.toNat ≤ UInt32.size
    · rw [copied_take (Nat.zero_add _) hpos]
      · rw [← List.drop_zero (l := ys), window_of_take hv (by omega)]
      · intro j _ hj
        rw [UInt32.le_iff_toNat_le, toNat_add_ofNat (by omega)]
        omega
    · have hi' : i.toNat < UInt32.size := i.toNat_lt
      have hmax : ulMaxCount.toNat < UInt32.size := ulMaxCount.toNat_lt
      have hk : i.toNat + (UInt32.size - i.toNat) = UInt32.size := by omega
      rw [copied_wrap hindex hi (by omega) hk (by omega) hsize,
        ← List.drop_zero (l := ys), window_of_take hv (by omega), List.drop_zero,
        window_of_take hv (by omega), ← List.replicate_add]
      congr 1
      omega
  · rw [UInt32.not_le, UInt32.lt_iff_toNat_lt] at hi
    have hk : i.toNat + (ulIndex.toNat - i.toNat) = ulIndex.toNat := by omega
    rw [copied_drop hpos hk (by omega), window_of_take hv (by omega)]

theorem forEach_iff (hsize : ys.length < UInt32.size) :
    ForEach ulIndex ulMaxCount ys ↔ ys = [] ∨ 0 < ulMaxCount.toNat ∧
      (ulIndex.toNat = 0 ∨ Alike (ulIndex.toNat + ulMaxCount.toNat) ys) := by
  constructor
  · intro h
    rw [or_iff_not_imp_left]
    intro hne
    refine ⟨h.count_pos hne, ?_⟩
    rcases Nat.eq_zero_or_pos ulIndex.toNat with hzero | hindex
    · exact .inl hzero
    · exact .inr (h.alike hsize hne hindex)
  · rintro (rfl | ⟨hpos, halike⟩)
    · intro i
      simp [copied, slice]
    · rcases Nat.eq_zero_or_pos ulIndex.toNat with hzero | hindex
      · intro i
        obtain rfl : ulIndex = 0 := UInt32.toNat_inj.mp hzero
        rw [slice, hzero, List.drop_zero]
        exact copied_take (Nat.zero_add _) hpos fun j _ _ => UInt32.zero_le
      · exact forEach_of_alike hpos hindex (halike.resolve_left hindex.ne') hsize

/-- The call returns `ys` and their number, and changes no alarm. -/
def Gives (ys : List γ) (outcome : Option ((List γ × UInt32) × Alarms)) (s : Alarms)
    (ps xs : List Ptr) : Prop :=
  ∃ ulCount s', outcome = some ((ys, ulCount), s') ∧ ulCount.toNat = ys.length ∧
    Holds s'.pAlarmList.toFtmList ps xs ∧ s'.memory = s.memory

theorem gives_iff (h : Holds s.pAlarmList.toFtmList ps xs) :
    Gives ys (copyList f i ulIndex ulMaxCount s) s ps xs ↔
      (copied ulIndex ulMaxCount (contents f s xs) i 0).1 = ys := by
  obtain ⟨s', hcopy, hholds, hmemory⟩ := copyList_eq f i ulIndex ulMaxCount h
  constructor
  · rintro ⟨ulCount, s'', hcopy', -, -, -⟩
    rw [hcopy] at hcopy'
    exact congrArg (fun r => r.1.1) (Option.some.inj hcopy')
  · rintro rfl
    refine ⟨_, s', hcopy, ?_, hholds, hmemory⟩
    exact (copied_count (by decide)).trans (Nat.zero_add _)

/-- Both readings are the slice, the names whatever `i` holds before it is set. -/
def Sliced (ulIndex ulMaxCount : UInt32) (s : Alarms) (ps xs : List Ptr) : Prop :=
  Gives (slice ulIndex ulMaxCount (contents id s xs)) (getAlarmList ulIndex ulMaxCount s) s ps xs ∧
  ∀ i, Gives (slice ulIndex ulMaxCount (contents (fun pAlarm => pAlarm.pName.val) s xs))
    (Alarms.getAlarmNameList i ulIndex ulMaxCount s) s ps xs

/-- Only the first alarms are read as they should be, or those of a list whose names are all
one up to there, and none of them where none is asked for. -/
theorem alarms_sliced_iff (h : Holds s.pAlarmList.toFtmList ps xs) :
    Sliced ulIndex ulMaxCount s ps xs ↔ xs = [] ∨ 0 < ulMaxCount.toNat ∧
      (ulIndex.toNat = 0 ∨ Alike (ulIndex.toNat + ulMaxCount.toNat)
        (contents (fun pAlarm => pAlarm.pName.val) s xs)) := by
  have hsize : xs.length < UInt32.size := by
    rw [← h.length]
    exact length_lt_fuel h.ring.distinct
  have hlist : 0 < ulMaxCount.toNat →
      (copied ulIndex ulMaxCount (contents id s xs) 0 0).1 =
        slice ulIndex ulMaxCount (contents id s xs) := by
    intro hpos
    have hindex : ulIndex.toNat < UInt32.size := ulIndex.toNat_lt
    refine copied_drop hpos (Nat.zero_add _) ?_
    rw [contents, List.length_map]
    omega
  have hlength : (contents (fun pAlarm => pAlarm.pName.val) s xs).length < UInt32.size := by
    rwa [contents, List.length_map]
  have hnames : ForEach ulIndex ulMaxCount _ ↔ _ := forEach_iff hlength
  have hnil : contents (fun pAlarm => pAlarm.pName.val) s xs = [] ↔ xs = [] := List.map_eq_nil_iff
  simp only [Sliced, getAlarmList, Alarms.getAlarmNameList, gives_iff h]
  rw [hnil] at hnames
  constructor
  · rintro ⟨-, hall⟩
    exact hnames.mp hall
  · intro hwhen
    refine ⟨?_, hnames.mpr hwhen⟩
    rcases hwhen with rfl | ⟨hpos, -⟩
    · simp [contents, copied, slice]
    · exact hlist hpos

/-- The services' reading of the names is this loop. -/
theorem copied_names (ulIndex ulMaxCount i c : UInt32) (ys : List UserName) :
    (copied ulIndex ulMaxCount ys i c).1 =
      Catchb.getAlarmNameList ulIndex ulMaxCount i c ys := by
  induction ys generalizing i c with
  | nil => rfl
  | cons y ys ih =>
    rw [Catchb.getAlarmNameList, ← ih, ← ih]
    by_cases hi : ulIndex ≤ i
    · by_cases hlast : ulMaxCount ≤ c + 1
      · simp [copied, hi, hlast]
      · simp [copied, hi, hlast]
    · by_cases hstop : ulMaxCount ≤ c
      · simp [copied, hi, hstop]
      · simp [copied, hi, hstop]

def named (pName : Text) : FtmAlarm := ⟨Field.copy 32 pName, Field.empty 128, Field.empty 1024⟩

/-- Two alarms at 64 and 80, in entries at 8 and 16, with the head at 100. -/
def twoAlarms : Alarms where
  pAlarmList :=
    { ulCount := 2
      xHead := 100
      entries := fun p =>
        if p = 100 then ⟨16, 8, none⟩ else if p = 8 then ⟨100, 16, some 64⟩ else ⟨8, 100, some 80⟩
      allocated := [8, 16]
      pIter := 100
      fSeeker := none
      fComparator := none
      bIterator := false }
  memory := fun p => if p = 64 then named "door".toList else named "gate".toList

theorem twoAlarms_hold : Holds twoAlarms.pAlarmList.toFtmList [8, 16] [64, 80] where
  ring := ⟨⟨rfl, rfl, rfl⟩, ⟨rfl, rfl, rfl⟩, by decide⟩
  data := rfl
  live := fun _ hp => hp
  count := rfl

theorem first_alarm_read : Sliced 0 1 twoAlarms [8, 16] [64, 80] :=
  (alarms_sliced_iff twoAlarms_hold).mpr (.inr ⟨by decide, .inl rfl⟩)

/-- The second name is asked for, and what `i` holds is past the index: the first is returned. -/
theorem second_name_missed : ¬Sliced 1 1 twoAlarms [8, 16] [64, 80] := by
  rintro ⟨-, hnames⟩
  have hcopied := (gives_iff twoAlarms_hold).mp (hnames 7)
  exact absurd hcopied (by decide)

end Catchb.Proofs.AlarmSlices
