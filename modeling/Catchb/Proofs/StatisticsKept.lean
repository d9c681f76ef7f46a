import Catchb.StatisticsStore
import Catchb.Lib.Run

/-! When the list of statistics owns its blocks, in order and within its bound. -/

namespace Catchb.Proofs.StatisticsKept
open Lib Heap StatisticsStore

/-- The list owns the blocks that are handed out. -/
def Live (s : StatisticsStore) : Prop := Owns s.heap s.pStatisticsList

def entries (s : StatisticsStore) : List FtmStatistics := s.pStatisticsList.map s.heap.memory

/-- A store, with the last maximum that was set, and all that was added. -/
structure History where
  store : StatisticsStore
  ulMaxCount : UInt32
  added : List FtmStatistics

inductive Op
  | add (pStatistics : FtmStatistics) (answer : Option Ptr)
  | del (ulIndex ulCount : UInt32)
  | del2 (ulFirstTime ulLastTime : UInt32)
  | setMaxCount (ulMaxCount : UInt32)
  | getList (ulIndex ulMaxCount : UInt32)

def start (ulCount : UInt32) : History := ⟨create ulCount, ulCount, []⟩

def step (h : History) : Op → History
  | .add pStatistics answer =>
    { h with
      store := (addStatistics pStatistics answer h.store).2
      added := h.added ++ [pStatistics] }
  | .del ulIndex ulCount =>
    { h with store := delStatistics ulIndex.toNat ulCount.toNat h.store }
  | .del2 ulFirstTime ulLastTime =>
    { h with store := delStatistics2 ulFirstTime ulLastTime h.store }
  | .setMaxCount ulMaxCount => { h with store := setStatisticsMaxCount ulMaxCount h.store, ulMaxCount }
  | .getList ulIndex ulMaxCount =>
    { h with store := (getStatisticsList ulIndex.toNat ulMaxCount.toNat h.store).2 }

/-- There is memory for a new block, where one is asked for. -/
def Given (h : History) : Op → Prop
  | .add _ answer => h.store.pStatisticsList.length < h.store.ulCount.toNat →
      (h.store.heap.malloc answer).isSome
  | _ => True

instance (h : History) : ∀ op, Decidable (Given h op)
  | .add _ answer => inferInstanceAs (Decidable (h.store.pStatisticsList.length <
      h.store.ulCount.toNat → (h.store.heap.malloc answer).isSome = true))
  | .del .. | .del2 .. | .setMaxCount _ | .getList .. => .isTrue trivial

/-- What an addition makes of a list with this maximum. -/
def Appends (max : Nat) (x : FtmStatistics) (old new : List FtmStatistics) : Prop :=
  new = old ++ [x] ∨ old.length = max ∧ new = old.tail ++ [x]

/-- An operation leaves a list that owns its blocks, within its bound and in order. An addition
drops the oldest entry of a full list, and no other. -/
structure Kept (h : History) (op : Op) : Prop where
  live : Live (step h op).store
  bounded : (step h op).store.pStatisticsList.length ≤ (step h op).ulMaxCount.toNat
  ordered : (entries (step h op).store).Sublist (step h op).added
  oldest : ∀ x answer, op = .add x answer →
    Appends h.ulMaxCount.toNat x (entries h.store) (entries (step h op).store)

/-- The configuration's count and the last maximum say the same of a list that is added to, and a
new maximum is not below the list's length. -/
def Good (h : History) : Op → Prop
  | .add _ _ => h.store.pStatisticsList.length < h.store.ulCount.toNat ↔
      h.store.pStatisticsList.length < h.ulMaxCount.toNat
  | .setMaxCount ulMaxCount => h.store.pStatisticsList.length ≤ ulMaxCount.toNat
  | _ => True

instance (h : History) : ∀ op, Decidable (Good h op)
  | .add _ _ => inferInstanceAs (Decidable (h.store.pStatisticsList.length <
      h.store.ulCount.toNat ↔ h.store.pStatisticsList.length < h.ulMaxCount.toNat))
  | .setMaxCount ulMaxCount =>
    inferInstanceAs (Decidable (h.store.pStatisticsList.length ≤ ulMaxCount.toNat))
  | .del .. | .del2 .. | .getList .. => .isTrue trivial

structure Inv (h : History) : Prop where
  live : Live h.store
  bounded : h.store.pStatisticsList.length ≤ h.ulMaxCount.toNat
  ordered : (entries h.store).Sublist h.added
  configured : h.store.pStatisticsList.length ≤ h.store.ulCount.toNat
  positive : 0 < h.store.ulCount.toNat

/-- Some entries have gone, and nothing else has changed. -/
structure Thinned (s s' : StatisticsStore) : Prop where
  live : Live s'
  sublist : (entries s').Sublist (entries s)
  ulCount : s'.ulCount = s.ulCount

section
variable {s s' s'' : StatisticsStore} {h : History} {p : Ptr}

theorem Thinned.refl (hl : Live s) : Thinned s s := ⟨hl, List.Sublist.refl _, rfl⟩

theorem Thinned.trans (h : Thinned s s') (h' : Thinned s' s'') : Thinned s s'' :=
  ⟨h'.live, h'.sublist.trans h.sublist, h'.ulCount.trans h.ulCount⟩

theorem Thinned.length_le (h : Thinned s s') :
    s'.pStatisticsList.length ≤ s.pStatisticsList.length := by
  have hle := h.sublist.length_le
  rwa [entries, entries, List.length_map, List.length_map] at hle

theorem touched (hl : Live s) {i : Nat} (hp : s.pStatisticsList[i]? = some p) :
    s.heap.touch p = s.heap :=
  Owns.touch hl (List.mem_of_getElem? hp)

theorem thinned_release (hl : Live s) {i : Nat} (hp : s.pStatisticsList[i]? = some p) :
    Thinned s (s.release i p) := by
  obtain ⟨hi, hget⟩ := List.getElem?_eq_some_iff.mp hp
  refine ⟨?_, ?_, rfl⟩
  · have herase : s.pStatisticsList.eraseIdx i = s.pStatisticsList.erase p := by
      rw [← hget, hl.distinct.erase_getElem]
    rw [Live, release, herase]
    exact Owns.free hl (List.mem_of_getElem? hp)
  · rw [entries, entries, release, memory_free]
    exact (List.eraseIdx_sublist _ _).map _

theorem thinned_del (i n : Nat) (hl : Live s) : Thinned s (delStatistics i n s) := by
  induction n generalizing s with
  | zero => exact .refl hl
  | succ n ih =>
    rw [delStatistics]
    cases hp : s.pStatisticsList[i]? with
    | none => exact .refl hl
    | some p =>
      have hrelease := thinned_release hl hp
      exact hrelease.trans (ih hrelease.live)

theorem thinned_delBetween (ulFirstTime ulLastTime : UInt32) (n i : Nat) (hl : Live s) :
    Thinned s (delBetween ulFirstTime ulLastTime n i s) := by
  induction n generalizing s i with
  | zero => exact .refl hl
  | succ n ih =>
    rw [delBetween]
    cases hp : s.pStatisticsList[i]? with
    | none => exact .refl hl
    | some p =>
      have hrelease := thinned_release hl hp
      simp only [touched hl hp]
      split
      · exact ih (i + 1) hl
      · split
        · exact .refl hl
        · exact hrelease.trans (ih i hrelease.live)

/-- A list that owns its blocks is read without a fault. -/
theorem getList_store (i n : Nat) (hl : Live s) : (getStatisticsList i n s).2 = s := by
  induction n generalizing i with
  | zero => rfl
  | succ n ih =>
    rw [getStatisticsList]
    cases hp : s.pStatisticsList[i]? with
    | none => rfl
    | some p =>
      simp only [touched hl hp]
      exact ih (i + 1)

/-- An added entry comes last. -/
structure Added (x : FtmStatistics) (rest : List FtmStatistics) (s s' : StatisticsStore) : Prop where
  live : Live s'
  entries : entries s' = rest ++ [x]
  ulCount : s'.ulCount = s.ulCount

theorem add_room {x : FtmStatistics} {answer : Option Ptr} (hl : Live s)
    (hm : (s.heap.malloc answer).isSome)
    (hroom : s.pStatisticsList.length < s.ulCount.toNat) :
    Added x (entries s) s (addStatistics x answer s).2 := by
  obtain ⟨p, heap, hmalloc, hnew, howns, hmemory⟩ := Owns.malloc hl hm
  rw [addStatistics, if_pos hroom, hmalloc]
  refine ⟨howns.write (List.mem_append_right _ List.mem_cons_self), ?_, rfl⟩
  simp only [StatisticsKept.entries, memory_write, List.map_append, map_update hnew,
    List.map_singleton, Function.update_self, hmemory]

theorem add_full {x : FtmStatistics} {answer : Option Ptr} (hl : Live s)
    (hfull : s.ulCount.toNat ≤ s.pStatisticsList.length) (hne : s.pStatisticsList ≠ []) :
    Added x (entries s).tail s (addStatistics x answer s).2 := by
  obtain ⟨p, rest, hlist⟩ := List.exists_cons_of_ne_nil hne
  have hdistinct := hl.distinct
  rw [hlist, List.nodup_cons] at hdistinct
  have howns : Owns s.heap (rest ++ [p]) := by
    refine Owns.perm hl ?_
    rw [hlist]
    exact (List.perm_append_singleton p rest).symm
  rw [addStatistics, if_neg (Nat.not_lt.mpr hfull), hlist]
  refine ⟨howns.write (List.mem_append_right _ List.mem_cons_self), ?_, rfl⟩
  simp only [StatisticsKept.entries, memory_write, List.map_append, map_update hdistinct.1,
    Function.update_self, hlist, List.map_cons, List.map_nil, List.tail_cons]

theorem length_entries (s : StatisticsStore) : (entries s).length = s.pStatisticsList.length :=
  List.length_map _

theorem Added.length {x : FtmStatistics} {rest : List FtmStatistics} (ha : Added x rest s s') :
    s'.pStatisticsList.length = rest.length + 1 := by
  rw [← length_entries, ha.entries, List.length_append, List.length_singleton]

theorem freeFirst_list (n : Nat) (s : StatisticsStore) :
    (freeFirst n s).pStatisticsList = s.pStatisticsList := by
  induction n generalizing s with
  | zero => rfl
  | succ n ih =>
    rw [freeFirst]
    split
    · exact ih s
    · exact ih _

theorem freeFirst_gone (n : Nat) {rest : List Ptr} (hlist : s.pStatisticsList = p :: rest)
    (hp : p ∉ s.heap.allocated) : p ∉ (freeFirst n s).heap.allocated := by
  induction n generalizing s with
  | zero => exact hp
  | succ n ih =>
    simp only [freeFirst, hlist]
    exact ih rfl (not_mem_allocated_free_again hp)

/-- Whatever is given back while it stays in the list is lost. -/
theorem not_live_freeFirst (hl : Live s) (hne : s.pStatisticsList ≠ []) (n : Nat) :
    ¬Live (freeFirst (n + 1) s) := by
  obtain ⟨p, rest, hlist⟩ := List.exists_cons_of_ne_nil hne
  have hgone : p ∉ (freeFirst (n + 1) s).heap.allocated := by
    simp only [freeFirst, hlist]
    exact freeFirst_gone n rfl (not_mem_allocated_free (hl.blocks.nodup_iff.mp hl.distinct))
  intro hlive
  refine hgone (Owns.mem_allocated hlive ?_)
  rw [freeFirst_list, hlist]
  exact List.mem_cons_self

theorem kept_of_thinned {op : Op} (hi : Inv h) (ht : Thinned h.store (step h op).store)
    (hmax : (step h op).ulMaxCount = h.ulMaxCount) (hadded : (step h op).added = h.added)
    (hop : ∀ x answer, op ≠ .add x answer) : Kept h op where
  live := ht.live
  bounded := hmax ▸ ht.length_le.trans hi.bounded
  ordered := hadded ▸ ht.sublist.trans hi.ordered
  oldest := fun x answer heq => absurd heq (hop x answer)

theorem kept_add_iff {x : FtmStatistics} {answer : Option Ptr} {rest : List FtmStatistics}
    (hi : Inv h) (ha : Added x rest h.store (addStatistics x answer h.store).2)
    (hrest : rest.Sublist (entries h.store)) : Kept h (.add x answer) ↔
      rest.length + 1 ≤ h.ulMaxCount.toNat ∧
        Appends h.ulMaxCount.toNat x (entries h.store) (rest ++ [x]) := by
  have hlength := ha.length
  constructor
  · intro hkept
    have hbounded := hkept.bounded
    have holdest := hkept.oldest x answer rfl
    simp only [step, hlength, ha.entries] at hbounded holdest
    exact ⟨hbounded, holdest⟩
  · rintro ⟨hbounded, holdest⟩
    refine ⟨ha.live, ?_, ?_, ?_⟩
    · simpa only [step, hlength] using hbounded
    · simp only [step, ha.entries]
      exact (hrest.trans hi.ordered).append_right _
    · intro x' answer' heq
      cases heq
      simpa only [step, ha.entries] using holdest

theorem kept_add_room {x : FtmStatistics} {answer : Option Ptr} (hi : Inv h)
    (hm : (h.store.heap.malloc answer).isSome)
    (hroom : h.store.pStatisticsList.length < h.store.ulCount.toNat) :
    Kept h (.add x answer) ↔ h.store.pStatisticsList.length < h.ulMaxCount.toNat := by
  rw [kept_add_iff hi (add_room hi.live hm hroom) (List.Sublist.refl _), length_entries,
    Nat.succ_le_iff]
  exact and_iff_left (.inl rfl)

theorem kept_add_full {x : FtmStatistics} {answer : Option Ptr} (hi : Inv h)
    (hfull : h.store.ulCount.toNat ≤ h.store.pStatisticsList.length) :
    Kept h (.add x answer) ↔ h.ulMaxCount.toNat ≤ h.store.pStatisticsList.length := by
  have hpos := hi.positive
  have hbounded := hi.bounded
  have hne : h.store.pStatisticsList ≠ [] := List.ne_nil_of_length_pos (by omega)
  rw [kept_add_iff hi (add_full hi.live hfull hne) (List.tail_sublist _), List.length_tail,
    length_entries]
  constructor
  · rintro ⟨-, heq | ⟨heq, -⟩⟩
    · have hlength := congrArg List.length heq
      rw [List.length_append, List.length_append, List.length_tail, length_entries] at hlength
      omega
    · rw [length_entries] at heq
      exact heq.ge
  · intro hle
    exact ⟨by omega, .inr ⟨by rw [length_entries]; omega, rfl⟩⟩

theorem kept_setMaxCount (hi : Inv h) (ulMaxCount : UInt32) :
    Kept h (.setMaxCount ulMaxCount) ↔ h.store.pStatisticsList.length ≤ ulMaxCount.toNat := by
  by_cases hle : h.store.pStatisticsList.length ≤ ulMaxCount.toNat
  · have hstore : (step h (.setMaxCount ulMaxCount)).store = h.store := if_neg (Nat.not_lt.mpr hle)
    refine iff_of_true ⟨?_, ?_, ?_, fun x answer heq => by cases heq⟩ hle
    · rw [hstore]
      exact hi.live
    · rw [hstore]
      exact hle
    · rw [hstore]
      exact hi.ordered
  · refine iff_of_false (fun hkept => ?_) hle
    have hlt := Nat.not_le.mp hle
    have hlive := hkept.live
    obtain ⟨n, hn⟩ : ∃ n, h.store.pStatisticsList.length - ulMaxCount.toNat = n + 1 :=
      Nat.exists_eq_add_one.mpr (by omega)
    rw [step, setStatisticsMaxCount, if_pos hlt, hn] at hlive
    exact not_live_freeFirst hi.live (List.ne_nil_of_length_pos (by omega)) n hlive

/-- An operation that thins the list out at most keeps it. -/
theorem kept_iff_good {op : Op} (hi : Inv h) (hgiven : Given h op) : Kept h op ↔ Good h op := by
  cases op with
  | add x answer =>
    rw [Good]
    by_cases hroom : h.store.pStatisticsList.length < h.store.ulCount.toNat
    · rw [kept_add_room hi (hgiven hroom) hroom, iff_true_left hroom]
    · rw [kept_add_full hi (Nat.not_lt.mp hroom), iff_false_left hroom, Nat.not_lt]
  | del ulIndex ulCount =>
    refine iff_of_true (kept_of_thinned hi (thinned_del _ _ hi.live) rfl rfl ?_) trivial
    exact fun _ _ heq => by cases heq
  | del2 ulFirstTime ulLastTime =>
    refine iff_of_true (kept_of_thinned hi (thinned_delBetween _ _ _ _ hi.live) rfl rfl ?_) trivial
    exact fun _ _ heq => by cases heq
  | setMaxCount ulMaxCount => exact kept_setMaxCount hi ulMaxCount
  | getList ulIndex ulMaxCount =>
    have hsame : Thinned h.store (step h (.getList ulIndex ulMaxCount)).store := by
      rw [step, getList_store _ _ hi.live]
      exact .refl hi.live
    refine iff_of_true (kept_of_thinned hi hsame rfl rfl ?_) trivial
    exact fun _ _ heq => by cases heq

/-- The configuration's count stays a bound. -/
theorem configured_step {op : Op} (hi : Inv h) (hgiven : Given h op) (hgood : Good h op) :
    (step h op).store.ulCount = h.store.ulCount ∧
      (step h op).store.pStatisticsList.length ≤ h.store.ulCount.toNat := by
  have hconfigured := hi.configured
  cases op with
  | add x answer =>
    by_cases hroom : h.store.pStatisticsList.length < h.store.ulCount.toNat
    · have ha := add_room (x := x) hi.live (hgiven hroom) hroom
      refine ⟨ha.ulCount, ?_⟩
      rw [step, ha.length, length_entries]
      exact hroom
    · have hpos := hi.positive
      have hne : h.store.pStatisticsList ≠ [] := List.ne_nil_of_length_pos (by omega)
      have ha : Added x _ h.store (addStatistics x answer h.store).2 :=
        add_full hi.live (Nat.not_lt.mp hroom) hne
      refine ⟨ha.ulCount, ?_⟩
      rw [step, ha.length, List.length_tail, length_entries]
      omega
  | del ulIndex ulCount =>
    have ht := thinned_del ulIndex.toNat ulCount.toNat hi.live
    exact ⟨ht.ulCount, ht.length_le.trans hconfigured⟩
  | del2 ulFirstTime ulLastTime =>
    have ht := thinned_delBetween ulFirstTime ulLastTime h.store.pStatisticsList.length 0 hi.live
    exact ⟨ht.ulCount, ht.length_le.trans hconfigured⟩
  | setMaxCount ulMaxCount =>
    rw [step, setStatisticsMaxCount, if_neg (Nat.not_lt.mpr hgood)]
    exact ⟨rfl, hconfigured⟩
  | getList ulIndex ulMaxCount =>
    rw [step, getList_store _ _ hi.live]
    exact ⟨rfl, hconfigured⟩

theorem inv_step {op : Op} (hi : Inv h) (hgiven : Given h op) (hgood : Good h op) :
    Inv (step h op) := by
  have hkept := (kept_iff_good hi hgiven).mpr hgood
  obtain ⟨hcount, hle⟩ := configured_step hi hgiven hgood
  exact ⟨hkept.live, hkept.bounded, hkept.ordered, hcount ▸ hle, hcount ▸ hi.positive⟩

theorem inv_start {ulCount : UInt32} (hpos : 0 < ulCount) : Inv (start ulCount) where
  live := ⟨List.Perm.nil, List.nodup_nil, rfl⟩
  bounded := Nat.zero_le _
  ordered := List.Sublist.refl _
  configured := Nat.zero_le _
  positive := UInt32.lt_iff_toNat_lt.mp hpos

/-- For every configured count, and every run for whose additions there is memory. -/
theorem statistics_kept_iff {ulCount : UInt32} (hpos : 0 < ulCount) {ops : List Op}
    (hgiven : Admitted step Given (start ulCount) ops) :
    Admitted step Kept (start ulCount) ops ↔ Admitted step Good (start ulCount) ops := by
  have hcongr : Admitted step (fun h op => Given h op ∧ Kept h op) (start ulCount) ops ↔
      Admitted step (fun h op => Given h op ∧ Good h op) (start ulCount) ops := by
    refine admitted_congr (fun h op hi hop => inv_step hi hop.1 hop.2) ?_ (inv_start hpos) ops
    exact fun h op hi => and_congr_right (kept_iff_good hi)
  rw [admitted_and, admitted_and] at hcongr
  rwa [and_iff_right hgiven, and_iff_right hgiven] at hcongr

end

def sample (tv_sec : UInt32) : FtmStatistics := ⟨tv_sec, 0, 0, 1024, 512, 0, 0⟩

/-- A list for two takes three, and is cleared. -/
def rotation : List Op :=
  [.add (sample 10) (some 64), .add (sample 20) (some 128), .add (sample 30) none, .getList 0 2,
    .setMaxCount 2, .del2 0 25, .del 0 1]

theorem rotation_kept : Admitted step Kept (start 2) rotation :=
  (statistics_kept_iff (by decide) (by decide)).mpr (by decide)

/-- A maximum below the length of the list. -/
def shrinking : List Op :=
  [.add (sample 10) (some 64), .add (sample 20) (some 128), .setMaxCount 1]

theorem shrunk_entry_freed : Admitted step Given (start 100) shrinking ∧
    ¬Admitted step Kept (start 100) shrinking := by
  refine ⟨by decide, fun h => ?_⟩
  have howns := h.2.2.1.live.blocks
  exact absurd howns (by decide)

end Catchb.Proofs.StatisticsKept
