import Mathlib.Data.List.Nodup
import Mathlib.Data.List.Pairwise
import Mathlib.Data.List.Perm.Subperm
import Mathlib.Order.Lattice

/-! Pages that are selected by the keys of a window of the elements. -/

namespace Catchb.Lib.Paging
variable {α τ ν : Type*} [LinearOrder τ] [LinearOrder ν]

/-- An order that goes by the key, the largest one first, and tells the elements apart. -/
structure Ranking (le : α → α → Bool) (key : α → τ) (xs : List α) : Prop where
  trans : ∀ a b c, le a b = true → le b c = true → le a c = true
  total : ∀ a b, (le a b || le b a) = true
  antisymm : ∀ a ∈ xs, ∀ b ∈ xs, le a b = true → le b a = true → a = b
  key_le : ∀ a b, le a b = true → key b ≤ key a

section Windows
variable {k m : ℕ} {xs : List α} {a : α}

/-- The elements from the `j * k`-th on, counted from the end, up to `k` of them. -/
def window (k : ℕ) (xs : List α) (j : ℕ) : List α :=
  (xs.take (xs.length - j * k)).drop (xs.length - (j + 1) * k)

theorem length_window_le (k : ℕ) (xs : List α) (j : ℕ) : (window k xs j).length ≤ k := by
  rw [window, List.length_drop, List.length_take, Nat.succ_mul]
  omega

theorem window_eq_take_drop {j : ℕ} (h : (j + 1) * k ≤ xs.length) :
    window k xs j = (xs.drop (xs.length - (j + 1) * k)).take k := by
  have hk : xs.length - j * k - (xs.length - (j + 1) * k) = k := by
    rw [Nat.succ_mul] at h ⊢
    omega
  rw [window, List.drop_take, hk]

theorem window_eq_take {j : ℕ} (h : xs.length ≤ (j + 1) * k) :
    window k xs j = xs.take (xs.length - j * k) := by
  rw [window, Nat.sub_eq_zero_of_le h, List.drop_zero]

theorem take_append_window (k : ℕ) (xs : List α) (j : ℕ) :
    xs.take (xs.length - (j + 1) * k) ++ window k xs j = xs.take (xs.length - j * k) := by
  have hle : xs.length - (j + 1) * k ≤ xs.length - j * k := by
    rw [Nat.succ_mul]
    omega
  have htake := List.take_append_drop (xs.length - (j + 1) * k) (xs.take (xs.length - j * k))
  rwa [List.take_take, Nat.min_eq_left hle] at htake

/-- What the windows leave is the beginning. -/
theorem windows_append_perm (k : ℕ) (xs : List α) (m : ℕ) :
    ((List.range m).flatMap (window k xs) ++ xs.take (xs.length - m * k)).Perm xs := by
  induction m with
  | zero => simp
  | succ m ih =>
    refine List.Perm.trans ?_ ih
    rw [List.range_succ, List.flatMap_append, List.flatMap_singleton, List.append_assoc,
      ← take_append_window k xs m]
    exact List.perm_append_comm.append_left _

theorem windows_perm (hm : xs.length ≤ m * k) :
    ((List.range m).flatMap (window k xs)).Perm xs := by
  have hp := windows_append_perm k xs m
  rwa [Nat.sub_eq_zero_of_le hm, List.take_zero, List.append_nil] at hp

theorem exists_window (hm : xs.length ≤ m * k) (ha : a ∈ xs) : ∃ j < m, a ∈ window k xs j := by
  have hmem := (windows_perm hm).mem_iff.mpr ha
  obtain ⟨j, hj, haj⟩ := List.mem_flatMap.mp hmem
  exact ⟨j, List.mem_range.mp hj, haj⟩

theorem mem_of_mem_window {j : ℕ} (ha : a ∈ window k xs j) : a ∈ xs :=
  List.mem_of_mem_take (List.mem_of_mem_drop ha)

theorem window_eq_nil {j : ℕ} (hj : xs.length ≤ j * k) : window k xs j = [] := by
  rw [window, Nat.sub_eq_zero_of_le hj, List.take_zero, List.drop_nil]

theorem nodup_window (hn : xs.Nodup) (j : ℕ) : (window k xs j).Nodup :=
  hn.sublist ((List.drop_sublist _ _).trans (List.take_sublist _ _))

end Windows

section Pages
variable {le : α → α → Bool} {key : α → τ} {num : α → ν} {k m : ℕ} {xs : List α}

/-- The elements whose keys occur in the window. -/
def alike (key : α → τ) (xs w : List α) : List α := xs.filter (fun a => key a ∈ w.map key)

def page (le : α → α → Bool) (key : α → τ) (k : ℕ) (xs : List α) (j : ℕ) : List α :=
  ((alike key xs (window k xs j)).mergeSort le).take k

/-- `m` pages, one after the other. -/
def pages (le : α → α → Bool) (key : α → τ) (k : ℕ) (xs : List α) (m : ℕ) : List α :=
  (List.range m).flatMap (page le key k xs)

theorem mem_alike {a : α} {w : List α} :
    a ∈ alike key xs w ↔ a ∈ xs ∧ ∃ b ∈ w, key b = key a := by
  rw [alike, List.mem_filter, decide_eq_true_eq, List.mem_map]

theorem window_subset_alike (j : ℕ) : window k xs j ⊆ alike key xs (window k xs j) :=
  fun a ha => mem_alike.mpr ⟨mem_of_mem_window ha, a, ha, rfl⟩

theorem mem_alike_of_mem_page {a : α} {j : ℕ} (ha : a ∈ page le key k xs j) :
    a ∈ alike key xs (window k xs j) :=
  (List.mergeSort_perm _ _).mem_iff.mp (List.mem_of_mem_take ha)

theorem pairwise_page (hr : Ranking le key xs) (j : ℕ) :
    (page le key k xs j).Pairwise (fun a b => le a b = true) :=
  (List.pairwise_mergeSort hr.trans hr.total _).sublist (List.take_sublist _ _)

theorem nodup_page (hn : xs.Nodup) (j : ℕ) : (page le key k xs j).Nodup := by
  have hnd : ((alike key xs (window k xs j)).mergeSort le).Nodup :=
    (List.mergeSort_perm _ _).nodup_iff.mpr (hn.sublist List.filter_sublist)
  exact hnd.sublist (List.take_sublist _ _)

/-- Keys that no other window has select the window. -/
theorem page_perm (hn : xs.Nodup) (hm : xs.length ≤ m * k) {j : ℕ}
    (hkeys : ∀ i < m, i ≠ j → ∀ a ∈ window k xs i, ∀ b ∈ window k xs j, key a ≠ key b) :
    (page le key k xs j).Perm (window k xs j) := by
  have halike : (alike key xs (window k xs j)).Perm (window k xs j) := by
    refine (List.perm_ext_iff_of_nodup (hn.sublist List.filter_sublist) (nodup_window hn j)).mpr ?_
    intro a
    constructor
    · intro ha
      obtain ⟨hxs, b, hb, hkey⟩ := mem_alike.mp ha
      obtain ⟨i, hi, hai⟩ := exists_window hm hxs
      by_cases hij : i = j
      · rwa [hij] at hai
      · exact absurd hkey.symm (hkeys i hi hij a hai b hb)
    · intro ha
      exact window_subset_alike j ha
  have hsort := (List.mergeSort_perm (alike key xs (window k xs j)) le).trans halike
  have hlen : ((alike key xs (window k xs j)).mergeSort le).length ≤ k :=
    hsort.length_eq ▸ length_window_le k xs j
  rwa [page, List.take_of_length_le hlen]

/-- A key that two windows have. -/
def Shared (key : α → τ) (k : ℕ) (xs : List α) (t : τ) : Prop :=
  ∃ i j, i ≠ j ∧ (∃ a ∈ window k xs i, key a = t) ∧ ∃ b ∈ window k xs j, key b = t

theorem exists_first (hr : Ranking le key xs) {ys : List α} (hys : ys ≠ []) :
    ∃ f ∈ ys, ∀ a ∈ ys, le f a = true := by
  have hsort := List.pairwise_mergeSort hr.trans hr.total ys
  have hperm := List.mergeSort_perm ys le
  cases hs : ys.mergeSort le with
  | nil =>
    rw [hs] at hperm
    exact absurd hperm.symm.eq_nil hys
  | cons f rest =>
    rw [hs] at hsort hperm
    refine ⟨f, hperm.mem_iff.mp List.mem_cons_self, ?_⟩
    intro a ha
    rcases List.mem_cons.mp (hperm.mem_iff.mpr ha) with rfl | ha
    · simpa using hr.total a a
    · exact List.rel_of_pairwise_cons hsort ha

/-- What a page leaves out comes after all of the page, which is then full. -/
theorem page_full (hr : Ranking le key xs) {j : ℕ} {f : α}
    (hf : f ∈ alike key xs (window k xs j)) (hout : f ∉ page le key k xs j) :
    (page le key k xs j).length = k ∧ ∀ a ∈ page le key k xs j, le a f = true := by
  have hsort := List.pairwise_mergeSort hr.trans hr.total (alike key xs (window k xs j))
  have hmem := (List.mergeSort_perm (alike key xs (window k xs j)) le).mem_iff.mpr hf
  unfold page at hout ⊢
  rw [← List.take_append_drop k ((alike key xs (window k xs j)).mergeSort le)] at hsort hmem
  have hdrop := (List.mem_append.mp hmem).resolve_left hout
  constructor
  · have hlen := List.length_pos_of_mem hdrop
    rw [List.length_drop] at hlen
    rw [List.length_take]
    omega
  · intro a ha
    exact (List.pairwise_append.mp hsort).2.2 a ha f hdrop

theorem lt_of_mem_window (hm : xs.length ≤ m * k) {a : α} {j : ℕ} (ha : a ∈ window k xs j) :
    j < m := by
  by_contra hj
  have hle := Nat.le_trans hm (Nat.mul_le_mul_right k (Nat.not_lt.mp hj))
  rw [window_eq_nil hle] at ha
  cases ha

theorem disjoint_pages (hp : (pages le key k xs m).Nodup) {i j : ℕ} (hi : i < m) (hj : j < m)
    (hij : i ≠ j) : List.Disjoint (page le key k xs i) (page le key k xs j) := by
  have hpair := (List.nodup_flatMap.mp hp).2
  have hsymm : Std.Symm (Function.onFun List.Disjoint (page le key k xs)) :=
    ⟨fun _ _ hd _ ha hb => hd hb ha⟩
  exact hpair.forall (List.mem_range.mpr hi) (List.mem_range.mpr hj) hij

/-- Pages without a repetition have no key in common: the first element with such a key is missing
on one of the two, which then holds `k` elements of its window but not all of it. -/
theorem not_shared (hr : Ranking le key xs) (hn : xs.Nodup) (hm : xs.length ≤ m * k)
    (hp : (pages le key k xs m).Nodup) (t : τ) : ¬Shared key k xs t := by
  classical
  intro ht
  have hshared : xs.filter (fun a => Shared key k xs (key a)) ≠ [] := by
    obtain ⟨i, j, hij, ⟨a, ha, rfl⟩, hb⟩ := ht
    exact List.ne_nil_of_mem (List.mem_filter.mpr
      ⟨mem_of_mem_window ha, decide_eq_true ⟨i, j, hij, ⟨a, ha, rfl⟩, hb⟩⟩)
  obtain ⟨f, hf, hfirst⟩ := exists_first hr hshared
  obtain ⟨hfx, hfs⟩ := List.mem_filter.mp hf
  have hmissing : ∃ l, f ∉ page le key k xs l ∧ ∃ z ∈ window k xs l, key z = key f := by
    obtain ⟨i, j, hij, hi, hj⟩ := of_decide_eq_true hfs
    by_cases hfi : f ∈ page le key k xs i
    · refine ⟨j, ?_, hj⟩
      obtain ⟨a, ha, -⟩ := hi
      obtain ⟨b, hb, -⟩ := hj
      exact disjoint_pages hp (lt_of_mem_window hm ha) (lt_of_mem_window hm hb) hij hfi
    · exact ⟨i, hfi, hi⟩
  obtain ⟨l, hfl, z, hz, hzf⟩ := hmissing
  obtain ⟨hlen, hbefore⟩ := page_full hr (mem_alike.mpr ⟨hfx, z, hz, hzf⟩) hfl
  have hunshared : ∀ a ∈ page le key k xs l, ¬Shared key k xs (key a) := by
    intro a ha hs
    have hax := (mem_alike.mp (mem_alike_of_mem_page ha)).1
    have hfa := hfirst a (List.mem_filter.mpr ⟨hax, decide_eq_true hs⟩)
    rw [hr.antisymm a hax f hfx (hbefore a ha) hfa] at ha
    exact hfl ha
  have hsub : page le key k xs l ⊆ window k xs l := by
    intro a ha
    obtain ⟨hax, b, hb, hba⟩ := mem_alike.mp (mem_alike_of_mem_page ha)
    obtain ⟨i, -, hai⟩ := exists_window hm hax
    by_cases hil : i = l
    · rwa [hil] at hai
    · exact absurd ⟨i, l, hil, ⟨a, hai, rfl⟩, b, hb, hba⟩ (hunshared a ha)
  have hzout : z ∉ page le key k xs l := by
    intro hzp
    exact hunshared z hzp (hzf ▸ of_decide_eq_true hfs)
  have hnd : (z :: page le key k xs l).Nodup := List.nodup_cons.mpr ⟨hzout, nodup_page hn l⟩
  have hle := (hnd.subperm (List.cons_subset.mpr ⟨hz, hsub⟩)).length_le
  have hwindow := length_window_le k xs l
  rw [List.length_cons, hlen] at hle
  omega

/-- A window has only larger numbers than the ones read after it, and the keys order its own. -/
structure Blocks (key : α → τ) (num : α → ν) (k : ℕ) (xs : List α) : Prop where
  apart : ∀ i j, i < j → ∀ a ∈ window k xs i, ∀ b ∈ window k xs j, num b < num a
  agree : ∀ j, ∀ a ∈ window k xs j, ∀ b ∈ window k xs j, key a ≤ key b → num a ≤ num b

/-- Elements that stand in the order of their numbers. -/
theorem blocks_of_increasing (hnum : xs.Pairwise (fun a b => num a < num b))
    (hkey : ∀ a ∈ xs, ∀ b ∈ xs, key a ≤ key b → num a ≤ num b) : Blocks key num k xs := by
  constructor
  · intro i j hij a ha b hb
    have hle : xs.length - j * k ≤ xs.length - (i + 1) * k :=
      Nat.sub_le_sub_left (Nat.mul_le_mul_right k (Nat.succ_le_of_lt hij)) xs.length
    rw [← List.take_append_drop (xs.length - (i + 1) * k) xs] at hnum
    refine (List.pairwise_append.mp hnum).2.2 b ?_ a ?_
    · exact List.take_subset_take_left xs hle (List.mem_of_mem_drop hb)
    · rw [window, List.drop_take] at ha
      exact List.mem_of_mem_take ha
  · intro j a ha b hb
    exact hkey a (mem_of_mem_window ha) b (mem_of_mem_window hb)

variable (hr : Ranking le key xs) (hsame : ∀ a b, key a = key b ↔ num a = num b)
  (hn : xs.Nodup) (hm : xs.length ≤ m * k)
include hsame

theorem Blocks.key_ne (hb : Blocks key num k xs) {i j : ℕ} (hij : i ≠ j) {a b : α}
    (ha : a ∈ window k xs i) (hb' : b ∈ window k xs j) : key a ≠ key b := by
  intro heq
  have hnum := (hsame a b).mp heq
  rcases Nat.lt_or_gt_of_ne hij with hlt | hgt
  · exact (hb.apart i j hlt a ha b hb').ne hnum.symm
  · exact (hb.apart j i hgt b hb' a ha).ne hnum

include hn hm

theorem pages_perm (hb : Blocks key num k xs) : (pages le key k xs m).Perm xs := by
  refine (List.Perm.flatMap_left _ ?_).trans (windows_perm hm)
  intro j _
  exact page_perm hn hm (fun i _ hij a ha b hbj => hb.key_ne hsame hij ha hbj)

include hr

theorem pairwise_pages (hb : Blocks key num k xs) :
    (pages le key k xs m).Pairwise (fun a b => num b ≤ num a) := by
  have hpage (j : ℕ) : (page le key k xs j).Perm (window k xs j) :=
    page_perm hn hm (fun i _ hij a ha b hbj => hb.key_ne hsame hij ha hbj)
  refine List.pairwise_flatMap.mpr ⟨?_, ?_⟩
  · intro j _
    refine (pairwise_page hr j).imp_of_mem ?_
    intro a b ha hb' hle
    exact hb.agree j b ((hpage j).mem_iff.mp hb') a ((hpage j).mem_iff.mp ha) (hr.key_le a b hle)
  · refine List.pairwise_lt_range.imp ?_
    intro i j hij a ha b hb'
    exact (hb.apart i j hij a ((hpage i).mem_iff.mp ha) b ((hpage j).mem_iff.mp hb')).le

theorem blocks_of_pages (hp : (pages le key k xs m).Perm xs)
    (hs : (pages le key k xs m).Pairwise (fun a b => num b ≤ num a)) : Blocks key num k xs := by
  have hkeys (i j : ℕ) (hij : i ≠ j) (a : α) (ha : a ∈ window k xs i) (b : α)
      (hb : b ∈ window k xs j) : key a ≠ key b := by
    intro heq
    exact not_shared hr hn hm (hp.nodup_iff.mpr hn) (key b) ⟨i, j, hij, ⟨a, ha, heq⟩, b, hb, rfl⟩
  have hpage (j : ℕ) : (page le key k xs j).Perm (window k xs j) :=
    page_perm hn hm (fun i _ hij => hkeys i j hij)
  obtain ⟨hin, hbetween⟩ := List.pairwise_flatMap.mp hs
  constructor
  · intro i j hij a ha b hb
    have hj := lt_of_mem_window hm hb
    have hrel := List.pairwise_iff_getElem.mp hbetween i j
      (by rw [List.length_range]; omega) (by rw [List.length_range]; exact hj) hij
    rw [List.getElem_range, List.getElem_range] at hrel
    have hle := hrel a ((hpage i).mem_iff.mpr ha) b ((hpage j).mem_iff.mpr hb)
    refine lt_of_le_of_ne hle ?_
    intro heq
    exact hkeys i j (Nat.ne_of_lt hij) a ha b hb ((hsame a b).mpr heq.symm)
  · intro j a ha b hb hkey
    have hj := lt_of_mem_window hm ha
    have hpair : (page le key k xs j).Pairwise (fun a b =>
        (key a ≤ key b → num a ≤ num b) ∧ (key b ≤ key a → num b ≤ num a)) := by
      refine ((pairwise_page hr j).and (hin j (List.mem_range.mpr hj))).imp ?_
      rintro c d ⟨hle, hnum⟩
      refine ⟨?_, fun _ => hnum⟩
      intro hcd
      exact ((hsame c d).mp (le_antisymm hcd (hr.key_le c d hle))).le
    by_cases hab : a = b
    · rw [hab]
    · have hsymm : Std.Symm (fun a b =>
          (key a ≤ key b → num a ≤ num b) ∧ (key b ≤ key a → num b ≤ num a)) :=
        ⟨fun _ _ hcd => hcd.symm⟩
      exact (hpair.forall ((hpage j).mem_iff.mpr ha) ((hpage j).mem_iff.mpr hb) hab).1 hkey

/-- When the pages are the elements, each once, with the largest numbers first. -/
theorem pages_iff_blocks : (pages le key k xs m).Perm xs ∧
    (pages le key k xs m).Pairwise (fun a b => num b ≤ num a) ↔ Blocks key num k xs :=
  ⟨fun h => blocks_of_pages hr hsame hn hm h.1 h.2,
    fun h => ⟨pages_perm hsame hn hm h, pairwise_pages hr hsame hn hm h⟩⟩

end Pages
end Catchb.Lib.Paging
