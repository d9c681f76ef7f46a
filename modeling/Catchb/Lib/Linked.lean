import Mathlib.Data.List.Induction
import Mathlib.Data.List.Nodup

/-! Doubly linked rings through a head, in a memory of links. -/

namespace Catchb.Lib.Linked
variable {α : Type*} {link link' next prev next' prev' : α → α} {a b head p : α} {xs ys : List α}

/-- Following one kind of link from `a` visits the list and then `b`. -/
def Path (link : α → α) : α → List α → α → Prop
  | a, [], b => link a = b
  | a, p :: ps, b => link a = p ∧ Path link p ps b

theorem path_congr (h : ∀ q ∈ a :: xs, link' q = link q) :
    Path link' a xs b ↔ Path link a xs b := by
  induction xs generalizing a with
  | nil => rw [Path, Path, h a List.mem_cons_self]
  | cons x xs ih =>
    rw [Path, Path, h a List.mem_cons_self, ih (fun q hq => h q (List.mem_cons_of_mem a hq))]

/-- The last place before a split leads to the first place after it. -/
theorem path_split (h : Path link a (xs ++ ys) b) : link (xs.getLastD a) = ys.headD b := by
  induction xs generalizing a with
  | nil => cases ys <;> simp_all [Path]
  | cons x xs ih =>
    rw [List.getLastD_cons]
    exact ih h.2

theorem getLastD_mem (a : α) (xs : List α) : xs.getLastD a ∈ a :: xs := by
  induction xs generalizing a with
  | nil => exact List.mem_singleton.mpr rfl
  | cons x xs ih =>
    rw [List.getLastD_cons]
    exact List.mem_cons_of_mem a (ih x)

/-- Among distinct places, the first one is not the last one of a later part. -/
theorem ne_getLastD {x : α} (hn : (a :: x :: (xs ++ ys)).Nodup) : a ≠ xs.getLastD x := by
  intro he
  have hlast := getLastD_mem x xs
  rw [← he] at hlast
  exact (List.nodup_cons.mp hn).1 (List.mem_append_left ys hlast)

/-- A new place after a split: the place before it leads there, and on from there. -/
theorem path_insert (h : Path link a (xs ++ ys) b) (hn : (a :: (xs ++ ys)).Nodup)
    (hfrom : link' (xs.getLastD a) = p) (hto : link' p = ys.headD b)
    (hrest : ∀ q ∈ a :: (xs ++ ys), q ≠ xs.getLastD a → link' q = link q) :
    Path link' a (xs ++ p :: ys) b := by
  induction xs generalizing a with
  | nil =>
    refine ⟨hfrom, ?_⟩
    cases ys with
    | nil => exact hto
    | cons y ys =>
      refine ⟨hto, (path_congr ?_).mpr h.2⟩
      intro q hq
      have hqa : q ≠ a := fun he => (List.nodup_cons.mp hn).1 (he ▸ hq)
      exact hrest q (List.mem_cons_of_mem a hq) hqa
  | cons x xs ih =>
    rw [List.getLastD_cons] at hfrom hrest
    refine ⟨(hrest a List.mem_cons_self (ne_getLastD hn)).trans h.1,
      ih h.2 (List.nodup_cons.mp hn).2 hfrom ?_⟩
    intro q hq
    exact hrest q (List.mem_cons_of_mem a hq)

/-- A place is passed over: the place before it leads to the one after it. -/
theorem path_remove (h : Path link a (xs ++ p :: ys) b) (hn : (a :: (xs ++ ys)).Nodup)
    (hover : link' (xs.getLastD a) = ys.headD b)
    (hrest : ∀ q ∈ a :: (xs ++ ys), q ≠ xs.getLastD a → link' q = link q) :
    Path link' a (xs ++ ys) b := by
  induction xs generalizing a with
  | nil =>
    cases ys with
    | nil => exact hover
    | cons y ys =>
      refine ⟨hover, (path_congr ?_).mpr h.2.2⟩
      intro q hq
      have hqa : q ≠ a := fun he => (List.nodup_cons.mp hn).1 (he ▸ hq)
      exact hrest q (List.mem_cons_of_mem a hq) hqa
  | cons x xs ih =>
    rw [List.getLastD_cons] at hover hrest
    refine ⟨(hrest a List.mem_cons_self (ne_getLastD hn)).trans h.1,
      ih h.2 (List.nodup_cons.mp hn).2 hover ?_⟩
    intro q hq
    exact hrest q (List.mem_cons_of_mem a hq)

/-- Both kinds of link visit the same distinct places, in opposite orders. -/
structure Ring (next prev : α → α) (head : α) (ps : List α) : Prop where
  forward : Path next head ps head
  backward : Path prev head ps.reverse head
  distinct : (head :: ps).Nodup

theorem Ring.empty (hn : next head = head) (hp : prev head = head) : Ring next prev head [] :=
  ⟨hn, hp, List.nodup_singleton head⟩

/-- The neighbours at a split point at each other. -/
theorem Ring.next_last (h : Ring next prev head (xs ++ ys)) :
    next (xs.getLastD head) = ys.headD head := path_split h.forward

theorem getLastD_reverse (a : α) (ys : List α) : ys.reverse.getLastD a = ys.headD a := by
  cases ys <;> simp

theorem headD_reverse (a : α) (xs : List α) : xs.reverse.headD a = xs.getLastD a := by
  cases xs using List.reverseRecOn <;> simp

theorem Ring.prev_head (h : Ring next prev head (xs ++ ys)) :
    prev (ys.headD head) = xs.getLastD head := by
  have hb := h.backward
  rw [List.reverse_append] at hb
  rw [← getLastD_reverse, path_split hb, headD_reverse]

/-- The head points forward to the first place and back to the last one. -/
theorem Ring.next_head (h : Ring next prev head ys) : next head = ys.headD head := by
  have hpath : Path next head ([] ++ ys) head := h.forward
  exact path_split hpath

theorem Ring.prev_of_head (h : Ring next prev head xs) : prev head = xs.getLastD head := by
  have hback : Ring next prev head (xs ++ []) := by rwa [List.append_nil]
  exact hback.prev_head

theorem reversed_perm (a : α) (xs ys : List α) :
    (a :: (ys.reverse ++ xs.reverse)).Perm (a :: (xs ++ ys)) := by
  rw [← List.reverse_append]
  exact (List.reverse_perm _).cons a

/-- A place is linked in at a split. -/
theorem Ring.insert (h : Ring next prev head (xs ++ ys)) (hp : p ∉ head :: (xs ++ ys))
    (hfrom : next' (xs.getLastD head) = p) (hto : next' p = ys.headD head)
    (hback : prev' (ys.headD head) = p) (hon : prev' p = xs.getLastD head)
    (hnext : ∀ q ∈ head :: (xs ++ ys), q ≠ xs.getLastD head → next' q = next q)
    (hprev : ∀ q ∈ head :: (xs ++ ys), q ≠ ys.headD head → prev' q = prev q) :
    Ring next' prev' head (xs ++ p :: ys) where
  forward := path_insert h.forward h.distinct hfrom hto hnext
  backward := by
    have hb := h.backward
    have hperm := reversed_perm head xs ys
    rw [List.reverse_append] at hb
    rw [List.reverse_append, List.reverse_cons, List.append_assoc, List.singleton_append]
    refine path_insert hb (hperm.nodup_iff.mpr h.distinct) ?_ ?_ ?_
    · rw [getLastD_reverse, hback]
    · rw [headD_reverse, hon]
    · rw [getLastD_reverse]
      intro q hq
      exact hprev q (hperm.mem_iff.mp hq)
  distinct := by
    have hd := h.distinct
    rw [List.nodup_cons, List.mem_append] at hd
    simp only [List.mem_cons, List.mem_append, not_or] at hp hd
    rw [List.nodup_cons, List.nodup_middle, List.nodup_cons]
    simp only [List.mem_cons, List.mem_append, not_or]
    exact ⟨⟨hd.1.1, Ne.symm hp.1, hd.1.2⟩, hp.2, hd.2⟩

/-- The place after a split is linked out. -/
theorem Ring.remove (h : Ring next prev head (xs ++ p :: ys))
    (hover : next' (xs.getLastD head) = ys.headD head)
    (hback : prev' (ys.headD head) = xs.getLastD head)
    (hnext : ∀ q ∈ head :: (xs ++ ys), q ≠ xs.getLastD head → next' q = next q)
    (hprev : ∀ q ∈ head :: (xs ++ ys), q ≠ ys.headD head → prev' q = prev q) :
    Ring next' prev' head (xs ++ ys) := by
  have hd : (head :: (xs ++ ys)).Nodup :=
    h.distinct.sublist (((List.sublist_cons_self p ys).append_left xs).cons_cons head)
  refine ⟨path_remove h.forward hd hover hnext, ?_, hd⟩
  have hb := h.backward
  have hperm := reversed_perm head xs ys
  rw [List.reverse_append, List.reverse_cons, List.append_assoc, List.singleton_append] at hb
  rw [List.reverse_append]
  refine path_remove hb (hperm.nodup_iff.mpr hd) ?_ ?_
  · rw [getLastD_reverse, hback, headD_reverse]
  · rw [getLastD_reverse]
    intro q hq
    exact hprev q (hperm.mem_iff.mp hq)

end Catchb.Lib.Linked
