import Mathlib.Data.List.Nodup

namespace Catchb.Lib.Keyed
variable {α κ : Type*} [DecidableEq κ] (key : α → κ)

/-- The first element with the key. -/
def get (k : κ) (l : List α) : Option α := l.find? (fun x => key x == k)

/-- All the elements with the key. -/
def all (k : κ) (l : List α) : List α := l.filter (fun x => key x == k)

/-- A write through the pointer `get` returns: the first element with the key changes. -/
def update (k : κ) (f : α → α) : List α → List α
  | [] => []
  | x :: xs => if key x == k then f x :: xs else x :: update k f xs

/-- The list without the element `get` returns. -/
def discard (k : κ) (l : List α) : List α := l.eraseP (fun x => key x == k)

variable {key} {k j : κ} {x : α} {l : List α} {f : α → α}

theorem get_key (h : get key k l = some x) : key x = k := by
  simpa using List.find?_some h

theorem get_mem (h : get key k l = some x) : x ∈ l := List.mem_of_find?_eq_some h

theorem get_eq_none : get key k l = none ↔ ∀ x ∈ l, key x ≠ k := by
  simp [get, List.find?_eq_none]

theorem get_eq_none_iff_not_mem : get key k l = none ↔ k ∉ l.map key := by
  simp [get_eq_none]

theorem get_isSome_iff_mem : (get key k l).isSome ↔ k ∈ l.map key := by
  simp [get]

theorem get_append_none (h : get key k l = none) (l' : List α) :
    get key k (l ++ l') = get key k l' := by
  simp only [get] at h
  simp [get, List.find?_append, h]

theorem get_append_some (h : get key k l = some x) (l' : List α) :
    get key k (l ++ l') = some x := by
  simp only [get] at h
  simp [get, List.find?_append, h]

/-- An appended element is found where nothing before it has its key. -/
theorem get_append_singleton : get key k (l ++ [x]) =
    if get key k l = none ∧ key x = k then some x else get key k l := by
  cases hg : get key k l with
  | none => rw [get_append_none hg]; simp [get]
  | some y => rw [get_append_some hg]; simp

/-- A new element anywhere is found under its key, and every other key finds what it found. -/
theorem get_place {l' : List α} (hnew : get key (key x) (l ++ l') = none) :
    get key k (l ++ x :: l') = if key x = k then some x else get key k (l ++ l') := by
  simp only [get, List.find?_append, Option.or_eq_none_iff] at hnew ⊢
  split
  · rename_i hx
    subst hx
    simp [hnew.1]
  · rename_i hx
    simp [hx]

theorem get_map (hf : ∀ x, key (f x) = key x) : get key k (l.map f) = (get key k l).map f := by
  have hkey : (fun x => key x == k) ∘ f = fun x => key x == k := by
    funext x
    rw [Function.comp_apply, hf]
  rw [get, List.find?_map, hkey, get]

/-- An update that keeps the key is seen by the lookups of that key and by no other. -/
theorem get_update (hf : ∀ x, key x = k → key (f x) = k) :
    get key j (update key k f l) =
      if j = k then (get key k l).map f else get key j l := by
  induction l with
  | nil => simp [get, update]
  | cons x xs ih =>
    simp only [get] at ih
    by_cases hx : key x = k
    · have hfx := hf x hx
      by_cases hj : j = k
      · simp [get, update, hx, hj, hfx]
      · simp [get, update, hx, hj, hfx, Ne.symm hj]
    · by_cases hj : j = k
      · simp only [hj, ↓reduceIte] at ih
        simp [get, update, hx, hj, ih]
      · simp only [hj, ↓reduceIte] at ih
        simp [get, update, hx, hj, ih, List.find?_cons]

theorem map_key_update (hf : ∀ x, key x = k → key (f x) = k) :
    (update key k f l).map key = l.map key := by
  induction l with
  | nil => rfl
  | cons x xs ih =>
    simp only [update]
    split
    · rename_i hx
      have hk : key x = k := by simpa using hx
      simp [hk, hf x hk]
    · simp [ih]

theorem update_of_get_none (h : get key k l = none) : update key k f l = l := by
  induction l with
  | nil => rfl
  | cons x xs ih =>
    rw [get_eq_none] at h
    have hx : key x ≠ k := h x List.mem_cons_self
    have ht := ih (get_eq_none.mpr (fun y hy => h y (List.mem_cons_of_mem _ hy)))
    simp [update, hx, ht]

/-- Writing back what was read changes nothing. -/
theorem update_self (h : get key k l = some x) : update key k (fun _ => x) l = l := by
  induction l with
  | nil => rfl
  | cons y ys ih =>
    by_cases hy : key y = k
    · have he : y = x := by simpa [get, hy] using h
      simp [update, ← he, hy]
    · have ht : get key k ys = some x := by simpa [get, hy] using h
      simp [update, hy, ih ht]

theorem mem_update {y : α} (h : y ∈ update key k f l) :
    y ∈ l ∨ ∃ x, get key k l = some x ∧ y = f x := by
  induction l with
  | nil => simp [update] at h
  | cons x xs ih =>
    simp only [update] at h
    split at h
    · rename_i hx
      rcases List.mem_cons.mp h with rfl | h
      · exact Or.inr ⟨x, by simp [get, hx], rfl⟩
      · exact Or.inl (List.mem_cons_of_mem _ h)
    · rename_i hx
      rcases List.mem_cons.mp h with rfl | h
      · exact Or.inl List.mem_cons_self
      · rcases ih h with h | ⟨z, hz, rfl⟩
        · exact Or.inl (List.mem_cons_of_mem _ h)
        · exact Or.inr ⟨z, by simpa [get, hx] using hz, rfl⟩

theorem mem_of_mem_discard {y : α} (h : y ∈ discard key k l) : y ∈ l := List.mem_of_mem_eraseP h

theorem mem_discard_of_ne (hx : key x ≠ k) (h : x ∈ l) : x ∈ discard key k l :=
  (List.mem_eraseP_of_neg (by simpa using hx)).mpr h

theorem discard_of_get_none (h : get key k l = none) : discard key k l = l := by
  apply List.eraseP_of_forall_not
  simpa [get, List.find?_eq_none] using h

theorem get_discard_other (hj : j ≠ k) : get key j (discard key k l) = get key j l := by
  induction l with
  | nil => rfl
  | cons x xs ih =>
    by_cases hx : key x = k
    · simp [get, discard, hx, Ne.symm hj]
    · simp only [get, discard] at ih
      by_cases hxj : key x = j
      · simp [get, discard, hxj, hj]
      · simp [get, discard, hx, hxj, ih]

theorem get_eq_none_iff_all : get key k l = none ↔ all key k l = [] := by
  simp [get, all, List.find?_eq_none, List.filter_eq_nil_iff]

theorem all_append_singleton : all key k (l ++ [x]) =
    if key x = k then all key k l ++ [x] else all key k l := by
  by_cases hx : key x = k <;> simp [all, List.filter_append, hx]

/-- Of the elements with the key the first goes. -/
theorem all_discard_same : all key k (discard key k l) = (all key k l).tail := by
  induction l with
  | nil => rfl
  | cons x xs ih =>
    by_cases hx : key x = k
    · simp [all, discard, hx]
    · simp only [all, discard] at ih
      simp [all, discard, hx, ih]

theorem all_discard_other (hj : j ≠ k) : all key j (discard key k l) = all key j l := by
  induction l with
  | nil => rfl
  | cons x xs ih =>
    by_cases hx : key x = k
    · simp [all, discard, hx, Ne.symm hj]
    · simp only [all, discard] at ih
      by_cases hxj : key x = j
      · simp [all, discard, hxj, hj, ih]
      · simp [all, discard, hx, hxj, ih]

/-- Where no two elements share a key, the discarded key is gone. -/
theorem get_discard_same (hn : (l.map key).Nodup) : get key k (discard key k l) = none := by
  induction l with
  | nil => rfl
  | cons x xs ih =>
    simp only [List.map_cons, List.nodup_cons] at hn
    by_cases hx : key x = k
    · simpa [discard, hx] using get_eq_none_iff_not_mem.mpr (hx ▸ hn.1)
    · have ht := ih hn.2
      simp only [discard, get] at ht
      simp [get, discard, hx, ht]

theorem map_key_discard : (discard key k l).map key = (l.map key).erase k := by
  induction l with
  | nil => rfl
  | cons x xs ih =>
    by_cases hx : key x = k
    · simp [discard, hx]
    · simp only [discard] at ih
      simp [discard, hx, ih]

/-- With distinct keys, discarding the key of an element discards that element. -/
theorem discard_eq_erase [DecidableEq α] (hn : (l.map key).Nodup) (hx : x ∈ l) :
    discard key (key x) l = l.erase x := by
  induction l with
  | nil => rfl
  | cons y ys ih =>
    simp only [List.map_cons, List.nodup_cons] at hn
    by_cases hy : y = x
    · simp [discard, hy]
    · have hxs : x ∈ ys := (List.mem_cons.mp hx).resolve_left (Ne.symm hy)
      have hk : key y ≠ key x := by
        intro he
        exact hn.1 (he ▸ List.mem_map_of_mem hxs)
      have ht := ih hn.2 hxs
      simp only [discard] at ht
      simp [discard, hk, hy, ht]

/-- Two lists that name the same things still do so after one thing leaves both. -/
theorem perm_discard [DecidableEq α] {β : Type*} {name : β → α} {l' : List β}
    (hp : l.Perm (l'.map name)) (hn : (l.map key).Nodup) (hx : x ∈ l) :
    (discard key (key x) l).Perm ((discard name x l').map name) := by
  rw [discard_eq_erase hn hx, map_key_discard]
  exact hp.erase x

theorem nodup_discard (hn : (l.map key).Nodup) : ((discard key k l).map key).Nodup :=
  hn.sublist (List.eraseP_sublist.map key)

/-- Where no two elements share a key, a discarded key is the only one that goes. -/
theorem mem_map_key_discard (hn : (l.map key).Nodup) :
    j ∈ (discard key k l).map key ↔ j ∈ l.map key ∧ j ≠ k := by
  rw [map_key_discard, hn.mem_erase_iff, and_comm]

theorem nodup_append_singleton (hn : (l.map key).Nodup) (hx : get key (key x) l = none) :
    ((l ++ [x]).map key).Nodup := by
  rw [get_eq_none_iff_not_mem] at hx
  rw [List.map_append, List.map_singleton, List.nodup_append]
  refine ⟨hn, List.nodup_singleton _, ?_⟩
  intro a ha b hb hab
  rw [List.mem_singleton] at hb
  subst hb
  exact hx (hab ▸ ha)

end Catchb.Lib.Keyed
