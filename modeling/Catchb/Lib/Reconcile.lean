import Catchb.Lib.Run
import Mathlib.Data.List.Nodup

/-! Bringing a keyed store to the keys of a table by removals and finds. -/

namespace Catchb.Lib.Reconcile
variable {κ ρ σ ε : Type*} [DecidableEq κ]

inductive Change (κ ρ : Type*)
  | removed (k : κ)
  | found (r : ρ)
  deriving DecidableEq

/-- The changes between the listed keys and the rows. -/
def diff (key : ρ → κ) (listed : List κ) (rows : List ρ) : List (Change κ ρ) :=
  (listed.filter (fun k => !rows.any (fun r => key r == k))).map .removed ++
    (rows.filter (fun r => !listed.contains (key r))).map .found

variable {key : ρ → κ} {keys : σ → List κ} {step : σ → Change κ ρ × ε → σ}
  {enters : σ → ρ → ε → Prop}

/-- A change meets its condition: a found row enters. -/
def Takes (enters : σ → ρ → ε → Prop) (s : σ) : Change κ ρ × ε → Prop
  | (.removed _, _) => True
  | (.found r, e) => enters s r e

section Runs
variable (hremoved : ∀ s k e, (keys s).Nodup → (keys (step s (.removed k, e))).Nodup ∧
    ∀ j, j ∈ keys (step s (.removed k, e)) ↔ j ∈ keys s ∧ j ≠ k)
  (henters : ∀ s r e, enters s r e → keys (step s (.found r, e)) = keys s ++ [key r])
  (hrefused : ∀ s r e, ¬ enters s r e → keys (step s (.found r, e)) = keys s)
include hremoved henters hrefused

omit [DecidableEq κ] henters hrefused in
theorem mem_keys_removed {j : κ} (ks : List κ) (es : List ε) (s : σ) (hs : (keys s).Nodup)
    (hlen : es.length = ks.length) :
    j ∈ keys (((ks.map Change.removed).zip es).foldl step s) ↔ j ∈ keys s ∧ j ∉ ks := by
  induction ks generalizing s es with
  | nil => simp
  | cons k ks ih =>
    cases es with
    | nil => cases hlen
    | cons e es =>
      simp only [List.length_cons, Nat.add_right_cancel_iff] at hlen
      obtain ⟨hn, hmem⟩ := hremoved s k e hs
      simp only [List.map_cons, List.zip_cons_cons, List.foldl_cons, ih _ _ hn hlen, hmem,
        List.mem_cons, not_or, and_assoc]

omit [DecidableEq κ] hremoved henters hrefused in
theorem removals_taken (ks : List κ) (es : List ε) (s : σ) :
    Admitted step (Takes enters) s ((ks.map Change.removed).zip es) := by
  induction ks generalizing s es with
  | nil => trivial
  | cons k ks ih =>
    cases es with
    | nil => trivial
    | cons e es => exact ⟨trivial, ih es _⟩

omit [DecidableEq κ] hremoved in
/-- A key that no found row has is in the store afterwards when it was before. -/
theorem mem_keys_found {k : κ} (rs : List ρ) (es : List ε) (s : σ) (hk : k ∉ rs.map key) :
    k ∈ keys (((rs.map Change.found).zip es).foldl step s) ↔ k ∈ keys s := by
  induction rs generalizing s es with
  | nil => simp
  | cons r rs ih =>
    cases es with
    | nil => simp
    | cons e es =>
      simp only [List.map_cons, List.mem_cons, not_or] at hk
      simp only [List.map_cons, List.zip_cons_cons, List.foldl_cons]
      rw [ih _ _ hk.2]
      by_cases he : enters s r e
      · simp [henters _ _ _ he, hk.1]
      · rw [hrefused _ _ _ he]

omit [DecidableEq κ] hremoved in
/-- Rows with new and distinct keys are all in the store afterwards when each entered. -/
theorem found_all_iff (rs : List ρ) (es : List ε) (s : σ) (hlen : es.length = rs.length)
    (hnew : ∀ r ∈ rs, key r ∉ keys s) (hn : (rs.map key).Nodup) :
    (∀ r ∈ rs, key r ∈ keys (((rs.map Change.found).zip es).foldl step s)) ↔
      Admitted step (Takes enters) s ((rs.map Change.found).zip es) := by
  induction rs generalizing s es with
  | nil => simp [Admitted]
  | cons r rs ih =>
    cases es with
    | nil => cases hlen
    | cons e es =>
      simp only [List.length_cons, Nat.add_right_cancel_iff] at hlen
      simp only [List.map_cons, List.nodup_cons] at hn
      have hr : key r ∉ keys s := hnew r List.mem_cons_self
      -- the first row is in the store at the end when it entered at once
      have hfirst : key r ∈ keys (((rs.map Change.found).zip es).foldl step
          (step s (.found r, e))) ↔ enters s r e := by
        rw [mem_keys_found henters hrefused rs es _ hn.1]
        by_cases he : enters s r e
        · simp [henters _ _ _ he, he]
        · simp [hrefused _ _ _ he, he, hr]
      have hrest : ∀ q ∈ rs, key q ∉ keys (step s (.found r, e)) := by
        intro q hq
        have hqs := hnew q (List.mem_cons_of_mem _ hq)
        by_cases he : enters s r e
        · have hqr : key q ≠ key r := fun h => hn.1 (h ▸ List.mem_map_of_mem hq)
          simp [henters _ _ _ he, hqs, hqr]
        · rwa [hrefused _ _ _ he]
      simp only [List.map_cons, List.zip_cons_cons, List.foldl_cons, List.forall_mem_cons,
        Admitted, Takes, hfirst, ih _ _ hlen hrest hn.2]

/-- Applying the difference brings the store to the rows' keys when every found row enters. -/
theorem diff_reconciles_iff (s : σ) (rows : List ρ) (es : List ε) (hs : (keys s).Nodup)
    (hrows : (rows.map key).Nodup) (hlen : es.length = (diff key (keys s) rows).length) :
    (∀ k, k ∈ keys (((diff key (keys s) rows).zip es).foldl step s) ↔ k ∈ rows.map key) ↔
      Admitted step (Takes enters) s ((diff key (keys s) rows).zip es) := by
  set gone := (keys s).filter (fun k => !rows.any (fun r => key r == k)) with hgone
  set new := rows.filter (fun r => !(keys s).contains (key r)) with hnew
  have hsplit : diff key (keys s) rows = gone.map .removed ++ new.map .found := rfl
  simp only [hsplit, List.length_append, List.length_map] at hlen ⊢
  rw [← List.take_append_drop gone.length es,
    List.zip_append (by rw [List.length_map, List.length_take]; omega), List.foldl_append,
    admitted_append]
  set t := ((gone.map Change.removed).zip (es.take gone.length)).foldl step s with ht
  have hmem : ∀ k, k ∈ keys t ↔ k ∈ keys s ∧ k ∈ rows.map key := by
    intro k
    rw [ht, mem_keys_removed hremoved gone _ s hs (by rw [List.length_take]; omega), hgone]
    simp only [List.mem_filter, List.mem_map, Bool.not_eq_true', List.any_eq_false, beq_iff_eq]
    grind
  have hmemNew : ∀ k, k ∈ new.map key ↔ k ∉ keys s ∧ k ∈ rows.map key := by
    intro k
    rw [hnew]
    simp only [List.mem_map, List.mem_filter, Bool.not_eq_true', List.contains_eq_mem,
      decide_eq_false_iff_not]
    grind
  have hfresh : ∀ r ∈ new, key r ∉ keys t := by
    intro r hr hk
    exact ((hmemNew (key r)).mp (List.mem_map_of_mem hr)).1 ((hmem (key r)).mp hk).1
  have hnodup : (new.map key).Nodup := hrows.sublist (List.filter_sublist.map key)
  have hall := found_all_iff henters hrefused new (es.drop gone.length) t
    (by rw [List.length_drop]; omega) hfresh hnodup
  rw [← hall, and_iff_right (removals_taken gone _ s)]
  constructor
  · intro h r hr
    exact (h (key r)).mpr ((hmemNew (key r)).mp (List.mem_map_of_mem hr)).2
  · intro h k
    by_cases hk : k ∈ new.map key
    · obtain ⟨r, hr, rfl⟩ := List.mem_map.mp hk
      exact iff_of_true (h r hr) ((hmemNew (key r)).mp hk).2
    · rw [mem_keys_found henters hrefused new _ t hk, hmem]
      rw [hmemNew] at hk
      tauto

end Runs
end Catchb.Lib.Reconcile
