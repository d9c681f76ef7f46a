import Mathlib.Data.List.Basic
import Mathlib.Data.List.Nodup

/-! Logs whose files are moved from one name to the next one, so that the oldest is replaced. -/

namespace Catchb.Lib.Generations
variable {κ α : Type*}

/-- The files under their names. -/
abbrev Files (κ α : Type*) := κ → Option (List α)

/-- What there is under the names, of which the first one is the newest. -/
def contents (ks : List κ) (files : Files κ α) : List α :=
  ks.reverse.flatMap fun k => (files k).getD []

/-- The files of a log, newest first, and none behind them. -/
def Holds : List κ → Files κ α → List (List α) → Prop
  | [], _, gens => gens = []
  | k :: ks, files, gens => files k = gens.head? ∧ Holds ks files gens.tail

variable {files files' : Files κ α} {ks : List κ} {gens : List (List α)}

theorem contents_cons (k : κ) (ks : List κ) (files : Files κ α) :
    contents (k :: ks) files = contents ks files ++ (files k).getD [] := by
  simp [contents]

theorem contents_congr (h : ∀ k ∈ ks, files k = files' k) : contents ks files = contents ks files' := by
  induction ks with
  | nil => rfl
  | cons k ks ih =>
    obtain ⟨hk, hks⟩ := List.forall_mem_cons.mp h
    rw [contents_cons, contents_cons, ih hks, hk]

theorem holds_congr (h : ∀ k ∈ ks, files k = files' k) (hh : Holds ks files gens) :
    Holds ks files' gens := by
  induction ks generalizing gens with
  | nil => exact hh
  | cons k ks ih =>
    obtain ⟨hk, hks⟩ := List.forall_mem_cons.mp h
    exact ⟨hk ▸ hh.1, ih hks hh.2⟩

theorem holds_nil : Holds ks files [] ↔ ∀ k ∈ ks, files k = none := by
  induction ks with
  | nil => simp [Holds]
  | cons k ks ih =>
    rw [List.forall_mem_cons, ← ih]
    rfl

theorem contents_holds (h : Holds ks files gens) :
    contents ks files = gens.reverse.flatten ∧ gens.length ≤ ks.length := by
  induction ks generalizing gens with
  | nil =>
    obtain rfl : gens = [] := h
    exact ⟨rfl, Nat.le_refl 0⟩
  | cons k ks ih =>
    obtain ⟨hrest, hlen⟩ := ih h.2
    rw [contents_cons, h.1, hrest]
    cases gens with
    | nil => exact ⟨rfl, Nat.zero_le _⟩
    | cons g gens => exact ⟨by simp, Nat.succ_le_succ hlen⟩

variable [DecidableEq κ]

/-- A file gets another name, if there is one. What had that name is gone. -/
def move (source target : κ) (files : Files κ α) : Files κ α :=
  match files source with
  | none => files
  | some content => fun k => if k = target then some content else if k = source then none else files k

/-- A file that is not there is created. -/
def append (name : κ) (xs : List α) (files : Files κ α) : Files κ α :=
  fun k => if k = name then some ((files k).getD [] ++ xs) else files k

/-- Each file takes the place of the one behind it, the last ones first. `ran` is whether the move
away from a name is made. -/
def shift (ran : κ → Bool) : List κ → Files κ α → Files κ α
  | a :: b :: ks, files =>
    let files := shift ran (b :: ks) files
    if ran a then move a b files else files
  | _, files => files

variable {a b k : κ} {xs c : List α} {ran : κ → Bool}

theorem move_other (ha : k ≠ a) (hb : k ≠ b) : move a b files k = files k := by
  cases hf : files a <;> simp [move, hf, ha, hb]

theorem append_other (h : k ≠ a) : append a xs files k = files k := by simp [append, h]

@[simp] theorem append_self : append a xs files a = some ((files a).getD [] ++ xs) := by
  simp [append]

/-- Only the names themselves change. -/
theorem shift_other (h : k ∉ ks) : shift ran ks files k = files k := by
  induction ks with
  | nil => rfl
  | cons a ks ih =>
    cases ks with
    | nil => rfl
    | cons b ks =>
      obtain ⟨ha, hrest⟩ := not_or.mp (fun hk => h (List.mem_cons.mpr hk))
      have hb : k ≠ b := fun he => hrest (he ▸ List.mem_cons_self)
      simp only [shift]
      split
      · rw [move_other ha hb, ih hrest]
      · exact ih hrest

/-- A move keeps the order: what is lost is what had the name. -/
theorem contents_move (hnd : (a :: b :: ks).Nodup) (files : Files κ α) :
    (contents (a :: b :: ks) (move a b files)).Sublist (contents (a :: b :: ks) files) := by
  obtain ⟨hout, hnd'⟩ := List.nodup_cons.mp hnd
  obtain ⟨hbout, -⟩ := List.nodup_cons.mp hnd'
  obtain ⟨hab, ha⟩ := not_or.mp (fun h => hout (List.mem_cons.mpr h))
  cases hf : files a with
  | none =>
    have hsame : move a b files = files := by
      unfold move
      rw [hf]
    rw [hsame]
  | some c =>
    have hrest : contents ks (move a b files) = contents ks files := by
      apply contents_congr
      intro k hk
      exact move_other (fun he => ha (he ▸ hk)) (fun he => hbout (he ▸ hk))
    have hb : move a b files b = some c := by simp [move, hf]
    have hnone : move a b files a = none := by simp [move, hf, hab]
    simp only [contents_cons, hrest, hb, hnone, hf, Option.getD_some, Option.getD_none,
      List.append_nil]
    exact (List.sublist_append_left _ _).append_right c

/-- Whichever of the moves are made, what is left is in its order. -/
theorem contents_shift (hnd : ks.Nodup) (files : Files κ α) :
    (contents ks (shift ran ks files)).Sublist (contents ks files) := by
  induction ks with
  | nil => exact List.Sublist.refl _
  | cons a ks ih =>
    cases ks with
    | nil => exact List.Sublist.refl _
    | cons b ks =>
      obtain ⟨hout, hnd'⟩ := List.nodup_cons.mp hnd
      have hinner : (contents (a :: b :: ks) (shift ran (b :: ks) files)).Sublist
          (contents (a :: b :: ks) files) := by
        rw [contents_cons a, contents_cons a, shift_other hout]
        exact (ih hnd').append_right _
      simp only [shift]
      split
      · exact (contents_move hnd _).trans hinner
      · exact hinner

/-- Where there are no files, none is moved. -/
theorem shift_none (h : ∀ k ∈ ks, files k = none) : shift ran ks files = files := by
  induction ks with
  | nil => rfl
  | cons a ks ih =>
    cases ks with
    | nil => rfl
    | cons b ks =>
      obtain ⟨ha, hrest⟩ := List.forall_mem_cons.mp h
      have hinner : shift ran (b :: ks) files = files := ih hrest
      simp only [shift, hinner, move, ha, ite_self]

/-- If all moves are made, the newest file goes to the front of the others, of which one too many is
gone. -/
theorem shift_holds (hnd : (a :: ks).Nodup) (hran : ∀ k, ran k = true) (ha : files a = some c)
    (h : Holds ks files gens) : Holds ks (shift ran (a :: ks) files) ((c :: gens).take ks.length) ∧
      (ks ≠ [] → shift ran (a :: ks) files a = none) := by
  induction ks generalizing a c gens with
  | nil => exact ⟨rfl, fun hne => absurd rfl hne⟩
  | cons b ks ih =>
    obtain ⟨hout, hnd'⟩ := List.nodup_cons.mp hnd
    obtain ⟨hbout, -⟩ := List.nodup_cons.mp hnd'
    obtain ⟨hab, haks⟩ := not_or.mp (fun he => hout (List.mem_cons.mpr he))
    have ha' : shift ran (b :: ks) files a = some c := by rw [shift_other hout, ha]
    have hrest : Holds ks (shift ran (b :: ks) files) (gens.take ks.length) := by
      cases gens with
      | nil =>
        have hnone := holds_nil.mp h
        rw [shift_none hnone]
        simpa using h.2
      | cons g gens => exact (ih hnd' h.1 h.2).1
    simp only [shift, hran a, ↓reduceIte]
    have hb : move a b (shift ran (b :: ks) files) b = some c := by simp [move, ha']
    have hnone : move a b (shift ran (b :: ks) files) a = none := by simp [move, ha', hab]
    refine ⟨⟨hb, ?_⟩, fun _ => hnone⟩
    refine holds_congr (fun k hk => ?_) hrest
    have hka : k ≠ a := fun he => haks (he ▸ hk)
    have hkb : k ≠ b := fun he => hbout (he ▸ hk)
    exact (move_other hka hkb).symm

end Catchb.Lib.Generations
