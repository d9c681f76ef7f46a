import Mathlib.Algebra.GroupWithZero.Nat
import Mathlib.Data.List.Basic

namespace Catchb.Lib
variable {σ τ α β : Type*}

/-- The states a machine passes through, one after each operation of the run. -/
def states (step : σ → α → σ) : σ → List α → List σ
  | _, [] => []
  | s, o :: os => step s o :: states step (step s o) os

/-- Each operation of the run is taken in a state that admits it. -/
def Admitted (step : σ → α → σ) (good : σ → α → Prop) : σ → List α → Prop
  | _, [] => True
  | s, o :: os => good s o ∧ Admitted step good (step s o) os

instance (step : σ → α → σ) (good : σ → α → Prop) [∀ s o, Decidable (good s o)] :
    ∀ s os, Decidable (Admitted step good s os)
  | _, [] => .isTrue trivial
  | s, o :: os =>
    have := instDecidableAdmitted step good (step s o) os
    inferInstanceAs (Decidable (_ ∧ _))

variable {step : σ → α → σ} {good : σ → α → Prop} {inv safe : σ → Prop}

@[simp] theorem states_nil (s : σ) : states step s [] = [] := rfl

@[simp] theorem states_cons (s : σ) (o : α) (os : List α) :
    states step s (o :: os) = step s o :: states step (step s o) os := rfl

/-- The last state of a run is one of its states. -/
theorem foldl_mem_states (s : σ) {os : List α} (hos : os ≠ []) :
    os.foldl step s ∈ states step s os := by
  induction os generalizing s with
  | nil => exact absurd rfl hos
  | cons o os ih =>
    cases os with
    | nil => exact List.mem_cons_self
    | cons o' os => exact List.mem_cons_of_mem _ (ih (step s o) (List.cons_ne_nil _ _))

/-- A run of operations that meet two conditions meets each of them. -/
theorem admitted_and {fair : σ → α → Prop} {s : σ} {os : List α} :
    Admitted step (fun s o => fair s o ∧ good s o) s os ↔
      Admitted step fair s os ∧ Admitted step good s os := by
  induction os generalizing s with
  | nil => simp [Admitted]
  | cons o os ih =>
    simp only [Admitted, ih]
    exact and_and_and_comm

theorem admitted_of_forall {os : List α} (h : ∀ o ∈ os, ∀ s, good s o) (s : σ) :
    Admitted step good s os := by
  induction os generalizing s with
  | nil => trivial
  | cons o os ih =>
    obtain ⟨ho, hos⟩ := List.forall_mem_cons.mp h
    exact ⟨ho s, ih hos _⟩

/-- A condition that does not look at the state. -/
theorem admitted_const {fair : α → Prop} {s : σ} {os : List α} :
    Admitted step (fun _ o => fair o) s os ↔ ∀ o ∈ os, fair o := by
  induction os generalizing s with
  | nil => simp [Admitted]
  | cons o os ih => rw [Admitted, ih, List.forall_mem_cons]

theorem admitted_congr_mem {fair : σ → α → Prop} {os : List α}
    (h : ∀ o ∈ os, ∀ s, fair s o ↔ good s o) (s : σ) :
    Admitted step fair s os ↔ Admitted step good s os := by
  induction os generalizing s with
  | nil => exact Iff.rfl
  | cons o os ih =>
    obtain ⟨ho, hos⟩ := List.forall_mem_cons.mp h
    exact and_congr (ho s) (ih hos _)

theorem admitted_append {s : σ} {os os' : List α} :
    Admitted step good s (os ++ os') ↔
      Admitted step good s os ∧ Admitted step good (os.foldl step s) os' := by
  induction os generalizing s with
  | nil => simp [Admitted]
  | cons o os ih => simp [Admitted, ih, and_assoc]

/-- What every operation keeps holds throughout every run. -/
theorem states_inv (hstep : ∀ s o, inv s → inv (step s o)) {s : σ} (hs : inv s) (os : List α) :
    ∀ t ∈ states step s os, inv t := by
  induction os generalizing s with
  | nil => simp
  | cons o os ih =>
    intro t ht
    rcases List.mem_cons.mp ht with rfl | ht
    · exact hstep s o hs
    · exact ih (hstep s o hs) t ht

/-- What every admitted operation keeps holds throughout every admitted run. -/
theorem states_inv_of_admitted (hstep : ∀ s o, inv s → good s o → inv (step s o)) {s : σ}
    (hs : inv s) {os : List α} (h : Admitted step good s os) :
    ∀ t ∈ states step s os, inv t := by
  induction os generalizing s with
  | nil => simp
  | cons o os ih =>
    obtain ⟨ho, hos⟩ := h
    have hnext := hstep s o hs ho
    intro t ht
    rcases List.mem_cons.mp ht with rfl | ht
    · exact hnext
    · exact ih hnext hos t ht

/-- What holds in every state of a run holds after each of its operations. -/
theorem forall_states_iff {s : σ} {os : List α} : (∀ t ∈ states step s os, safe t) ↔
    Admitted step (fun s o => safe (step s o)) s os := by
  induction os generalizing s with
  | nil => simp [Admitted]
  | cons o os ih => simp [Admitted, ih]

/-- Two conditions on operations agree along runs when they agree under an invariant that
the second one keeps. -/
theorem admitted_congr {fair : σ → α → Prop}
    (hgood : ∀ s o, inv s → good s o → inv (step s o))
    (hiff : ∀ s o, inv s → (fair s o ↔ good s o)) {s : σ} (hs : inv s) (os : List α) :
    Admitted step fair s os ↔ Admitted step good s os := by
  induction os generalizing s with
  | nil => exact Iff.rfl
  | cons o os ih =>
    constructor
    · rintro ⟨hf, hr⟩
      have ho := (hiff s o hs).mp hf
      exact ⟨ho, (ih (hgood s o hs ho)).mp hr⟩
    · rintro ⟨ho, hr⟩
      exact ⟨(hiff s o hs).mpr ho, (ih (hgood s o hs ho)).mpr hr⟩

/-- When the operations outside `good` break `safe` at once, the admitted runs are
exactly the runs that are safe throughout. -/
theorem safe_iff_admitted (hsafe : ∀ s, inv s → safe s)
    (hgood : ∀ s o, inv s → good s o → inv (step s o))
    (hbad : ∀ s o, inv s → safe (step s o) → good s o)
    {s : σ} (hs : inv s) (os : List α) :
    (∀ t ∈ states step s os, safe t) ↔ Admitted step good s os := by
  rw [forall_states_iff]
  apply admitted_congr hgood _ hs
  intro t o ht
  exact ⟨hbad t o ht, fun ho => hsafe _ (hgood t o ht ho)⟩

/-- What held at a run's end held at its start, if no operation can restore it. -/
theorem safe_of_foldl (hback : ∀ s o, safe (step s o) → safe s) {s : σ} {os : List α}
    (h : safe (os.foldl step s)) : safe s := by
  induction os generalizing s with
  | nil => exact h
  | cons o os ih => exact hback s o (ih h)

/-- When `safe` is never restored, the admitted runs are those that are safe at their ends. -/
theorem foldl_safe_iff_admitted (hback : ∀ s o, safe (step s o) → safe s)
    (hiff : ∀ s o, safe s → (safe (step s o) ↔ good s o)) {s : σ} (hs : safe s) (os : List α) :
    safe (os.foldl step s) ↔ Admitted step good s os := by
  induction os generalizing s with
  | nil => exact iff_of_true hs trivial
  | cons o os ih =>
    rw [List.foldl_cons, Admitted]
    constructor
    · intro hend
      have hnext := safe_of_foldl hback hend
      exact ⟨(hiff s o hs).mp hnext, (ih hnext).mp hend⟩
    · rintro ⟨ho, hos⟩
      exact (ih ((hiff s o hs).mpr ho)).mpr hos

/-- What holds of a history's entries, and of the next one, holds of the longer history's. -/
theorem forall_getElem?_concat {p : Nat → α → Prop} {l : List α} {a : α} :
    (∀ (k : Nat) (x : α), (l ++ [a])[k]? = some x → p k x) ↔
      (∀ (k : Nat) (x : α), l[k]? = some x → p k x) ∧ p l.length a := by
  constructor
  · intro h
    refine ⟨fun k x hx => h k x ?_, h l.length a List.getElem?_concat_length⟩
    obtain ⟨hlt, -⟩ := List.getElem?_eq_some_iff.mp hx
    rw [List.getElem?_append_left hlt, hx]
  · intro h k x hx
    obtain ⟨hold, hnew⟩ := h
    by_cases hlt : k < l.length
    · rw [List.getElem?_append_left hlt] at hx
      exact hold k x hx
    · obtain ⟨hle, hval⟩ := List.getElem?_eq_some_iff.mp hx
      rw [List.length_append, List.length_singleton] at hle
      obtain rfl : k = l.length := by omega
      rw [List.getElem?_concat_length] at hx
      obtain rfl := Option.some.inj hx
      exact hnew

/-- What the operations of a run cost together. -/
def total (step : σ → α → σ) (cost : σ → α → Nat) : σ → List α → Nat
  | _, [] => 0
  | s, o :: os => cost s o + total step cost (step s o) os

theorem total_append {cost : σ → α → Nat} (s : σ) (os os' : List α) :
    total step cost s (os ++ os') = total step cost s os + total step cost (os.foldl step s) os' := by
  induction os generalizing s with
  | nil => simp [total]
  | cons o os ih => simp [total, ih, Nat.add_assoc]

/-- When each operation is paid for by the work that it takes away and by what it brings, a run is
paid for by the work at its start and by what its operations bring. -/
theorem total_le {cost : σ → α → Nat} {work : σ → Nat} {gain : α → Nat}
    (hinv : ∀ s o, inv s → inv (step s o))
    (hpaid : ∀ s o, inv s → work (step s o) + cost s o ≤ work s + gain o) {s : σ} (hs : inv s)
    (os : List α) :
    work (os.foldl step s) + total step cost s os ≤ work s + (os.map gain).sum := by
  induction os generalizing s with
  | nil => simp [total]
  | cons o os ih =>
    have hhead := hpaid s o hs
    have hrest := ih (hinv s o hs)
    simp only [List.foldl_cons, total, List.map_cons, List.sum_cons]
    omega

/-- The replies to a run of operations. -/
def replies (act : σ → α → β × σ) : σ → List α → List β
  | _, [] => []
  | s, o :: os => (act s o).1 :: replies act (act s o).2 os

/-- A machine that answers each operation like another one, and stays related to it,
answers every run like it. -/
theorem replies_refine {f : σ → α → β × σ} {g : τ → α → β × τ} {r : σ → τ → Prop}
    {os : List α} (hstep : ∀ o ∈ os, ∀ s t, r s t →
      (f s o).1 = (g t o).1 ∧ r (f s o).2 (g t o).2) {s : σ} {t : τ}
    (h : r s t) : replies f s os = replies g t os ∧
      r (os.foldl (fun s o => (f s o).2) s) (os.foldl (fun t o => (g t o).2) t) := by
  induction os generalizing s t with
  | nil => exact ⟨rfl, h⟩
  | cons o os ih =>
    obtain ⟨ho, hos⟩ := List.forall_mem_cons.mp hstep
    obtain ⟨hans, hrel⟩ := ho s t h
    obtain ⟨hrest, hend⟩ := ih hos hrel
    rw [replies, replies, hans, hrest]
    exact ⟨rfl, hend⟩

end Catchb.Lib
