import Mathlib.Data.List.Forall2

/-! Loops that may be left in the middle of their turns, and what they bring out of them. -/

namespace Catchb.Lib
variable {σ τ γ ε α : Type*}

/-- What a turn brings, the state after it, and whether the loop is left. -/
structure Turn (σ ε : Type*) where
  out : ε
  next : σ
  left : Bool

/-- A loop that goes on while there is something to be done. There is no result where the turns
end before the loop does. -/
def loop (todo : σ → Option γ) (step : γ → σ → τ → Turn σ ε) : σ → List τ → Option (List ε × σ)
  | s, ts =>
    match todo s, ts with
    | none, _ => some ([], s)
    | some _, [] => none
    | some c, t :: ts =>
      let turn := step c s t
      if turn.left then some ([turn.out], turn.next)
      else (loop todo step turn.next ts).map fun (out, s) => (turn.out :: out, s)

/-- The turns carry the items, one after the other. The loop is not left before the last one. -/
inductive Serves (todo : σ → Option γ) (step : γ → σ → τ → Turn σ ε) (carries : α → σ → τ → Prop) :
    List α → σ → List τ → Prop
  | done {s : σ} {ts : List τ} : Serves todo step carries [] s ts
  | carried {a : α} {as : List α} {c : γ} {s : σ} {t : τ} {ts : List τ} (hdo : todo s = some c)
      (ha : carries a s t) (hleft : (step c s t).left = true → as = [])
      (hrest : Serves todo step carries as (step c s t).next ts) :
      Serves todo step carries (a :: as) s (t :: ts)
  | passed {a : α} {as : List α} {c : γ} {s : σ} {t : τ} {ts : List τ} (hdo : todo s = some c)
      (ha : ¬carries a s t) (hstay : (step c s t).left = false)
      (hrest : Serves todo step carries (a :: as) (step c s t).next ts) :
      Serves todo step carries (a :: as) s (t :: ts)

/-- The loop comes to a turn in a state of a kind. -/
inductive Comes (todo : σ → Option γ) (step : γ → σ → τ → Turn σ ε) (kind : σ → Prop) :
    σ → List τ → Prop
  | here {c : γ} {s : σ} {t : τ} {ts : List τ} (hdo : todo s = some c) (hs : kind s) :
      Comes todo step kind s (t :: ts)
  | later {c : γ} {s : σ} {t : τ} {ts : List τ} (hdo : todo s = some c)
      (hstay : (step c s t).left = false) (hrest : Comes todo step kind (step c s t).next ts) :
      Comes todo step kind s (t :: ts)

section
variable {todo : σ → Option γ} {step : γ → σ → τ → Turn σ ε} {carries : α → σ → τ → Prop}
  {R : α → ε → Prop} {as : List α} {a : α} {c : γ} {s s' : σ} {t : τ} {ts : List τ} {out : List ε}
  {e : ε} {es : List ε}

/-- How a loop that has ended has gone on. -/
theorem loop_cases (h : loop todo step s ts = some (out, s')) :
    (todo s = none ∧ out = [] ∧ s' = s) ∨ ∃ c t rest, todo s = some c ∧ ts = t :: rest ∧
      (((step c s t).left = true ∧ out = [(step c s t).out] ∧ s' = (step c s t).next) ∨
        ((step c s t).left = false ∧ ∃ es, out = (step c s t).out :: es ∧
          loop todo step (step c s t).next rest = some (es, s'))) := by
  unfold loop at h
  split at h
  · rename_i hdo
    cases h
    exact .inl ⟨hdo, rfl, rfl⟩
  · cases h
  · rename_i c t rest hdo
    refine .inr ⟨c, t, rest, hdo, rfl, ?_⟩
    simp only at h
    split at h
    · rename_i hleft
      cases h
      exact .inl ⟨hleft, rfl, rfl⟩
    · rename_i hstay
      obtain ⟨⟨es, s₁⟩, hrest, heq⟩ := Option.map_eq_some_iff.mp h
      cases heq
      exact .inr ⟨Bool.eq_false_iff.mpr hstay, es, rfl, hrest⟩

theorem sublistForall₂_tail (h : List.SublistForall₂ R (a :: as) es) :
    List.SublistForall₂ R as es := by
  induction es with
  | nil => cases h
  | cons e es ih =>
    cases h with
    | cons _ hrest => exact .cons_right hrest
    | cons_right hrest => exact .cons_right (ih hrest)

/-- The first item that a list can give is taken from it. -/
theorem sublistForall₂_take (ha : R a e) :
    List.SublistForall₂ R (a :: as) (e :: es) ↔ List.SublistForall₂ R as es := by
  constructor
  · intro h
    cases h with
    | cons _ hrest => exact hrest
    | cons_right hrest => exact sublistForall₂_tail hrest
  · exact .cons ha

theorem sublistForall₂_skip (ha : ¬R a e) :
    List.SublistForall₂ R (a :: as) (e :: es) ↔ List.SublistForall₂ R (a :: as) es := by
  constructor
  · intro h
    cases h with
    | cons h _ => exact absurd h ha
    | cons_right hrest => exact hrest
  · exact .cons_right

theorem sublistForall₂_nil : List.SublistForall₂ R as [] ↔ as = [] := by
  constructor
  · intro h
    cases h
    rfl
  · rintro rfl
    exact .nil

theorem serves_none (hnone : todo s = none) : Serves todo step carries as s ts ↔ as = [] := by
  constructor
  · intro h
    cases h with
    | done => rfl
    | carried hdo => exact nomatch hnone.symm.trans hdo
    | passed hdo => exact nomatch hnone.symm.trans hdo
  · rintro rfl
    exact .done

theorem not_comes_none {kind : σ → Prop} (hnone : todo s = none) : ¬Comes todo step kind s ts := by
  intro h
  cases h with
  | here hdo => exact nomatch hnone.symm.trans hdo
  | later hdo => exact nomatch hnone.symm.trans hdo

theorem serves_cons_carried (hdo : todo s = some c) (ha : carries a s t) :
    Serves todo step carries (a :: as) s (t :: ts) ↔
      ((step c s t).left = true → as = []) ∧ Serves todo step carries as (step c s t).next ts := by
  constructor
  · intro h
    cases h with
    | carried hdo' _ hleft hrest =>
      cases hdo.symm.trans hdo'
      exact ⟨hleft, hrest⟩
    | passed _ hnot => exact absurd ha hnot
  · rintro ⟨hleft, hrest⟩
    exact .carried hdo ha hleft hrest

theorem serves_cons_passed (hdo : todo s = some c) (ha : ¬carries a s t) :
    Serves todo step carries (a :: as) s (t :: ts) ↔
      (step c s t).left = false ∧ Serves todo step carries (a :: as) (step c s t).next ts := by
  constructor
  · intro h
    cases h with
    | carried _ hyes => exact absurd hyes ha
    | passed hdo' _ hstay hrest =>
      cases hdo.symm.trans hdo'
      exact ⟨hstay, hrest⟩
  · rintro ⟨hstay, hrest⟩
    exact .passed hdo ha hstay hrest

theorem comes_left {kind : σ → Prop} (hdo : todo s = some c) (hleft : (step c s t).left = true)
    (h : Comes todo step kind s (t :: ts)) : kind s := by
  cases h with
  | here _ hs => exact hs
  | later hdo' hstay =>
    cases hdo.symm.trans hdo'
    exact absurd hleft (Bool.eq_false_iff.mp hstay)

theorem comes_cases {kind : σ → Prop} (hdo : todo s = some c)
    (h : Comes todo step kind s (t :: ts)) :
    kind s ∨ Comes todo step kind (step c s t).next ts := by
  cases h with
  | here _ hs => exact .inl hs
  | later hdo' _ hrest =>
    cases hdo.symm.trans hdo'
    exact .inr hrest

/-- What a loop brings holds the items in their order if and only if its turns carry them. -/
theorem serves_iff (hloop : loop todo step s ts = some (out, s'))
    (hcarries : ∀ a ∈ as, ∀ c s t, todo s = some c → (R a (step c s t).out ↔ carries a s t)) :
    List.SublistForall₂ R as out ↔ Serves todo step carries as s ts := by
  induction ts generalizing s out as with
  | nil =>
    rcases loop_cases hloop with ⟨hnone, rfl, -⟩ | ⟨c, t, rest, -, hts, -⟩
    · rw [sublistForall₂_nil, serves_none hnone]
    · cases hts
  | cons t ts ih =>
    cases as with
    | nil => exact ⟨fun _ => .done, fun _ => .nil⟩
    | cons a as =>
      rcases loop_cases hloop with ⟨hnone, rfl, -⟩ | ⟨c, t', rest, hdo, hts, hturn⟩
      · rw [sublistForall₂_nil, serves_none hnone]
      · cases hts
        have hout := hcarries a List.mem_cons_self c s t hdo
        have htail : ∀ b ∈ as, ∀ c s t, todo s = some c → (R b (step c s t).out ↔ carries b s t) :=
          fun b hb => hcarries b (List.mem_cons_of_mem _ hb)
        by_cases ha : carries a s t
        · rw [serves_cons_carried hdo ha]
          rcases hturn with ⟨hleft, rfl, -⟩ | ⟨hstay, es, rfl, hrest⟩
          · rw [sublistForall₂_take (hout.mpr ha), sublistForall₂_nil]
            constructor
            · rintro rfl
              exact ⟨fun _ => rfl, .done⟩
            · exact fun h => h.1 hleft
          · rw [sublistForall₂_take (hout.mpr ha), ih hrest htail]
            exact ⟨fun h => ⟨fun hleft => absurd hleft (Bool.eq_false_iff.mp hstay), h⟩, And.right⟩
        · rw [serves_cons_passed hdo ha]
          rcases hturn with ⟨hleft, rfl, -⟩ | ⟨hstay, es, rfl, hrest⟩
          · rw [sublistForall₂_skip (fun h => ha (hout.mp h)), sublistForall₂_nil]
            constructor
            · intro h
              cases h
            · exact fun h => absurd hleft (Bool.eq_false_iff.mp h.1)
          · rw [sublistForall₂_skip (fun h => ha (hout.mp h)), ih hrest hcarries]
            exact ⟨fun h => ⟨hstay, h⟩, And.right⟩

/-- Whether a loop ends in a state that only the turns of a kind leave, and that stays of it. -/
theorem comes_iff (kind marked : σ → Prop) (hloop : loop todo step s ts = some (out, s'))
    (hmarked : ∀ c s t, marked (step c s t).next ↔ kind s)
    (hstay : ∀ c s t, kind s → kind (step c s t).next) (hs : ¬marked s) :
    marked s' ↔ Comes todo step kind s ts := by
  suffices h : ∀ {s out}, loop todo step s ts = some (out, s') → (marked s → kind s) →
      (marked s' ↔ marked s ∨ Comes todo step kind s ts) by
    rw [h hloop (fun h => absurd h hs)]
    exact or_iff_right hs
  clear hs hloop
  induction ts with
  | nil =>
    intro s out hloop _
    rcases loop_cases hloop with ⟨hnone, -, rfl⟩ | ⟨c, t, rest, -, hts, -⟩
    · exact (or_iff_left (not_comes_none hnone)).symm
    · cases hts
  | cons t ts ih =>
    intro s out hloop hkind
    rcases loop_cases hloop with ⟨hnone, -, rfl⟩ | ⟨c, t', rest, hdo, hts, hturn⟩
    · exact (or_iff_left (not_comes_none hnone)).symm
    · cases hts
      rcases hturn with ⟨hleft, -, rfl⟩ | ⟨hgoes, es, -, hrest⟩
      · rw [hmarked]
        constructor
        · exact fun h => .inr (.here hdo h)
        · rintro (h | h)
          · exact hkind h
          · exact comes_left hdo hleft h
      · rw [ih hrest (fun h => hstay c s t ((hmarked c s t).mp h)), hmarked]
        constructor
        · rintro (h | h)
          · exact .inr (.here hdo h)
          · exact .inr (.later hdo hgoes h)
        · rintro (h | h)
          · exact .inl (hkind h)
          · exact comes_cases hdo h

end
end Catchb.Lib
