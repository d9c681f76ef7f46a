import Catchb.Analysis

/-! Whose turn it is to be analysed, and how long a camera waits for it. -/

namespace Catchb.Proofs.Turns
open Lib AnalyzerState

/-- The daemon has the camera, and its timer is expired. -/
def Expired (s : AnalyzerState) (now : Nat) (pID : ID) : Prop :=
  ∃ xTimer, s.xExpiredTimer pID = some xTimer ∧ xTimer.isExpired now = true

/-- The camera at the head is analysed if it is expired, and no other one; and the list keeps its
IDs, of which only the analysed one goes to the end. -/
structure Turn (s : AnalyzerState) (now : Nat) (result : PassResult) : Prop where
  head : ∀ pID, result.analysed = some pID ↔ s.pList.head? = some pID ∧ Expired s now pID
  perm : result.state.pList.Perm s.pList
  moved : result.state.pList = s.pList ∨ ∃ pID rest,
    result.analysed = some pID ∧ s.pList = pID :: rest ∧ result.state.pList = rest ++ [pID]

/-- The camera is taken from the list. -/
def Detached (pID : ID) (e : Event) : Prop :=
  match e with
  | .detach pID' => Analyzer.key pID' = Analyzer.key pID
  | _ => False

section
variable {ulIPCheckInterval : UInt32} {s : AnalyzerState} {run : PassRun} {pID : ID} {e : Event}

theorem process_turn (h : run.appended = true) :
    Turn s run.now (s.process ulIPCheckInterval run) := by
  unfold process
  split
  · rename_i hlist
    refine ⟨fun pID => ?_, .refl _, .inl rfl⟩
    simp [hlist]
  · rename_i pID rest hlist
    split
    · rename_i hnone
      refine ⟨fun pID' => ?_, .refl _, .inl rfl⟩
      simp only [reduceCtorEq, hlist, List.head?_cons, Option.some.injEq, false_iff, not_and]
      rintro rfl ⟨xTimer, hsome, -⟩
      rw [hnone] at hsome
      cases hsome
    · rename_i xTimer hsome
      split
      · rename_i hexpired
        refine ⟨fun pID' => ?_, ?_, .inr ⟨pID, rest, rfl, hlist, ?_⟩⟩
        · simp only [hlist, List.head?_cons, Option.some.injEq]
          constructor
          · rintro rfl
            exact ⟨rfl, xTimer, hsome, hexpired⟩
          · exact fun hhead => hhead.1
        · simp only [hlist, Analyzer.rotate, h, ↓reduceIte]
          exact List.perm_append_singleton pID rest
        · simp only [hlist, Analyzer.rotate, h, ↓reduceIte]
      · rename_i hpending
        refine ⟨fun pID' => ?_, .refl _, .inl rfl⟩
        simp only [reduceCtorEq, hlist, List.head?_cons, Option.some.injEq, false_iff, not_and]
        rintro rfl ⟨xTimer', hsome', hexpired⟩
        rw [hsome] at hsome'
        cases hsome'
        exact hpending hexpired

/-- What a pass that analyses a camera leaves of the list. -/
theorem process_cases (ulIPCheckInterval : UInt32) (run : PassRun) (s : AnalyzerState) :
    (s.process ulIPCheckInterval run).analysed = none ∧
      (s.process ulIPCheckInterval run).state.pList = s.pList ∨
    ∃ pID rest, s.pList = pID :: rest ∧
      (s.process ulIPCheckInterval run).analysed = some pID ∧
      (s.process ulIPCheckInterval run).state.pList =
        if run.appended then rest ++ [pID] else rest := by
  unfold process
  split
  · exact .inl ⟨rfl, rfl⟩
  · rename_i pID rest hlist
    split
    · exact .inl ⟨rfl, rfl⟩
    · split
      · refine .inr ⟨pID, rest, hlist, rfl, ?_⟩
        simp only [hlist, Analyzer.rotate]
      · exact .inl ⟨rfl, rfl⟩

/-- How many cameras are to be analysed before. -/
def ahead (s : AnalyzerState) (pID : ID) : Nat := s.pList.idxOf pID

theorem idxOf_eraseP_le {p : ID → Bool} (hp : p pID = false) (list : List ID) :
    (list.eraseP p).idxOf pID ≤ list.idxOf pID := by
  induction list with
  | nil => rfl
  | cons x xs ih =>
    by_cases hx : p x = true
    · have hne : x ≠ pID := by
        rintro rfl
        exact Bool.false_ne_true (hp.symm.trans hx)
      rw [List.eraseP_cons_of_pos hx, List.idxOf_cons_ne _ hne]
      exact Nat.le_succ _
    · rw [List.eraseP_cons_of_neg hx]
      by_cases hne : x = pID
      · rw [hne, List.idxOf_cons_self]
        exact Nat.zero_le _
      · rw [List.idxOf_cons_ne _ hne, List.idxOf_cons_ne _ hne]
        exact Nat.succ_le_succ ih

/-- A camera that is neither analysed nor detached stays in the list, and each analysis brings it
forward by a place. -/
theorem step_ahead (hmem : pID ∈ s.pList) (hkeep : ¬Detached pID e)
    (hwait : (s.step ulIPCheckInterval e).1 ≠ some pID) :
    pID ∈ (s.step ulIPCheckInterval e).2.pList ∧
      (s.step ulIPCheckInterval e).1.toList.length + ahead (s.step ulIPCheckInterval e).2 pID ≤
        ahead s pID := by
  cases e with
  | pass run =>
    rw [ahead, ahead]
    simp only [step] at hwait ⊢
    rcases process_cases ulIPCheckInterval run s with ⟨hnone, hsame⟩ | ⟨x, rest, hlist, hx, hlist'⟩
    · rw [hnone, hsame]
      exact ⟨hmem, by simp⟩
    · have hne : x ≠ pID := fun h => hwait (h ▸ hx)
      rw [hlist] at hmem
      have hrest := (List.mem_cons.mp hmem).resolve_left (Ne.symm hne)
      rw [hx, hlist, hlist', List.idxOf_cons_ne _ hne]
      split
      · rw [List.idxOf_append_of_mem hrest]
        exact ⟨List.mem_append_left _ hrest, by simp [Nat.add_comm]⟩
      · exact ⟨hrest, by simp [Nat.add_comm]⟩
  | attach pID' allocID appendID =>
    simp only [step, ahead, Option.toList_none, List.length_nil, Nat.zero_add]
    unfold Analyzer.attach
    split
    · exact ⟨hmem, Nat.le_refl _⟩
    · split
      · exact ⟨hmem, Nat.le_refl _⟩
      · split
        · exact ⟨hmem, Nat.le_refl _⟩
        · exact ⟨List.mem_append_left _ hmem, (List.idxOf_append_of_mem hmem).le⟩
  | detach pID' =>
    have hother : Analyzer.key pID ≠ Analyzer.key pID' := fun heq => hkeep heq.symm
    simp only [step, ahead, Analyzer.detach_list, Option.toList_none, List.length_nil, Nat.zero_add]
    refine ⟨Keyed.mem_discard_of_ne hother hmem, idxOf_eraseP_le ?_ s.pList⟩
    simpa using hother
  | cameras xExpiredTimer =>
    simp only [step, ahead, Option.toList_none, List.length_nil, Nat.zero_add]
    exact ⟨hmem, Nat.le_refl _⟩

/-- A camera waits for at most the cameras before it. -/
theorem analysed_le_ahead {es : List Event} (hmem : pID ∈ s.pList)
    (hkeep : ∀ e ∈ es, ¬Detached pID e) (hwait : pID ∉ s.analysed ulIPCheckInterval es) :
    (s.analysed ulIPCheckInterval es).length ≤ ahead s pID := by
  induction es generalizing s with
  | nil => exact Nat.zero_le _
  | cons e es ih =>
    rw [analysed, List.mem_append, not_or] at hwait
    obtain ⟨hhead, htail⟩ := hwait
    obtain ⟨hmem', hle⟩ := step_ahead hmem (hkeep e List.mem_cons_self)
      (fun h => hhead (Option.mem_toList.mpr h))
    have hrest := ih hmem' (fun e he => hkeep e (List.mem_cons_of_mem _ he)) htail
    rw [analysed, List.length_append]
    omega

/-- Each pass is the turn of the camera at the head, and a camera that stays in the list waits for
no more analyses than there are cameras before it. -/
theorem analysed_in_turn (ulIPCheckInterval : UInt32) (s : AnalyzerState) :
    (∀ run : PassRun, run.appended = true → Turn s run.now (s.process ulIPCheckInterval run)) ∧
    ∀ es pID, pID ∈ s.pList → (∀ e ∈ es, ¬Detached pID e) →
      pID ∉ s.analysed ulIPCheckInterval es →
      (s.analysed ulIPCheckInterval es).length ≤ ahead s pID :=
  ⟨fun _ => process_turn, fun _ _ => analysed_le_ahead⟩

end

def gate : ID := Field.copy _ "gate".toList

def lobby : ID := Field.copy _ "lobby".toList

/-- Two cameras: the first is to be analysed a minute after the second. -/
def gateFirst : AnalyzerState where
  pList := [gate, lobby]
  xExpiredTimer := fun pID =>
    if pID = gate then some (.initMS 100000000 60000)
    else if pID = lobby then some (.initMS 100000000 0)
    else none

/-- The second camera is expired, and no camera is analysed. -/
theorem expired_camera_waits : gateFirst.pList.Nodup ∧
    ¬((∃ pID ∈ gateFirst.pList, Expired gateFirst 101000000 pID) →
      ∃ pID ∈ gateFirst.pList, Expired gateFirst 101000000 pID ∧
        (gateFirst.process 60000 ⟨101000000, 103000000, true⟩).analysed = some pID) := by
  refine ⟨by decide, fun h => ?_⟩
  obtain ⟨pID, -, -, hanalysed⟩ := h ⟨lobby, by decide, .initMS 100000000 0, rfl, rfl⟩
  cases hanalysed

/-- A minute later both are, the first one before the second. -/
theorem gate_then_lobby : gateFirst.analysed 60000
      [.pass ⟨161000000, 163000000, true⟩, .pass ⟨163000000, 165000000, true⟩] = [gate, lobby] ∧
    (gateFirst.analysed 60000 [.pass ⟨161000000, 163000000, true⟩]).length ≤ 1 :=
  ⟨rfl, (analysed_in_turn 60000 gateFirst).2 _ lobby (by decide)
    (fun e he => by simp at he; subst he; exact id) (by decide)⟩

end Catchb.Proofs.Turns
