import Catchb.SwitchScript
import Mathlib.Data.List.Forall2

/-! When the loading of a script reports what becomes of it. -/

namespace Catchb.Proofs.ScriptLoad
open Lib ScriptLoadRun

/-- An object whose prompt and command are strings, which are cut to the fields. -/
def Line (pLine : Json) (line : SwsCmd) : Prop :=
  ∃ members pPrompt pCommand, pLine = .object members ∧
    pLine.getObjectItem "prompt".toList = some (.string pPrompt) ∧
    pLine.getObjectItem "command".toList = some (.string pCommand) ∧
    line = ⟨Field.copy 63 pPrompt, Field.copy 255 pCommand⟩

/-- The section is there, and is an array of lines. -/
def Lists (xPolicy : AcPolicy) (pRoot : Json) (lines : List SwsCmd) : Prop :=
  ∃ items, pRoot.getObjectItem (sectionName xPolicy) = some (.array items) ∧
    List.Forall₂ Line items lines

/-- The converter's output, where it runs and there is memory for what it says. -/
def delivered (run : ScriptLoadRun) (request : ScriptRequest) : Option Text :=
  if run.ulFileLen.isSome && run.pData && run.pLines then run.popen request.command else none

/-- The lines that the converter's output has. -/
def Wanted (run : ScriptLoadRun) (request : ScriptRequest) (lines : List SwsCmd) : Prop :=
  ∃ output pRoot, delivered run request = some output ∧
    run.parse (cstring output) = some pRoot ∧ Lists request.xPolicy pRoot lines

/-- Nothing is set, and nothing is kept. -/
structure Refused (outcome : ScriptOutcome) : Prop where
  xRet : outcome.xRet ≠ .ok
  pLines : outcome.pLines = none
  held : outcome.held = []
  closed : outcome.reclosed = false

/-- Exactly the lines are handed over, with OK, or there are none and the call fails. -/
def Loads (run : ScriptLoadRun) (request : ScriptRequest) : Prop :=
  (∃ lines, Wanted run request lines ∧ run.load request = ⟨.ok, some lines, [.lines], false⟩) ∨
    (¬∃ lines, Wanted run request lines) ∧ Refused (run.load request)

/-- What the parser makes of the text that reaches it. -/
def seen (run : ScriptLoadRun) (request : ScriptRequest) : Option Json := do
  let ulFileLen ← run.ulFileLen
  let output ← run.popen request.command
  if output.take (room ulFileLen) = [] then none else run.parse (run.text ulFileLen output)

/-- There is memory for the text. -/
def Roomy (run : ScriptLoadRun) : Prop :=
  ∀ ulFileLen, run.ulFileLen = some ulFileLen → 0 < ulFileLen → run.pData = true

/-- There is memory for the text. The lines of the whole output, if it has any, are in what reaches
the parser; and if it has none, neither is JSON there, or only a section for whose lines there is no
memory. -/
structure Sound (run : ScriptLoadRun) (request : ScriptRequest) : Prop where
  memory : Roomy run
  whole : ∀ lines, Wanted run request lines →
    ∃ pRoot, seen run request = some pRoot ∧ Lists request.xPolicy pRoot lines
  other : (¬∃ lines, Wanted run request lines) → ∀ pRoot, seen run request = some pRoot →
    run.pLines = false ∧
      ∃ items, pRoot.getObjectItem (sectionName request.xPolicy) = some (.array items)

variable {run : ScriptLoadRun} {request : ScriptRequest} {lines lines' : List SwsCmd} {pRoot : Json}
  {items : List Json} {xPolicy : AcPolicy}

theorem copyLine_iff {pLine : Json} {line : SwsCmd} :
    copyLine pLine = some line ↔ Line pLine line := by
  constructor
  · intro h
    unfold copyLine at h
    split at h
    · rename_i pPrompt pCommand hprompt hcommand
      cases h
      cases pLine with
      | object members => exact ⟨members, pPrompt, pCommand, rfl, hprompt, hcommand, rfl⟩
      | _ => cases hprompt
    · cases h
  · rintro ⟨members, pPrompt, pCommand, -, hprompt, hcommand, rfl⟩
    simp only [copyLine, hprompt, hcommand]

theorem copyLines_iff : copyLines items = some lines ↔ List.Forall₂ Line items lines := by
  induction items generalizing lines with
  | nil =>
    rw [copyLines, List.forall₂_nil_left_iff]
    exact ⟨fun h => (Option.some.inj h).symm, fun h => h ▸ rfl⟩
  | cons pLine rest ih =>
    rw [copyLines, List.forall₂_cons_left_iff]
    constructor
    · intro h
      cases hline : copyLine pLine with
      | none => simp [hline] at h
      | some line =>
        simp only [hline, Option.map_eq_some_iff] at h
        obtain ⟨tail, htail, rfl⟩ := h
        exact ⟨line, tail, copyLine_iff.mp hline, ih.mp htail, rfl⟩
    · rintro ⟨line, tail, hline, htail, rfl⟩
      simp only [copyLine_iff.mpr hline, ih.mpr htail, Option.map_some]

theorem Lists.unique (h : Lists xPolicy pRoot lines) (h' : Lists xPolicy pRoot lines') :
    lines = lines' := by
  obtain ⟨items, hsection, hlines⟩ := h
  obtain ⟨items', hsection', hlines'⟩ := h'
  rw [hsection] at hsection'
  cases hsection'
  exact Option.some.inj ((copyLines_iff.mpr hlines).symm.trans (copyLines_iff.mpr hlines'))

theorem Wanted.unique (h : Wanted run request lines) (h' : Wanted run request lines') :
    lines = lines' := by
  obtain ⟨output, pRoot, houtput, hparse, hlists⟩ := h
  obtain ⟨output', pRoot', houtput', hparse', hlists'⟩ := h'
  rw [houtput] at houtput'
  cases houtput'
  rw [hparse] at hparse'
  cases hparse'
  exact hlists.unique hlists'

theorem Wanted.pLines (h : Wanted run request lines) : run.pLines = true := by
  obtain ⟨output, -, houtput, -, -⟩ := h
  unfold delivered at houtput
  split at houtput
  · rename_i hmemory
    rw [Bool.and_eq_true] at hmemory
    exact hmemory.2
  · cases houtput

theorem loadRoot_ok_iff (h : run.pLines = true) :
    run.loadRoot xPolicy pRoot = ⟨.ok, some lines, [.lines], false⟩ ↔
      Lists xPolicy pRoot lines := by
  unfold loadRoot
  split
  · rename_i items hsection
    rw [h, Bool.not_true, if_neg Bool.false_ne_true]
    constructor
    · intro hload
      split at hload
      · cases hload
      · rename_i lines' hlines
        cases hload
        exact ⟨items, hsection, copyLines_iff.mp hlines⟩
    · rintro ⟨items', hsection', hlines⟩
      rw [hsection] at hsection'
      cases hsection'
      rw [copyLines_iff.mpr hlines]
      rfl
  · rename_i hnone
    constructor
    · intro hload
      cases hload
    · rintro ⟨items, hsection, -⟩
      exact absurd hsection (hnone items)

/-- Only a section that has no memory for its lines is refused. -/
theorem loadRoot_refused_iff : Refused (run.loadRoot xPolicy pRoot) ↔ run.pLines = false ∧
    ∃ items, pRoot.getObjectItem (sectionName xPolicy) = some (.array items) := by
  unfold loadRoot
  split
  · rename_i items hsection
    cases hlines : run.pLines with
    | false => exact ⟨fun _ => ⟨rfl, items, hsection⟩, fun _ => ⟨nofun, rfl, rfl, rfl⟩⟩
    | true =>
      refine ⟨fun h => absurd ?_ h.xRet, fun h => absurd h.1 (Bool.false_ne_true ·.symm)⟩
      cases copyLines items <;> rfl
  · rename_i hnone
    exact ⟨fun h => absurd rfl h.xRet, fun ⟨_, items, hsection⟩ => absurd hsection (hnone items)⟩

theorem roomy_of_closed (h : (run.load request).reclosed = false) : Roomy run := by
  intro ulFileLen hopen hpos
  by_contra hdata
  rw [Bool.not_eq_true] at hdata
  rw [load, hopen] at h
  simp only [hdata, Bool.not_false, Bool.and_true, gt_iff_lt, hpos, decide_true, ↓reduceIte] at h
  cases h

/-- What is not seen is refused, and what is seen is taken for a script. -/
theorem load_eq (request : ScriptRequest) (h : Roomy run) :
    (seen run request = none → Refused (run.load request)) ∧
    ∀ pRoot, seen run request = some pRoot →
      run.load request = run.loadRoot request.xPolicy pRoot := by
  unfold seen load
  cases hopen : run.ulFileLen with
  | none => exact ⟨fun _ => ⟨nofun, rfl, rfl, rfl⟩, nofun⟩
  | some ulFileLen =>
    have hmemory : (decide (ulFileLen > 0) && !run.pData) = false := by
      by_cases hpos : 0 < ulFileLen
      · simp [h ulFileLen hopen hpos]
      · simp [hpos]
    simp only [hmemory, Bool.false_eq_true, ↓reduceIte]
    cases hout : run.popen request.command with
    | none => exact ⟨fun _ => ⟨nofun, rfl, rfl, rfl⟩, nofun⟩
    | some output =>
      simp only [Option.bind_eq_bind, Option.bind_some]
      split
      · exact ⟨fun _ => ⟨nofun, rfl, rfl, rfl⟩, nofun⟩
      · cases hparse : run.parse (run.text ulFileLen output) with
        | none => exact ⟨fun _ => ⟨nofun, rfl, rfl, rfl⟩, nofun⟩
        | some pRoot =>
          refine ⟨nofun, fun pRoot' hseen => ?_⟩
          cases hseen
          rfl

theorem Loads.sound (h : Loads run request) : Sound run request := by
  rcases h with ⟨lines, hwanted, hload⟩ | ⟨hnone, hrefused⟩
  · have hroomy : Roomy run := roomy_of_closed (by rw [hload])
    obtain ⟨hunseen, hseen⟩ := load_eq request hroomy
    refine ⟨hroomy, fun lines' hwanted' => ?_, fun hnone => absurd ⟨lines, hwanted⟩ hnone⟩
    obtain rfl := hwanted.unique hwanted'
    cases hroot : seen run request with
    | none =>
      have hrefused := (hunseen hroot).xRet
      rw [hload] at hrefused
      exact absurd rfl hrefused
    | some pRoot =>
      rw [hseen pRoot hroot] at hload
      exact ⟨pRoot, rfl, (loadRoot_ok_iff hwanted.pLines).mp hload⟩
  · have hroomy : Roomy run := roomy_of_closed hrefused.closed
    refine ⟨hroomy, fun lines hwanted => absurd ⟨lines, hwanted⟩ hnone, fun _ pRoot hroot => ?_⟩
    rw [(load_eq request hroomy).2 pRoot hroot] at hrefused
    exact loadRoot_refused_iff.mp hrefused

theorem Sound.loads (h : Sound run request) : Loads run request := by
  obtain ⟨hunseen, hseen⟩ := load_eq request h.memory
  by_cases hwanted : ∃ lines, Wanted run request lines
  · left
    obtain ⟨lines, hlines⟩ := hwanted
    obtain ⟨pRoot, hroot, hlists⟩ := h.whole lines hlines
    refine ⟨lines, hlines, ?_⟩
    rw [hseen pRoot hroot]
    exact (loadRoot_ok_iff hlines.pLines).mpr hlists
  · right
    refine ⟨hwanted, ?_⟩
    cases hroot : seen run request with
    | none => exact hunseen hroot
    | some pRoot =>
      rw [hseen pRoot hroot]
      exact loadRoot_refused_iff.mpr (h.other hwanted pRoot hroot)

/-- A script is loaded as it should be, or refused, just when what reaches the parser has its lines,
and no JSON without the section passes for one. -/
theorem script_loaded_iff : Loads run request ↔ Sound run request := ⟨Loads.sound, Sound.loads⟩

/-- A switch of the model whose script is ten bytes long, and a converter that prints `{}`. -/
def emptyScript : ScriptLoadRun where
  ulFileLen := some 10
  pData := true
  popen := fun _ => some "{}".toList
  beyond := []
  parse := fun t => if t = "{}".toList then some (.object []) else none
  pLines := true

def denyRequest : ScriptRequest :=
  ⟨"/etc/catchb/model".toList, .deny, none, none, 7, "10.0.0.1".toList, "10.0.0.7".toList⟩

/-- There is no section, and the call returns OK without a line. -/
theorem missing_section_ok : ¬Loads emptyScript denyRequest := by
  rintro (⟨lines, -, hload⟩ | ⟨-, hrefused⟩)
  · cases hload
  · exact hrefused.xRet rfl

/-- A run that has memory, and whose output is there and is shorter than its buffer. -/
structure Fits (run : ScriptLoadRun) (request : ScriptRequest) (output : Text) : Prop where
  memory : run.pData = true ∧ run.pLines = true
  printed : run.popen request.command = some output ∧ output ≠ []
  room : ∃ ulFileLen, run.ulFileLen = some ulFileLen ∧ output.length < room ulFileLen

theorem Fits.seen_eq {output : Text} (h : Fits run request output) :
    seen run request = run.parse (cstring output) := by
  obtain ⟨ulFileLen, hopen, hlt⟩ := h.room
  have htake : output.take (ScriptLoadRun.room ulFileLen) ≠ [] := by
    rw [List.take_of_length_le hlt.le]
    exact h.printed.2
  simp only [seen, hopen, h.printed.1, Option.bind_eq_bind, Option.bind_some, if_neg htake,
    ScriptLoadRun.text, if_pos hlt]

/-- Of such an output, what is JSON has to have the section. -/
theorem loads_of_fits {output : Text} (h : Fits run request output) : Loads run request ↔
    ∀ pRoot, run.parse (cstring output) = some pRoot →
      ∃ lines, Lists request.xPolicy pRoot lines := by
  obtain ⟨ulFileLen, hopen, -⟩ := h.room
  have hdelivered : delivered run request = some output := by
    simp [delivered, hopen, h.memory, h.printed.1]
  constructor
  · intro hloads pRoot hparse
    by_contra hnone
    have hwanted : ¬∃ lines, Wanted run request lines := by
      rintro ⟨lines, output', pRoot', hdelivered', hparse', hlists⟩
      rw [hdelivered] at hdelivered'
      cases hdelivered'
      rw [hparse] at hparse'
      cases hparse'
      exact hnone ⟨lines, hlists⟩
    have hother := hloads.sound.other hwanted pRoot (h.seen_eq.trans hparse)
    exact Bool.false_ne_true (hother.1.symm.trans h.memory.2)
  · intro hall
    refine Sound.loads ⟨fun _ _ _ => h.memory.1, ?_, ?_⟩
    · rintro lines ⟨output', pRoot, hdelivered', hparse, hlists⟩
      rw [hdelivered] at hdelivered'
      cases hdelivered'
      exact ⟨pRoot, h.seen_eq.trans hparse, hlists⟩
    · intro hnone pRoot hroot
      have hparse := h.seen_eq.symm.trans hroot
      obtain ⟨lines, hlists⟩ := hall pRoot hparse
      exact absurd ⟨lines, output, pRoot, hdelivered, hparse, hlists⟩ hnone

end Catchb.Proofs.ScriptLoad
