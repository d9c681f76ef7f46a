import Catchb.Lib.Run
import Catchb.Proofs.Control

/-! The entries of an access control list against the scripts that succeeded. -/

namespace Catchb.Proofs.Recorded
open Lib Daemon Sample

/-- A DENY entry stands for a DENY script that succeeded with no ALLOW script after it. -/
def TrueRecords (sw : Switch) : Prop :=
  ∀ ac ∈ sw.acList, ac.policy = .deny → sw.lastApplied ac.ip.val = some .deny

/-- With at most one entry for an address. -/
structure Kept (sw : Switch) : Prop where
  distinct : (sw.acList.map SwitchAc.key).Nodup
  recorded : TrueRecords sw

def control (d : Daemon) (c : SwitchControl × AcRun) : Daemon := (d.onSetControl c.1 c.2).2

/-- The message is a denial that the switch has no entry for. -/
def Adds (sw : Switch) (msg : SwitchControl) : Prop :=
  msg.policy = .deny ∧ sw.getAC msg.targetIP.val = none

/-- After the message every DENY entry is recorded rightly, and an addition whose script
failed has left the list as it was. -/
def Honest (d : Daemon) (c : SwitchControl × AcRun) : Prop :=
  (∀ sw ∈ (control d c).switches, TrueRecords sw) ∧
    ∀ sw sw', d.getSwitch c.1.switchID = .ok sw → Adds sw c.1 →
      sw.scriptRet c.2.script ≠ .ok → (control d c).getSwitch c.1.switchID = .ok sw' →
        sw'.acList = sw.acList

/-- An addition that gets its entry gets its script through. -/
def ScriptHolds (d : Daemon) (c : SwitchControl × AcRun) : Prop :=
  ∀ sw, d.getSwitch c.1.switchID = .ok sw → Adds sw c.1 →
    (c.2.allocAC && c.2.appendAC) = true → sw.scriptRet c.2.script = .ok

variable {sw : Switch} {ip : IP} {run : AcRun}

theorem Kept.deny (h : Kept sw) (hg : sw.getAC ip.val = none)
    (hs : (run.allocAC && run.appendAC) = true → sw.scriptRet run.script = .ok) :
    Kept (sw.addAC ip.val .deny run).2 := by
  cases hl : run.allocAC && run.appendAC with
  | false =>
    rw [Switch.addAC_unlisted hl]
    exact h
  | true =>
    rw [Switch.addAC_listed hl, hs hl]
    refine ⟨?_, ?_⟩
    · apply Keyed.nodup_append_singleton h.distinct
      rw [SwitchAc.key_copy]
      exact hg
    · intro ac hac hp
      rcases List.mem_append.mp hac with hac | hac
      · have hne : strcasecmp ip.val ac.ip.val = false :=
          strcasecmp_false_iff.mpr (Ne.symm (Keyed.get_eq_none.mp hg ac hac))
        rw [if_pos rfl, Switch.lastApplied_cons, hne]
        exact h.recorded ac hac hp
      · have he := List.mem_singleton.mp hac
        subst he
        simp [Switch.lastApplied]

theorem Kept.allow (h : Kept sw) {ac : SwitchAc} (hg : sw.getAC ip.val = some ac) :
    Kept (sw.deleteAC ip.val run.script).2 := by
  by_cases hs : sw.scriptRet run.script = .ok
  · rw [Switch.deleteAC_ok hg hs]
    refine ⟨Keyed.nodup_discard h.distinct, ?_⟩
    intro x hx hp
    have hgone := Keyed.get_eq_none.mp (Keyed.get_discard_same h.distinct) x hx
    have hne : strcasecmp ip.val x.ip.val = false := strcasecmp_false_iff.mpr (Ne.symm hgone)
    rw [Switch.lastApplied_cons, hne]
    exact h.recorded x (Keyed.mem_of_mem_discard hx) hp
  · rw [Switch.deleteAC_failed hg hs]
    exact h

theorem Kept.controlled (h : Kept sw) {p : AcPolicy}
    (hs : p = .deny → sw.getAC ip.val = none → (run.allocAC && run.appendAC) = true →
      sw.scriptRet run.script = .ok) : Kept (sw.controlled ip.val p run) := by
  cases hg : sw.getAC ip.val with
  | none =>
    cases p with
    | deny =>
      rw [Switch.controlled_deny_unlisted hg]
      exact h.deny hg (hs rfl hg)
    | allow =>
      rw [Switch.controlled_allow_unlisted hg]
      exact h
  | some ac =>
    cases p with
    | deny =>
      rw [Switch.controlled_deny_listed hg]
      exact h
    | allow =>
      rw [Switch.controlled_allow_listed hg]
      exact h.allow hg

def AllKept (d : Daemon) : Prop := ∀ sw ∈ d.switches, Kept sw

theorem allKept_control {d : Daemon} {c : SwitchControl × AcRun} (h : AllKept d)
    (hs : ScriptHolds d c) : AllKept (control d c) := by
  unfold control
  cases hg : d.getSwitch c.1.switchID with
  | error e =>
    rw [onSetControl_error c.1 hg]
    exact h
  | ok sw =>
    rw [onSetControl_ok c.1 hg]
    intro x hx
    rcases mem_putSwitch hx with hx | rfl
    · exact h x hx
    · apply (h sw (getSwitch_mem hg)).controlled
      intro hp hn hl
      exact hs sw hg ⟨hp, hn⟩ hl

theorem honest_iff {d : Daemon} {c : SwitchControl × AcRun} (h : AllKept d) :
    Honest d c ↔ ScriptHolds d c := by
  constructor
  · rintro ⟨-, hlist⟩ sw hg ha hl
    by_contra hs
    have hsw : (control d c).getSwitch c.1.switchID =
        .ok (sw.controlled c.1.targetIP.val c.1.policy c.2) := by
      rw [control, onSetControl_ok c.1 hg]
      exact getSwitch_putSwitch Switch.controlled_key hg
    have hsame := hlist sw _ hg ha hs hsw
    rw [ha.1, Switch.controlled_deny_unlisted ha.2, Switch.addAC_listed hl] at hsame
    exact absurd hsame (by simp)
  · intro hs
    refine ⟨fun sw hsw => (allKept_control h hs sw hsw).recorded, ?_⟩
    intro sw sw' hg ha hfail hsw'
    have hl : (c.2.allocAC && c.2.appendAC) = false := by
      cases hl : c.2.allocAC && c.2.appendAC with
      | false => rfl
      | true => exact absurd (hs sw hg ha hl) hfail
    rw [control, onSetControl_ok c.1 hg, ha.1, Switch.controlled_deny_unlisted ha.2,
      Switch.addAC_unlisted hl, putSwitch_self hg, hg] at hsw'
    cases hsw'
    rfl

theorem honest_iff_scriptHolds {d : Daemon} (h : AllKept d) (cs : List (SwitchControl × AcRun)) :
    Admitted control Honest d cs ↔ Admitted control ScriptHolds d cs :=
  admitted_congr (fun _ _ h hs => allKept_control h hs) (fun _ _ h => honest_iff h) h cs

theorem allKept_empty {d : Daemon} (hd : ∀ sw ∈ d.switches, sw.acList = []) : AllKept d := by
  intro sw hsw
  exact ⟨by simp [hd sw hsw], by simp [TrueRecords, hd sw hsw]⟩

/-- Along any run of control messages from empty lists, the records stay true exactly while
every addition's script succeeds. -/
theorem denials_recorded_iff {d : Daemon} (hd : ∀ sw ∈ d.switches, sw.acList = [])
    (cs : List (SwitchControl × AcRun)) :
    Admitted control Honest d cs ↔ Admitted control ScriptHolds d cs :=
  honest_iff_scriptHolds (allKept_empty hd) cs

def idle : Daemon := Daemon.start [hall] DB.createCCTVTable

theorem idle_empty : ∀ sw ∈ idle.switches, sw.acList = [] := by
  intro sw hsw
  have he := List.mem_singleton.mp hsw
  subst he
  rfl

/-- The session of the script breaks off. -/
def broken : AcRun := { AcRun.smooth with script := ⟨.ok, .error, .error⟩ }

def denyPorch : SwitchControl := ⟨hall.config.id, porch.ip, .deny⟩

theorem smooth_denials_recorded :
    Admitted control Honest idle [(denyPorch, .smooth), (denyPorch, broken)] := by
  refine (denials_recorded_iff idle_empty _).mpr ⟨?_, ?_, trivial⟩
  · intro sw _ _ _
    exact Switch.scriptRet_of_succeeds ⟨rfl, rfl, rfl⟩
  · intro sw hg ha
    cases hg
    exact absurd ha.2 (by decide)

/-- A denial whose script fails stays in the list, and the next one for its address is skipped. -/
theorem failed_denial_recorded :
    ¬ Admitted control Honest idle [(denyPorch, broken), (denyPorch, .smooth)] := by
  rw [honest_iff_scriptHolds (allKept_empty idle_empty)]
  rintro ⟨h, -⟩
  have hs : Ret.error = .ok := h hall rfl ⟨rfl, rfl⟩ rfl
  cases hs

end Catchb.Proofs.Recorded
