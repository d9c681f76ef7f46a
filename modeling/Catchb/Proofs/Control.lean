import Catchb.Daemon

/-! What one control message does to its switch. -/

namespace Catchb
open Lib

namespace Switch

/-- The switch after a control message for one of its addresses. -/
def controlled (sw : Switch) (ip : Text) (policy : AcPolicy) (run : AcRun) : Switch :=
  match sw.getAC ip, policy with
  | none, .deny => (sw.addAC ip .deny run).2
  | some _, .allow => (sw.deleteAC ip run.script).2
  | none, .allow | some _, .deny => sw

variable {sw : Switch} {ip : Text} {policy : AcPolicy} {run : AcRun}

theorem controlled_key : (sw.controlled ip policy run).key = sw.key := by
  unfold controlled
  split
  · exact congrArg SwitchConfig.id config_addAC
  · exact congrArg SwitchConfig.id config_deleteAC
  · rfl
  · rfl

theorem controlled_deny_listed {ac : SwitchAc} (hg : sw.getAC ip = some ac) :
    sw.controlled ip .deny run = sw := by
  simp [controlled, hg]

theorem controlled_allow_unlisted (hg : sw.getAC ip = none) :
    sw.controlled ip .allow run = sw := by
  simp [controlled, hg]

theorem controlled_deny_unlisted (hg : sw.getAC ip = none) :
    sw.controlled ip .deny run = (sw.addAC ip .deny run).2 := by
  simp [controlled, hg]

theorem controlled_allow_listed {ac : SwitchAc} (hg : sw.getAC ip = some ac) :
    sw.controlled ip .allow run = (sw.deleteAC ip run.script).2 := by
  simp [controlled, hg]

end Switch

namespace Daemon
variable {d : Daemon} {run : AcRun} {sw : Switch}

theorem onSetControl_error (msg : SwitchControl) {ret : Ret} (h : d.getSwitch msg.switchID = .error ret) :
    d.onSetControl msg run = (ret, d) := by
  simp [onSetControl, h]

theorem onSetControl_ok (msg : SwitchControl) (h : d.getSwitch msg.switchID = .ok sw) :
    (d.onSetControl msg run).2 =
      d.putSwitch (sw.controlled msg.targetIP.val msg.policy run) := by
  have hself := putSwitch_self h
  obtain ⟨switchID, targetIP, policy⟩ := msg
  cases hg : sw.getAC targetIP.val <;> cases policy <;>
    simp [onSetControl, h, hg, Switch.controlled, hself]

end Daemon
end Catchb
