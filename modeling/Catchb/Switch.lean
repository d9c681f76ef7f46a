import Catchb.Lib.Keyed
import Catchb.Lib.Latest
import Catchb.Types

namespace Catchb
open Lib

/-- The results of loading a policy script and of the session that types it in. -/
structure ScriptRun where
  load : Ret
  ssh : Ret
  telnet : Ret

/-- The script loads and its session ends well. -/
def ScriptRun.Succeeds (run : ScriptRun) : Prop :=
  run.load = .ok ∧ run.ssh = .ok ∧ run.telnet = .ok

structure AcRun where
  allocAC : Bool
  appendAC : Bool
  script : ScriptRun

/-- Nothing fails. -/
def AcRun.smooth : AcRun := ⟨true, true, .ok, .ok, .ok⟩

/-- `applied` is the device's side: the scripts that ran to their end, newest first. -/
structure Switch where
  config : SwitchConfig
  acList : List SwitchAc
  applied : List (Text × AcPolicy)

def SwitchAc.key (ac : SwitchAc) : Text := lower ac.ip.val

/-- An entry made for an IP has that IP's key. -/
theorem SwitchAc.key_copy (index : Nat) (ip : IP) (p : AcPolicy) :
    SwitchAc.key ⟨index, Field.copy 24 ip.val, p⟩ = lower ip.val := by
  simp [SwitchAc.key]

namespace Switch

def getAC (sw : Switch) (ip : Text) : Option SwitchAc := Keyed.get SwitchAc.key (lower ip) sw.acList

def scriptRet (sw : Switch) (run : ScriptRun) : Ret :=
  if run.load ≠ .ok then run.load
  else if sw.config.secure then run.ssh
  else run.telnet

def setAC (sw : Switch) (targetIP : Text) (policy : AcPolicy) (run : ScriptRun) : Ret × Switch :=
  if sw.scriptRet run = .ok then
    (.ok, { sw with applied := (targetIP, policy) :: sw.applied })
  else (sw.scriptRet run, sw)

/-- The entry is in the list before the script runs, and the script's result is dropped. -/
def addAC (sw : Switch) (ip : Text) (policy : AcPolicy) (run : AcRun) : Ret × Switch :=
  if !run.allocAC then (.notEnoughMemory, sw)
  else if !run.appendAC then (.notEnoughMemory, sw)
  else
    let ac : SwitchAc := ⟨0, Field.copy 24 ip, policy⟩
    let sw' := { sw with acList := sw.acList ++ [ac] }
    (.ok, (sw'.setAC ip policy run.script).2)

def deleteAC (sw : Switch) (ip : Text) (run : ScriptRun) : Ret × Switch :=
  match sw.getAC ip with
  | none => (.objectNotFound, sw)
  | some _ =>
    match sw.setAC ip .allow run with
    | (.ok, sw') =>
      (.ok, { sw' with acList := Keyed.discard SwitchAc.key (lower ip) sw'.acList })
    | (ret, sw') => (ret, sw')

/-- The policy that the device last took for an address. -/
def lastApplied (sw : Switch) (ip : Text) : Option AcPolicy := latest strcasecmp sw.applied ip

variable {sw : Switch} {ip : Text} {policy : AcPolicy}

/-- The last script decides for its own address, whatever the list. -/
theorem lastApplied_cons (acs : List SwitchAc) (ip j : Text) (p : AcPolicy) :
    lastApplied { sw with acList := acs, applied := (ip, p) :: sw.applied } j =
      if strcasecmp ip j then some p else sw.lastApplied j :=
  latest_cons (ip, p) sw.applied j

theorem scriptRet_of_succeeds {run : ScriptRun} (h : run.Succeeds) : sw.scriptRet run = .ok := by
  obtain ⟨hl, hs, ht⟩ := h
  simp [scriptRet, hl, hs, ht]

theorem setAC_ok {run : ScriptRun} (h : sw.scriptRet run = .ok) :
    sw.setAC ip policy run = (.ok, { sw with applied := (ip, policy) :: sw.applied }) := by
  simp [setAC, h]

theorem setAC_failed {run : ScriptRun} (h : sw.scriptRet run ≠ .ok) :
    sw.setAC ip policy run = (sw.scriptRet run, sw) := by
  simp [setAC, h]

theorem addAC_unlisted {run : AcRun} (h : (run.allocAC && run.appendAC) = false) :
    sw.addAC ip policy run = (.notEnoughMemory, sw) := by
  unfold addAC
  cases ha : run.allocAC with
  | false => rfl
  | true =>
    have hp : run.appendAC = false := by simpa [ha] using h
    simp [hp]

theorem addAC_listed {run : AcRun} (h : (run.allocAC && run.appendAC) = true) :
    sw.addAC ip policy run =
      (.ok, { sw with
        acList := sw.acList ++ [⟨0, Field.copy 24 ip, policy⟩]
        applied :=
          if sw.scriptRet run.script = .ok then (ip, policy) :: sw.applied else sw.applied }) := by
  simp only [Bool.and_eq_true] at h
  have hs : ∀ l, scriptRet { sw with acList := l } run.script = sw.scriptRet run.script :=
    fun _ => rfl
  simp only [addAC, h.1, h.2, Bool.not_true, Bool.false_eq_true, ↓reduceIte, setAC, hs]
  split <;> rfl

theorem deleteAC_ok {run : ScriptRun} {ac : SwitchAc} (hg : sw.getAC ip = some ac)
    (h : sw.scriptRet run = .ok) :
    sw.deleteAC ip run =
      (.ok, { sw with
        acList := Keyed.discard SwitchAc.key (lower ip) sw.acList
        applied := (ip, .allow) :: sw.applied }) := by
  simp [deleteAC, hg, setAC_ok h]

theorem deleteAC_failed {run : ScriptRun} {ac : SwitchAc} (hg : sw.getAC ip = some ac)
    (h : sw.scriptRet run ≠ .ok) : sw.deleteAC ip run = (sw.scriptRet run, sw) := by
  simp only [deleteAC, hg, setAC_failed h]

theorem config_addAC {run : AcRun} : (sw.addAC ip policy run).2.config = sw.config := by
  cases h : run.allocAC && run.appendAC with
  | false => rw [addAC_unlisted h]
  | true => rw [addAC_listed h]

theorem config_deleteAC {run : ScriptRun} : (sw.deleteAC ip run).2.config = sw.config := by
  cases hg : sw.getAC ip with
  | none => simp [deleteAC, hg]
  | some ac =>
    by_cases h : sw.scriptRet run = .ok
    · rw [deleteAC_ok hg h]
    · rw [deleteAC_failed hg h]

end Switch
end Catchb
