import Catchb.Database
import Catchb.Switch

namespace Catchb
open Lib

/-- The messages of the catchb thread that concern cameras. -/
inductive CctvMsg
  | create (config : CctvConfig)
  | delete (id : ID)
  | found (config : CctvConfig)
  | removed (id : ID)
  | hashUpdated (id : ID) (hash : Hash)
  | setStat (id : ID) (stat : CctvStat) (time : UInt32) (hash : Hash)
  | setProperties (id : ID) (config : CctvConfig) (flags : UInt32)
  | register (id : ID) (hash : Hash)
  deriving DecidableEq

/-- The camera that a message is about. -/
def CctvMsg.id : CctvMsg → ID
  | .create config | .found config => config.id
  | .delete id | .removed id | .hashUpdated id _ | .setStat id _ _ _ | .setProperties id _ _
  | .register id _ => id

structure Daemon where
  cctvs : List Cctv
  switches : List Switch
  analyzer : List ID
  table : Sql.Table
  msgQ : List CctvMsg
  controlQ : List SwitchControl
  alarms : List SendAlarm
  logs : List Log

def Cctv.key (cctv : Cctv) : ID := cctv.config.id
def Switch.key (sw : Switch) : ID := sw.config.id

namespace Daemon

/-- A start: the cameras of the table enter by messages. -/
def start (switches : List Switch) (table : Sql.Table) : Daemon where
  cctvs := []
  switches := switches
  analyzer := []
  table := table
  msgQ := []
  controlQ := []
  alarms := []
  logs := []

def getCCTV (d : Daemon) (id : ID) : Option Cctv := Keyed.get Cctv.key id d.cctvs

/-- Without an ID the first switch is taken. -/
def getSwitch (d : Daemon) (id : ID) : Except Ret Switch :=
  if id.val ≠ [] then
    match Keyed.get Switch.key id d.switches with
    | some sw => .ok sw
    | none => .error .objectNotFound
  else
    match d.switches with
    | sw :: _ => .ok sw
    | [] => .error .listEmpty

/-- The state after an operation on a switch that `getSwitch` returned. -/
def putSwitch (d : Daemon) (sw : Switch) : Daemon :=
  { d with switches := Keyed.update Switch.key sw.key (fun _ => sw) d.switches }

def push (d : Daemon) (msg : CctvMsg) (pushed : Bool) : Ret × Daemon :=
  if pushed then (.ok, { d with msgQ := d.msgQ ++ [msg] }) else (.notEnoughMemory, d)

variable {d : Daemon} {id : ID} {sw sw' : Switch}

theorem getCCTV_id {cctv : Cctv} (h : d.getCCTV id = some cctv) : cctv.config.id = id := by
  have hk : cctv.key = id := Keyed.get_key h
  exact hk

/-- The switch that `getSwitch` returns is the first one with its ID. -/
theorem getSwitch_key (h : d.getSwitch id = .ok sw) :
    Keyed.get Switch.key sw.key d.switches = some sw := by
  unfold getSwitch at h
  split at h
  · split at h
    · rename_i hg
      cases h
      rw [Keyed.get_key hg]
      exact hg
    · cases h
  · split at h
    · rename_i hs
      cases h
      simp [Keyed.get, hs]
    · cases h

theorem getSwitch_congr {d' : Daemon} (h : d'.switches = d.switches) (id : ID) :
    d'.getSwitch id = d.getSwitch id := by
  simp only [getSwitch, h]

theorem getSwitch_id (h : d.getSwitch id = .ok sw) (hid : id.val ≠ []) : sw.key = id := by
  simp only [getSwitch, ne_eq, hid, not_false_eq_true, ↓reduceIte] at h
  split at h
  · rename_i hg
    cases h
    exact Keyed.get_key hg
  · cases h

theorem get_putSwitch (hk : sw'.key = sw.key) (h : d.getSwitch id = .ok sw) (j : ID) :
    Keyed.get Switch.key j (d.putSwitch sw').switches =
      if j = sw.key then some sw' else Keyed.get Switch.key j d.switches := by
  have hf : ∀ x : Switch, x.key = sw'.key → sw'.key = sw'.key := fun _ _ => rfl
  rw [putSwitch, Keyed.get_update hf, hk, getSwitch_key h]
  rfl

theorem getSwitch_putSwitch (hk : sw'.key = sw.key) (h : d.getSwitch id = .ok sw) :
    (d.putSwitch sw').getSwitch id = .ok sw' := by
  by_cases hid : id.val = []
  · cases hs : d.switches with
    | nil => simp [getSwitch, hid, hs] at h
    | cons x xs =>
      have hx : x = sw := by simpa [getSwitch, hid, hs] using h
      have hkey : x.key = sw'.key := (congrArg Switch.key hx).trans hk.symm
      simp [getSwitch, hid, putSwitch, hs, Keyed.update, hkey]
  · have hg := get_putSwitch hk h id
    rw [if_pos (getSwitch_id h hid).symm] at hg
    simp [getSwitch, hid, hg]

theorem putSwitch_self (h : d.getSwitch id = .ok sw) : d.putSwitch sw = d := by
  simp only [putSwitch, Keyed.update_self (getSwitch_key h)]

/-- Only the switch that is written back changes. -/
theorem mem_putSwitch {x : Switch} (h : x ∈ (d.putSwitch sw).switches) :
    x ∈ d.switches ∨ x = sw := by
  rcases Keyed.mem_update h with h | ⟨y, -, rfl⟩
  · exact Or.inl h
  · exact Or.inr rfl

theorem getSwitch_mem (h : d.getSwitch id = .ok sw) : sw ∈ d.switches :=
  Keyed.get_mem (getSwitch_key h)

def setControl (d : Daemon) (switchID : ID) (targetIP : IP) (policy : AcPolicy)
    (posted : Bool) : Daemon :=
  if posted then { d with controlQ := d.controlQ ++ [⟨switchID, targetIP, policy⟩] } else d

/-- Only an address without an entry is denied, and only an address with one is allowed. -/
def onSetControl (d : Daemon) (msg : SwitchControl) (run : AcRun) : Ret × Daemon :=
  match d.getSwitch msg.switchID with
  | .error ret => (ret, d)
  | .ok sw =>
    match sw.getAC msg.targetIP.val, msg.policy with
    | none, .deny =>
      let (ret, sw) := sw.addAC msg.targetIP.val .deny run
      (ret, d.putSwitch sw)
    | none, .allow => (.ok, d)
    | some _, .allow => (.ok, d.putSwitch (sw.deleteAC msg.targetIP.val run.script).2)
    | some _, .deny => (.ok, d)

/-- One turn of the detector's loop. -/
def controlNext (d : Daemon) (run : AcRun) : Daemon :=
  match d.controlQ with
  | [] => d
  | msg :: rest => ({ d with controlQ := rest }.onSetControl msg run).2

end Daemon
/-! A switch and a camera for concrete runs. -/

namespace Sample

def hall : Switch where
  config := ⟨⟨"sw1".toList, by decide⟩, ⟨"dasan".toList, by decide⟩, ⟨"10.0.0.1".toList, by decide⟩,
    false, Field.empty 32, Field.empty 32, Field.empty 64⟩
  acList := []
  applied := []

def porch : CctvConfig :=
  ⟨⟨"porch".toList, by decide⟩, ⟨"10.0.0.7".toList, by decide⟩, hall.config.id,
    Field.empty 64, 1, Field.empty 48, .unregistered⟩

def porchHash : Hash := ⟨"5e1f".toList, by decide⟩

end Sample
end Catchb
