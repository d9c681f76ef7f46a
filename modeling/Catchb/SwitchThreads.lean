import Catchb.Lib.Keyed
import Catchb.Types
import Mathlib.Logic.Function.Basic

/-! The threads that change policies beside those that delete switches, one lock or list
operation at a time. -/

namespace Catchb
open Lib

/-- A switch object at its address. Addresses are never used twice. -/
structure SwitchObject where
  addr : Nat
  id : ID
  deriving DecidableEq

inductive SwitchThread
  | detector
  | catchb
  | server (session : Nat)
  deriving DecidableEq

/-- What a thread wants a switch for: `onSetControl`, or the server's `addAC`. -/
inductive SwitchJob
  | control (policy : AcPolicy)
  | addAC
  deriving DecidableEq

/-- What follows the script: `addAC` returns, `deleteAC` removes the entry. -/
inductive AfterScript
  | done
  | removeAC
  deriving DecidableEq

/-- What the next operation of a thread is. -/
inductive SwitchPc
  | idle
  | getSwitch (switchID : ID) (job : SwitchJob)
  | getAC (sw : SwitchObject) (policy : AcPolicy)
  | appendAC (sw : SwitchObject)
  | loadScript (sw : SwitchObject) (next : AfterScript)
  | runScript (sw : SwitchObject) (next : AfterScript)
  | findAC (sw : SwitchObject)
  | removeAC (sw : SwitchObject)
  | get (id : ID) (inDB : Bool)
  | remove (sw : SwitchObject) (inDB : Bool)
  | deleteDB (sw : SwitchObject)
  | destroySet (sw : SwitchObject)
  | destroyFree (sw : SwitchObject)
  deriving DecidableEq

/-- `locked` are the switches whose own lock is taken and `next` is the next free address. -/
structure SwitchThreads where
  switches : List SwitchObject
  locked : List Nat
  destroyed : List Nat
  next : Nat
  pc : SwitchThread → SwitchPc

/-- How an operation ends; a script may go on. -/
inductive Outcome
  | ok
  | failed
  | busy
  deriving DecidableEq

inductive SwitchEvent
  | appear (id : ID)
  | control (switchID : ID) (policy : AcPolicy)
  | setPolicy (session : Nat) (switchID : ID)
  | delSwitch (session : Nat) (id : ID)
  | removed (id : ID)
  | go (thread : SwitchThread) (outcome : Outcome)

namespace SwitchThreads

def start : SwitchThreads where
  switches := []
  locked := []
  destroyed := []
  next := 0
  pc := fun _ => .idle

/-- `FTM_CATCHB_getSwitch`. -/
def getSwitch (t : SwitchThreads) (id : ID) : Option SwitchObject :=
  if id.val ≠ [] then Keyed.get SwitchObject.id id t.switches else t.switches.head?

def set (t : SwitchThreads) (thread : SwitchThread) (pc : SwitchPc) : SwitchThreads :=
  { t with pc := Function.update t.pc thread pc }

/-- A thread takes its next message or request when it is done with the last. -/
def begin (t : SwitchThreads) (thread : SwitchThread) (pc : SwitchPc) : SwitchThreads :=
  if t.pc thread = .idle then t.set thread pc else t

/-- The detector's branches: the entry is there or not. -/
def afterGetAC (sw : SwitchObject) : AcPolicy → Outcome → SwitchPc
  | .deny, .failed => .appendAC sw
  | .allow, .ok => .findAC sw
  | _, _ => .idle

/-- The operations on a switch that was looked up: none takes the switch's lock. -/
def afterUse (pc : SwitchPc) (outcome : Outcome) : SwitchPc :=
  match pc with
  | .getAC sw policy => afterGetAC sw policy outcome
  | .appendAC sw => if outcome = .ok then .loadScript sw .done else .idle
  | .findAC sw => if outcome = .ok then .loadScript sw .removeAC else .idle
  | .loadScript sw next => if outcome = .ok then .runScript sw next else .idle
  | .runScript sw next =>
    match outcome, next with
    | .busy, _ => .runScript sw next
    | .ok, .removeAC => .removeAC sw
    | .ok, .done | .failed, _ => .idle
  | _ => .idle

def go (t : SwitchThreads) (thread : SwitchThread) (outcome : Outcome) : SwitchThreads :=
  match t.pc thread with
  | .idle => t
  | .getSwitch switchID job =>
    match t.getSwitch switchID, job with
    | none, _ => t.set thread .idle
    | some sw, .control policy => t.set thread (.getAC sw policy)
    | some sw, .addAC => t.set thread (.appendAC sw)
  | .get id inDB =>
    match Keyed.get SwitchObject.id id t.switches with
    | none => t.set thread .idle
    | some sw => t.set thread (.remove sw inDB)
  | .remove sw inDB =>
    if sw.addr ∈ t.switches.map SwitchObject.addr then
      { t with
        switches := Keyed.discard SwitchObject.addr sw.addr t.switches
        pc := Function.update t.pc thread (if inDB then .destroySet sw else .deleteDB sw) }
    else t.set thread .idle
  | .deleteDB sw => t.set thread (.destroySet sw)
  | .destroySet sw =>
    if sw.addr ∈ t.locked then t
    else
      { t with
        locked := sw.addr :: t.locked
        pc := Function.update t.pc thread (.destroyFree sw) }
  | .destroyFree sw =>
    { t with
      locked := t.locked.erase sw.addr
      destroyed := sw.addr :: t.destroyed
      pc := Function.update t.pc thread .idle }
  | pc => t.set thread (afterUse pc outcome)

def step (t : SwitchThreads) : SwitchEvent → SwitchThreads
  | .appear id => { t with switches := t.switches ++ [⟨t.next, id⟩], next := t.next + 1 }
  | .control switchID policy => t.begin .detector (.getSwitch switchID (.control policy))
  | .setPolicy session switchID => t.begin (.server session) (.getSwitch switchID .addAC)
  | .delSwitch session id => t.begin (.server session) (.get id false)
  | .removed id => t.begin .catchb (.get id true)
  | .go thread outcome => t.go thread outcome

end SwitchThreads
end Catchb
