import Catchb.Analyzer

/-! The analyzer's thread beside the catchb thread, one lock or list operation at a time. -/

namespace Catchb
open Lib

/-- A camera object at its address. Addresses are never used twice. -/
structure Camera where
  addr : Nat
  id : ID
  deriving DecidableEq

/-- What the next operation of `FTM_ANALYZER_process` is. -/
inductive PassPc
  | set
  | count
  | getAt
  | getCCTV (pID : ID)
  | analyze (pID : ID) (cctv : Camera)
  | append (pID : ID) (cctv : Camera)
  | reset (cctv : Option Camera)
  deriving DecidableEq

/-- What the catchb thread does with a camera once its ID is detached. -/
inductive Detached
  | unlink (cctv : Camera)
  | destroy (cctv : Camera)
  deriving DecidableEq

/-- What the next operation of the catchb thread is. `onDeleteCCTV` detaches, unlinks and
destroys; `onRemovedCCTVInDB` unlinks, detaches and destroys. -/
inductive CatchbPc
  | pop
  | createGet (id : ID)
  | createNew (id : ID)
  | createAppend (cctv : Camera)
  | createDB (cctv : Camera)
  | createRemove (cctv : Camera)
  | foundNew (id : ID)
  | foundAppend (cctv : Camera)
  | attachSet (id : ID)
  | attachGet (id : ID)
  | attachAppend (id : ID)
  | attachReset
  | deleteGet (id : ID)
  | detachSet (id : ID) (next : Detached)
  | detachGet (id : ID) (next : Detached)
  | detachRemove (pSavedID : ID) (next : Detached)
  | detachReset (next : Detached)
  | deleteRemove (cctv : Camera)
  | deleteDB (cctv : Camera)
  | removedGet (id : ID)
  | removedRemove (cctv : Camera)
  | destroy (cctv : Camera)
  deriving DecidableEq

/-- `key` is the semaphore of the analyzer's lock and `next` the next free address. -/
structure CameraThreads where
  cctvs : List Camera
  analyzer : List ID
  key : Nat
  destroyed : List Nat
  next : Nat
  pass : PassPc
  catchb : CatchbPc

/-- The messages of the catchb thread that make or destroy cameras. -/
inductive CameraMsg
  | create (id : ID)
  | delete (id : ID)
  | found (id : ID)
  | removed (id : ID)

/-- Which thread goes on, and what the outside decides: whether the camera's timer has
expired, and whether the database takes the statement. -/
inductive CameraEvent
  | pass (expired : Bool)
  | pop (msg : CameraMsg)
  | catchb (dbOk : Bool)

namespace CameraThreads

def start : CameraThreads where
  cctvs := []
  analyzer := []
  key := 1
  destroyed := []
  next := 0
  pass := .set
  catchb := .pop

def getCCTV (t : CameraThreads) (id : ID) : Option Camera := Keyed.get Camera.id id t.cctvs

/-- `FTM_LIST_remove` on the camera list compares addresses. -/
def remove (t : CameraThreads) (cctv : Camera) : List Camera :=
  Keyed.discard Camera.addr cctv.addr t.cctvs

def passStep (t : CameraThreads) (expired : Bool) : CameraThreads :=
  match t.pass with
  | .set => if t.key = 0 then t else { t with key := t.key - 1, pass := .count }
  | .count => { t with pass := if t.analyzer.length = 0 then .reset none else .getAt }
  | .getAt =>
    match t.analyzer with
    | [] => { t with pass := .reset none }
    | pID :: _ => { t with pass := .getCCTV pID }
  | .getCCTV pID =>
    match t.getCCTV pID with
    | none => { t with pass := .reset none }
    | some cctv => { t with pass := .analyze pID cctv }
  | .analyze pID cctv =>
    if expired then { t with analyzer := t.analyzer.erase pID, pass := .append pID cctv }
    else { t with pass := .reset (some cctv) }
  | .append pID cctv =>
    { t with analyzer := t.analyzer ++ [pID], pass := .reset (some cctv) }
  | .reset _ => { t with key := t.key + 1, pass := .set }

def receive (t : CameraThreads) (msg : CameraMsg) : CameraThreads :=
  match t.catchb with
  | .pop => { t with
      catchb := match msg with
        | .create id => .createGet id
        | .delete id => .deleteGet id
        | .found id => .foundNew id
        | .removed id => .removedGet id }
  | _ => t

def catchbStep (t : CameraThreads) (dbOk : Bool) : CameraThreads :=
  match t.catchb with
  | .pop => t
  | .createGet id =>
    match t.getCCTV id with
    | some _ => { t with catchb := .pop }
    | none => { t with catchb := .createNew id }
  | .createNew id => { t with next := t.next + 1, catchb := .createAppend ⟨t.next, id⟩ }
  | .createAppend cctv => { t with cctvs := t.cctvs ++ [cctv], catchb := .createDB cctv }
  | .createDB cctv =>
    { t with catchb := if dbOk then .attachSet cctv.id else .createRemove cctv }
  | .createRemove cctv => { t with cctvs := t.remove cctv, catchb := .destroy cctv }
  | .foundNew id => { t with next := t.next + 1, catchb := .foundAppend ⟨t.next, id⟩ }
  | .foundAppend cctv => { t with cctvs := t.cctvs ++ [cctv], catchb := .attachSet cctv.id }
  | .attachSet id =>
    if t.key = 0 then t else { t with key := t.key - 1, catchb := .attachGet id }
  | .attachGet id =>
    match Keyed.get Analyzer.key (Analyzer.key id) t.analyzer with
    | some _ => { t with catchb := .attachReset }
    | none => { t with catchb := .attachAppend id }
  | .attachAppend id => { t with analyzer := t.analyzer ++ [id], catchb := .attachReset }
  | .attachReset => { t with key := t.key + 1, catchb := .pop }
  | .deleteGet id =>
    match t.getCCTV id with
    | none => { t with catchb := .pop }
    | some cctv => { t with catchb := .detachSet id (.unlink cctv) }
  | .detachSet id next =>
    if t.key = 0 then t else { t with key := t.key - 1, catchb := .detachGet id next }
  | .detachGet id next =>
    match Keyed.get Analyzer.key (Analyzer.key id) t.analyzer with
    | none => { t with catchb := .detachReset next }
    | some pSavedID => { t with catchb := .detachRemove pSavedID next }
  | .detachRemove pSavedID next =>
    { t with analyzer := t.analyzer.erase pSavedID, catchb := .detachReset next }
  | .detachReset next =>
    { t with
      key := t.key + 1
      catchb := match next with
        | .unlink cctv => .deleteRemove cctv
        | .destroy cctv => .destroy cctv }
  | .deleteRemove cctv => { t with cctvs := t.remove cctv, catchb := .deleteDB cctv }
  | .deleteDB cctv => { t with catchb := .destroy cctv }
  | .removedGet id =>
    match t.getCCTV id with
    | none => { t with catchb := .pop }
    | some cctv => { t with catchb := .removedRemove cctv }
  | .removedRemove cctv =>
    { t with cctvs := t.remove cctv, catchb := .detachSet cctv.id (.destroy cctv) }
  | .destroy cctv => { t with destroyed := cctv.addr :: t.destroyed, catchb := .pop }

def step (t : CameraThreads) : CameraEvent → CameraThreads
  | .pass expired => t.passStep expired
  | .pop msg => t.receive msg
  | .catchb dbOk => t.catchbStep dbOk

end CameraThreads
end Catchb
