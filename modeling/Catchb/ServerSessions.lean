import Mathlib.Data.List.Nodup

/-! The server's accept and cleanup loop beside the service threads of its sessions. -/

namespace Catchb

/-- Where a service thread is. `appended` is whether its session got into the release list. -/
inductive ServicePc
  | waiting
  | serving
  | posting (appended : Bool)
  | returning (appended : Bool)
  | exited
  deriving DecidableEq

/-- A session is its place in `threads`, which is empty where no thread could be created. `bStop`
is what the accept loop has seen. -/
structure ServerSessions where
  xSemaphore : Nat
  threads : List (Option ServicePc)
  xSessionList : List Nat
  xReleaseSessionList : List Nat
  destroyed : List Nat
  bStop : Bool
  deriving DecidableEq

inductive SessionEvent
  /-- A connection, and whether it gets a session and the session a thread. -/
  | accept (created thread : Bool)
  | acquire (id : Nat)
  | timeout (id : Nat)
  /-- The thread leaves its loop; `append` is whether the release list takes the session. -/
  | leave (id : Nat) (append : Bool)
  | post (id : Nat)
  | exit (id : Nat)
  /-- A round of the cleanup. -/
  | release
  | stop
  /-- A round of the loop over the sessions that are left in the end. -/
  | drain

namespace ServerSessions

def start (ulMaxSession : Nat) : ServerSessions := ⟨ulMaxSession, [], [], [], [], false⟩

def pc (t : ServerSessions) (id : Nat) : Option ServicePc := t.threads[id]?.join

def goTo (t : ServerSessions) (id : Nat) (pc : ServicePc) : ServerSessions :=
  { t with threads := t.threads.set id (some pc) }

def accept (t : ServerSessions) (created thread : Bool) : ServerSessions :=
  if t.bStop || !created then t
  else if thread then
    { t with
      threads := t.threads ++ [some .waiting]
      xSessionList := t.xSessionList ++ [t.threads.length] }
  else
    { t with
      threads := t.threads ++ [none]
      destroyed := t.threads.length :: t.destroyed }

/-- `FTM_SERVER_destroySession`. -/
def destroySession (t : ServerSessions) (id : Nat) : ServerSessions :=
  { t with xSessionList := t.xSessionList.erase id, destroyed := id :: t.destroyed }

/-- The first of the release list is taken and joined, which waits for its thread. -/
def release (t : ServerSessions) : ServerSessions :=
  match t.xReleaseSessionList with
  | [] => t
  | id :: rest =>
    if t.bStop = false ∧ t.pc id = some .exited then
      { t with xReleaseSessionList := rest }.destroySession id
    else t

def drain (t : ServerSessions) : ServerSessions :=
  match t.xSessionList with
  | [] => t
  | id :: _ => if t.bStop = true ∧ t.pc id = some .exited then t.destroySession id else t

def step (t : ServerSessions) : SessionEvent → ServerSessions
  | .accept created thread => t.accept created thread
  | .acquire id =>
    match t.pc id with
    | some .waiting =>
      if t.xSemaphore = 0 then t else { t.goTo id .serving with xSemaphore := t.xSemaphore - 1 }
    | _ => t
  | .timeout id =>
    match t.pc id with
    | some .waiting => t.goTo id (.returning false)
    | _ => t
  | .leave id append =>
    match t.pc id with
    | some .serving =>
      { t.goTo id (.posting append) with
        xReleaseSessionList :=
          if append then t.xReleaseSessionList ++ [id] else t.xReleaseSessionList }
    | _ => t
  | .post id =>
    match t.pc id with
    | some (.posting appended) =>
      { t.goTo id (.returning appended) with xSemaphore := t.xSemaphore + 1 }
    | _ => t
  | .exit id =>
    match t.pc id with
    | some (.returning _) => t.goTo id .exited
    | _ => t
  | .release => t.release
  | .stop => { t with bStop := true }
  | .drain => t.drain

section
variable {t : ServerSessions} {id j : Nat} {p q : ServicePc}

@[simp] theorem goTo_xSemaphore : (t.goTo id p).xSemaphore = t.xSemaphore := rfl

@[simp] theorem goTo_xReleaseSessionList :
    (t.goTo id p).xReleaseSessionList = t.xReleaseSessionList := rfl

theorem pc_eq_some : t.pc id = some p ↔ t.threads[id]? = some (some p) := by
  rw [pc, Option.join_eq_some_iff]

theorem lt_of_pc (h : t.pc id = some p) : id < t.threads.length :=
  (List.getElem?_eq_some_iff.mp (pc_eq_some.mp h)).1

/-- Only the thread itself goes on. -/
theorem pc_goTo_iff {p' : ServicePc} (h : t.pc id = some q) :
    (t.goTo id p).pc j = some p' ↔ (j = id ∧ p' = p) ∨ (j ≠ id ∧ t.pc j = some p') := by
  have hlt := lt_of_pc h
  by_cases hj : j = id
  · subst hj
    simp [pc, goTo, hlt, eq_comm]
  · simp [pc, goTo, hj, List.getElem?_set_ne (Ne.symm hj)]

end

end ServerSessions
end Catchb
