import Catchb.Lib.Keyed
import Catchb.Lib.Lease
import Catchb.Service
import Catchb.Sha1

/-! The session IDs that the server gives out. -/

namespace Catchb
open Lib

def retError : RetCode := 1
def retSemaphoreInitFailed : RetCode := 3
def retObjectNotFound : RetCode := 4
def retListEmpty : RetCode := 7
def retInvalidSSID : RetCode := 173

structure Ssid where
  pKey : Field 16
  ulTime : UInt32

namespace Ssid

/-- `_id_list`, which is there once the module is initialized. -/
abbrev IDList := Option (List Ssid)

def ids (s : IDList) : List Ssid := s.getD []

@[simp] theorem ids_some (l : List Ssid) : ids (some l) = l := rfl

/-- What the seeker compares. -/
def name (pSSID : Ssid) : Text := pSSID.pKey.val

/-- Whether the semaphores of the list and of the lock are made. -/
structure InitRun where
  list : Bool
  lock : Bool

def init (s : IDList) (run : InitRun) : Except RetCode (List Ssid) :=
  match s with
  | some ids => .ok ids
  | none =>
    if run.list = false then .error retSemaphoreInitFailed
    else if run.lock = false then .error retError
    else .ok []

/-- `pNewSSID` is the address of the memory for the session, `seed` whether there is some for
the seed, and `append` whether the list takes the session. -/
structure CreateRun where
  init : InitRun
  ulTime : UInt32
  pNewSSID : Option UInt32
  seed : Bool
  append : Bool

def seed (pID pPasswd : Option Text) (ulTime pNewSSID : UInt32) : Text :=
  pID.getD [] ++ pPasswd.getD [] ++ Sha1.hex ulTime ++ Sha1.hex pNewSSID

/-- What the list answers is not looked at. -/
def create (s : IDList) (pID pPasswd : Option Text) (run : CreateRun) :
    Except RetCode (Field 16) × IDList :=
  match init s run.init with
  | .error xRet => (.error xRet, s)
  | .ok ids =>
    match run.pNewSSID with
    | none => (.error retNotEnoughMemory, some ids)
    | some pNewSSID =>
      if run.seed = false then (.error retNotEnoughMemory, some ids)
      else
        let pKey := Field.copy 16 (Sha1.hashSHA1 (seed pID pPasswd run.ulTime pNewSSID)).val
        (.ok pKey, some (if run.append then ids ++ [⟨pKey, run.ulTime⟩] else ids))

def destroy (s : IDList) (pKey : Text) : RetCode × IDList :=
  match Keyed.get name pKey (ids s) with
  | none => (retObjectNotFound, s)
  | some _ => (retOK, s.map (Keyed.discard name pKey))

/-- The clock is read for the check and, if that passes, again for the renewal. -/
structure CheckRun where
  init : InitRun
  ulTime : UInt32
  renewed : UInt32

def expired (pSSID : Ssid) (ulTimeout ulTime : UInt32) : Bool :=
  ulTimeout ≠ 0 && ulTime - pSSID.ulTime > ulTimeout

/-- Here a session goes that has run out. -/
def get (s : IDList) (pKey : Text) (ulTimeout : UInt32) (run : CheckRun) :
    Except RetCode Ssid × IDList :=
  match init s run.init with
  | .error xRet => (.error xRet, s)
  | .ok ids =>
    match Keyed.get name pKey ids with
    | none => (.error retObjectNotFound, some ids)
    | some pSSID =>
      if pSSID.expired ulTimeout run.ulTime then
        (.error retObjectNotFound, some (Keyed.discard name pKey ids))
      else (.ok pSSID, some ids)

def renew (ulTime : UInt32) (pSSID : Ssid) : Ssid := { pSSID with ulTime }

@[simp] theorem name_renew (ulTime : UInt32) (pSSID : Ssid) : (pSSID.renew ulTime).name = pSSID.name :=
  rfl

def isValid (s : IDList) (pKey : Text) (ulTimeout : UInt32) (run : CheckRun) : RetCode × IDList :=
  match get s pKey ulTimeout run with
  | (.error _, s) => (retInvalidSSID, s)
  | (.ok _, s) => (retOK, s.map (Keyed.update name pKey (renew run.renewed)))

inductive Op
  | create (pID pPasswd : Option Text) (run : CreateRun)
  | validate (pKey : Text) (run : CheckRun)
  | destroy (pKey : Text)

variable (ulTimeout : UInt32)

def step (s : IDList) : Op → IDList
  | .create pID pPasswd run => (create s pID pPasswd run).2
  | .validate pKey run => (isValid s pKey ulTimeout run).2
  | .destroy pKey => (destroy s pKey).2

/-- A session is granted when a key is given out. -/
def event (s : IDList) : Op → Option (Lease.Event Text)
  | .create pID pPasswd run =>
    match (create s pID pPasswd run).1 with
    | .ok pKey => some (.grant pKey.val run.ulTime.toNat)
    | .error _ => none
  | .validate pKey run => some (.renew pKey run.ulTime.toNat run.renewed.toNat)
  | .destroy pKey => some (.revoke pKey)

/-- The clock after an operation. -/
def Op.clock (now : UInt32) : Op → UInt32
  | .create _ _ run => run.ulTime
  | .validate _ run => run.renewed
  | .destroy _ => now

/-- The list has the session and it has not run out. -/
def Listed (s : IDList) (pKey : Text) (ulTimeout ulTime : UInt32) : Prop :=
  ∃ pSSID, Keyed.get name pKey (ids s) = some pSSID ∧ pSSID.expired ulTimeout ulTime = false

section
variable {ulTimeout now : UInt32} {s : IDList} {pKey : Text} {pSSID : Ssid} {run : CheckRun}

theorem init_ids {init' : InitRun} {l : List Ssid} (h : init s init' = .ok l) : l = ids s := by
  cases s with
  | some l' => exact (Except.ok.inj h).symm
  | none =>
    simp only [init] at h
    split at h
    · cases h
    · split at h
      · cases h
      · exact (Except.ok.inj h).symm

/-- A list that is not there has no session. -/
theorem init_ok (h : Keyed.get name pKey (ids s) = some pSSID) (init' : InitRun) :
    init s init' = .ok (ids s) := by
  cases s with
  | some l => rfl
  | none => cases h

theorem destroy_ids : ids (destroy s pKey).2 = Keyed.discard name pKey (ids s) := by
  cases hget : Keyed.get name pKey (ids s) with
  | none => simp [destroy, hget, Keyed.discard_of_get_none hget]
  | some pSSID =>
    cases s with
    | none => cases hget
    | some l =>
      rw [ids_some] at hget
      simp [destroy, hget]

theorem isValid_none (h : Keyed.get name pKey (ids s) = none) :
    (isValid s pKey ulTimeout run).1 = retInvalidSSID ∧
      ids (isValid s pKey ulTimeout run).2 = ids s := by
  cases hinit : init s run.init with
  | error xRet => simp [isValid, Ssid.get, hinit]
  | ok l =>
    obtain rfl := init_ids hinit
    simp [isValid, Ssid.get, hinit, h]

theorem isValid_expired (h : Keyed.get name pKey (ids s) = some pSSID)
    (he : pSSID.expired ulTimeout run.ulTime = true) :
    (isValid s pKey ulTimeout run).1 = retInvalidSSID ∧
      ids (isValid s pKey ulTimeout run).2 = Keyed.discard name pKey (ids s) := by
  simp [isValid, Ssid.get, init_ok h, h, he]

theorem isValid_ok (h : Keyed.get name pKey (ids s) = some pSSID)
    (he : pSSID.expired ulTimeout run.ulTime = false) :
    (isValid s pKey ulTimeout run).1 = retOK ∧ ids (isValid s pKey ulTimeout run).2 =
      Keyed.update name pKey (renew run.renewed) (ids s) := by
  simp [isValid, Ssid.get, init_ok h, h, he]

theorem isValid_iff_listed :
    (isValid s pKey ulTimeout run).1 = retOK ↔ Listed s pKey ulTimeout run.ulTime := by
  cases hget : Keyed.get name pKey (ids s) with
  | none =>
    have hnot : ¬Listed s pKey ulTimeout run.ulTime := by simp [Listed, hget]
    rw [(isValid_none hget).1]
    exact iff_of_false (by decide) hnot
  | some pSSID =>
    cases hexp : pSSID.expired ulTimeout run.ulTime with
    | true =>
      have hnot : ¬Listed s pKey ulTimeout run.ulTime := by simp [Listed, hget, hexp]
      rw [(isValid_expired hget hexp).1]
      exact iff_of_false (by decide) hnot
    | false => exact iff_of_true (isValid_ok hget hexp).1 ⟨pSSID, hget, hexp⟩

end
end Ssid
end Catchb
