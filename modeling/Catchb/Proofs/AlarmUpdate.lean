import Catchb.Alarms
import Catchb.Proofs.Iterations

/-! When an alarm that is set is changed, and only that one. -/

namespace Catchb.Proofs.AlarmUpdate
open Lib Sequence Iterations Alarms

def names (s : Alarms) (xs : List Ptr) : List Text := xs.map (fun p => (s.memory p).pName.val)

def fieldName : UInt32 := 1

/-- The alarm with the flagged fields of another one. -/
def withFields (ulFieldFlags : UInt32) (new old : FtmAlarm) : FtmAlarm where
  pName := if ulFieldFlags &&& fieldName ≠ 0 then new.pName else old.pName
  pEmail := if ulFieldFlags &&& fieldEmail ≠ 0 then new.pEmail else old.pEmail
  pMessage := if ulFieldFlags &&& fieldMessage ≠ 0 then new.pMessage else old.pMessage

/-- The alarm of the name has the flagged fields, or there is none of the name. -/
inductive Answer (pName : Text) (pAlarm : FtmAlarm) (ulFieldFlags : UInt32) (s : Alarms)
    (xs : List Ptr) : Ret → Alarms → Prop
  | found {s' : Alarms} (p : Ptr) (listed : p ∈ xs) (name : (s.memory p).pName.val = pName)
      (memory : s'.memory =
        Function.update s.memory p (withFields ulFieldFlags pAlarm (s.memory p))) :
      Answer pName pAlarm ulFieldFlags s xs .ok s'
  | unknown {s' : Alarms} (unlisted : pName ∉ names s xs) (memory : s'.memory = s.memory) :
      Answer pName pAlarm ulFieldFlags s xs .objectNotFound s'

/-- The call ends with an answer, and the list holds what it held. -/
def Answers (pName : Text) (pAlarm : FtmAlarm) (ulFieldFlags : UInt32) (s : Alarms)
    (ps xs : List Ptr) : Prop :=
  ∃ xRet s', setAlarm pName pAlarm ulFieldFlags s = some (.returned xRet s') ∧
    Holds s'.pAlarmList.toFtmList ps xs ∧ Answer pName pAlarm ulFieldFlags s xs xRet s'

section
variable {s : Alarms} {ps xs : List Ptr} {pName : Text} {pAlarm : FtmAlarm} {ulFieldFlags : UInt32}

/-- In an empty list the name is compared with one at an address that was never set. -/
theorem setAlarm_nil (h : Holds s.pAlarmList.toFtmList ps []) :
    setAlarm pName pAlarm ulFieldFlags s = some .astray := by
  obtain ⟨l', hnext, -⟩ := (start_behind h).next_none rfl
  rw [setAlarm, FtmList.fuel, UInt32.size, setLoop, hnext]
  rfl

/-- The first alarm of any other list ends the loop. -/
theorem setAlarm_cons (pName : Text) (pAlarm : FtmAlarm) (ulFieldFlags : UInt32) {x : Ptr}
    (h : Holds s.pAlarmList.toFtmList ps (x :: xs)) : ∃ pAlarmList,
    setAlarm pName pAlarm ulFieldFlags s =
      some (.returned .objectNotFound { s with pAlarmList }) ∧
    Holds pAlarmList.toFtmList ps (x :: xs) := by
  obtain ⟨l', hnext, hbehind⟩ := (start_behind h).next_some rfl
  refine ⟨l', ?_, hbehind.holds⟩
  rw [setAlarm, FtmList.fuel, UInt32.size, setLoop, hnext]
  rfl

/-- Only a list that is not empty and has no alarm of the name is answered as it should be. -/
theorem alarm_set_iff (h : Holds s.pAlarmList.toFtmList ps xs) :
    Answers pName pAlarm ulFieldFlags s ps xs ↔ xs ≠ [] ∧ pName ∉ names s xs := by
  cases xs with
  | nil =>
    constructor
    · rintro ⟨xRet, s', hset, -, -⟩
      rw [setAlarm_nil h] at hset
      cases hset
    · rintro ⟨hne, -⟩
      exact absurd rfl hne
  | cons x xs =>
    obtain ⟨l', hset, hholds⟩ := setAlarm_cons pName pAlarm ulFieldFlags h
    constructor
    · rintro ⟨xRet, s', hset', -, hanswer⟩
      rw [hset] at hset'
      cases hset'
      cases hanswer with
      | unknown hunlisted _ => exact ⟨List.cons_ne_nil x xs, hunlisted⟩
    · rintro ⟨-, hunlisted⟩
      exact ⟨.objectNotFound, _, hset, hholds, .unknown hunlisted rfl⟩

end

def door (pEmail : Text) : FtmAlarm :=
  ⟨⟨"door".toList, by decide⟩, Field.copy 128 pEmail, Field.empty 1024⟩

/-- One alarm at 64, in an entry at 8, with the head at 100. -/
def oneAlarm : Alarms where
  pAlarmList :=
    { ulCount := 1
      xHead := 100
      entries := fun p => if p = 8 then ⟨100, 100, some 64⟩ else ⟨8, 8, none⟩
      allocated := [8]
      pIter := 100
      fSeeker := none
      fComparator := none
      bIterator := false }
  memory := fun _ => door "guard@site".toList

theorem oneAlarm_holds : Holds oneAlarm.pAlarmList.toFtmList [8] [64] where
  ring := ⟨⟨rfl, rfl⟩, ⟨rfl, rfl⟩, by decide⟩
  data := rfl
  live := fun _ hp => hp
  count := rfl

/-- An alarm that is there is not found. -/
theorem listed_alarm_missed : (names oneAlarm [64]).Nodup ∧
    ¬Answers "door".toList (door "desk@site".toList) fieldEmail oneAlarm [8] [64] := by
  refine ⟨by decide, ?_⟩
  rintro ⟨xRet, s', hset, -, hanswer⟩
  have hmissed : setAlarm "door".toList (door "desk@site".toList) fieldEmail oneAlarm =
      some (.returned .objectNotFound
        { oneAlarm with pAlarmList := { oneAlarm.pAlarmList with bIterator := true, pIter := 8 } }) :=
    rfl
  rw [hmissed] at hset
  cases hset
  cases hanswer with
  | unknown hunlisted _ => exact hunlisted (by decide)

theorem other_alarm_missed :
    Answers "gate".toList (door "desk@site".toList) fieldEmail oneAlarm [8] [64] :=
  (alarm_set_iff oneAlarm_holds).mpr ⟨by decide, by decide⟩

end Catchb.Proofs.AlarmUpdate
