import Catchb.ServiceCall

/-! What the client's call to delete a session does to the server. -/

namespace Catchb.Proofs.SessionDelete
open Lib Ssid Server

variable {ρ : Type} {other : Cmd → Operation ρ} {s s' : Server ρ} {pSSID pKey : Text}
  {pReqBuff pReq : ServerReq} {run : CallRun} {pResp : Resp} {ulFirstTime ulLastTime : UInt32}
  {l : List UInt32}

/-- The session has gone, and all else is as it was. -/
structure Deleted (s s' : Server ρ) (pKey : Text) : Prop where
  invalid : ∀ run, (isValid s'.idList pKey s'.ulSSIDTimeout run).1 ≠ retOK
  sessions : ∀ k ≠ pKey, Keyed.get name k (ids s'.idList) = Keyed.get name k (ids s.idList)
  statistics : s'.pStatisticsList = s.pStatisticsList
  timeout : s'.ulSSIDTimeout = s.ulSSIDTimeout
  rest : s'.rest = s.rest

/-- A call that returns OK has deleted the session. -/
def Deletes (other : Cmd → Operation ρ) (pSSID : Text) (pReqBuff : ServerReq) (run : CallRun)
    (s : Server ρ) (pResp : Resp) : Prop :=
  (clientSsidDel other pSSID pReqBuff run s pResp).1 = retOK →
    Deleted s (clientSsidDel other pSSID pReqBuff run s pResp).2 pSSID

/-- No sample is left exactly when all are of the time. -/
theorem delStatistics2_eq_nil :
    delStatistics2 ulFirstTime ulLastTime l = [] ↔ ∀ t ∈ l, ulFirstTime ≤ t ∧ t < ulLastTime := by
  induction l with
  | nil => simp [delStatistics2]
  | cons t l ih =>
    rw [delStatistics2, List.forall_mem_cons]
    by_cases hfirst : t < ulFirstTime
    · have hnot : ¬ulFirstTime ≤ t := UInt32.not_le.mpr hfirst
      simp [hfirst, hnot]
    · have hle : ulFirstTime ≤ t := UInt32.not_lt.mp hfirst
      by_cases hlast : ulLastTime ≤ t
      · have hnot : ¬t < ulLastTime := UInt32.not_lt.mpr hlast
        simp [hfirst, hlast, hnot]
      · have hlt : t < ulLastTime := UInt32.not_le.mp hlast
        simp [hfirst, hlast, hle, hlt, ih]

/-- A key in the list is no longer than a request has room for. -/
theorem copy_listed {ulTime : UInt32} (h : Listed s.idList pSSID s.ulSSIDTimeout ulTime) :
    (Field.copy 16 pSSID).val = pSSID := by
  obtain ⟨x, hget, -⟩ := h
  have hkey : name x = pSSID := Keyed.get_key hget
  rw [← hkey, name, Field.copy_val]

/-- The session is renewed and the samples of the time go that the request seems to give. -/
def answered (pSSID : Text) (pReqBuff : ServerReq) (run : CallRun) (s : Server ρ) : Server ρ :=
  { s with
    idList := (isValid s.idList pSSID s.ulSSIDTimeout run.check).2
    pStatisticsList := delStatistics2 pReqBuff.ulBeginTime pReqBuff.ulEndTime s.pStatisticsList }

/-- The call of a live session is answered by the deletion of statistics. -/
theorem clientSsidDel_eq (hlive : Listed s.idList pSSID s.ulSSIDTimeout run.check.ulTime) :
    clientSsidDel other pSSID pReqBuff run s pResp =
      ((answered pSSID pReqBuff run s).getStatisticsInfo, answered pSSID pReqBuff run s) := by
  have hreq : (ssidDelReq pSSID pReqBuff).pSSID = pSSID := copy_listed hlive
  have hcmd : (ssidDelReq pSSID pReqBuff).req.xCmd ≠ Cmd.ssidCreate.code := by
    have hne : Cmd.statDel2.code ≠ Cmd.ssidCreate.code := by decide
    exact hne
  have hcheck := check_listed hcmd (hreq.symm ▸ hlive)
  have hfind : findCmdSet (ssidDelReq pSSID pReqBuff).req.xCmd =
      some (.statDel2, Service.statDel2) := rfl
  rw [clientSsidDel, Server.service, serviceCall_found hcheck hfind, hreq]
  rfl

/-- Its check has renewed the session. -/
theorem still_valid (hlive : Listed s.idList pSSID s.ulSSIDTimeout run.check.ulTime) :
    ∃ later, (isValid (isValid s.idList pSSID s.ulSSIDTimeout run.check).2 pSSID s.ulSSIDTimeout
      later).1 = retOK := by
  obtain ⟨x, hget, hexp⟩ := hlive
  refine ⟨⟨run.check.init, run.check.renewed, run.check.renewed⟩, ?_⟩
  rw [isValid_iff_listed]
  refine ⟨x.renew run.check.renewed, ?_, ?_⟩
  · rw [(isValid_ok hget hexp).2, Keyed.get_update (fun y hy => (name_renew _ y).trans hy),
      if_pos rfl, hget]
    rfl
  · simp [expired, renew]

/-- The call does not delete the session it returns OK for: it can only fail, which it does when
every sample is of the time that its request seems to give. -/
theorem deletes_iff (hlive : Listed s.idList pSSID s.ulSSIDTimeout run.check.ulTime) :
    Deletes other pSSID pReqBuff run s pResp ↔
      ∀ t ∈ s.pStatisticsList, pReqBuff.ulBeginTime ≤ t ∧ t < pReqBuff.ulEndTime := by
  have hinfo : (answered pSSID pReqBuff run s).getStatisticsInfo = retOK ↔
      delStatistics2 pReqBuff.ulBeginTime pReqBuff.ulEndTime s.pStatisticsList ≠ [] := by
    rw [getStatisticsInfo]
    split
    · rename_i hempty
      exact iff_of_false (by decide) (fun hleft => hleft hempty)
    · rename_i hleft
      exact iff_of_true rfl hleft
  rw [← delStatistics2_eq_nil, Deletes, clientSsidDel_eq hlive, hinfo]
  constructor
  · intro h
    by_contra hleft
    obtain ⟨later, hvalid⟩ := still_valid hlive
    exact (h hleft).invalid later hvalid
  · intro hall hleft
    exact absurd hall hleft

/-- A new connection's buffer, of zeros. -/
def emptyBuff : ServerReq := ⟨⟨0, 0, 0⟩, [], [], [], 0, 0⟩

/-- A check and a session of the same time, and no cameras to list. -/
def smooth : CallRun where
  service := ⟨8192, 0, 0, true, [], [], [], [], [], [], 0⟩
  check := ⟨⟨true, true⟩, 100, 100⟩
  verify := ⟨⟨true, true⟩, 100, 100⟩
  create := ⟨⟨true, true⟩, 100, some 8, true, true⟩

def oneSession (samples : List UInt32) : Server Unit :=
  ⟨300, some [⟨Field.copy 16 "163e9a0e054b1769".toList, 100⟩], samples, ()⟩

def ownOperation : Cmd → Operation Unit := fun _ _ run s => (run.service, s)

/-- Where there is no sample the call fails, and then nothing is wrong with what it returns. -/
theorem no_sample_deletes :
    Listed (oneSession []).idList "163e9a0e054b1769".toList 300 smooth.check.ulTime ∧
      Deletes ownOperation "163e9a0e054b1769".toList emptyBuff smooth (oneSession [])
        ⟨0, 0, 0, 0⟩ := by
  have hlive : Listed (oneSession []).idList "163e9a0e054b1769".toList
      (oneSession []).ulSSIDTimeout smooth.check.ulTime := ⟨_, rfl, rfl⟩
  refine ⟨hlive, (deletes_iff hlive).mpr ?_⟩
  intro t ht
  cases ht

/-- The call returns OK and the session is as valid as before. -/
theorem session_stays :
    Listed (oneSession [90]).idList "163e9a0e054b1769".toList 300 smooth.check.ulTime ∧
      ¬Deletes ownOperation "163e9a0e054b1769".toList emptyBuff smooth (oneSession [90])
        ⟨0, 0, 0, 0⟩ := by
  refine ⟨⟨_, rfl, rfl⟩, fun h => ?_⟩
  have hok : (clientSsidDel ownOperation "163e9a0e054b1769".toList emptyBuff smooth
      (oneSession [90]) ⟨0, 0, 0, 0⟩).1 = retOK := by decide
  exact (h hok).invalid smooth.check (by decide)

/-- With its own command the request deletes the session and nothing else. -/
theorem own_command_deletes (hcmd : pReq.req.xCmd = Cmd.ssidDel.code)
    (hkeys : ((ids s.idList).map name).Nodup)
    (hlive : Listed s.idList pReq.pSSID s.ulSSIDTimeout run.check.ulTime) :
    Deleted s (s.serviceCall (operation other) pReq run pResp).2.2 pReq.pSSID := by
  have hfind : findCmdSet pReq.req.xCmd = some (.ssidDel, Service.ssidDel) := by rw [hcmd]; rfl
  have hcheck := check_listed (by rw [hcmd]; decide) hlive
  obtain ⟨x, hget, hexp⟩ := hlive
  obtain ⟨-, hids⟩ := isValid_ok hget hexp
  have hname : ∀ y, name y = pReq.pSSID → name (y.renew run.check.renewed) = pReq.pSSID :=
    fun y hy => (name_renew _ y).trans hy
  have hcall : (s.serviceCall (operation other) pReq run pResp).2.2 = { s with idList :=
      (destroy (isValid s.idList pReq.pSSID s.ulSSIDTimeout run.check).2 pReq.pSSID).2 } := by
    rw [serviceCall_found hcheck hfind]
    rfl
  rw [hcall]
  constructor
  · intro later
    rw [Ne, isValid_iff_listed]
    rintro ⟨y, hy, -⟩
    rw [destroy_ids, hids, Keyed.get_discard_same (by rwa [Keyed.map_key_update hname])] at hy
    cases hy
  · intro k hk
    rw [destroy_ids, hids, Keyed.get_discard_other hk, Keyed.get_update hname, if_neg hk]
  · rfl
  · rfl
  · rfl

end Catchb.Proofs.SessionDelete
