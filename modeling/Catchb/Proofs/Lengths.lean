import Catchb.Stubs
import Catchb.Lib.Run

/-! The lengths of the responses, against what the calls read of them. -/

namespace Catchb.Proofs.Lengths
open Lib Params

variable {run : ServiceRun} {call : Call} {pResp : Resp} {w : Wire}

/-- What is sent is no longer than what the call reads, and with the result OK no shorter than
what it uses. -/
def Agrees (call : Call) (pResp : Resp) : Prop :=
  pResp.ulLen.toNat ≤ call.readLen ∧
    (pResp.xRet = retOK → call.usedLen pResp ≤ pResp.ulLen.toNat)

/-- Moreover no call has got a byte of another one's response. -/
def Apart (w : Wire) : Prop :=
  ∀ (k : Nat) (x : Exchange), w.exchanges[k]? = some x →
    Agrees x.call x.pResp ∧ ∀ b ∈ x.got, b = k

/-- The length of `n` elements does not wrap round. -/
def Counted (c : Cmd) (t : CType) (n : UInt32) : Prop :=
  (respParams c).size + t.size * n.toNat < 0x100000000

/-- What is left of a length that does has room for the elements all the same. -/
def Spared (c : Cmd) (t : CType) (n : UInt32) (count : Nat) : Prop :=
  (respParams c).size + t.size * count ≤ (Call.ulRespLen c t n).toNat

/-- What the server lists is no more than the call has asked for. -/
def Enough (c : Cmd) (t : CType) (n : UInt32) (count : Nat) : Prop :=
  (Counted c t n → count ≤ n.toNat) ∧ (¬Counted c t n → Spared c t n count)

/-- The names that the daemon lists for a call. -/
def names (run : ServiceRun) (call : Call) : List UserName :=
  let room := roomFor run.ulRespBufferLen .alarmGetNameList name
  getAlarmNameList call.ulIndex (clamp room call.ulMaxCount) run.i 0 run.pAlarmList

def Refused (run : ServiceRun) (call : Call) : Prop := call.stub ≠ .ssidCreate ∧ run.ssid ≠ retOK

instance : Decidable (Refused run call) := inferInstanceAs (Decidable (_ ∧ _))

/-- When a call's response has the length that the call expects. -/
def Fits (run : ServiceRun) (call : Call) : Prop :=
  if Refused run call then resp.size ≤ call.readLen
  else
    match call.stub with
    | .logGetCount2 => run.ulRespBufferLen.toNat ≤ (respParams .logGetCount2).size ∧
        (run.xRet = retOK → run.ulRespBufferLen.toNat = (respParams .logGetCount2).size)
    | .ssidDel => False
    | .cctvGetIDList => Enough .cctvGetIDList id call.ulMaxCount
        (getList run.pCCTVList (roomFor run.ulRespBufferLen .cctvGetIDList id)).length
    | .switchGetIDList => ¬Counted .switchGetIDList id call.ulMaxCount →
        Spared .switchGetIDList id call.ulMaxCount
          (getList run.pSwitchList
            (clamp (roomFor run.ulRespBufferLen .switchGetIDList id) call.ulMaxCount)).length
    | .alarmGetNameList =>
        (call.ulMaxCount = 0 → run.pAlarmList = [] ∨ run.i < call.ulIndex) ∧
        (¬Counted .alarmGetNameList name call.ulMaxCount →
          Spared .alarmGetNameList name call.ulMaxCount (names run call).length)
    | _ => True

theorem size_le (c : Cmd) : (respParams c).size ≤ 1204 := by cases c <;> decide

theorem toNat_size (c : Cmd) : (UInt32.ofNat (respParams c).size).toNat = (respParams c).size := by
  have hle := size_le c
  rw [UInt32.toNat_ofNat']
  omega

theorem sent_create (c : Cmd) : (sentCmd c).code = Cmd.ssidCreate.code ↔ c = .ssidCreate := by
  cases c <;> decide

/-- The services that do not list anything, with one exception. -/
theorem plain_service {c : Cmd} (hc : c ≠ .unknown) (hlist : listElem c = none)
    (hcount : c ≠ .logGetCount2) : findCmdSet c.code = some (c, Service.answers c) ∨
      findCmdSet c.code = some (c, Service.returns c) := by
  cases c <;> first | contradiction | exact Or.inl rfl | exact Or.inr rfl

theorem service_refused (h : Refused run call) (pResp : Resp) :
    (service run call.request pResp).ulLen = .ofNat resp.size ∧
      (service run call.request pResp).xRet = run.ssid := by
  obtain ⟨hstub, hssid⟩ := h
  have hcode : call.request.xCmd ≠ Cmd.ssidCreate.code := fun heq =>
    hstub ((sent_create _).mp heq)
  simp only [service, serviceCall, if_pos (And.intro hcode hssid), finish, if_pos hssid]
  exact ⟨rfl, rfl⟩

@[simp] theorem finish_ok (pReq : Req) (pResp : Resp) : finish pReq retOK pResp = pResp :=
  if_neg (not_not_intro rfl)

theorem service_found {c : Cmd} {f : Service} (h : ¬Refused run call)
    (hfind : findCmdSet (sentCmd call.stub).code = some (c, f)) (pResp : Resp) :
    ∃ pResp' : Resp, pResp'.ulLen = run.ulRespBufferLen ∧
      service run call.request pResp =
        finish call.request (f run call.request pResp').1 (f run call.request pResp').2 := by
  have hcall : ¬(call.request.xCmd ≠ Cmd.ssidCreate.code ∧ run.ssid ≠ retOK) := fun hcall =>
    h ⟨fun heq => hcall.1 ((sent_create _).mpr heq), hcall.2⟩
  have hfound : findCmdSet call.request.xCmd = some (c, f) := hfind
  refine ⟨{ pResp with ulLen := run.ulRespBufferLen }, rfl, ?_⟩
  simp only [service, serviceCall, if_neg hcall, hfound]

theorem readLen_plain (hlist : listElem call.stub = none) :
    call.readLen = (respParams call.stub).size := by
  rw [Call.readLen, hlist]

theorem usedLen_plain (hlist : listElem call.stub = none) (pResp : Resp) :
    call.usedLen pResp = (respParams call.stub).size := by
  rw [Call.usedLen, hlist]

theorem agrees_alone (hread : resp.size ≤ call.readLen) (hlen : pResp.ulLen = .ofNat resp.size)
    (hret : pResp.xRet ≠ retOK) : Agrees call pResp := by
  refine ⟨?_, fun hok => absurd hok hret⟩
  rw [hlen]
  exact hread

theorem agrees_whole (hlist : listElem call.stub = none)
    (hlen : pResp.ulLen = .ofNat (respParams call.stub).size) : Agrees call pResp := by
  rw [Agrees, hlen, toNat_size, readLen_plain hlist, usedLen_plain hlist]
  exact ⟨Nat.le_refl _, fun _ => Nat.le_refl _⟩

/-- The services with one length answer with it or with the bare result. -/
theorem agrees_plain (h : ¬Refused run call) (hlist : listElem call.stub = none)
    (hcount : call.stub ≠ .logGetCount2) (hdel : call.stub ≠ .ssidDel) (pResp : Resp) :
    Agrees call (service run call.request pResp) := by
  have hsent : sentCmd call.stub = call.stub := by
    unfold sentCmd
    split
    · contradiction
    · rfl
  have hread : resp.size ≤ call.readLen := by
    rw [readLen_plain hlist]
    exact resp_le _
  have hplain := plain_service call.known hlist hcount
  rw [← hsent] at hplain
  rcases hplain with hfind | hfind
  · obtain ⟨pResp', -, heq⟩ := service_found h hfind pResp
    rw [heq, hsent, Service.answers, finish_ok]
    exact agrees_whole hlist rfl
  · obtain ⟨pResp', -, heq⟩ := service_found h hfind pResp
    rw [heq, hsent, Service.returns, finish]
    split
    · rename_i hret
      exact agrees_alone hread rfl hret
    · exact agrees_whole hlist rfl

theorem ulRespLen_counted {c : Cmd} {t : CType} {n : UInt32} (h : Counted c t n) :
    (Call.ulRespLen c t n).toNat = (respParams c).size + t.size * n.toNat := by
  rw [Call.ulRespLen, UInt32.toNat_ofNat']
  exact Nat.mod_eq_of_lt h

/-- The count of the elements listed is compared with what the call has asked for. -/
theorem agrees_list_iff {t : CType} {count : Nat} (hlist : listElem call.stub = some t)
    (ht : 0 < t.size) (hcount : count < 0x100000000) (pReq : Req) (pResp : Resp) :
    Agrees call (pResp.list pReq call.stub t retOK count) ↔
      Enough call.stub t call.ulCount count := by
  have hread : call.readLen = (Call.ulRespLen call.stub t call.ulCount).toNat := by
    rw [Call.readLen, hlist]
  have hused : call.usedLen (pResp.list pReq call.stub t retOK count) =
      (respParams call.stub).size + t.size * count := by
    rw [Call.usedLen, hlist, Resp.list, UInt32.toNat_ofNat', Nat.mod_eq_of_lt hcount]
  have hsent : (pResp.list pReq call.stub t retOK count).ulLen.toNat =
      ((respParams call.stub).size + t.size * count) % 0x100000000 := by
    rw [Resp.list, Resp.fill, UInt32.toNat_ofNat']
  have hret : (pResp.list pReq call.stub t retOK count).xRet = retOK := rfl
  have hlt := (Call.ulRespLen call.stub t call.ulCount).toNat_lt
  rw [Agrees, hread, hused, hsent]
  simp only [hret, forall_const, Enough, Spared]
  constructor
  · intro hagree
    obtain ⟨hle, huse⟩ := hagree
    have hshort : (respParams call.stub).size + t.size * count < 0x100000000 := by
      have hmod := Nat.mod_lt ((respParams call.stub).size + t.size * count)
        (Nat.zero_lt_succ 0xFFFFFFFF)
      omega
    rw [Nat.mod_eq_of_lt hshort] at hle
    refine ⟨fun hn => ?_, fun _ => hle⟩
    rw [ulRespLen_counted hn] at hle
    exact Nat.le_of_mul_le_mul_left (Nat.le_of_add_le_add_left hle) ht
  · intro henough
    obtain ⟨hcounted, hspared⟩ := henough
    have hroom : (respParams call.stub).size + t.size * count ≤
        (Call.ulRespLen call.stub t call.ulCount).toNat := by
      by_cases hn : Counted call.stub t call.ulCount
      · rw [ulRespLen_counted hn]
        exact Nat.add_le_add_left (Nat.mul_le_mul_left t.size (hcounted hn)) _
      · exact hspared hn
    rw [Nat.mod_eq_of_lt (Nat.lt_of_le_of_lt hroom hlt)]
    exact ⟨hroom, Nat.le_refl _⟩

/-- A frame's bytes are few enough. -/
theorem counted_allowed (c : Cmd) (t : CType) (n : UInt32) :
    Counted c t (clamp n (allowed c t)) := by
  have hsize := size_le c
  have hallowed : (allowed c t).toNat ≤ (4096 - (respParams c).size) / t.size := by
    rw [allowed, UInt32.toNat_ofNat']
    exact Nat.mod_le _ _
  have hclamp : (clamp n (allowed c t)).toNat ≤ (allowed c t).toNat := by
    rw [toNat_clamp]
    exact Nat.min_le_right _ _
  have hbytes : t.size * (clamp n (allowed c t)).toNat ≤ 4096 - (respParams c).size :=
    calc t.size * (clamp n (allowed c t)).toNat
        ≤ t.size * ((4096 - (respParams c).size) / t.size) :=
          Nat.mul_le_mul_left _ (Nat.le_trans hclamp hallowed)
      _ ≤ 4096 - (respParams c).size := Nat.mul_div_le _ _
  rw [Counted]
  omega

/-- No list of a counted length is too long for the call, whatever the result. -/
theorem agrees_counted {t : CType} {count : Nat} (hlist : listElem call.stub = some t)
    (hcounted : Counted call.stub t call.ulCount) (hcount : count ≤ call.ulCount.toNat)
    (pReq : Req) (xRet : RetCode) (pResp : Resp) :
    Agrees call (pResp.list pReq call.stub t xRet count) := by
  have hlt := call.ulCount.toNat_lt
  have hmul := Nat.mul_le_mul_left t.size hcount
  have hread : call.readLen = (respParams call.stub).size + t.size * call.ulCount.toNat := by
    rw [Call.readLen, hlist]
    exact ulRespLen_counted hcounted
  have hused : call.usedLen (pResp.list pReq call.stub t xRet count) =
      (respParams call.stub).size + t.size * count := by
    rw [Call.usedLen, hlist, Resp.list, UInt32.toNat_ofNat', Nat.mod_eq_of_lt (by omega)]
  have hsent : (pResp.list pReq call.stub t xRet count).ulLen.toNat =
      (respParams call.stub).size + t.size * count := by
    rw [Counted] at hcounted
    rw [Resp.list, Resp.fill, UInt32.toNat_ofNat']
    omega
  rw [Agrees, hread, hused, hsent]
  exact ⟨Nat.add_le_add_left hmul _, fun _ => Nat.le_refl _⟩

theorem getList_length_le {α : Type} (pList : List α) (n m : UInt32) :
    (getList pList (clamp n m)).length ≤ m.toNat := by
  rw [getList, List.length_take, toNat_clamp]
  omega

theorem agrees_copies {t : CType} {pList : ServiceRun → List ID} (h : ¬Refused run call)
    (hfind : findCmdSet (sentCmd call.stub).code =
      some (call.stub, Service.copies call.stub t pList))
    (hlist : listElem call.stub = some t) (hcounted : Counted call.stub t call.ulCount)
    (pResp : Resp) : Agrees call (service run call.request pResp) := by
  obtain ⟨pResp', -, heq⟩ := service_found h hfind pResp
  rw [heq, Service.copies]
  split
  · rw [finish_ok]
    exact agrees_counted hlist hcounted (getList_length_le _ _ _) _ _ _
  · rw [finish_ok]
    exact agrees_counted hlist hcounted (Nat.zero_le _) _ _ _

theorem agrees_lists {t : CType} {α : Type} {pList : ServiceRun → List α} (h : ¬Refused run call)
    (hfind : findCmdSet (sentCmd call.stub).code =
      some (call.stub, Service.lists call.stub t pList))
    (hlist : listElem call.stub = some t) (hcounted : Counted call.stub t call.ulCount)
    (pResp : Resp) : Agrees call (service run call.request pResp) := by
  obtain ⟨pResp', -, heq⟩ := service_found h hfind pResp
  rw [heq, Service.lists, finish_ok]
  exact agrees_counted hlist hcounted (getList_length_le _ _ _) _ _ _

/-- The lists whose count the call keeps to what is allowed. -/
theorem agrees_allowed (h : ¬Refused run call) (hlist : listElem call.stub ≠ none)
    (hcctv : call.stub ≠ .cctvGetIDList) (hswitch : call.stub ≠ .switchGetIDList)
    (halarm : call.stub ≠ .alarmGetNameList) (pResp : Resp) :
    Agrees call (service run call.request pResp) := by
  obtain ⟨stub, known, ulIndex, ulMaxCount⟩ := call
  cases stub with
  | cctvGetList => exact agrees_copies h rfl rfl (counted_allowed _ _ _) pResp
  | switchGetList => exact agrees_copies h rfl rfl (counted_allowed _ _ _) pResp
  | switchGetModelList => exact agrees_lists h rfl rfl (counted_allowed _ _ _) pResp
  | logGetList =>
    obtain ⟨pResp', -, heq⟩ := service_found (f := Service.logGetList) h rfl pResp
    rw [heq, Service.logGetList, finish_ok]
    apply agrees_counted
    · rfl
    · exact counted_allowed _ _ _
    · split
      · exact getList_length_le _ _ _
      · exact Nat.zero_le _
  | statGetList =>
    obtain ⟨pResp', -, heq⟩ := service_found (f := Service.statGetList) h rfl pResp
    rw [heq, Service.statGetList, finish_ok]
    apply agrees_counted
    · rfl
    · exact counted_allowed _ _ _
    · exact getList_length_le _ _ _
  | _ => contradiction

theorem getAlarmNameList_length {ulIndex ulMaxCount i ulCount : UInt32} (hlt : ulCount < ulMaxCount)
    (l : List UserName) : (getAlarmNameList ulIndex ulMaxCount i ulCount l).length + ulCount.toNat ≤
      ulMaxCount.toNat := by
  have hbound : ulCount.toNat < ulMaxCount.toNat := hlt
  induction l generalizing i ulCount with
  | nil =>
    rw [getAlarmNameList, List.length_nil]
    omega
  | cons pName rest ih =>
    have hfull : ¬ulMaxCount ≤ ulCount := UInt32.not_le.mpr hlt
    rw [getAlarmNameList]
    split
    · split
      · rw [List.length_singleton]
        omega
      · rename_i hmore
        have hnext := UInt32.not_le.mp hmore
        have hone : (ulCount + 1).toNat = ulCount.toNat + 1 := by
          have hmax := ulMaxCount.toNat_lt
          rw [UInt32.toNat_add, UInt32.toNat_one]
          omega
        have hrest := ih (i := i + 1) hnext hnext
        rw [List.length_cons]
        omega
    · exact ih hlt hbound

/-- Of nothing asked for, the first name is taken. -/
theorem getAlarmNameList_zero (ulIndex i : UInt32) (l : List UserName) :
    (getAlarmNameList ulIndex 0 i 0 l).length = if l = [] ∨ i < ulIndex then 0 else 1 := by
  cases l with
  | nil => rfl
  | cons pName rest =>
    rw [getAlarmNameList]
    split
    · rename_i htaken
      rw [if_pos UInt32.zero_le, if_neg, List.length_singleton]
      simpa using htaken
    · rename_i hskipped
      rw [if_pos UInt32.zero_le, if_pos (Or.inr (UInt32.not_le.mp hskipped)), List.length_nil]

theorem getAlarmNameList_length_le (ulIndex ulMaxCount i : UInt32) (l : List UserName) :
    (getAlarmNameList ulIndex ulMaxCount i 0 l).length ≤ max 1 ulMaxCount.toNat := by
  by_cases hzero : ulMaxCount = 0
  · rw [hzero, getAlarmNameList_zero]
    split
    · exact Nat.zero_le _
    · exact Nat.le_max_left _ _
  · have hpos : 0 < ulMaxCount.toNat :=
      Nat.pos_of_ne_zero (fun h => hzero (UInt32.toNat_inj.mp h))
    have hlt : 0 < ulMaxCount := UInt32.lt_iff_toNat_lt.mpr hpos
    have hlen : (getAlarmNameList ulIndex ulMaxCount i 0 l).length + 0 ≤ ulMaxCount.toNat :=
      getAlarmNameList_length hlt l
    exact Nat.le_trans hlen (Nat.le_max_right _ _)

theorem names_length_le_iff (run : ServiceRun) (call : Call) :
    (names run call).length ≤ call.ulMaxCount.toNat ↔
      (call.ulMaxCount = 0 → run.pAlarmList = [] ∨ run.i < call.ulIndex) := by
  rw [names]
  generalize hroom : roomFor run.ulRespBufferLen .alarmGetNameList name = room
  by_cases hnone : call.ulMaxCount = 0
  · have hzero : clamp room 0 = 0 := by
      apply UInt32.toNat_inj.mp
      rw [toNat_clamp]
      exact Nat.min_zero _
    rw [hnone, hzero, getAlarmNameList_zero]
    split
    · rename_i hnames
      exact iff_of_true (Nat.le_refl _) (fun _ => hnames)
    · rename_i hname
      exact iff_of_false (Nat.not_succ_le_zero 0) (fun h => hname (h rfl))
  · refine iff_of_true ?_ (fun h => absurd h hnone)
    have hpos : 0 < call.ulMaxCount.toNat :=
      Nat.pos_of_ne_zero (fun h => hnone (UInt32.toNat_inj.mp h))
    have hlen := getAlarmNameList_length_le call.ulIndex (clamp room call.ulMaxCount) run.i
      run.pAlarmList
    rw [toNat_clamp] at hlen
    omega

theorem agrees_logGetCount2_iff (h : ¬Refused run call) (hstub : call.stub = .logGetCount2)
    (pResp : Resp) : Agrees call (service run call.request pResp) ↔
      run.ulRespBufferLen.toNat ≤ (respParams .logGetCount2).size ∧
        (run.xRet = retOK → run.ulRespBufferLen.toNat = (respParams .logGetCount2).size) := by
  obtain ⟨pResp', hlen, heq⟩ :=
    service_found (f := Service.logGetCount2) h (by rw [hstub]; rfl) pResp
  have hlist : listElem call.stub = none := by rw [hstub]; rfl
  rw [heq, Service.logGetCount2, finish_ok, Agrees, readLen_plain hlist, usedLen_plain hlist, hstub,
    hlen]
  constructor
  · intro hagree
    obtain ⟨hle, hused⟩ := hagree
    exact ⟨hle, fun hret => Nat.le_antisymm hle (hused hret)⟩
  · intro hfits
    obtain ⟨hle, hsame⟩ := hfits
    exact ⟨hle, fun hret => Nat.le_of_eq (hsame hret).symm⟩

/-- The statistics' service answers a request to end a session. -/
theorem not_agrees_ssidDel (h : ¬Refused run call) (hstub : call.stub = .ssidDel) (pResp : Resp) :
    ¬Agrees call (service run call.request pResp) := by
  obtain ⟨pResp', -, heq⟩ := service_found (f := Service.statDel2) h (by rw [hstub]; rfl) pResp
  have hlist : listElem call.stub = none := by rw [hstub]; rfl
  intro hagree
  obtain ⟨hle, -⟩ := hagree
  rw [heq, Service.statDel2, Service.answers, finish_ok, readLen_plain hlist, hstub, Resp.fill,
    toNat_size] at hle
  exact absurd hle (by decide)

theorem getList_length_lt {α : Type} (pList : List α) (n : UInt32) :
    (getList pList n).length < 0x100000000 := by
  have hlt := n.toNat_lt
  rw [getList, List.length_take]
  omega

theorem agrees_cctvGetIDList_iff (h : ¬Refused run call) (hstub : call.stub = .cctvGetIDList)
    (pResp : Resp) : Agrees call (service run call.request pResp) ↔
      Enough .cctvGetIDList id call.ulMaxCount
        (getList run.pCCTVList (roomFor run.ulRespBufferLen .cctvGetIDList id)).length := by
  obtain ⟨stub, known, ulIndex, ulMaxCount⟩ := call
  subst hstub
  obtain ⟨pResp', hlen, heq⟩ := service_found (f := Service.cctvGetIDList) h rfl pResp
  rw [heq, Service.cctvGetIDList, finish_ok, hlen]
  apply agrees_list_iff
  · rfl
  · decide
  · exact getList_length_lt _ _

theorem agrees_switchGetIDList_iff (h : ¬Refused run call) (hstub : call.stub = .switchGetIDList)
    (pResp : Resp) : Agrees call (service run call.request pResp) ↔
      (¬Counted .switchGetIDList id call.ulMaxCount →
        Spared .switchGetIDList id call.ulMaxCount
          (getList run.pSwitchList
            (clamp (roomFor run.ulRespBufferLen .switchGetIDList id) call.ulMaxCount)).length) := by
  obtain ⟨stub, known, ulIndex, ulMaxCount⟩ := call
  subst hstub
  obtain ⟨pResp', hlen, heq⟩ := service_found (f := Service.switchGetIDList) h rfl pResp
  rw [heq, Service.switchGetIDList, Service.lists, finish_ok, hlen]
  refine (agrees_list_iff rfl (by decide) (getList_length_lt _ _) _ _).trans ?_
  exact and_iff_right (fun _ => getList_length_le _ _ _)

theorem names_length_lt (run : ServiceRun) (call : Call) :
    (names run call).length < 0x100000000 := by
  rw [names]
  generalize clamp _ _ = ulMaxCount
  have hlen := getAlarmNameList_length_le call.ulIndex ulMaxCount run.i run.pAlarmList
  have hlt := ulMaxCount.toNat_lt
  omega

/-- A call for no names at all has a short length. -/
theorem counted_zero (c : Cmd) (t : CType) : Counted c t 0 := by
  have hle := size_le c
  have hzero : (0 : UInt32).toNat = 0 := rfl
  rw [Counted, hzero]
  omega

theorem agrees_alarmGetNameList_iff (h : ¬Refused run call) (hstub : call.stub = .alarmGetNameList)
    (pResp : Resp) : Agrees call (service run call.request pResp) ↔
      (call.ulMaxCount = 0 → run.pAlarmList = [] ∨ run.i < call.ulIndex) ∧
        (¬Counted .alarmGetNameList name call.ulMaxCount →
          Spared .alarmGetNameList name call.ulMaxCount (names run call).length) := by
  have hnames := names_length_le_iff run call
  have hlt := names_length_lt run call
  obtain ⟨stub, known, ulIndex, ulMaxCount⟩ := call
  subst hstub
  obtain ⟨pResp', hlen, heq⟩ := service_found (f := Service.alarmGetNameList) h rfl pResp
  rw [heq, Service.alarmGetNameList, finish_ok, hlen]
  refine (agrees_list_iff rfl (by decide) hlt _ _).trans (and_congr_left' ?_)
  constructor
  · intro hle hzero
    have hnone : ulMaxCount = 0 := hzero
    have hcounted : Counted .alarmGetNameList name ulMaxCount := hnone ▸ counted_zero _ _
    exact hnames.mp (hle hcounted) hzero
  · intro hzero _
    exact hnames.mpr hzero

/-- A response has the length that its call expects exactly when the call fits what it finds. -/
theorem agrees_iff (run : ServiceRun) (call : Call) (pResp : Resp) :
    Agrees call (service run call.request pResp) ↔ Fits run call := by
  unfold Fits
  split
  · rename_i hrefused
    obtain ⟨hlen, hret⟩ := service_refused hrefused pResp
    constructor
    · intro hagree
      obtain ⟨hle, -⟩ := hagree
      rw [hlen] at hle
      exact hle
    · intro hread
      exact agrees_alone hread hlen (fun hok => hrefused.2 (hret ▸ hok))
  · rename_i hok
    split
    · rename_i hstub
      exact agrees_logGetCount2_iff hok hstub pResp
    · rename_i hstub
      exact iff_of_false (not_agrees_ssidDel hok hstub pResp) not_false
    · rename_i hstub
      exact agrees_cctvGetIDList_iff hok hstub pResp
    · rename_i hstub
      exact agrees_switchGetIDList_iff hok hstub pResp
    · rename_i hstub
      exact agrees_alarmGetNameList_iff hok hstub pResp
    · rename_i hcount hdel hcctv hswitch halarm
      refine iff_of_true ?_ trivial
      by_cases hlist : listElem call.stub = none
      · exact agrees_plain hok hlist hcount hdel pResp
      · exact agrees_allowed hok hlist hcctv hswitch halarm pResp

/-- Between calls that agree nothing is unread. -/
structure Inv (w : Wire) : Prop where
  apart : Apart w
  unread : w.unread = []

theorem apart_exchange_iff (h : Inv w) (e : ServiceRun × Call) :
    Apart (w.exchange e) ↔ Fits e.1 e.2 := by
  rw [← agrees_iff e.1 e.2 w.pResp, Apart, Wire.exchange, forall_getElem?_concat]
  constructor
  · intro happ
    exact happ.2.1
  · intro hagrees
    refine ⟨h.apart, hagrees, fun b hb => ?_⟩
    have hin := List.mem_of_mem_take hb
    rw [h.unread, List.nil_append] at hin
    exact List.eq_of_mem_replicate hin

theorem inv_exchange (h : Inv w) (e : ServiceRun × Call) (hfits : Fits e.1 e.2) :
    Inv (w.exchange e) := by
  refine ⟨(apart_exchange_iff h e).mpr hfits, ?_⟩
  obtain ⟨hle, -⟩ := (agrees_iff e.1 e.2 w.pResp).mpr hfits
  rw [Wire.exchange, h.unread, List.nil_append]
  apply List.drop_eq_nil_of_le
  rw [List.length_replicate]
  exact hle

/-- On a connection every response has the length that its call expects, and no byte of one is
read as part of the next, exactly when every call fits what it finds. -/
theorem lengths_agree_iff (pResp : Resp) (es : List (ServiceRun × Call)) :
    (∀ w ∈ states Wire.exchange (Wire.connect pResp) es, Apart w) ↔ ∀ e ∈ es, Fits e.1 e.2 := by
  have hapart : Apart (Wire.connect pResp) := by
    intro k x hx
    cases hx
  have hstart : Inv (Wire.connect pResp) := ⟨hapart, rfl⟩
  have hiff : (∀ w ∈ states Wire.exchange (Wire.connect pResp) es, Apart w) ↔
      Admitted Wire.exchange (fun _ e => Fits e.1 e.2) (Wire.connect pResp) es :=
    safe_iff_admitted (fun w (h : Inv w) => h.apart) (fun w e h hfits => inv_exchange h e hfits)
      (fun w e h hapart => (apart_exchange_iff h e).mp hapart) hstart es
  rw [hiff, admitted_const]

/-- A daemon without anything, behind a buffer of the default length. -/
def empty : ServiceRun := ⟨4096, retOK, retOK, true, [], [], [], [], [], [], 0⟩

theorem logGetCount2_known : Cmd.logGetCount2 ≠ .unknown := nofun

theorem cctvGetCount_known : Cmd.cctvGetCount ≠ .unknown := nofun

/-- The filtered logs are counted, then the cameras. -/
def counts : List (ServiceRun × Call) :=
  [(empty, ⟨.logGetCount2, logGetCount2_known, 0, 0⟩),
    (empty, ⟨.cctvGetCount, cctvGetCount_known, 0, 0⟩)]

/-- The second call reads bytes of the first one's response. -/
theorem logs_read_as_cameras :
    let w := counts.foldl Wire.exchange (Wire.connect ⟨0, 0, 0, 0⟩)
    w.exchanges.map (fun x => (x.pResp.ulLen, x.call.readLen, x.got)) =
      [(4096, 16, List.replicate 16 0), (16, 16, List.replicate 16 0)] ∧ ¬Apart w := by
  refine ⟨by decide, fun hapart => ?_⟩
  have hsecond : ∃ x, (counts.foldl Wire.exchange (Wire.connect ⟨0, 0, 0, 0⟩)).exchanges[1]? =
      some x ∧ x.got = List.replicate 16 0 := ⟨_, rfl, by decide⟩
  obtain ⟨x, hx, hgot⟩ := hsecond
  have hown := (hapart 1 x hx).2 0 (hgot ▸ List.mem_cons_self)
  exact absurd hown (by decide)

end Catchb.Proofs.Lengths
