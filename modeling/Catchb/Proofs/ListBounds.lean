import Catchb.Proofs.Lengths

/-! The counts of the list responses, against what is asked for and what there is room for. -/

namespace Catchb.Proofs.ListBounds
open Lib Params Lengths

variable {run : ServiceRun} {call : Call} {round : Call.Round} {c : Cmd} {t : CType} {f : Service}

/-- A list's response in a buffer of `ulLen` bytes, after a request for `ulCount` elements. -/
def Within (c : Cmd) (t : CType) (ulCount ulLen : UInt32) (pResp : Resp) : Prop :=
  pResp.ulCount.toNat ≤ min ulCount.toNat ((ulLen.toNat - (respParams c).size) / t.size) ∧
    pResp.ulLen.toNat = (respParams c).size + t.size * pResp.ulCount.toNat ∧
    pResp.ulLen.toNat ≤ ulLen.toNat

/-- Every copy ends within the elements that the caller's array has. -/
def Kept (call : Call) (rounds : List Call.Round) : Prop :=
  ∀ copy ∈ call.copies rounds, copy.1.toNat + copy.2.toNat ≤ call.ulMaxCount.toNat

/-- When a list is not too long for a request. -/
def Bounded (run : ServiceRun) (c : Cmd) (ulIndex ulCount : UInt32) : Prop :=
  match c with
  | .cctvGetIDList => min run.pCCTVList.length
      ((run.ulRespBufferLen.toNat - (respParams .cctvGetIDList).size) / id.size) ≤ ulCount.toNat
  | .alarmGetNameList =>
      min ulCount.toNat
        ((run.ulRespBufferLen.toNat - (respParams .alarmGetNameList).size) / name.size) = 0 →
      run.pAlarmList = [] ∨ run.i < ulIndex
  | _ => True

/-- What a call reads as the count is what the server has sent, or does no harm. -/
def Arrives (call : Call) (round : Call.Round) : Prop :=
  call.readLen < (respParams call.stub).size → round.answered = true →
    (if resp.size ≤ call.readLen then ¬Refused round.run call else round.heap.xRet = retOK) →
    round.heap.ulCount ≤ call.ulMaxCount

theorem elem_size (hlist : listElem c = some t) : 0 < t.size ∧ t.size < 0x100000000 := by
  cases c <;> cases hlist <;> decide

theorem toNat_roomFor (ht : t.size < 0x100000000) {ulLen : UInt32}
    (hfixed : (respParams c).size ≤ ulLen.toNat) :
    (roomFor ulLen c t).toNat = (ulLen.toNat - (respParams c).size) / t.size := by
  have hsize : (UInt32.ofNat (respParams c).size).toNat = (respParams c).size := toNat_size c
  have hle : UInt32.ofNat (respParams c).size ≤ ulLen := by
    rw [UInt32.le_iff_toNat_le, hsize]
    exact hfixed
  have helem : (UInt32.ofNat t.size).toNat = t.size := by
    rw [UInt32.toNat_ofNat']
    exact Nat.mod_eq_of_lt ht
  rw [roomFor, UInt32.toNat_div, UInt32.toNat_sub_of_le _ _ hle, hsize, helem]

/-- A list that has room is as long as its header says. -/
theorem within_list_iff (ht : 0 < t.size) {pResp : Resp} {count : Nat} {ulLen : UInt32}
    (hfixed : (respParams c).size ≤ ulLen.toNat) (hcount : count < 0x100000000) (pReq : Req)
    (xRet : RetCode) (ulCount : UInt32) :
    Within c t ulCount ulLen (pResp.list pReq c t xRet count) ↔
      count ≤ min ulCount.toNat ((ulLen.toNat - (respParams c).size) / t.size) := by
  have hlisted : (pResp.list pReq c t xRet count).ulCount.toNat = count := by
    simp only [Resp.list, UInt32.toNat_ofNat', Nat.mod_eq_of_lt hcount]
  simp only [Within, hlisted]
  constructor
  · intro hwithin
    obtain ⟨hle, -, -⟩ := hwithin
    exact hle
  · intro hle
    have hroom : t.size * count ≤ ulLen.toNat - (respParams c).size := by
      have hdiv := Nat.le_trans hle (Nat.min_le_right _ _)
      rw [Nat.le_div_iff_mul_le ht, Nat.mul_comm] at hdiv
      exact hdiv
    have hlt := ulLen.toNat_lt
    have hlen : (pResp.list pReq c t xRet count).ulLen.toNat =
        (respParams c).size + t.size * count := by
      simp only [Resp.list, Resp.fill, UInt32.toNat_ofNat']
      omega
    refine ⟨hle, hlen, ?_⟩
    omega

theorem getList_clamp_le {α : Type} (ht : t.size < 0x100000000) {ulLen : UInt32}
    (hfixed : (respParams c).size ≤ ulLen.toNat) (pList : List α) (ulCount : UInt32) :
    (getList pList (clamp (roomFor ulLen c t) ulCount)).length ≤
      min ulCount.toNat ((ulLen.toNat - (respParams c).size) / t.size) := by
  rw [getList, List.length_take, toNat_clamp, toNat_roomFor ht hfixed]
  omega

/-- The names are no more than their clamped count, unless that is nothing. -/
theorem getAlarmNameList_length_le_iff (ulIndex ulMaxCount i : UInt32) (l : List UserName) :
    (getAlarmNameList ulIndex ulMaxCount i 0 l).length ≤ ulMaxCount.toNat ↔
      (ulMaxCount.toNat = 0 → l = [] ∨ i < ulIndex) := by
  by_cases hnone : ulMaxCount = 0
  · subst hnone
    rw [getAlarmNameList_zero]
    split
    · rename_i hnames
      exact iff_of_true (Nat.le_refl _) (fun _ => hnames)
    · rename_i hname
      exact iff_of_false (Nat.not_succ_le_zero 0) (fun h => hname (h rfl))
  · have hpos : ulMaxCount.toNat ≠ 0 := fun h => hnone (UInt32.toNat_inj.mp h)
    have hlen := getAlarmNameList_length_le ulIndex ulMaxCount i l
    exact iff_of_true (by omega) (fun h => absurd h hpos)

/-- A list command answers within its bounds exactly when the list is not too long. -/
theorem within_iff (hlist : listElem c = some t) (hfind : findCmdSet c.code = some (c, f))
    (pReq : Req) {pResp : Resp} (hlen : pResp.ulLen = run.ulRespBufferLen)
    (hfixed : (respParams c).size ≤ run.ulRespBufferLen.toNat) :
    Within c t pReq.ulCount run.ulRespBufferLen (f run pReq pResp).2 ↔
      Bounded run c pReq.ulIndex pReq.ulCount := by
  obtain ⟨hpos, hsize⟩ := elem_size hlist
  have hlists : ∀ {α : Type} (pList : List α) (xRet : RetCode), Within c t pReq.ulCount
      run.ulRespBufferLen (pResp.list pReq c t xRet
        (getList pList (clamp (roomFor pResp.ulLen c t) pReq.ulCount)).length) := by
    intro α pList xRet
    rw [within_list_iff hpos hfixed (getList_length_lt _ _), hlen]
    exact getList_clamp_le hsize hfixed pList pReq.ulCount
  have hnone : ∀ xRet : RetCode, Within c t pReq.ulCount run.ulRespBufferLen
      (pResp.list pReq c t xRet 0) := by
    intro xRet
    rw [within_list_iff hpos hfixed (by decide)]
    exact Nat.zero_le _
  have hcopies : ∀ pList : ServiceRun → List ID, Within c t pReq.ulCount run.ulRespBufferLen
      (Service.copies c t pList run pReq pResp).2 := by
    intro pList
    unfold Service.copies
    split
    · exact hlists _ _
    · exact hnone _
  cases c with
  | cctvGetIDList =>
    cases hlist
    cases hfind
    have hlisted : (getList run.pCCTVList (roomFor pResp.ulLen .cctvGetIDList id)).length =
        min run.pCCTVList.length
          ((run.ulRespBufferLen.toNat - (respParams .cctvGetIDList).size) / id.size) := by
      rw [getList, List.length_take, hlen, toNat_roomFor hsize hfixed, Nat.min_comm]
    refine (within_list_iff hpos hfixed (getList_length_lt _ _) _ _ _).trans ?_
    rw [hlisted, Bounded, Nat.le_min]
    exact and_iff_left (Nat.min_le_right _ _)
  | cctvGetList =>
    cases hlist
    cases hfind
    exact iff_of_true (hcopies _) trivial
  | switchGetIDList =>
    cases hlist
    cases hfind
    exact iff_of_true (hlists _ _) trivial
  | switchGetList =>
    cases hlist
    cases hfind
    exact iff_of_true (hcopies _) trivial
  | switchGetModelList =>
    cases hlist
    cases hfind
    exact iff_of_true (hlists _ _) trivial
  | logGetList =>
    cases hlist
    cases hfind
    refine iff_of_true ?_ trivial
    simp only [Service.logGetList]
    split
    · exact hlists _ _
    · exact hnone _
  | alarmGetNameList =>
    cases hlist
    cases hfind
    have hlt : (getAlarmNameList pReq.ulIndex
        (clamp (roomFor pResp.ulLen .alarmGetNameList name) pReq.ulCount) run.i 0
        run.pAlarmList).length < 0x100000000 := by
      generalize clamp _ _ = ulMaxCount
      have hnames := getAlarmNameList_length_le pReq.ulIndex ulMaxCount run.i run.pAlarmList
      have hmax := ulMaxCount.toNat_lt
      omega
    have hclamp : (clamp (roomFor pResp.ulLen .alarmGetNameList name) pReq.ulCount).toNat =
        min pReq.ulCount.toNat
          ((run.ulRespBufferLen.toNat - (respParams .alarmGetNameList).size) / name.size) := by
      rw [toNat_clamp, hlen, toNat_roomFor hsize hfixed, Nat.min_comm]
    simp only [Service.alarmGetNameList, within_list_iff hpos hfixed hlt, Bounded, ← hclamp]
    exact getAlarmNameList_length_le_iff _ _ _ _
  | statGetList =>
    cases hlist
    cases hfind
    exact iff_of_true (hlists _ _) trivial
  | _ => contradiction

/-- The list services return OK whatever they answer. -/
theorem list_returns (hlist : listElem c = some t) (hfind : findCmdSet c.code = some (c, f))
    (run : ServiceRun) (pReq : Req) (pResp : Resp) : (f run pReq pResp).1 = retOK := by
  cases c with
  | cctvGetList =>
    cases hfind
    simp only [Service.cctvGetList, Service.copies]
    split <;> rfl
  | switchGetList =>
    cases hfind
    simp only [Service.switchGetList, Service.copies]
    split <;> rfl
  | cctvGetIDList | switchGetIDList | switchGetModelList | logGetList | alarmGetNameList
  | statGetList =>
    cases hfind
    rfl
  | _ => contradiction

theorem sentCmd_list (hlist : listElem c = some t) : sentCmd c = c := by
  cases c <;> cases hlist <;> rfl

theorem list_found (hlist : listElem c = some t) : ∃ f, findCmdSet c.code = some (c, f) := by
  cases c <;> cases hlist <;> exact ⟨_, rfl⟩

/-- A list call that is let through gets what the list's service answers. -/
theorem service_list (hlist : listElem call.stub = some t) (h : ¬Refused run call)
    (pResp : Resp) : ∃ (f : Service) (pResp' : Resp),
      findCmdSet call.stub.code = some (call.stub, f) ∧ pResp'.ulLen = run.ulRespBufferLen ∧
        service run call.request pResp = (f run call.request pResp').2 := by
  obtain ⟨f, hfind⟩ := list_found hlist
  obtain ⟨pResp', hlen, heq⟩ :=
    service_found h ((sentCmd_list hlist).symm ▸ hfind) pResp
  refine ⟨f, pResp', hfind, hlen, ?_⟩
  rw [heq, list_returns hlist hfind, finish_ok]

/-- Only the lengths of the name lists and of the ID lists may wrap round. -/
theorem whole_header (call : Call) (hlist : listElem call.stub = some t)
    (hshort : call.readLen < (respParams call.stub).size) :
    call.ulCount = call.ulMaxCount ∧ (call.stub = .cctvGetIDList ∨ call.stub = .switchGetIDList ∨
      call.stub = .alarmGetNameList) := by
  have hallowed : ∀ n, call.ulCount = clamp n (allowed call.stub t) → False := by
    intro n hcount
    have hread : call.readLen = (Call.ulRespLen call.stub t call.ulCount).toNat := by
      simp only [Call.readLen, hlist]
    rw [hread, hcount, ulRespLen_counted (counted_allowed _ _ _)] at hshort
    omega
  obtain ⟨stub, known, ulIndex, ulMaxCount⟩ := call
  cases stub with
  | cctvGetIDList => exact ⟨rfl, Or.inl rfl⟩
  | switchGetIDList => exact ⟨rfl, Or.inr (Or.inl rfl)⟩
  | alarmGetNameList => exact ⟨rfl, Or.inr (Or.inr rfl)⟩
  | cctvGetList | switchGetList | switchGetModelList | logGetList | statGetList =>
    cases hlist
    exact (hallowed ulMaxCount rfl).elim
  | _ => contradiction

/-- What a call asks for is bounded when what its caller asks for is. -/
theorem bounded_ulCount (hbounded : Bounded run call.stub call.ulIndex call.ulMaxCount) :
    Bounded run call.stub call.ulIndex call.ulCount := by
  obtain ⟨stub, known, ulIndex, ulMaxCount⟩ := call
  cases stub <;> exact hbounded

theorem ulCount_le (call : Call) : call.ulCount ≤ call.ulMaxCount := by
  have hclamp : ∀ n, clamp call.ulMaxCount n ≤ call.ulMaxCount := by
    intro n
    rw [UInt32.le_iff_toNat_le, toNat_clamp]
    exact Nat.min_le_left _ _
  unfold Call.ulCount
  split
  all_goals first | exact hclamp _ | exact UInt32.le_refl _

/-- One request copies no more elements than it asks for. -/
theorem copied_le (call : Call) (hlist : listElem call.stub = some t)
    (hfixed : (respParams call.stub).size ≤ round.run.ulRespBufferLen.toNat)
    (hbounded : Bounded round.run call.stub call.ulIndex call.ulMaxCount)
    (harrives : Arrives call round) {ulRespCount : UInt32}
    (hcopied : call.copied round = some ulRespCount) : ulRespCount ≤ call.ulCount := by
  simp only [Call.copied] at hcopied
  split at hcopied
  · cases hcopied
  · rename_i hok
    obtain ⟨hanswered, hret⟩ := not_or.mp hok
    have hret := not_not.mp hret
    split at hcopied
    · cases hcopied
    · obtain rfl := Option.some.inj hcopied
      by_cases hread : (respParams call.stub).size ≤ call.readLen
      · have hresp : resp.size ≤ call.readLen := Nat.le_trans (resp_le _) hread
        simp only [Call.received, if_pos hread]
        simp only [Call.received, if_pos hresp] at hret
        by_cases hrefused : Refused round.run call
        · obtain ⟨-, hssid⟩ := service_refused hrefused round.pResp
          exact absurd (hssid ▸ hret) hrefused.2
        · obtain ⟨f, pResp', hfind, hlen, heq⟩ := service_list hlist hrefused round.pResp
          have hwithin := (within_iff hlist hfind call.request hlen hfixed).mpr
            (bounded_ulCount hbounded)
          rw [heq, UInt32.le_iff_toNat_le]
          exact Nat.le_trans hwithin.1 (Nat.min_le_left _ _)
      · obtain ⟨hcount, -⟩ := whole_header call hlist (Nat.lt_of_not_le hread)
        simp only [Call.received, if_neg hread, hcount]
        apply harrives (Nat.lt_of_not_le hread) (Bool.not_eq_false _ ▸ hanswered)
        split
        · rename_i hresp
          intro hrefused
          obtain ⟨-, hssid⟩ := service_refused hrefused round.pResp
          simp only [Call.received, if_pos hresp, hssid] at hret
          exact hrefused.2 hret
        · rename_i hresp
          simp only [Call.received, if_neg hresp] at hret
          exact hret

/-- The requests of one call share what its caller asks for. -/
theorem copyAll_kept {stub : Cmd} {known : stub ≠ .unknown} {ulAllowedNumber n : UInt32}
    {rounds : List Call.Round}
    (hround : ∀ round ∈ rounds, ∀ ulIndex ulMaxCount ulRespCount,
      Call.copied ⟨stub, known, ulIndex, ulMaxCount⟩ round = some ulRespCount →
        ulRespCount ≤ ulMaxCount) (ulIndex ulMaxCount ulTotalCount : UInt32)
    (htotal : ulTotalCount.toNat + ulMaxCount.toNat = n.toNat) :
    ∀ copy ∈ Call.copyAll stub known ulAllowedNumber ulIndex ulMaxCount ulTotalCount rounds,
      copy.1.toNat + copy.2.toNat ≤ n.toNat := by
  induction rounds generalizing ulIndex ulMaxCount ulTotalCount with
  | nil => exact nofun
  | cons round rounds ih =>
    obtain ⟨hhead, hrest⟩ := List.forall_mem_cons.mp hround
    rw [Call.copyAll]
    split
    · exact nofun
    · split
      · exact nofun
      · rename_i ulRespCount hcopied
        have hclamp := UInt32.le_iff_toNat_le.mp (hhead _ _ _ hcopied)
        rw [toNat_clamp] at hclamp
        have hle : ulRespCount.toNat ≤ ulMaxCount.toNat :=
          Nat.le_trans hclamp (Nat.min_le_right _ _)
        have hmore : (ulTotalCount + ulRespCount).toNat =
            ulTotalCount.toNat + ulRespCount.toNat := by
          have hlt := n.toNat_lt
          rw [UInt32.toNat_add]
          omega
        have hless : (ulMaxCount - ulRespCount).toNat = ulMaxCount.toNat - ulRespCount.toNat :=
          UInt32.toNat_sub_of_le _ _ (UInt32.le_iff_toNat_le.mpr hle)
        rw [List.forall_mem_cons]
        refine ⟨(by omega : ulTotalCount.toNat + ulRespCount.toNat ≤ n.toNat), ?_⟩
        split
        · exact nofun
        · exact ih hrest _ _ _ (by omega)

/-- Calls for lists that are not too long keep to their callers' arrays. -/
theorem kept_of_bounded (hlist : listElem call.stub = some t) {rounds : List Call.Round}
    (hfixed : ∀ round ∈ rounds,
      (respParams call.stub).size ≤ round.run.ulRespBufferLen.toNat)
    (hbounded : ∀ round ∈ rounds, Bounded round.run call.stub call.ulIndex call.ulMaxCount)
    (harrives : ∀ round ∈ rounds.head?, Arrives call round) : Kept call rounds := by
  have honce : ∀ copy ∈ (rounds.head?.bind call.copied).toList.map (Prod.mk (0 : UInt32)),
      copy.1.toNat + copy.2.toNat ≤ call.ulMaxCount.toNat := by
    intro copy hcopy
    obtain ⟨ulRespCount, hcount, rfl⟩ := List.mem_map.mp hcopy
    obtain ⟨round, hround, hcopied⟩ := Option.bind_eq_some_iff.mp (Option.mem_toList.mp hcount)
    have hmem := List.mem_of_mem_head? hround
    have hle := copied_le call hlist (hfixed round hmem) (hbounded round hmem)
      (harrives round hround) hcopied
    have hzero : (0 : UInt32).toNat = 0 := rfl
    rw [hzero, Nat.zero_add]
    exact UInt32.le_iff_toNat_le.mp (UInt32.le_trans hle (ulCount_le call))
  obtain ⟨stub, known, ulIndex, ulMaxCount⟩ := call
  -- The logs and the samples are never too long, and their headers never wrap round.
  have hmore : (∀ run ulIndex ulCount, Bounded run stub ulIndex ulCount) →
      stub ≠ .cctvGetIDList → stub ≠ .switchGetIDList → stub ≠ .alarmGetNameList →
      ∀ ulAllowedNumber, ∀ copy ∈
        Call.copyAll stub known ulAllowedNumber ulIndex ulMaxCount 0 rounds,
        copy.1.toNat + copy.2.toNat ≤ ulMaxCount.toNat := by
    intro hany hcctv hswitch halarm ulAllowedNumber
    apply copyAll_kept
    · intro round hround ulIndex ulMaxCount ulRespCount hcopied
      refine UInt32.le_trans (copied_le ⟨stub, known, ulIndex, ulMaxCount⟩ hlist
        (hfixed round hround) (hany _ _ _) ?_ hcopied) (ulCount_le _)
      intro hshort
      obtain ⟨-, hstub⟩ := whole_header ⟨stub, known, ulIndex, ulMaxCount⟩ hlist hshort
      rcases hstub with hstub | hstub | hstub <;> contradiction
    · exact Nat.zero_add _
  cases stub with
  | logGetList =>
    intro copy hcopy
    simp only [Call.copies] at hcopy
    split at hcopy
    · exact honce copy hcopy
    · exact hmore (fun _ _ _ => trivial) (by decide) (by decide) (by decide) _ copy hcopy
  | statGetList =>
    intro copy hcopy
    simp only [Call.copies] at hcopy
    split at hcopy
    · exact honce copy hcopy
    · exact hmore (fun _ _ _ => trivial) (by decide) (by decide) (by decide) _ copy hcopy
  | _ => exact honce

/-- A call that is kept to its caller's array has received its count. -/
theorem arrives_of_kept (hlist : listElem call.stub = some t) {rounds : List Call.Round}
    (hkept : Kept call rounds) : ∀ round ∈ rounds.head?, Arrives call round := by
  intro round hround hshort hanswered hret
  obtain ⟨hcount, hstub⟩ := whole_header _ hlist hshort
  have hread : ¬(respParams call.stub).size ≤ call.readLen := Nat.not_le_of_lt hshort
  have hok : (call.received (service round.run call.request round.pResp) round.heap).xRet =
      retOK := by
    simp only [Call.received]
    split at hret
    · rename_i hresp
      rw [if_pos hresp]
      obtain ⟨f, pResp', hfind, hlen, heq⟩ := service_list hlist hret round.pResp
      rw [heq]
      rcases hstub with hstub | hstub | hstub
      all_goals
        rw [hstub] at hfind
        cases hfind
        rfl
    · rename_i hresp
      rw [if_neg hresp]
      exact hret
  have hmodel : call.stub ≠ .switchGetModelList := by
    rcases hstub with hstub | hstub | hstub <;> rw [hstub] <;> nofun
  have hcopied : call.copied round = some round.heap.ulCount := by
    simp only [Call.copied, hok, hanswered, hmodel, ne_eq, not_true_eq_false, or_self,
      Bool.true_eq_false, false_and, if_false]
    exact congrArg some (if_neg hread)
  have hcopies : call.copies rounds = [(0, round.heap.ulCount)] := by
    have honce : rounds.head?.bind call.copied = some round.heap.ulCount :=
      Option.bind_eq_some_iff.mpr ⟨round, hround, hcopied⟩
    obtain ⟨stub, known, ulIndex, ulMaxCount⟩ := call
    rcases hstub with hstub | hstub | hstub
    all_goals
      cases hstub
      simp only [Call.copies, honce]
      rfl
  have hle := hkept (0, round.heap.ulCount) (hcopies ▸ List.mem_singleton.mpr rfl)
  have hzero : (0 : UInt32).toNat = 0 := rfl
  simp only [hzero, Nat.zero_add] at hle
  exact UInt32.le_iff_toNat_le.mpr hle

/-- A list's service answers within its buffer and within what is asked for, and its call copies
no more into the caller's array, exactly when the list is not too long and its count arrives. -/
theorem list_bounds_iff (call : Call) (hlist : listElem call.stub = some t)
    (hfind : findCmdSet call.stub.code = some (call.stub, f)) (rounds : List Call.Round)
    (hfixed : ∀ round ∈ rounds,
      (respParams call.stub).size ≤ round.run.ulRespBufferLen.toNat) :
    (∀ round ∈ rounds, Within call.stub t call.ulMaxCount round.run.ulRespBufferLen
        (f round.run ⟨call.stub.code, call.ulIndex, call.ulMaxCount⟩
          { round.pResp with ulLen := round.run.ulRespBufferLen }).2) ∧ Kept call rounds ↔
      (∀ round ∈ rounds, Bounded round.run call.stub call.ulIndex call.ulMaxCount) ∧
        ∀ round ∈ rounds.head?, Arrives call round := by
  have hwithin : ∀ round ∈ rounds, Within call.stub t call.ulMaxCount round.run.ulRespBufferLen
      (f round.run ⟨call.stub.code, call.ulIndex, call.ulMaxCount⟩
        { round.pResp with ulLen := round.run.ulRespBufferLen }).2 ↔
      Bounded round.run call.stub call.ulIndex call.ulMaxCount := fun round hround =>
    within_iff hlist hfind ⟨_, call.ulIndex, call.ulMaxCount⟩ rfl (hfixed round hround)
  constructor
  · intro hsafe
    obtain ⟨hall, hkept⟩ := hsafe
    exact ⟨fun round hround => (hwithin round hround).mp (hall round hround),
      arrives_of_kept hlist hkept⟩
  · intro hfits
    obtain ⟨hbounded, harrives⟩ := hfits
    exact ⟨fun round hround => (hwithin round hround).mpr (hbounded round hround),
      kept_of_bounded hlist hfixed hbounded harrives⟩

theorem cctvGetIDList_known : Cmd.cctvGetIDList ≠ .unknown := nofun

theorem hall_fits : "hall".toList.length ≤ 64 := by decide

theorem porch_fits : "porch".toList.length ≤ 64 := by decide

/-- Two cameras behind a buffer of the default length. -/
def pair : Call.Round where
  run := { empty with pCCTVList := [⟨"hall".toList, hall_fits⟩, ⟨"porch".toList, porch_fits⟩] }
  pResp := ⟨0, 0, 0, 0⟩
  answered := true
  heap := ⟨0, 0, 0, 0⟩

/-- For one camera two are listed, and both are copied. -/
theorem list_overruns :
    let call : Call := ⟨.cctvGetIDList, cctvGetIDList_known, 0, 1⟩
    call.copies [pair] = [(0, 2)] ∧ ¬Kept call [pair] ∧
      ¬Within .cctvGetIDList id 1 4096
        (Service.cctvGetIDList pair.run ⟨Cmd.cctvGetIDList.code, 0, 1⟩ ⟨0, 4096, 0, 0⟩).2 := by
  refine ⟨by decide, ?_, ?_⟩
  · intro hkept
    exact absurd (hkept (0, 2) (by decide)) (by decide)
  · intro hwithin
    exact absurd hwithin.1 (by decide)

theorem list_bounds_pair :
    let call : Call := ⟨.cctvGetIDList, cctvGetIDList_known, 0, 2⟩
    (∀ round ∈ [pair], Within .cctvGetIDList id 2 round.run.ulRespBufferLen
      (Service.cctvGetIDList round.run ⟨Cmd.cctvGetIDList.code, 0, 2⟩
        { round.pResp with ulLen := round.run.ulRespBufferLen }).2) ∧ Kept call [pair] := by
  refine (list_bounds_iff ⟨.cctvGetIDList, cctvGetIDList_known, 0, 2⟩ rfl rfl [pair]
    (by decide)).mpr ⟨?_, ?_⟩
  · intro round hround
    obtain rfl := List.mem_singleton.mp hround
    show min 2 _ ≤ 2
    exact Nat.min_le_left _ _
  · intro round hround hshort
    exact absurd hshort (by decide)

end Catchb.Proofs.ListBounds
