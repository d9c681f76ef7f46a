import Catchb.CgiPost

/-! What the web commands do before the server has accepted the session ID of their request. -/

namespace Catchb.Proofs.Authenticated
open Lib Cgi Program Machine

variable {ρ : Type} {fService : Cmd → Server.Operation ρ} {found : Nat → Found} {m : Machine ρ}
  {pSSID : Text} {isOpen : Prop} {α β : Type} {site : Site} {pReqRoot : Json}

/-- The server has accepted the session ID. -/
def Accepted (pSSID : Text) (e : Effect) : Prop := e = .accepted pSSID

/-- Something is done, by the server or on the machine. -/
def Acts (e : Effect) : Prop := ∀ pSSID, e ≠ .accepted pSSID

/-- A question by which the handler itself does something, or with another session ID, or with
none. -/
def needs (pSSID : Text) : Ask → Prop
  | .call pKey c => pKey ≠ pSSID ∨ c.stub = .ssidCreate
  | .popen _ => True
  | .fopen _ _ => True
  | .setTime _ => True
  | .measure => True
  | .malloc _ => False

/-- A call with the session ID is answered, and nothing is wrong. -/
def grants (pSSID : Text) : (q : Ask) → q.Answer → Prop
  | .call pKey c, resp => pKey = pSSID ∧ c.stub ≠ .ssidCreate ∧ (resp : Reading c.Reply).xRet = retOK
  | _, _ => False

/-- The first that the program does is a call with the session ID. -/
def Careful (pSSID : Text) (p : Cgi α) : Prop :=
  Guarded (needs pSSID) (grants pSSID) False p

theorem sentCmd_code {c : Cmd} (h : c ≠ .ssidCreate) : (sentCmd c).code ≠ Cmd.ssidCreate.code := by
  revert h
  cases c <;> decide

/-- The server does nothing that is asked for with another session ID than one it accepts. -/
theorem serverEffects_cases {s : Server ρ} {pReq : ServerReq} {run : CallRun}
    (hcmd : pReq.req.xCmd ≠ Cmd.ssidCreate.code) :
    ((s.check pReq run).1 ≠ retOK ∧ serverEffects s pReq run = []) ∨
    ∃ es, serverEffects s pReq run = .accepted pReq.pSSID :: es := by
  unfold serverEffects
  by_cases hcheck : (s.check pReq run).1 = retOK
  · rw [if_pos hcheck, if_pos hcmd]
    exact .inr ⟨_, rfl⟩
  · exact .inl ⟨hcheck, if_neg hcheck⟩

/-- What it accepts is the ID of a session that has not run out. -/
theorem listed_of_accepted {s : Server ρ} {pReq : ServerReq} {run : CallRun} {pKey : Text}
    (h : .accepted pKey ∈ serverEffects s pReq run) :
    pKey = pReq.pSSID ∧ Ssid.Listed s.idList pKey s.ulSSIDTimeout run.check.ulTime := by
  unfold serverEffects at h
  split_ifs at h with hcheck hcmd
  · have hkey : pKey = pReq.pSSID := by simpa using h
    refine ⟨hkey, hkey ▸ Ssid.isValid_iff_listed.mp ?_⟩
    simpa [Server.check, hcmd] using hcheck
  · simp at h
  · cases h

/-- An answer without an error is one to a request that passed the check. -/
theorem check_of_service {s : Server ρ} {pReq : ServerReq} {run : CallRun} {pResp : Resp}
    (h : (s.service fService pReq run pResp).1.xRet = retOK) : (s.check pReq run).1 = retOK := by
  by_contra hcheck
  cases hc : s.check pReq run with
  | mk xRet s' =>
    rw [hc] at hcheck
    refine hcheck ?_
    simp [Server.service, Server.serviceCall, hc, hcheck, finish, Resp.fill] at h

theorem callServer_effects (f : Found) (s : Server ρ) (c : ClientCall) :
    (callServer fService f s pSSID c).1 =
      if f.sent then serverEffects s (request pSSID c f.pReqBuff) f.run else [] := by
  unfold callServer
  cases f.sent <;> rfl

theorem check_of_callServer {f : Found} {s : Server ρ} {c : ClientCall}
    (h : (callServer fService f s pSSID c).2.1.xRet = retOK) :
    f.sent = true ∧ (s.check (request pSSID c f.pReqBuff) f.run).1 = retOK := by
  unfold callServer at h
  split at h
  · cases h
  · rename_i hsent
    have hret : (if f.answered then
        (s.service fService (request pSSID c f.pReqBuff) f.run f.pResp).1.xRet
        else retClientTimeout) = retOK := h
    split at hret
    · exact ⟨by simpa using hsent, check_of_service hret⟩
    · cases hret

theorem call_effects (fService : Cmd → Server.Operation ρ) (found : Nat → Found) (m : Machine ρ)
    {c : ClientCall} (hlen : pSSID.length ≤ 16) (hc : c.stub ≠ .ssidCreate) :
    (world fService found m (.call pSSID c)).1 = [] ∧
      (callServer fService (found m.asked) m.server pSSID c).2.1.xRet ≠ retOK ∨
    ∃ es, (world fService found m (.call pSSID c)).1 = .accepted pSSID :: es := by
  have heffects : (world fService found m (.call pSSID c)).1 =
      (callServer fService (found m.asked) m.server pSSID c).1 := rfl
  have hkey : (request pSSID c (found m.asked).pReqBuff).pSSID = pSSID :=
    List.take_of_length_le hlen
  rw [heffects, callServer_effects]
  cases hsent : (found m.asked).sent with
  | false =>
    refine .inl ⟨rfl, fun h => ?_⟩
    obtain ⟨htrue, -⟩ := check_of_callServer h
    cases hsent.symm.trans htrue
  | true =>
    have hcmd : (request pSSID c (found m.asked).pReqBuff).req.xCmd ≠ Cmd.ssidCreate.code :=
      sentCmd_code hc
    rcases serverEffects_cases hcmd with
      ⟨hcheck, hnone⟩ | ⟨es, hes⟩
    · exact .inl ⟨hnone, fun h => hcheck (check_of_callServer h).2⟩
    · rw [hkey] at hes
      exact .inr ⟨es, hes⟩

/-- Calls are the only way in, and with the session ID they are always open. -/
theorem lawful (hlen : pSSID.length ≤ 16) :
    Lawful (needs pSSID) (grants pSSID) (Accepted pSSID) Acts (world fService found) where
  opened := by
    intro m q hq
    cases q with
    | call pKey c =>
      obtain ⟨hkey, hcmd⟩ := not_or.mp hq
      obtain rfl := not_not.mp hkey
      rcases call_effects fService found m hlen hcmd with
        ⟨hnone, -⟩ | ⟨es, hes⟩
      · rw [hnone]
        exact opened_nil
      · rw [hes]
        have hopens : Accepted pKey (.accepted pKey) := rfl
        have hacts : ¬Acts (.accepted pKey) := fun h => h pKey rfl
        exact Opened.cons hopens hacts es
    | malloc ulCount => exact opened_nil
    | popen pCommand => exact absurd trivial hq
    | fopen pFileName text => exact absurd trivial hq
    | setTime ulTime => exact absurd trivial hq
    | measure => exact absurd trivial hq
  granted := by
    intro m q hq
    cases q with
    | call pKey c =>
      obtain ⟨rfl, hcmd, hret⟩ := hq
      rcases call_effects fService found m hlen hcmd with
        ⟨-, hret'⟩ | ⟨es, hes⟩
      · exact absurd hret hret'
      · exact ⟨_, hes ▸ List.mem_cons_self, rfl⟩
    | _ => exact hq.elim

theorem guarded_open (p : Cgi α) : Guarded (needs pSSID) (grants pSSID) True p := by
  induction p with
  | done a => trivial
  | fail e => trivial
  | ask q k ih => exact ⟨fun _ => trivial, fun a => (ih a).mono .inl⟩

@[simp] theorem careful_check (xRet : RetCode) : Careful pSSID (check xRet) := by
  unfold check
  split <;> trivial

@[simp] theorem careful_check_bind {xRet : RetCode} {f : Unit → Cgi β} :
    Careful pSSID (check xRet >>= f) ↔ (xRet = retOK → Careful pSSID (f ())) := by
  unfold check
  split
  · rename_i h
    exact ⟨fun hf _ => hf, fun hf => hf h⟩
  · rename_i h
    exact ⟨fun _ hret => absurd hret h, fun _ => trivial⟩

@[simp] theorem careful_malloc_bind {ulCount : UInt32} {xRet : RetCode} {f : Unit → Cgi β} :
    Careful pSSID (malloc ulCount xRet >>= f) ↔ Careful pSSID (f ()) := by
  constructor
  · intro h
    exact (h.2 true).mono (Or.rec id id)
  · intro h
    refine ⟨False.elim, fun pList => ?_⟩
    cases pList with
    | false => trivial
    | true => exact Guarded.mono h .inl

@[simp] theorem careful_ite {c : Prop} [Decidable c] {p q : Cgi α} :
    Careful pSSID (if c then p else q) ↔ (c → Careful pSSID p) ∧ (¬c → Careful pSSID q) := by
  split <;> simp_all

/-- Behind a call with the session ID the handler may do what it likes. -/
@[simp] theorem careful_call_bind {c : ClientCall} {f : c.Reply → Cgi β} :
    Careful pSSID (call pSSID c >>= f) ↔ c.stub ≠ .ssidCreate := by
  constructor
  · exact fun h hc => h.1 (.inr hc)
  · intro hc
    refine ⟨fun h => h.elim (fun hne => hne rfl) hc, fun resp => ?_⟩
    by_cases hret : (resp : Reading c.Reply).xRet = retOK
    · exact (guarded_open _).mono (fun _ => .inr ⟨rfl, hc, hret⟩)
    · simp only [hret, ↓reduceIte]
      trivial

@[simp] theorem careful_verified_bind {f : Text → Cgi β} :
    Careful (pReqRoot.getSSID false []).value (verified pReqRoot >>= f) := by
  simp [verified, bind_assoc, ClientCall.stub]

theorem alarmSet_careful : Careful (pReqRoot.getSSID false []).value (alarmSet pReqRoot) := by
  unfold alarmSet
  cases pReqRoot.getObjectItem "alarm".toList with
  | none => simp
  | some pAlarmItem =>
    simp only [careful_check_bind]
    exact fun _ _ => careful_call_bind.mpr (by simp [ClientCall.stub])

theorem alarmSetConfig_careful :
    Careful (pReqRoot.getSSID false []).value (alarmSetConfig pReqRoot) := by
  simp only [alarmSetConfig, careful_check_bind]
  exact fun _ => careful_call_bind.mpr (by simp [ClientCall.stub])

theorem sysSetInfoConfig_careful :
    Careful (pReqRoot.getSSID false []).value (sysSetInfoConfig pReqRoot) := by
  simp only [sysSetInfoConfig, careful_check_bind]
  exact fun _ => careful_call_bind.mpr (by simp [ClientCall.stub])

theorem cctv_careful : ∀ pCmd ∈ pCCTVPostCmds site,
    Careful (pReqRoot.getSSID false []).value (pCmd.fService pReqRoot) := by
  simp [pCCTVPostCmds, cctvAdd, cctvDel, cctvGet, cctvSet, cctvGetIDList, cctvSetPolicy, cctvReset,
    ClientCall.stub]

theorem switch_careful : ∀ pCmd ∈ pSwitchPostCmds,
    Careful (pReqRoot.getSSID false []).value (pCmd.fService pReqRoot) := by
  simp [pSwitchPostCmds, switchAdd, switchDel, switchGet, switchSet, switchGetIDList,
    switchGetModelList, ClientCall.stub]

theorem log_careful : ∀ pCmd ∈ pLogPostCmds site,
    Careful (pReqRoot.getSSID false []).value (pCmd.fService pReqRoot) := by
  simp [pLogPostCmds, logGetInfo, logGetCount2, logGetList, logDel, ClientCall.stub]

theorem alarm_careful : ∀ pCmd ∈ pAlarmPostCmds,
    Careful (pReqRoot.getSSID false []).value (pCmd.fService pReqRoot) := by
  simp [pAlarmPostCmds, alarmAdd, alarmDel, alarmGet, alarmSet_careful, alarmGetList, alarmGetInfo,
    alarmGetConfig, alarmSetConfig_careful, ClientCall.stub]

theorem status_careful : ∀ pCmd ∈ pStatusPostCmds site,
    Careful (pReqRoot.getSSID false []).value (pCmd.fService pReqRoot) := by
  simp [pStatusPostCmds, statusGetInfo, statusGetList, statusDel, ClientCall.stub]

theorem syslog_careful : ∀ pCmd ∈ pSyslogPostCmds,
    Careful (pReqRoot.getSSID false []).value (pCmd.fService pReqRoot) := by
  intro pCmd h
  simp only [pSyslogPostCmds, List.mem_cons, List.not_mem_nil, or_false] at h
  rcases h with rfl | rfl | rfl | rfl | rfl <;> exact careful_verified_bind

theorem net_careful : ∀ pCmd ∈ pNetPostCmds,
    Careful (pReqRoot.getSSID false []).value (pCmd.fService pReqRoot) := by
  intro pCmd h
  simp only [pNetPostCmds, List.mem_cons, List.not_mem_nil, or_false] at h
  rcases h with rfl | rfl
  · exact careful_verified_bind
  · exact careful_verified_bind

/-- All but the first entry, which creates the session. -/
theorem ssid_careful : ∀ pCmd ∈ pSSIDPostCmds, pCmd.pName ≠ "get".toList →
    Careful (pReqRoot.getSSID false []).value (pCmd.fService pReqRoot) := by
  simp [pSSIDPostCmds, ssidDel, ssidVerify, ClientCall.stub]

/-- All but the last two. -/
theorem sys_careful : ∀ pCmd ∈ pSysPostCmds site,
    pCmd.pName ≠ "reboot".toList → pCmd.pName ≠ "shutdown".toList →
    Careful (pReqRoot.getSSID false []).value (pCmd.fService pReqRoot) := by
  intro pCmd h hreboot hshutdown
  simp only [pSysPostCmds, List.mem_cons, List.not_mem_nil, or_false] at h
  rcases h with rfl | rfl | rfl | rfl | rfl | rfl | rfl | rfl
  · exact careful_verified_bind
  · simp [sysGetInfoConfig, ClientCall.stub]
  · exact sysSetInfoConfig_careful
  · exact careful_verified_bind
  · simp [sysSetPasswd, ClientCall.stub]
  · simp [sysSetTime, ClientCall.stub]
  · exact absurd rfl hreboot
  · exact absurd rfl hshutdown

/-- The entry of the tables that a request names. -/
def Named (site : Site) (pName : Text) (pReq : PostRequest) (c : Command) (pReqRoot : Json)
    (pCmd : PostCommand) : Prop :=
  called pName = some c ∧ pReq.pReqRoot = some pReqRoot ∧ named (c.pCmds site) pReqRoot = some pCmd

/-- The creation of a session. -/
def Creates (site : Site) (pName : Text) (pReq : PostRequest) : Prop :=
  ∃ pReqRoot pCmd, Named site pName pReq .ssid pReqRoot pCmd ∧ pCmd.pName = "get".toList

/-- The session ID of a request. -/
def session (pReq : PostRequest) : Text :=
  match pReq.pReqRoot with
  | none => []
  | some pReqRoot => (pReqRoot.getSSID false []).value

/-- Nothing is done before the server has accepted the request's session ID, unless a session is
to be created. -/
def AcceptedFirst (fService : Cmd → Server.Operation ρ) (found : Nat → Found) (m : Machine ρ)
    (site : Site) (pName : Text) (pReq : PostRequest) : Prop :=
  ¬Creates site pName pReq →
    Opened (Accepted (session pReq)) Acts ((main site pName pReq).events (world fService found) m)

/-- The request is one to stop the machine, which has a session ID, or a file's, and nothing is
in the way. -/
def Unchecked (site : Site) (pName : Text) (pReq : PostRequest) (now : Found) : Prop :=
  (∃ pReqRoot pCmd, Named site pName pReq .sys pReqRoot pCmd ∧
    (pCmd.pName = "reboot".toList ∨ pCmd.pName = "shutdown".toList) ∧
    (pReqRoot.getSSID false []).xRet = retOK ∧ now.popen ≠ none) ∨
  (called pName = some .upload ∧ pReq.pData ≠ none ∧ pReq.nLength ≠ 0 ∧ now.fopen ≠ none)

section
variable {pName : Text} {pReq : PostRequest} {c : Command} {pCmd : PostCommand}

theorem named_eq (h : (pReqRoot.getString "cmd".toList 33 false []).xRet = retOK)
    (pCmds : List PostCommand) : named pCmds pReqRoot = pCmds.find? (fun pCmd =>
      strcasecmp (pReqRoot.getString "cmd".toList 33 false []).value pCmd.pName) := if_pos h

theorem mem_of_named {pCmds : List PostCommand} (h : named pCmds pReqRoot = some pCmd) :
    pCmd ∈ pCmds := by
  by_cases hret : (pReqRoot.getString "cmd".toList 33 false []).xRet = retOK
  · rw [named_eq hret] at h
    exact List.mem_of_find?_eq_some h
  · cases (if_neg hret).symm.trans h

/-- A body is given to the handler of the entry that it names, or nothing is done. -/
theorem postService_cases (pCmds : List PostCommand) (pRoot : Option Json) :
    (∃ pReqRoot pCmd, pRoot = some pReqRoot ∧ named pCmds pReqRoot = some pCmd ∧
      postService pCmds pRoot = pCmd.fService pReqRoot) ∨
    (∀ pReqRoot, pRoot = some pReqRoot → named pCmds pReqRoot = none) ∧
      (postService pCmds pRoot).idle := by
  cases pRoot with
  | none => exact .inr ⟨nofun, trivial⟩
  | some pReqRoot =>
    by_cases hret : (pReqRoot.getString "cmd".toList 33 false []).xRet = retOK
    · cases hnamed : named pCmds pReqRoot with
      | none =>
        refine .inr ⟨fun root hroot => Option.some.inj hroot ▸ hnamed, ?_⟩
        rw [named_eq hret] at hnamed
        simp only [postService, check, hret, ↓reduceIte, hnamed]
        trivial
      | some pCmd =>
        refine .inl ⟨pReqRoot, pCmd, rfl, hnamed, ?_⟩
        rw [named_eq hret] at hnamed
        simp only [postService, check, hret, ↓reduceIte, hnamed]
        rfl
    · refine .inr ⟨fun root hroot => Option.some.inj hroot ▸ if_neg hret, ?_⟩
      simp only [postService, check, hret, ↓reduceIte]
      trivial

/-- The program runs a handler of the tables, or takes a file, or does nothing. -/
theorem main_cases (site : Site) (pName : Text) (pReq : PostRequest) :
    (∃ c pReqRoot pCmd, Named site pName pReq c pReqRoot pCmd ∧
      main site pName pReq = pCmd.fService pReqRoot) ∨
    (called pName = some .upload ∧
      main site pName pReq = upload site.pTmpPath site.xTime pReq.pData pReq.nLength) ∨
    (called pName ≠ some .upload ∧ (∀ c pReqRoot pCmd, ¬Named site pName pReq c pReqRoot pCmd) ∧
      (main site pName pReq).idle) := by
  cases hcalled : called pName with
  | none =>
    refine .inr (.inr ⟨nofun, fun c pReqRoot pCmd h => ?_, ?_⟩)
    · cases hcalled.symm.trans h.1
    · rw [main, hcalled]
      trivial
  | some c =>
    have hmain : main site pName pReq = c.fService site pReq := by rw [main, hcalled]
    by_cases hupload : c = .upload
    · subst hupload
      exact .inr (.inl ⟨rfl, hmain⟩)
    · have hservice : c.fService site pReq = postService (c.pCmds site) pReq.pReqRoot := by
        cases c with
        | upload => exact absurd rfl hupload
        | _ => rfl
      rcases postService_cases (c.pCmds site) pReq.pReqRoot with
        ⟨pReqRoot, pCmd, hroot, hnamed, hpost⟩ | ⟨hnone, hidle⟩
      · exact .inl ⟨c, pReqRoot, pCmd, ⟨hcalled, hroot, hnamed⟩, by rw [hmain, hservice, hpost]⟩
      · refine .inr (.inr ⟨fun h => hupload (Option.some.inj h), ?_, hmain ▸ hservice ▸ hidle⟩)
        rintro c' pReqRoot pCmd ⟨hcalled', hroot, hnamed⟩
        obtain rfl := Option.some.inj (hcalled.symm.trans hcalled')
        cases (hnone pReqRoot hroot).symm.trans hnamed

/-- Every entry but those of the session's creation and of the machine's end. -/
theorem careful_named (h : Named site pName pReq c pReqRoot pCmd) (hnew : ¬Creates site pName pReq)
    (hstop : c = .sys → pCmd.pName ≠ "reboot".toList ∧ pCmd.pName ≠ "shutdown".toList) :
    Careful (pReqRoot.getSSID false []).value (pCmd.fService pReqRoot) := by
  have hmem := mem_of_named h.2.2
  cases c with
  | cctv => exact cctv_careful pCmd hmem
  | switch => exact switch_careful pCmd hmem
  | log => exact log_careful pCmd hmem
  | alarm => exact alarm_careful pCmd hmem
  | ssid => exact ssid_careful pCmd hmem (fun hget => hnew ⟨pReqRoot, pCmd, h, hget⟩)
  | status => exact status_careful pCmd hmem
  | sys => exact sys_careful pCmd hmem (hstop rfl).1 (hstop rfl).2
  | syslog => exact syslog_careful pCmd hmem
  | upload => cases hmem
  | net => exact net_careful pCmd hmem

/-- The two entries that need no more than a session ID. -/
theorem exec_named {pCommand : Text} (h : pCmd ∈ pSysPostCmds site) (hname : pCmd.pName = pCommand)
    (hstop : pCommand = "reboot".toList ∨ pCommand = "shutdown".toList) :
    pCmd.fService pReqRoot = sysExec pCommand pReqRoot := by
  simp only [pSysPostCmds, List.mem_cons, List.not_mem_nil, or_false] at h
  rcases hstop with rfl | rfl
  · rcases h with rfl | rfl | rfl | rfl | rfl | rfl | rfl | rfl
    case inr.inr.inr.inr.inr.inr.inl => rfl
    all_goals cases hname
  · rcases h with rfl | rfl | rfl | rfl | rfl | rfl | rfl | rfl
    case inr.inr.inr.inr.inr.inr.inr => rfl
    all_goals cases hname

theorem idle_check (xRet : RetCode) : (check xRet).idle := by
  unfold check
  split <;> trivial

theorem events_sysExec (pCommand : Text) :
    (sysExec pCommand pReqRoot).events (world fService found) m =
      if (pReqRoot.getSSID false []).xRet = retOK ∧ (found m.asked).popen.isSome
      then [.ran pCommand] else [] := by
  by_cases hret : (pReqRoot.getSSID false []).xRet = retOK
  · simp only [sysExec, check, hret, ↓reduceIte, true_and]
    refine events_ask_idle ?_ _ _
    rintro (_ | output)
    · exact idle_check retError
    · exact idle_check retOK
  · simp only [sysExec, check, hret, ↓reduceIte, false_and]
    rfl

theorem events_upload (pTmpPath : Text) (xTime : Int) (pData : Option Text) (nLength : Int) :
    (∃ pFileName text, (upload pTmpPath xTime pData nLength).events (world fService found) m =
      [.wrote pFileName text]) ∧ (pData ≠ none ∧ nLength ≠ 0 ∧ (found m.asked).fopen ≠ none) ∨
    (upload pTmpPath xTime pData nLength).events (world fService found) m = [] ∧
      ¬(pData ≠ none ∧ nLength ≠ 0 ∧ (found m.asked).fopen ≠ none) := by
  cases pData with
  | none => exact .inr ⟨rfl, fun h => h.1 rfl⟩
  | some pData =>
    by_cases hlength : nLength = 0
    · refine .inr ⟨?_, fun h => h.2.1 hlength⟩
      rw [hlength]
      rfl
    · have hevents : (upload pTmpPath xTime (some pData) nLength).events (world fService found) m =
          if (found m.asked).fopen.isSome then [.wrote
            ((pTmpPath ++ '/' :: ("tmp_".toList ++ (toString xTime).toList)).take 1022)
            (pData.take nLength.toNat)] else [] := by
        simp only [upload, hlength, ↓reduceIte]
        refine events_ask_idle ?_ _ _
        rintro (_ | nWriteLen)
        · exact idle_check retInvalidArguments
        · show (if (nWriteLen : Int) ≠ nLength then check retInvalidArguments else check retOK).idle
          split <;> exact idle_check _
      rw [hevents]
      cases hopen : (found m.asked).fopen with
      | none => exact .inr ⟨rfl, fun h => h.2.2 rfl⟩
      | some nWriteLen => exact .inl ⟨⟨_, _, rfl⟩, nofun, hlength, nofun⟩

theorem Named.main_eq (h : Named site pName pReq c pReqRoot pCmd) :
    main site pName pReq = pCmd.fService pReqRoot := by
  rcases main_cases site pName pReq with
    ⟨c', root, pCmd', ⟨hcalled, hroot, hnamed⟩, hmain⟩ | ⟨hcalled, -⟩ | ⟨-, hnone, -⟩
  · obtain rfl := Option.some.inj (hcalled.symm.trans h.1)
    obtain rfl := Option.some.inj (hroot.symm.trans h.2.1)
    obtain rfl := Option.some.inj (hnamed.symm.trans h.2.2)
    exact hmain
  · obtain rfl := Option.some.inj (hcalled.symm.trans h.1)
    cases mem_of_named h.2.2
  · exact absurd h (hnone c pReqRoot pCmd)

theorem main_upload (h : called pName = some .upload) : main site pName pReq =
    upload site.pTmpPath site.xTime pReq.pData pReq.nLength := by
  rw [main, h]
  rfl

/-- What is named is done with the session ID, or it is one of the two that need none. -/
theorem opened_named (h : Named site pName pReq c pReqRoot pCmd) (hnew : ¬Creates site pName pReq)
    (hstop : c = .sys → pCmd.pName ≠ "reboot".toList ∧ pCmd.pName ≠ "shutdown".toList) :
    Opened (Accepted (session pReq)) Acts
      ((main site pName pReq).events (world fService found) m) := by
  have hsession : session pReq = (pReqRoot.getSSID false []).value := by rw [session, h.2.1]
  rw [h.main_eq, hsession]
  have hlen : (pReqRoot.getSSID false []).value.length ≤ 16 := Json.length_getString (Nat.zero_le _)
  exact (careful_named h hnew hstop).run (lawful hlen) m

theorem not_creates (hcalled : called pName = some c) (hc : c ≠ .ssid) :
    ¬Creates site pName pReq := by
  rintro ⟨pReqRoot, pCmd, hssid, hget⟩
  exact hc (Option.some.inj (hcalled.symm.trans hssid.1))

theorem stop_unchecked (h : Named site pName pReq .sys pReqRoot pCmd)
    (hstop : pCmd.pName = "reboot".toList ∨ pCmd.pName = "shutdown".toList) :
    (main site pName pReq).events (world fService found) m =
      if (pReqRoot.getSSID false []).xRet = retOK ∧ (found m.asked).popen.isSome
      then [.ran pCmd.pName] else [] := by
  rw [h.main_eq, exec_named (mem_of_named h.2.2) rfl hstop, events_sysExec]

end

/-- Every command of the tables does what it does only after the server has accepted the session ID
of its request, but for the two that stop the machine, and for a file's upload. -/
theorem accepted_first_iff (fService : Cmd → Server.Operation ρ) (found : Nat → Found)
    (m : Machine ρ) (site : Site) (pName : Text) (pReq : PostRequest) :
    AcceptedFirst fService found m site pName pReq ↔
      ¬Unchecked site pName pReq (found m.asked) := by
  constructor
  · rintro h (⟨pReqRoot, pCmd, hnamed, hstop, hret, hpopen⟩ | ⟨hcalled, hfile⟩)
    · have hopened := h (not_creates hnamed.1 nofun)
      rw [stop_unchecked hnamed hstop, if_pos ⟨hret, Option.isSome_iff_ne_none.mpr hpopen⟩] at hopened
      exact hopened.head nofun
    · have hopened := h (not_creates hcalled nofun)
      rw [main_upload hcalled] at hopened
      rcases events_upload site.pTmpPath site.xTime pReq.pData pReq.nLength with
        ⟨⟨pFileName, text, hwrote⟩, -⟩ | ⟨-, hnot⟩
      · rw [hwrote] at hopened
        exact hopened.head nofun
      · exact hnot hfile
  · intro hchecked hnew
    rcases main_cases site pName pReq with
      ⟨c, pReqRoot, pCmd, hnamed, -⟩ | ⟨hcalled, hmain⟩ | ⟨-, -, hidle⟩
    · by_cases hstop : c = .sys ∧ (pCmd.pName = "reboot".toList ∨ pCmd.pName = "shutdown".toList)
      · obtain ⟨rfl, hstop⟩ := hstop
        rw [stop_unchecked hnamed hstop, if_neg]
        · exact opened_nil
        · rintro ⟨hret, hpopen⟩
          exact hchecked (.inl ⟨pReqRoot, pCmd, hnamed, hstop, hret,
            Option.isSome_iff_ne_none.mp hpopen⟩)
      · exact opened_named hnamed hnew (fun hc => not_or.mp (fun hor => hstop ⟨hc, hor⟩))
    · rw [hmain]
      rcases events_upload site.pTmpPath site.xTime pReq.pData pReq.nLength with
        ⟨-, hfile⟩ | ⟨hnil, -⟩
      · exact absurd (.inr ⟨hcalled, hfile⟩) hchecked
      · rw [hnil]
        exact opened_nil
    · rw [events_idle hidle]
      exact opened_nil

/-- A request of somebody to whom the server has given no session. -/
def stranger : PostRequest where
  pReqRoot := some (.object [("cmd".toList, .string "reboot".toList), ("ssid".toList, .string "0".toList)])
  pData := none
  nLength := 0

/-- A server without any session. -/
def nobody : Machine Unit := ⟨⟨300, none, [], ()⟩, 0⟩

/-- Requests arrive and are answered, and commands are run. -/
def usual : Found where
  sent := true
  answered := true
  run := ⟨⟨8192, 0, 0, true, [], [], [], [], [], [], 0⟩, ⟨⟨true, true⟩, 100, 100⟩,
    ⟨⟨true, true⟩, 100, 100⟩, ⟨⟨true, true⟩, 100, some 8, true, true⟩⟩
  pReqBuff := ⟨⟨0, 0, 0⟩, [], [], [], 0, 0⟩
  pResp := ⟨0, 0, 0, 0⟩
  reply := fun _ => default
  popen := some []
  fopen := some 0
  setTime := retOK
  measure := retOK
  malloc := true

def tmpSite : Site := ⟨fun _ => ⟨retError, 0⟩, .allow, "/tmp".toList, 0⟩

/-- The machine is rebooted. -/
theorem stranger_reboots :
    (main tmpSite "sys".toList stranger).events
      (world (fun _ _ run s => (run.service, s)) (fun _ => usual)) nobody = [.ran "reboot".toList] ∧
    ¬AcceptedFirst (fun _ _ run s => (run.service, s)) (fun _ => usual) nobody tmpSite "sys".toList
      stranger := by
  have hevents : (main tmpSite "sys".toList stranger).events
      (world (fun _ _ run s => (run.service, s)) (fun _ => usual)) nobody =
      [.ran "reboot".toList] := rfl
  refine ⟨hevents, fun h => ?_⟩
  have hopened := h (not_creates (c := .sys) rfl nofun)
  rw [hevents] at hopened
  exact hopened.head nofun

end Catchb.Proofs.Authenticated
