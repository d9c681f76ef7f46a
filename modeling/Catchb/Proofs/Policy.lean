import Catchb.Lib.Run
import Catchb.Proofs.Control
import Catchb.Handlers

/-! The access control lists against the policies that were requested. -/

namespace Catchb.Proofs.Policy
open Lib Daemon Sample

/-- An address that nothing was asked or applied for is open. -/
def inForce (last : Option AcPolicy) : AcPolicy := last.getD .allow

/-- The list of a switch against the last request for each address. -/
structure Carries (sw : Switch) (req : Text → Option AcPolicy) : Prop where
  distinct : (sw.acList.map SwitchAc.key).Nodup
  agrees : ∀ ip, inForce (sw.lastApplied ip) = inForce (req ip)

/-- What the entries of a list say about the device while it carries the requests. -/
structure Settled (sw : Switch) (req : Text → Option AcPolicy) : Prop
    extends Carries sw req where
  entry : ∀ ac ∈ sw.acList, sw.lastApplied ac.ip.val = some ac.policy
  noEntry : ∀ ip, sw.getAC ip = none → inForce (sw.lastApplied ip) = .allow

/-- The requests with one more. -/
def asked (req : Text → Option AcPolicy) (ip : Text) (p : AcPolicy) : Text → Option AcPolicy :=
  fun j => if strcasecmp ip j then some p else req j

variable {sw : Switch} {req : Text → Option AcPolicy} {ip : Text} {p : AcPolicy}

theorem lastApplied_congr {i j : Text} (h : lower i = lower j) :
    sw.lastApplied i = sw.lastApplied j := by
  have hf : (fun e : Text × AcPolicy => strcasecmp e.1 i) = fun e => strcasecmp e.1 j := by
    funext e
    simp only [strcasecmp, h]
  simp only [Switch.lastApplied, latest, hf]

/-- A new entry for an address without one, and its script. -/
theorem Settled.add (h : Settled sw req) (ip : IP) (p : AcPolicy)
    (hg : sw.getAC ip.val = none) :
    Settled { sw with
      acList := sw.acList ++ [⟨0, Field.copy 24 ip.val, p⟩]
      applied := (ip.val, p) :: sw.applied } (asked req ip.val p) := by
  refine ⟨⟨?_, ?_⟩, ?_, ?_⟩
  · apply Keyed.nodup_append_singleton h.distinct
    rw [SwitchAc.key_copy]
    exact hg
  · intro j
    rw [Switch.lastApplied_cons, asked]
    split
    · rfl
    · exact h.agrees j
  · intro ac hac
    rw [Switch.lastApplied_cons]
    rcases List.mem_append.mp hac with hac | hac
    · have hne : strcasecmp ip.val ac.ip.val = false := by
        rw [strcasecmp_false_iff]
        intro he
        exact Keyed.get_eq_none.mp hg ac hac he.symm
      rw [hne]
      exact h.entry ac hac
    · have he := List.mem_singleton.mp hac
      subst he
      simp
  · intro j hj
    rw [Switch.getAC, Keyed.get_eq_none, List.forall_mem_append, List.forall_mem_singleton,
      SwitchAc.key_copy] at hj
    have hne : strcasecmp ip.val j = false := strcasecmp_false_iff.mpr hj.2
    rw [Switch.lastApplied_cons, hne]
    exact h.noEntry j (Keyed.get_eq_none.mpr hj.1)

/-- An entry goes, and its address is allowed. -/
theorem Settled.discard (h : Settled sw req) (ip : Text) :
    Settled { sw with
      acList := Keyed.discard SwitchAc.key (lower ip) sw.acList
      applied := (ip, .allow) :: sw.applied } (asked req ip .allow) := by
  refine ⟨⟨?_, ?_⟩, ?_, ?_⟩
  · exact Keyed.nodup_discard h.distinct
  · intro j
    rw [Switch.lastApplied_cons, asked]
    split
    · rfl
    · exact h.agrees j
  · intro ac hac
    have hgone := Keyed.get_eq_none.mp (Keyed.get_discard_same h.distinct) ac hac
    have hne : strcasecmp ip ac.ip.val = false := strcasecmp_false_iff.mpr (Ne.symm hgone)
    rw [Switch.lastApplied_cons, hne]
    exact h.entry ac (Keyed.mem_of_mem_discard hac)
  · intro j hj
    rw [Switch.lastApplied_cons]
    by_cases he : lower ip = lower j
    · simp [he, inForce]
    · have hne : strcasecmp ip j = false := strcasecmp_false_iff.mpr he
      rw [hne]
      apply h.noEntry j
      rw [← hj]
      exact (Keyed.get_discard_other (Ne.symm he)).symm

/-- A request for what is in force already. -/
theorem Settled.ask (h : Settled sw req) (hp : inForce (sw.lastApplied ip) = p) :
    Settled sw (asked req ip p) := by
  refine ⟨⟨h.distinct, ?_⟩, h.entry, h.noEntry⟩
  intro j
  rw [asked]
  split
  · rename_i he
    rw [← lastApplied_congr (strcasecmp_iff.mp he)]
    exact hp
  · exact h.agrees j

theorem Settled.entry_getAC (h : Settled sw req) {ac : SwitchAc} (hg : sw.getAC ip = some ac) :
    sw.lastApplied ip = some ac.policy := by
  have hk : ac.key = lower ip := Keyed.get_key hg
  rw [← lastApplied_congr hk]
  exact h.entry ac (Keyed.get_mem hg)

inductive Change
  | setPolicy (id : ID) (policy : AcPolicy) (run : ServerRun)
  | control (msg : SwitchControl) (run : AcRun)

/-- The run in which the script succeeds. -/
def succeeding (run : AcRun) : AcRun := { run with script := ⟨.ok, .ok, .ok⟩ }

namespace Change

def policy : Change → AcPolicy
  | .setPolicy _ policy _ => policy
  | .control msg _ => msg.policy

/-- The switch and the address that a change is for. -/
def target (d : Daemon) : Change → Option (Switch × IP)
  | .setPolicy id _ _ =>
    match d.getCCTV id with
    | none => none
    | some cctv => (d.getSwitch cctv.config.switchID).toOption.map (fun sw => (sw, cctv.config.ip))
  | .control msg _ => (d.getSwitch msg.switchID).toOption.map (fun sw => (sw, msg.targetIP))

/-- The switch after the change. -/
def result (sw : Switch) (ip : IP) : Change → Switch
  | .setPolicy _ policy run => (sw.addAC ip.val policy (succeeding run.ac)).2
  | .control msg run => sw.controlled ip.val msg.policy (succeeding run)

def apply (d : Daemon) : Change → Daemon
  | .setPolicy id policy run => (d.setPolicy id policy { run with ac := succeeding run.ac }).2
  | .control msg run => (d.onSetControl msg (succeeding run)).2

/-- A change that the list can take: a policy set by the server is for an address without an
entry, and a control message denies no address that is listed as allowed. -/
def Fits (sw : Switch) (ip : IP) : Change → Prop
  | .setPolicy _ policy run =>
    if run.ac.allocAC && run.ac.appendAC then sw.getAC ip.val = none
    else inForce (sw.lastApplied ip.val) = policy
  | .control msg run =>
    msg.policy = .deny →
      match sw.getAC ip.val with
      | some ac => ac.policy = .deny
      | none => (run.allocAC && run.appendAC) = true

end Change

theorem getSwitch_of_toOption {d : Daemon} {id : ID} (h : (d.getSwitch id).toOption = some sw) :
    d.getSwitch id = .ok sw := by
  cases hs : d.getSwitch id with
  | error e => simp [hs, Except.toOption] at h
  | ok x => simpa [hs, Except.toOption] using h

theorem apply_target {d : Daemon} {ip : IP} {c : Change} (h : c.target d = some (sw, ip)) :
    Keyed.get Switch.key sw.key d.switches = some sw ∧
      c.apply d = d.putSwitch (c.result sw ip) := by
  cases c with
  | setPolicy id policy run =>
    simp only [Change.target] at h
    cases hg : d.getCCTV id with
    | none => simp [hg] at h
    | some cctv =>
      simp only [hg, Option.map_eq_some_iff, Prod.mk.injEq] at h
      obtain ⟨x, hx, rfl, rfl⟩ := h
      have hsw := getSwitch_of_toOption hx
      refine ⟨getSwitch_key hsw, ?_⟩
      simp [Change.apply, setPolicy, hg, hsw, Change.result]
  | control msg run =>
    simp only [Change.target, Option.map_eq_some_iff, Prod.mk.injEq] at h
    obtain ⟨x, hx, rfl, rfl⟩ := h
    have hsw := getSwitch_of_toOption hx
    exact ⟨getSwitch_key hsw, onSetControl_ok msg hsw⟩

theorem apply_no_target {d : Daemon} {c : Change} (h : c.target d = none) : c.apply d = d := by
  cases c with
  | setPolicy id policy run =>
    simp only [Change.target] at h
    cases hg : d.getCCTV id with
    | none => simp [Change.apply, setPolicy, hg]
    | some cctv =>
      cases hs : d.getSwitch cctv.config.switchID with
      | error e => simp [Change.apply, setPolicy, hg, hs]
      | ok x => simp [hg, hs, Except.toOption] at h
  | control msg run =>
    cases hs : d.getSwitch msg.switchID with
    | error e => simp [Change.apply, onSetControl, hs]
    | ok x => simp [Change.target, hs, Except.toOption] at h

theorem result_key {ip : IP} {c : Change} : (c.result sw ip).key = sw.key := by
  cases c with
  | setPolicy id policy run => exact congrArg SwitchConfig.id Switch.config_addAC
  | control msg run => exact Switch.controlled_key

theorem scriptRet_succeeding (sw : Switch) (run : AcRun) :
    sw.scriptRet (succeeding run).script = .ok :=
  Switch.scriptRet_of_succeeds ⟨rfl, rfl, rfl⟩

theorem addAC_succeeding {run : AcRun} (hl : (run.allocAC && run.appendAC) = true) (ip : Text)
    (p : AcPolicy) :
    (sw.addAC ip p (succeeding run)).2 = { sw with
      acList := sw.acList ++ [⟨0, Field.copy 24 ip, p⟩]
      applied := (ip, p) :: sw.applied } := by
  have hl' : ((succeeding run).allocAC && (succeeding run).appendAC) = true := hl
  rw [Switch.addAC_listed hl', scriptRet_succeeding]
  rfl

theorem addAC_refused {run : AcRun} (hl : (run.allocAC && run.appendAC) = false) (ip : Text)
    (p : AcPolicy) : (sw.addAC ip p (succeeding run)).2 = sw := by
  have hl' : ((succeeding run).allocAC && (succeeding run).appendAC) = false := hl
  rw [Switch.addAC_unlisted hl']

theorem deleteAC_succeeding {run : AcRun} {ac : SwitchAc} (hg : sw.getAC ip = some ac) :
    (sw.deleteAC ip (succeeding run).script).2 = { sw with
      acList := Keyed.discard SwitchAc.key (lower ip) sw.acList
      applied := (ip, .allow) :: sw.applied } := by
  rw [Switch.deleteAC_ok hg (scriptRet_succeeding sw run)]

/-- A change that the list can take leaves the switch settled. -/
theorem settled_result {ip : IP} {c : Change} (h : Settled sw req) (hf : c.Fits sw ip) :
    Settled (c.result sw ip) (asked req ip.val c.policy) := by
  cases c with
  | setPolicy id policy run =>
    simp only [Change.Fits] at hf
    simp only [Change.result, Change.policy]
    cases hl : run.ac.allocAC && run.ac.appendAC with
    | true =>
      rw [addAC_succeeding hl]
      exact h.add ip policy (by simpa [hl] using hf)
    | false =>
      rw [addAC_refused hl]
      exact h.ask (by simpa [hl] using hf)
  | control msg run =>
    simp only [Change.Fits] at hf
    simp only [Change.result, Change.policy]
    cases hg : sw.getAC ip.val with
    | none =>
      cases hp : msg.policy with
      | allow =>
        rw [Switch.controlled_allow_unlisted hg]
        exact h.ask (h.noEntry _ hg)
      | deny =>
        rw [Switch.controlled_deny_unlisted hg, addAC_succeeding (by simpa [hg] using hf hp)]
        exact h.add ip .deny hg
    | some ac =>
      cases hp : msg.policy with
      | allow =>
        rw [Switch.controlled_allow_listed hg, deleteAC_succeeding hg]
        exact h.discard ip.val
      | deny =>
        have hac : ac.policy = .deny := by simpa [hg] using hf hp
        rw [Switch.controlled_deny_listed hg]
        apply h.ask
        rw [h.entry_getAC hg, hac]
        rfl

/-- A change that it cannot take shows at once. -/
theorem fits_of_carries {ip : IP} {c : Change} (h : Settled sw req)
    (hc : Carries (c.result sw ip) (asked req ip.val c.policy)) : c.Fits sw ip := by
  have hself : asked req ip.val c.policy ip.val = some c.policy := by simp [asked]
  cases c with
  | setPolicy id policy run =>
    simp only [Change.Fits]
    simp only [Change.result, Change.policy] at hc hself
    cases hl : run.ac.allocAC && run.ac.appendAC with
    | true =>
      rw [addAC_succeeding hl] at hc
      have hn := hc.distinct
      rw [List.map_append, List.map_singleton, SwitchAc.key_copy, List.nodup_append] at hn
      rw [if_pos rfl, Switch.getAC, Keyed.get_eq_none_iff_not_mem]
      intro hmem
      exact hn.2.2 _ hmem _ List.mem_cons_self rfl
    | false =>
      rw [addAC_refused hl] at hc
      have ha := hc.agrees ip.val
      rw [hself] at ha
      exact ha
  | control msg run =>
    simp only [Change.Fits]
    simp only [Change.result, Change.policy] at hc hself
    intro hp
    rw [hp] at hc hself
    cases hg : sw.getAC ip.val with
    | none =>
      cases hl : run.allocAC && run.appendAC with
      | true => rfl
      | false =>
        rw [Switch.controlled_deny_unlisted hg, addAC_refused hl] at hc
        have ha := hc.agrees ip.val
        rw [hself, h.noEntry _ hg] at ha
        cases ha
    | some ac =>
      rw [Switch.controlled_deny_listed hg] at hc
      have ha := hc.agrees ip.val
      rw [hself, h.entry_getAC hg] at ha
      exact ha

/-- The daemon with the changes that were asked of each switch, newest first. -/
structure Observed where
  daemon : Daemon
  requested : List ((ID × Text) × AcPolicy)

namespace Observed

def lastRequested (o : Observed) (switchID : ID) (ip : Text) : Option AcPolicy :=
  latest (fun a b => decide (a.1 = b.1) && strcasecmp a.2 b.2) o.requested (switchID, ip)

def step (o : Observed) (c : Change) : Observed where
  daemon := c.apply o.daemon
  requested :=
    match c.target o.daemon with
    | none => o.requested
    | some (sw, ip) => ((sw.key, ip.val), c.policy) :: o.requested

end Observed

/-- Every switch carries the requests made of it. -/
def Carried (o : Observed) : Prop :=
  ∀ id sw, Keyed.get Switch.key id o.daemon.switches = some sw → Carries sw (o.lastRequested id)

def AllSettled (o : Observed) : Prop :=
  ∀ id sw, Keyed.get Switch.key id o.daemon.switches = some sw → Settled sw (o.lastRequested id)

def Taken (o : Observed) (c : Change) : Prop :=
  ∀ sw ip, c.target o.daemon = some (sw, ip) → c.Fits sw ip

theorem step_no_target {o : Observed} {c : Change} (h : c.target o.daemon = none) :
    o.step c = o := by
  simp [Observed.step, h, apply_no_target h]

theorem switches_step {o : Observed} {c : Change} {ip : IP}
    (h : c.target o.daemon = some (sw, ip)) (id : ID) :
    Keyed.get Switch.key id (o.step c).daemon.switches =
      if id = sw.key then some (c.result sw ip)
      else Keyed.get Switch.key id o.daemon.switches := by
  obtain ⟨hsw, he⟩ := apply_target h
  have hf : ∀ x : Switch, x.key = (c.result sw ip).key → (c.result sw ip).key =
      (c.result sw ip).key := fun _ _ => rfl
  rw [Observed.step, he, putSwitch, Keyed.get_update hf, result_key, hsw]
  rfl

theorem lastRequested_step {o : Observed} {c : Change} {ip : IP}
    (h : c.target o.daemon = some (sw, ip)) (id : ID) :
    (o.step c).lastRequested id =
      if id = sw.key then asked (o.lastRequested id) ip.val c.policy
      else o.lastRequested id := by
  funext j
  simp only [Observed.lastRequested, Observed.step, h, latest_cons]
  by_cases hid : id = sw.key
  · subst hid
    simp [asked, Observed.lastRequested]
  · simp [hid, Ne.symm hid, Observed.lastRequested]

theorem allSettled_step {o : Observed} {c : Change} (h : AllSettled o) (ht : Taken o c) :
    AllSettled (o.step c) := by
  cases hc : c.target o.daemon with
  | none =>
    rw [step_no_target hc]
    exact h
  | some t =>
    obtain ⟨sw, ip⟩ := t
    intro id x hx
    rw [switches_step hc] at hx
    rw [lastRequested_step hc]
    by_cases hid : id = sw.key
    · rw [if_pos hid] at hx ⊢
      cases hx
      exact settled_result (hid ▸ h sw.key sw (apply_target hc).1) (ht sw ip hc)
    · rw [if_neg hid] at hx ⊢
      exact h id x hx

theorem taken_of_carried {o : Observed} {c : Change} (h : AllSettled o)
    (hc : Carried (o.step c)) : Taken o c := by
  intro sw ip ht
  have hx := switches_step ht sw.key
  rw [if_pos rfl] at hx
  have hcar := hc sw.key _ hx
  rw [lastRequested_step ht, if_pos rfl] at hcar
  exact fits_of_carries (h sw.key sw (apply_target ht).1) hcar

theorem carried_iff_taken {o : Observed} (h : AllSettled o) (cs : List Change) :
    (∀ t ∈ states Observed.step o cs, Carried t) ↔ Admitted Observed.step Taken o cs :=
  safe_iff_admitted (fun _ h id sw hs => (h id sw hs).toCarries)
    (fun _ _ h ht => allSettled_step h ht) (fun _ _ h hc => taken_of_carried h hc) h cs

theorem allSettled_fresh {d : Daemon}
    (hd : ∀ sw ∈ d.switches, sw.acList = [] ∧ sw.applied = []) : AllSettled ⟨d, []⟩ := by
  intro id sw hs
  obtain ⟨hl, ha⟩ := hd sw (Keyed.get_mem hs)
  have hla : ∀ ip, sw.lastApplied ip = none := by
    intro ip
    simp [Switch.lastApplied, ha]
  refine ⟨⟨by simp [hl], ?_⟩, by simp [hl], ?_⟩
  · intro ip
    rw [hla]
    rfl
  · intro ip _
    rw [hla]
    rfl

/-- From fresh switches, the lists and the devices follow the requests throughout exactly the
runs in which every change is one that the list can take. -/
theorem switches_carry_requests_iff {d : Daemon}
    (hd : ∀ sw ∈ d.switches, sw.acList = [] ∧ sw.applied = []) (cs : List Change) :
    (∀ o ∈ states Observed.step ⟨d, []⟩ cs, Carried o) ↔
      Admitted Observed.step Taken ⟨d, []⟩ cs :=
  carried_iff_taken (allSettled_fresh hd) cs

/-- A camera and its switch, before any request. -/
def quiet : Daemon := { Daemon.start [hall] DB.createCCTVTable with cctvs := [⟨porch, false⟩] }

theorem quiet_fresh : ∀ sw ∈ quiet.switches, sw.acList = [] ∧ sw.applied = [] := by
  intro sw hsw
  have he := List.mem_singleton.mp hsw
  subst he
  exact ⟨rfl, rfl⟩

def denialThenRelease : List Change :=
  [.control ⟨porch.switchID, porch.ip, .deny⟩ .smooth,
    .control ⟨porch.switchID, porch.ip, .allow⟩ .smooth]

theorem denial_then_release_carried :
    Carried (denialThenRelease.foldl Observed.step ⟨quiet, []⟩) := by
  have hmem : denialThenRelease.foldl Observed.step ⟨quiet, []⟩ ∈
      states Observed.step ⟨quiet, []⟩ denialThenRelease :=
    foldl_mem_states _ (List.cons_ne_nil _ _)
  refine (switches_carry_requests_iff quiet_fresh denialThenRelease).mpr ⟨?_, ?_, trivial⟩ _ hmem
  · intro sw ip ht
    cases ht
    exact fun _ => rfl
  · intro sw ip ht
    cases ht
    exact nofun

/-- An address that the server allowed keeps its entry, and the detector's DENY is dropped. -/
theorem denial_after_server_allow_dropped :
    ¬ ∀ o ∈ states Observed.step ⟨quiet, []⟩
      [.setPolicy porch.id .allow .smooth,
        .control ⟨porch.switchID, porch.ip, .deny⟩ .smooth], Carried o := by
  rw [carried_iff_taken (allSettled_fresh quiet_fresh)]
  rintro ⟨-, h, -⟩
  have hp : AcPolicy.allow = .deny := h _ _ rfl rfl
  cases hp

end Catchb.Proofs.Policy
