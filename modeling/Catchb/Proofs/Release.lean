import Catchb.Proofs.Control
import Catchb.Proofs.Effects
import Catchb.Handlers

/-! A reset request, followed through the three threads that act on it. -/

namespace Catchb.Proofs.Release
open Lib Daemon Sample

def NoDeny (acs : List SwitchAc) (ip : Text) : Prop :=
  ∀ ac ∈ acs, ac.key = lower ip → ac.policy ≠ .deny

def Unblocked (sw : Switch) (ip : Text) : Prop :=
  NoDeny sw.acList ip ∧ sw.lastApplied ip ≠ some .deny

/-- The switch of a camera, where the daemon knows it, does not block the camera. -/
def Released (d : Daemon) (config : CctvConfig) : Prop :=
  ∀ sw, d.getSwitch config.switchID = .ok sw → Unblocked sw config.ip.val

/-- The reset request, then the catchb thread's turn, then the detector's. -/
def settled (d : Daemon) (id : ID) (hash : Hash) (srv : ServerRun) (run : CatchbRun)
    (ac : AcRun) : Daemon :=
  ((d.reset id hash srv).2.handleNext run).controlNext ac

/-- What a switch has to look like before the reset of a camera. -/
def Releasable (sw : Switch) (config : CctvConfig) (ac : AcRun) : Prop :=
  match config.stat with
  | .unregistered | .unused => Unblocked sw config.ip.val
  | .normal =>
    if (sw.getAC config.ip.val).isSome then
      NoDeny (Keyed.discard SwitchAc.key (lower config.ip.val) sw.acList) config.ip.val
    else sw.lastApplied config.ip.val ≠ some .deny
  | .abnormal =>
    ((sw.getAC config.ip.val).isSome = true ∨
        strcasecmp (config.id.val.take 24) config.ip.val = true ∨
        (ac.allocAC && ac.appendAC) = false) ∧
      NoDeny sw.acList config.ip.val ∧
      (strcasecmp config.id.val config.ip.val = true ∨
        sw.lastApplied config.ip.val ≠ some .deny)

/-- The switch with the entry that the reset of an abnormal camera adds. -/
def marked (config : CctvConfig) (sw : Switch) : Switch :=
  if config.stat = .abnormal then { sw with
    acList := sw.acList ++ [⟨0, Field.copy 24 config.id.val, .allow⟩]
    applied := (config.id.val, .allow) :: sw.applied }
  else sw

theorem marked_key (config : CctvConfig) (sw : Switch) : (marked config sw).key = sw.key := by
  unfold marked
  split <;> rfl

/-- What the control message of the reset, if there is one, does to the switch. -/
def answered (config : CctvConfig) (ac : AcRun) (sw : Switch) : Switch :=
  match controlOnStat config.stat .unregistered with
  | some policy => sw.controlled config.ip.val policy ac
  | none => sw

variable {d : Daemon} {id : ID} {hash : Hash} {srv : ServerRun} {run : CatchbRun} {ac : AcRun}
  {cctv : Cctv}

theorem push_ok {msg : CctvMsg} {pushed : Bool} (h : (d.push msg pushed).1 = .ok) :
    (d.push msg pushed).2 = { d with msgQ := d.msgQ ++ [msg] } := by
  unfold push at h ⊢
  split at h
  · rename_i hp
    simp [hp]
  · cases h

/-- An accepted reset marks the switch and queues one status message. -/
theorem reset_ok (hg : d.getCCTV id = some cctv) (hs : srv.ac.script.Succeeds)
    (hok : (d.reset id hash srv).1 = .ok) :
    ∃ d' : Daemon, (d.reset id hash srv).2 =
        { d' with msgQ := d.msgQ ++ [.setStat id .unregistered srv.now (Field.empty 48)] } ∧
      d'.cctvs = d.cctvs ∧ d'.controlQ = d.controlQ ∧
      d'.getSwitch cctv.config.switchID =
        (d.getSwitch cctv.config.switchID).map (marked cctv.config) := by
  simp only [reset, hg] at hok ⊢
  split at hok
  · cases hok
  · rename_i hh
    rw [if_neg hh]
    by_cases ha : cctv.config.stat = .abnormal
    · simp only [ha, ↓reduceIte] at hok ⊢
      cases hsw : d.getSwitch cctv.config.switchID with
      | error e =>
        simp only [hsw] at hok
        exact ⟨d, push_ok hok, rfl, rfl, hsw⟩
      | ok sw =>
        simp only [hsw] at hok
        cases hl : srv.ac.allocAC && srv.ac.appendAC with
        | false => simp [Switch.addAC_unlisted hl] at hok
        | true =>
          simp only [Switch.addAC_listed hl, Switch.scriptRet_of_succeeds hs, ↓reduceIte] at hok ⊢
          have hm : marked cctv.config sw = { sw with
              acList := sw.acList ++ [⟨0, Field.copy 24 cctv.config.id.val, .allow⟩]
              applied := (cctv.config.id.val, .allow) :: sw.applied } := by
            simp [marked, ha]
          refine ⟨d.putSwitch (marked cctv.config sw), ?_, rfl, rfl, ?_⟩
          · rw [hm]
            exact push_ok hok
          · exact getSwitch_putSwitch (marked_key _ _) hsw
    · rw [if_neg ha] at hok ⊢
      refine ⟨d, push_ok hok, rfl, rfl, ?_⟩
      have hm : ∀ sw, marked cctv.config sw = sw := by
        intro sw
        simp [marked, ha]
      cases d.getSwitch cctv.config.switchID with
      | error e => rfl
      | ok sw => exact congrArg Except.ok (hm sw).symm

/-- What the switch of the camera looks like after both turns. -/
theorem settled_getSwitch (hm : d.msgQ = []) (hq : d.controlQ = [])
    (hg : d.getCCTV id = some cctv) (hs : srv.ac.script.Succeeds)
    (hp : run.postControl = true) (hok : (d.reset id hash srv).1 = .ok) :
    (settled d id hash srv run ac).getSwitch cctv.config.switchID =
      (d.getSwitch cctv.config.switchID).map
        (fun sw => answered cctv.config ac (marked cctv.config sw)) := by
  obtain ⟨d', hd', hc, hcq, hsw⟩ := reset_ok hg hs hok
  have hg' : ∀ q, Daemon.getCCTV { d' with msgQ := q } id = some cctv := by
    intro q
    simpa [getCCTV, hc] using hg
  let msg : CctvMsg := .setStat id .unregistered srv.now (Field.empty 48)
  obtain ⟨e, he⟩ : ∃ e, e = (Daemon.handle { d' with msgQ := [] } run msg).2 := ⟨_, rfl⟩
  have hnext : (d.reset id hash srv).2.handleNext run = e := by
    rw [hd', hm, he]
    rfl
  have hes : e.getSwitch cctv.config.switchID = d'.getSwitch cctv.config.switchID := by
    apply getSwitch_congr
    rw [he, switches_handle]
  have heq : e.controlQ = request cctv.config .unregistered := by
    have hr : requests { d' with msgQ := [] } msg = request cctv.config .unregistered := by
      simp only [requests, msg, hg']
    rw [he, controlQ_handle _ _ hp, hr]
    simp [hcq, hq]
  simp only [settled, hnext, controlNext, heq, request, answered]
  cases hctl : controlOnStat cctv.config.stat .unregistered with
  | none =>
    simp only [Option.map_none, Option.toList_none, hes, hsw]
  | some p =>
    simp only [Option.map_some, Option.toList_some]
    have hes' : Daemon.getSwitch { e with controlQ := [] } cctv.config.switchID =
        (d.getSwitch cctv.config.switchID).map (marked cctv.config) :=
      (getSwitch_congr (d := e) rfl _).trans (hes.trans hsw)
    cases hds : d.getSwitch cctv.config.switchID with
    | error ret =>
      rw [hds] at hes'
      rw [onSetControl_error ⟨cctv.config.switchID, cctv.config.ip, p⟩ hes', hes']
      rfl
    | ok sw =>
      rw [hds] at hes'
      rw [onSetControl_ok ⟨cctv.config.switchID, cctv.config.ip, p⟩ hes',
        getSwitch_putSwitch Switch.controlled_key hes']
      rfl

variable {sw : Switch} {ip : Text} {acs : List SwitchAc}

theorem noDeny_of_getAC_none (h : sw.getAC ip = none) : NoDeny sw.acList ip := by
  intro x hx hk
  exact absurd hk (Keyed.get_eq_none.mp h x hx)

theorem not_unblocked_of_deny {x : SwitchAc} (hx : x ∈ sw.acList) (hk : x.key = lower ip)
    (hp : x.policy = .deny) : ¬ Unblocked sw ip :=
  fun h => h.1 x hx hk hp

/-- An entry that allows is no matter here. -/
theorem noDeny_append_allow (name : IP) :
    NoDeny (acs ++ [⟨0, name, .allow⟩]) ip ↔ NoDeny acs ip := by
  constructor
  · intro h x hx
    exact h x (List.mem_append_left _ hx)
  · intro h x hx
    rcases List.mem_append.mp hx with hx | hx
    · exact h x hx
    · have he := List.mem_singleton.mp hx
      subst he
      exact fun _ => nofun

/-- From NORMAL the detector is asked to allow. -/
theorem answered_normal {config : CctvConfig} (hs : ac.script.Succeeds)
    (h : config.stat = .normal) :
    Unblocked (answered config ac (marked config sw)) config.ip.val ↔
      Releasable sw config ac := by
  have hm : marked config sw = sw := by simp [marked, h]
  have ha : answered config ac sw = sw.controlled config.ip.val .allow ac := by
    simp [answered, h, controlOnStat]
  rw [hm, ha]
  cases hg : sw.getAC config.ip.val with
  | none =>
    rw [Switch.controlled_allow_unlisted hg]
    have hn := noDeny_of_getAC_none hg
    simp [Unblocked, Releasable, h, hg, hn]
  | some x =>
    rw [Switch.controlled_allow_listed hg, Switch.deleteAC_ok hg (Switch.scriptRet_of_succeeds hs)]
    simp [Unblocked, Releasable, h, hg, Switch.lastApplied]

/-- From ABNORMAL it is asked to deny, and does so where it finds no entry. -/
theorem answered_abnormal {config : CctvConfig} (h : config.stat = .abnormal) :
    Unblocked (answered config ac (marked config sw)) config.ip.val ↔
      Releasable sw config ac := by
  have ha : answered config ac (marked config sw) =
      (marked config sw).controlled config.ip.val .deny ac := by
    simp [answered, h, controlOnStat]
  have hu : Unblocked (marked config sw) config.ip.val ↔
      NoDeny sw.acList config.ip.val ∧ (strcasecmp config.id.val config.ip.val = true ∨
        sw.lastApplied config.ip.val ≠ some .deny) := by
    simp only [Unblocked, marked, h, ↓reduceIte, noDeny_append_allow, Switch.lastApplied_cons]
    cases strcasecmp config.id.val config.ip.val <;> simp
  have hget : (marked config sw).getAC config.ip.val = none ↔
      sw.getAC config.ip.val = none ∧
        strcasecmp (config.id.val.take 24) config.ip.val = false := by
    simp only [Switch.getAC, marked, h, ↓reduceIte, Keyed.get_eq_none, List.forall_mem_append,
      List.forall_mem_singleton, strcasecmp_false_iff]
    rfl
  rw [ha]
  simp only [Releasable, h]
  rw [← hu]
  cases hg : (marked config sw).getAC config.ip.val with
  | some x =>
    rw [Switch.controlled_deny_listed hg]
    have hn : (sw.getAC config.ip.val).isSome = true ∨
        strcasecmp (config.id.val.take 24) config.ip.val = true := by
      by_contra hno
      simp only [not_or, Bool.not_eq_true, Option.isSome_eq_false_iff, Option.isNone_iff_eq_none]
        at hno
      rw [hget.mpr hno] at hg
      cases hg
    rcases hn with hn | hn <;> simp [hn]
  | none =>
    obtain ⟨hn, hid⟩ := hget.mp hg
    rw [Switch.controlled_deny_unlisted hg]
    cases hl : ac.allocAC && ac.appendAC with
    | false =>
      rw [Switch.addAC_unlisted hl]
      simp
    | true =>
      rw [Switch.addAC_listed hl]
      apply iff_of_false
      · apply not_unblocked_of_deny (List.mem_append_right _ List.mem_cons_self)
        · exact SwitchAc.key_copy 0 config.ip .deny
        · rfl
      · simp [hn, hid]

/-- An accepted reset, with every script succeeding, releases the camera in exactly these
states. -/
theorem reset_releases_iff (hm : d.msgQ = []) (hq : d.controlQ = [])
    (hg : d.getCCTV id = some cctv) (hsrv : srv.ac.script.Succeeds)
    (hac : ac.script.Succeeds) (hp : run.postControl = true)
    (hok : (d.reset id hash srv).1 = .ok) :
    Released (settled d id hash srv run ac) cctv.config ↔
      ∀ sw, d.getSwitch cctv.config.switchID = .ok sw → Releasable sw cctv.config ac := by
  have hone : ∀ sw, Unblocked (answered cctv.config ac (marked cctv.config sw))
      cctv.config.ip.val ↔ Releasable sw cctv.config ac := by
    intro sw
    cases h : cctv.config.stat with
    | normal => exact answered_normal hac h
    | abnormal => exact answered_abnormal h
    | unregistered => simp [answered, marked, Releasable, h, controlOnStat]
    | unused => simp [answered, marked, Releasable, h, controlOnStat]
  simp only [Released, settled_getSwitch hm hq hg hsrv hp hok]
  cases hsw : d.getSwitch cctv.config.switchID with
  | error e => simp [Except.map]
  | ok sw =>
    simp only [Except.map, Except.ok.injEq, forall_eq']
    exact hone sw

def handled (msgs : List CctvMsg) : Daemon :=
  msgs.foldl (fun d msg => (d.handle .smooth msg).2) (Daemon.start [hall] DB.createCCTVTable)

/-- The camera has matched its hash once and then failed to, and the detector has denied it. -/
def denied : Daemon :=
  (handled [.create porch, .register porch.id porchHash, .setStat porch.id .normal 7 porchHash,
    .setStat porch.id .abnormal 8 (Field.empty 48)]).controlNext .smooth

theorem reset_releases_new_camera :
    Released (settled (handled [.create porch]) porch.id (Field.empty 48) .smooth .smooth .smooth)
      porch := by
  have hg : (handled [.create porch]).getCCTV porch.id = some ⟨porch, false⟩ := rfl
  refine (reset_releases_iff rfl rfl hg ⟨rfl, rfl, rfl⟩ ⟨rfl, rfl, rfl⟩ rfl rfl).mpr ?_
  intro sw hsw
  cases hsw
  exact ⟨nofun, nofun⟩

/-- The denied camera's reset is accepted, and its switch goes on blocking it. -/
theorem reset_keeps_denial : denied.msgQ = [] ∧ denied.controlQ = [] ∧
    (denied.reset porch.id porchHash .smooth).1 = .ok ∧
    ∃ cctv, denied.getCCTV porch.id = some cctv ∧
      ¬ Released (settled denied porch.id porchHash .smooth .smooth .smooth) cctv.config := by
  refine ⟨rfl, rfl, rfl, _, rfl, ?_⟩
  intro h
  exact absurd ((h _ rfl).1 _ List.mem_cons_self) (by decide)

end Catchb.Proofs.Release
