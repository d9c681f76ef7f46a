import Catchb.Proofs.Effects
import Catchb.Proofs.Policy

/-! The denial of a camera whose address or switch changes. -/

namespace Catchb.Proofs.Orphans
open Lib Daemon Sample

/-- What happens after the change, the scripts succeeding. -/
inductive Event
  | message (msg : CctvMsg) (run : CatchbRun)
  | control (run : AcRun)
  | setPolicy (id : ID) (policy : AcPolicy) (run : ServerRun)
  | reset (id : ID) (hash : Hash) (run : ServerRun)

def allocates (run : AcRun) : Bool := run.allocAC && run.appendAC

def smoothed (run : ServerRun) : ServerRun := { run with ac := Policy.succeeding run.ac }

def step (d : Daemon) : Event → Daemon
  | .message msg run => (d.handle run msg).2
  | .control run => d.controlNext (Policy.succeeding run)
  | .setPolicy id policy run => (d.setPolicy id policy (smoothed run)).2
  | .reset id hash run => (d.reset id hash (smoothed run)).2

/-- What is asked of a switch for an address, and whether there is memory for an entry: by the
detector's messages, or by the server, which adds an entry in any case. -/
inductive Request
  | control (policy : AcPolicy) (allocates : Bool)
  | add (policy : AcPolicy) (allocates : Bool)

/-- What a request leaves of the address's entries, the oldest first. -/
def Request.apply (acs : List AcPolicy) : Request → List AcPolicy
  | .control .allow _ => acs.tail
  | .control .deny allocates => if acs = [] ∧ allocates = true then [.deny] else acs
  | .add policy allocates => if allocates = true then acs ++ [policy] else acs

/-- The switch, the address and the request of a turn. -/
def asked (d : Daemon) : Event → Option (ID × Text × Request)
  | .message _ _ => none
  | .control run =>
    match d.controlQ with
    | [] => none
    | msg :: _ => (d.getSwitch msg.switchID).toOption.map (fun sw =>
        (sw.key, msg.targetIP.val, .control msg.policy (allocates run)))
  | .setPolicy id policy run =>
    match d.getCCTV id with
    | none => none
    | some cctv => (d.getSwitch cctv.config.switchID).toOption.map (fun sw =>
        (sw.key, cctv.config.ip.val, .add policy (allocates run.ac)))
  | .reset id hash run =>
    match d.getCCTV id with
    | none => none
    | some cctv =>
      if cctv.config.hash.val.length ≠ 0 && !strcasecmp cctv.config.hash.val hash.val then none
      else if cctv.config.stat = .abnormal then
        (d.getSwitch cctv.config.switchID).toOption.map (fun sw =>
          (sw.key, (Field.copy 24 cctv.config.id.val).val, .add .allow (allocates run.ac)))
      else none

/-- The request that a turn makes of this switch for this address. -/
def request (key : ID) (ip : Text) (d : Daemon) (e : Event) : Option Request :=
  match asked d e with
  | none => none
  | some (k, j, r) => if k = key ∧ lower j = lower ip then some r else none

def requests (key : ID) (ip : Text) : Daemon → List Event → List Request
  | _, [] => []
  | d, e :: es => (request key ip d e).toList ++ requests key ip (step d e) es

/-- The policies of the address's entries. -/
def policies (sw : Switch) (ip : Text) : List AcPolicy :=
  (Keyed.all SwitchAc.key (lower ip) sw.acList).map SwitchAc.policy

def entries (key : ID) (ip : Text) (d : Daemon) : List AcPolicy :=
  match Keyed.get Switch.key key d.switches with
  | none => []
  | some sw => policies sw ip

variable {d : Daemon} {sw sw' : Switch} {key id : ID} {ip j : Text} {policy : AcPolicy} {run : AcRun}

theorem getAC_eq_none_iff : sw.getAC ip = none ↔ policies sw ip = [] := by
  rw [Switch.getAC, Keyed.get_eq_none_iff_all, policies, List.map_eq_nil_iff]

theorem policies_congr (h : lower j = lower ip) : policies sw j = policies sw ip := by
  rw [policies, h, policies]

/-- The server's request, for an address of any length. -/
theorem policies_addAC (sw : Switch) (j : Text) (policy : AcPolicy) (run : AcRun) (ip : Text) :
    policies (sw.addAC j policy (Policy.succeeding run)).2 ip =
    if lower (Field.copy 24 j).val = lower ip then
      (Request.add policy (allocates run)).apply (policies sw ip)
    else policies sw ip := by
  cases hl : allocates run with
  | true =>
    rw [Policy.addAC_succeeding hl, policies, Keyed.all_append_singleton]
    by_cases hj : lower (Field.copy 24 j).val = lower ip
    · simp [SwitchAc.key, hj, policies, Request.apply]
    · simp [SwitchAc.key, hj, policies]
  | false =>
    rw [Policy.addAC_refused hl]
    simp [Request.apply]

theorem policies_deleteAC {ac : SwitchAc} (hg : sw.getAC j = some ac) :
    policies (sw.deleteAC j (Policy.succeeding run).script).2 ip =
      if lower j = lower ip then (policies sw ip).tail else policies sw ip := by
  rw [Policy.deleteAC_succeeding hg]
  simp only [policies]
  split
  · rename_i hj
    rw [hj, Keyed.all_discard_same, List.map_tail]
  · rename_i hj
    rw [Keyed.all_discard_other (Ne.symm hj)]

/-- The detector's message. -/
theorem policies_controlled {targetIP : IP} :
    policies (sw.controlled targetIP.val policy (Policy.succeeding run)) ip =
      if lower targetIP.val = lower ip then
        (Request.control policy (allocates run)).apply (policies sw ip)
      else policies sw ip := by
  cases hg : sw.getAC targetIP.val with
  | none =>
    have hempty := getAC_eq_none_iff.mp hg
    cases policy with
    | deny =>
      rw [Switch.controlled_deny_unlisted hg, policies_addAC, Field.copy_val]
      split
      · rename_i hj
        rw [policies_congr hj] at hempty
        simp [Request.apply, hempty]
      · rfl
    | allow =>
      rw [Switch.controlled_allow_unlisted hg]
      split
      · rename_i hj
        rw [policies_congr hj] at hempty
        simp [Request.apply, hempty]
      · rfl
  | some ac =>
    cases policy with
    | deny =>
      rw [Switch.controlled_deny_listed hg]
      split
      · rename_i hj
        have hsome : policies sw ip ≠ [] := by
          rw [← policies_congr hj, Ne, ← getAC_eq_none_iff, hg]
          exact Option.some_ne_none ac
        simp [Request.apply, hsome]
      · rfl
    | allow => rw [Switch.controlled_allow_listed hg, policies_deleteAC hg, Request.apply]

/-- A write to one switch is seen under its ID alone. -/
theorem entries_putSwitch {switchID : ID} (hsw : d.getSwitch switchID = .ok sw)
    (hkey : sw'.key = sw.key) : entries key ip (d.putSwitch sw') =
      if sw.key = key then policies sw' ip else entries key ip d := by
  rw [entries, get_putSwitch hkey hsw]
  by_cases hk : key = sw.key
  · simp [hk]
  · rw [if_neg hk, if_neg (Ne.symm hk), entries]

theorem entries_of_getSwitch {switchID : ID} (hsw : d.getSwitch switchID = .ok sw) :
    entries sw.key ip d = policies sw ip := by
  rw [entries, getSwitch_key hsw]

theorem entries_congr {d' : Daemon} (h : d'.switches = d.switches) :
    entries key ip d' = entries key ip d := by
  rw [entries, h, entries]

/-- The entries after an operation on a switch for one of its addresses. -/
theorem entries_asked {d' : Daemon} {switchID : ID} {r : Request}
    (hsw : d.getSwitch switchID = .ok sw) (hkey : sw'.key = sw.key)
    (hd : d'.switches = (d.putSwitch sw').switches)
    (hpolicies : policies sw' ip =
      if lower j = lower ip then r.apply (policies sw ip) else policies sw ip) :
    entries key ip d' =
      match if sw.key = key ∧ lower j = lower ip then some r else none with
      | none => entries key ip d
      | some r => r.apply (entries key ip d) := by
  rw [entries_congr hd, entries_putSwitch hsw hkey, hpolicies]
  by_cases hk : sw.key = key
  · subst hk
    rw [entries_of_getSwitch hsw]
    by_cases hj : lower j = lower ip <;> simp [hj]
  · simp [hk]

theorem push_switches {msg : CctvMsg} {pushed : Bool} :
    (d.push msg pushed).2.switches = d.switches := by
  unfold push
  split <;> rfl

theorem entries_control (run : AcRun) : entries key ip (step d (.control run)) =
    match request key ip d (.control run) with
    | none => entries key ip d
    | some r => r.apply (entries key ip d) := by
  cases hq : d.controlQ with
  | nil => simp [step, controlNext, request, asked, hq]
  | cons msg rest =>
    have hrest : Daemon.getSwitch { d with controlQ := rest } msg.switchID =
        d.getSwitch msg.switchID := getSwitch_congr rfl _
    cases hsw : d.getSwitch msg.switchID with
    | error ret =>
      rw [hsw] at hrest
      simp only [step, controlNext, hq, request, asked, hsw, onSetControl_error msg hrest]
      rfl
    | ok sw =>
      rw [hsw] at hrest
      simp only [step, controlNext, hq, request, asked, hsw, onSetControl_ok msg hrest]
      exact entries_asked hsw Switch.controlled_key rfl policies_controlled

theorem entries_setPolicy (policy : AcPolicy) (run : ServerRun) :
    entries key ip (step d (.setPolicy id policy run)) =
      match request key ip d (.setPolicy id policy run) with
      | none => entries key ip d
      | some r => r.apply (entries key ip d) := by
  cases hg : d.getCCTV id with
  | none => simp [step, setPolicy, request, asked, hg]
  | some cctv =>
    cases hsw : d.getSwitch cctv.config.switchID with
    | error ret => simp [step, setPolicy, request, asked, hg, hsw, Except.toOption]
    | ok sw =>
      simp only [step, setPolicy, request, asked, hg, hsw]
      have hadd := policies_addAC sw cctv.config.ip.val policy run.ac ip
      rw [Field.copy_val] at hadd
      exact entries_asked hsw (congrArg SwitchConfig.id Switch.config_addAC) rfl hadd

/-- The reset of an abnormal camera adds an entry for its ID. -/
theorem reset_switches {cctv : Cctv} {hash : Hash} (run : ServerRun)
    (hg : d.getCCTV id = some cctv)
    (hhash : (cctv.config.hash.val.length ≠ 0 && !strcasecmp cctv.config.hash.val hash.val) = false)
    (hstat : cctv.config.stat = .abnormal) (hsw : d.getSwitch cctv.config.switchID = .ok sw) :
    (d.reset id hash run).2.switches =
      (d.putSwitch (sw.addAC cctv.config.id.val .allow run.ac).2).switches := by
  simp only [reset, hg, hhash, Bool.false_eq_true, ↓reduceIte, hstat, hsw]
  split
  · rename_i sw' hret
    rw [resetCCTV, push_switches, hret]
  · rename_i ret sw' hno hret
    rw [hret]

theorem entries_reset (hash : Hash) (run : ServerRun) :
    entries key ip (step d (.reset id hash run)) =
      match request key ip d (.reset id hash run) with
      | none => entries key ip d
      | some r => r.apply (entries key ip d) := by
  cases hg : d.getCCTV id with
  | none => simp [step, reset, request, asked, hg]
  | some cctv =>
    cases hhash : (cctv.config.hash.val.length ≠ 0 && !strcasecmp cctv.config.hash.val hash.val) with
    | true => simp only [step, reset, request, asked, hg, hhash, ↓reduceIte]
    | false =>
      by_cases hstat : cctv.config.stat = .abnormal
      · cases hsw : d.getSwitch cctv.config.switchID with
        | error ret =>
          simp only [step, reset, request, asked, hg, hhash, Bool.false_eq_true, ↓reduceIte, hstat,
            hsw]
          exact entries_congr push_switches
        | ok sw =>
          have hadd := policies_addAC sw cctv.config.id.val .allow run.ac ip
          have hreset := reset_switches (smoothed run) hg hhash hstat hsw
          simp only [request, asked, hg, hhash, Bool.false_eq_true, ↓reduceIte, hstat, hsw]
          exact entries_asked hsw (congrArg SwitchConfig.id Switch.config_addAC) hreset hadd
      · simp only [step, reset, request, asked, hg, hhash, Bool.false_eq_true, ↓reduceIte, hstat]
        exact entries_congr push_switches

/-- One turn does to the address's entries what it is asked to do to them, and nothing else. -/
theorem entries_step (e : Event) : entries key ip (step d e) =
    match request key ip d e with
    | none => entries key ip d
    | some r => r.apply (entries key ip d) := by
  cases e with
  | message msg run => exact entries_congr (switches_handle d run msg)
  | control run => exact entries_control run
  | setPolicy id policy run => exact entries_setPolicy policy run
  | reset id hash run => exact entries_reset hash run

theorem entries_run (es : List Event) : entries key ip (es.foldl step d) =
    (requests key ip d es).foldl Request.apply (entries key ip d) := by
  induction es generalizing d with
  | nil => rfl
  | cons e es ih =>
    rw [List.foldl_cons, ih, requests, List.foldl_append, entries_step]
    cases request key ip d e <;> rfl

/-- A set-properties message that changes the IP or the switch of a camera that is denied. -/
structure Edit where
  before : Daemon
  cctv : Cctv
  sw : Switch
  config : CctvConfig
  flags : UInt32
  run : CatchbRun
  found : before.getCCTV cctv.config.id = some cctv
  onSwitch : before.getSwitch cctv.config.switchID = .ok sw
  denied : .deny ∈ policies sw cctv.config.ip.val
  moves : (propertyConfig config flags cctv.config).ip ≠ cctv.config.ip ∨
    (propertyConfig config flags cctv.config).switchID ≠ cctv.config.switchID

namespace Edit

def handled (edit : Edit) : Daemon :=
  (edit.before.handle edit.run (.setProperties edit.cctv.config.id edit.config edit.flags)).2

def after (edit : Edit) (es : List Event) : Daemon := es.foldl step edit.handled

/-- The camera is NORMAL and no control message waits. -/
def Quiet (edit : Edit) (es : List Event) : Prop :=
  (edit.after es).controlQ = [] ∧
    ∃ c, (edit.after es).getCCTV edit.cctv.config.id = some c ∧ c.config.stat = .normal

/-- The former switch has no denial of the former address any more. -/
def NoOrphan (edit : Edit) (es : List Event) : Prop :=
  edit.Quiet es → .deny ∉ entries edit.sw.key edit.cctv.config.ip.val (edit.after es)

/-- The requests of the former switch for the former address take every denial away. -/
def Freed (edit : Edit) (es : List Event) : Prop :=
  .deny ∉ (requests edit.sw.key edit.cctv.config.ip.val edit.handled es).foldl Request.apply
    (policies edit.sw edit.cctv.config.ip.val)

end Edit

/-- A change of the camera's properties leaves no orphan exactly when its denial is released
under the address and the switch that it was made under. -/
theorem no_orphan_iff (edit : Edit) (es : List Event) :
    edit.NoOrphan es ↔ (edit.Quiet es → edit.Freed es) := by
  have hstart : entries edit.sw.key edit.cctv.config.ip.val edit.handled =
      policies edit.sw edit.cctv.config.ip.val := by
    rw [Edit.handled, entries_congr (switches_handle _ _ _), entries_of_getSwitch edit.onSwitch]
  rw [Edit.NoOrphan, Edit.after, entries_run, hstart]
  rfl

/-- Nothing but the detector's ALLOW message for it takes an address's denial away. -/
theorem denied_until_allowed {rs : List Request} {acs : List AcPolicy} (h : .deny ∈ acs)
    (hrs : ∀ memory, .control .allow memory ∉ rs) : .deny ∈ rs.foldl Request.apply acs := by
  induction rs generalizing acs with
  | nil => exact h
  | cons r rs ih =>
    have hrest : ∀ memory, .control .allow memory ∉ rs :=
      fun memory hmem => hrs memory (List.mem_cons_of_mem _ hmem)
    apply ih _ hrest
    cases r with
    | control policy memory =>
      cases policy with
      | allow => exact absurd List.mem_cons_self (hrs memory)
      | deny =>
        rw [Request.apply]
        split
        · exact List.mem_singleton.mpr rfl
        · exact h
    | add policy memory =>
      rw [Request.apply]
      split
      · exact List.mem_append_left _ h
      · exact h

/-- The porch camera is denied under its address and gets another one. -/
def deniedHall : Switch := { hall with
  acList := [⟨0, porch.ip, .deny⟩]
  applied := [(porch.ip.val, .deny)] }

def deniedPorch : Cctv := ⟨{ porch with stat := .abnormal }, false⟩

def newAddress : CctvConfig := { porch with ip := ⟨"10.0.0.8".toList, by decide⟩ }

def readdressed : Edit where
  before := { Daemon.start [deniedHall] DB.createCCTVTable with cctvs := [deniedPorch] }
  cctv := deniedPorch
  sw := deniedHall
  config := newAddress
  flags := DB.cctvFieldIP
  run := .smooth
  found := rfl
  onSwitch := rfl
  denied := by decide
  moves := by decide

/-- It is found to be the right camera, and the new address is released. -/
def recovers : List Event :=
  [.message (.setStat porch.id .normal 2 porchHash) .smooth, .control .smooth]

theorem former_address_stays_denied : ¬readdressed.NoOrphan recovers := by
  intro h
  have hquiet : readdressed.Quiet recovers := ⟨rfl, _, rfl, rfl⟩
  exact h hquiet (by decide)

end Catchb.Proofs.Orphans
