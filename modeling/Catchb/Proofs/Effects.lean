import Catchb.Handlers

/-! What each message changes in the camera list. -/

namespace Catchb.Daemon
open Lib

variable {d : Daemon} {id j : ID} {run : CatchbRun} {config : CctvConfig}

section Frame
variable {f : CctvConfig → CctvConfig}

@[simp] theorem setCCTV_switches : (d.setCCTV id f).switches = d.switches := rfl
@[simp] theorem setCCTV_analyzer : (d.setCCTV id f).analyzer = d.analyzer := rfl
@[simp] theorem setCCTV_table : (d.setCCTV id f).table = d.table := rfl
@[simp] theorem setCCTV_controlQ : (d.setCCTV id f).controlQ = d.controlQ := rfl
@[simp] theorem setCCTV_msgQ : (d.setCCTV id f).msgQ = d.msgQ := rfl
@[simp] theorem removeCCTV_switches : (d.removeCCTV id).switches = d.switches := rfl
@[simp] theorem removeCCTV_analyzer : (d.removeCCTV id).analyzer = d.analyzer := rfl
@[simp] theorem removeCCTV_table : (d.removeCCTV id).table = d.table := rfl
@[simp] theorem removeCCTV_controlQ : (d.removeCCTV id).controlQ = d.controlQ := rfl
@[simp] theorem removeCCTV_msgQ : (d.removeCCTV id).msgQ = d.msgQ := rfl

end Frame

theorem getCCTV_setCCTV (d : Daemon) (id j : ID) {f : CctvConfig → CctvConfig}
    (hf : ∀ c, (f c).id = c.id) :
    (d.setCCTV id f).getCCTV j =
      if j = id then (d.getCCTV id).map (fun c => { c with config := f c.config })
      else d.getCCTV j := by
  apply Keyed.get_update
  intro c hc
  exact (hf c.config).trans hc

theorem getCCTV_removeCCTV (hj : j ≠ id) : (d.removeCCTV id).getCCTV j = d.getCCTV j :=
  Keyed.get_discard_other hj

theorem statConfig_id (stat : CctvStat) (c : CctvConfig) : (statConfig stat c).id = c.id := by
  cases stat <;> rfl

theorem foundConfig_id (c : CctvConfig) : (foundConfig c).id = c.id := by
  unfold foundConfig
  split <;> rfl

theorem timed_id (run : CatchbRun) (config : CctvConfig) : (timed run config).id = config.id := by
  unfold timed
  split <;> rfl

theorem timed_stat (run : CatchbRun) (config : CctvConfig) :
    (timed run config).stat = config.stat := by
  unfold timed
  split <;> rfl

/-- A create message enters its camera in the list. -/
def Creates (d : Daemon) (config : CctvConfig) (run : CatchbRun) : Prop :=
  d.getCCTV config.id = none ∧ run.allocCCTV = true ∧ run.appendCCTV = true ∧
    (DB.exec d.table (.insert (DB.cctvValues (timed run config))) run.db).isSome = true

theorem onCreateCCTV_refused (h : ¬ Creates d config run) :
    (d.onCreateCCTV config run).2 = d := by
  unfold onCreateCCTV
  cases hg : d.getCCTV config.id with
  | some c => rfl
  | none =>
    cases ha : run.allocCCTV with
    | false => rfl
    | true =>
      cases hp : run.appendCCTV with
      | false => rfl
      | true =>
        have hx : DB.exec d.table (.insert (DB.cctvValues (timed run config))) run.db = none := by
          by_contra hn
          exact h ⟨hg, ha, hp, Option.isSome_iff_ne_none.mpr hn⟩
        have hdb : DB.addCCTV d.table (timed run config) run.db = (.dbExecError, d.table) := by
          simp [DB.addCCTV, hx]
        simp [hdb]

/-- Without an attached ID the new camera is in the list and destroyed. -/
theorem onCreateCCTV_accepted (h : Creates d config run) :
    ∃ c table, c.config = timed run config ∧
      (c.destroyed = true ↔
        (Analyzer.attach d.analyzer config.id run.allocID run.appendID).1 ≠ .ok) ∧
      DB.exec d.table (.insert (DB.cctvValues (timed run config))) run.db = some table ∧
      (d.onCreateCCTV config run).2 = { d with
        cctvs := d.cctvs ++ [c]
        table := table
        analyzer := (Analyzer.attach d.analyzer config.id run.allocID run.appendID).2 } := by
  obtain ⟨hg, ha, hp, hx⟩ := h
  obtain ⟨table, hx⟩ := Option.isSome_iff_exists.mp hx
  have hdb : DB.addCCTV d.table (timed run config) run.db = (.ok, table) := by
    simp [DB.addCCTV, hx]
  have hid := timed_id run config
  rcases ht : Analyzer.attach d.analyzer config.id run.allocID run.appendID with ⟨ret, list⟩
  by_cases hr : ret = .ok
  · subst hr
    refine ⟨⟨timed run config, false⟩, table, rfl, by simp, hx, ?_⟩
    simp [onCreateCCTV, hg, ha, hp, hdb, hid, attach, ht]
  · refine ⟨⟨timed run config, true⟩, table, rfl, by simp [hr], hx, ?_⟩
    simp only [onCreateCCTV, hg, ha, hp, hdb, hid, attach, ht]
    cases ret <;> first | exact absurd rfl hr | rfl

/-- A found message enters its camera in the list. -/
def Lists (run : CatchbRun) : Prop := run.allocCCTV = true ∧ run.appendCCTV = true

theorem onFoundCCTVInDB_refused (h : ¬ Lists run) : (d.onFoundCCTVInDB config run).2 = d := by
  unfold onFoundCCTVInDB
  cases ha : run.allocCCTV with
  | false => rfl
  | true =>
    have hp : run.appendCCTV = false := by simpa [Lists, ha] using h
    simp [hp]

theorem onFoundCCTVInDB_accepted (h : Lists run) :
    (d.onFoundCCTVInDB config run).2 = { d with
      cctvs := d.cctvs ++ [⟨foundConfig config, false⟩]
      analyzer := (Analyzer.attach d.analyzer config.id run.allocID run.appendID).2 } := by
  simp [onFoundCCTVInDB, h.1, h.2, attach]

theorem onDeleteCCTV_cctvs : (d.onDeleteCCTV id run).2.cctvs = (d.removeCCTV id).cctvs := by
  unfold onDeleteCCTV
  cases hg : d.getCCTV id with
  | none => exact (Keyed.discard_of_get_none hg).symm
  | some c => rfl

theorem onRemovedCCTVInDB_cctvs : (d.onRemovedCCTVInDB id).2.cctvs = (d.removeCCTV id).cctvs := by
  unfold onRemovedCCTVInDB
  cases hg : d.getCCTV id with
  | none => exact (Keyed.discard_of_get_none hg).symm
  | some c => rfl

/-- A message that writes into its camera, and how. -/
def writes : CctvMsg → Option (CctvConfig → CctvConfig)
  | .hashUpdated _ hash | .register _ hash => some (fun c => { c with hash := hash })
  | .setStat _ stat _ _ => some (statConfig stat)
  | .setProperties _ config flags => some (propertyConfig config flags)
  | .create _ | .delete _ | .found _ | .removed _ => none

theorem writes_id {msg : CctvMsg} {f : CctvConfig → CctvConfig} (hw : writes msg = some f)
    (c : CctvConfig) : (f c).id = c.id := by
  cases msg <;> simp only [writes, reduceCtorEq, Option.some.injEq] at hw <;> subst hw
  · rfl
  · exact statConfig_id _ c
  · rfl
  · rfl

/-- The request that a status change of this camera posts. -/
def request (old : CctvConfig) (stat : CctvStat) : List SwitchControl :=
  ((controlOnStat old.stat stat).map
    (fun p => (⟨old.switchID, old.ip, p⟩ : SwitchControl))).toList

theorem onSetCCTVStat_found {c : Cctv} (stat : CctvStat) (time : UInt32) (hash : Hash)
    (run : CatchbRun) (hg : d.getCCTV id = some c) : ∃ controlQ alarms logs,
      (d.onSetCCTVStat id stat time hash run).2 = { d with
        cctvs := (d.setCCTV id (statConfig stat)).cctvs
        controlQ := controlQ
        alarms := alarms
        logs := logs } ∧
      (run.postControl = true → controlQ = d.controlQ ++ request c.config stat) := by
  simp only [onSetCCTVStat, hg, request]
  cases hc : controlOnStat c.config.stat stat with
  | none =>
    cases run.logExec with
    | true => exact ⟨_, _, _, rfl, by simp⟩
    | false => exact ⟨_, _, _, rfl, by simp⟩
  | some p =>
    cases hp : run.postControl with
    | true =>
      cases run.logExec with
      | true => exact ⟨_, _, _, rfl, by simp [setControl]⟩
      | false => exact ⟨_, _, _, rfl, by simp [setControl]⟩
    | false =>
      cases run.logExec with
      | true => exact ⟨_, _, _, rfl, by simp⟩
      | false => exact ⟨_, _, _, rfl, by simp⟩

theorem setCCTV_of_getCCTV_none {f : CctvConfig → CctvConfig} (h : d.getCCTV id = none) :
    (d.setCCTV id f).cctvs = d.cctvs := by
  simp [setCCTV, Keyed.update_of_get_none h]

theorem cctvs_handle_writes {msg : CctvMsg} {f : CctvConfig → CctvConfig}
    (hw : writes msg = some f) : (d.handle run msg).2.cctvs = (d.setCCTV msg.id f).cctvs := by
  cases hg : d.getCCTV msg.id with
  | none =>
    rw [setCCTV_of_getCCTV_none hg]
    cases msg <;> simp only [writes, reduceCtorEq] at hw <;>
      simp only [CctvMsg.id] at hg <;>
      simp [handle, onSetCCTVHash, onCCTVRegister, onSetCCTVStat, onSetCCTVProperties, hg]
  | some c =>
    cases msg <;> simp only [writes, reduceCtorEq, Option.some.injEq] at hw <;> subst hw <;>
      simp only [CctvMsg.id] at hg ⊢
    · simp [handle, onSetCCTVHash, hg, DB.updateCCTVHash, attach, setCCTV]
    · obtain ⟨q, alarms, logs, he, -⟩ := onSetCCTVStat_found _ _ _ run hg
      rw [handle, he]
    · simp [handle, onSetCCTVProperties, hg, setCCTV]
    · simp [handle, onCCTVRegister, hg, setCCTV]

theorem getCCTV_handle_writes (msg : CctvMsg) {f : CctvConfig → CctvConfig}
    (hw : writes msg = some f) : (d.handle run msg).2.getCCTV msg.id =
      (d.getCCTV msg.id).map (fun c => { c with config := f c.config }) := by
  have hc := getCCTV_setCCTV d msg.id msg.id (writes_id hw)
  rw [if_pos rfl] at hc
  rw [← hc, getCCTV, cctvs_handle_writes hw, getCCTV]

/-- A message changes no lookup but that of its own camera. -/
theorem getCCTV_handle_other {msg : CctvMsg} (hj : j ≠ msg.id) :
    (d.handle run msg).2.getCCTV j = d.getCCTV j := by
  cases hw : writes msg with
  | some f =>
    have hc := getCCTV_setCCTV d msg.id j (writes_id hw)
    rw [if_neg hj] at hc
    simpa only [getCCTV, cctvs_handle_writes hw] using hc
  | none =>
    cases msg with
    | create config =>
      by_cases hc : Creates d config run
      · obtain ⟨c, table, hid, -, -, he⟩ := onCreateCCTV_accepted hc
        have hne : c.key ≠ j := by
          intro hk
          exact hj (hk.symm.trans ((congrArg CctvConfig.id hid).trans (timed_id _ _)))
        simp [handle, he, getCCTV, Keyed.get_append_singleton, hne]
      · rw [handle, onCreateCCTV_refused hc]
    | found config =>
      by_cases hl : Lists run
      · have hne : Cctv.key ⟨foundConfig config, false⟩ ≠ j := by
          intro hk
          exact hj (hk.symm.trans (foundConfig_id config))
        simp [handle, onFoundCCTVInDB_accepted hl, getCCTV, Keyed.get_append_singleton, hne]
      · rw [handle, onFoundCCTVInDB_refused hl]
    | delete id =>
      simpa only [handle, getCCTV, onDeleteCCTV_cctvs, CctvMsg.id] using getCCTV_removeCCTV hj
    | removed id =>
      simpa only [handle, getCCTV, onRemovedCCTVInDB_cctvs, CctvMsg.id] using getCCTV_removeCCTV hj
    | hashUpdated => cases hw
    | setStat => cases hw
    | setProperties => cases hw
    | register => cases hw

/-- The requests that one message posts. -/
def requests (d : Daemon) : CctvMsg → List SwitchControl
  | .setStat id stat _ _ =>
    match d.getCCTV id with
    | some c => request c.config stat
    | none => []
  | _ => []

/-- Messages about cameras leave the switches and the thread's own queue alone, and the
detector's queue gets their requests. -/
theorem handle_frame (d : Daemon) (run : CatchbRun) (msg : CctvMsg) :
    (d.handle run msg).2.switches = d.switches ∧ (d.handle run msg).2.msgQ = d.msgQ ∧
      (run.postControl = true → (d.handle run msg).2.controlQ = d.controlQ ++ requests d msg) := by
  simp only [requests]
  cases msg with
  | create config =>
    by_cases hc : Creates d config run
    · obtain ⟨c, table, -, -, -, he⟩ := onCreateCCTV_accepted hc
      simp [handle, he]
    · simp [handle, onCreateCCTV_refused hc]
  | found config =>
    by_cases hl : Lists run
    · simp [handle, onFoundCCTVInDB_accepted hl]
    · simp [handle, onFoundCCTVInDB_refused hl]
  | delete id =>
    simp only [handle, onDeleteCCTV]
    split <;> simp [detach]
  | removed id =>
    simp only [handle, onRemovedCCTVInDB]
    split <;> simp [detach]
  | hashUpdated id hash =>
    simp only [handle, onSetCCTVHash]
    split <;> simp [DB.updateCCTVHash, attach]
  | register id hash =>
    simp only [handle, onCCTVRegister]
    split <;> simp
  | setProperties id config flags =>
    simp only [handle, onSetCCTVProperties]
    split <;> simp
  | setStat id stat time hash =>
    cases hg : d.getCCTV id with
    | none => simp [handle, onSetCCTVStat, hg]
    | some c =>
      obtain ⟨q, alarms, logs, he, hq⟩ := onSetCCTVStat_found stat time hash run hg
      rw [handle, he]
      refine ⟨rfl, rfl, ?_⟩
      intro h
      simp [hq h, hg]

theorem controlQ_handle (d : Daemon) (run : CatchbRun) (h : run.postControl = true)
    (msg : CctvMsg) : (d.handle run msg).2.controlQ = d.controlQ ++ requests d msg :=
  (handle_frame d run msg).2.2 h

theorem switches_handle (d : Daemon) (run : CatchbRun) (msg : CctvMsg) :
    (d.handle run msg).2.switches = d.switches := (handle_frame d run msg).1

theorem msgQ_handle (d : Daemon) (run : CatchbRun) (msg : CctvMsg) :
    (d.handle run msg).2.msgQ = d.msgQ := (handle_frame d run msg).2.1

/-- The configuration that a message enters a camera with. -/
def enters (run : CatchbRun) : CctvMsg → Option CctvConfig
  | .create config => some (timed run config)
  | .found config => some (foundConfig config)
  | _ => none

/-- After a message every camera was there before, is its camera rewritten, or is the new one. -/
theorem mem_cctvs_handle {msg : CctvMsg} {x : Cctv} (h : x ∈ (d.handle run msg).2.cctvs) :
    x ∈ d.cctvs ∨
      (∃ f c, writes msg = some f ∧ d.getCCTV msg.id = some c ∧
        x = { c with config := f c.config }) ∨
      enters run msg = some x.config := by
  cases hw : writes msg with
  | some f =>
    rw [cctvs_handle_writes hw] at h
    rcases Keyed.mem_update h with h | ⟨c, hg, rfl⟩
    · exact Or.inl h
    · exact Or.inr (Or.inl ⟨f, c, rfl, hg, rfl⟩)
  | none =>
    cases msg with
    | create config =>
      by_cases hc : Creates d config run
      · obtain ⟨c, table, hid, -, -, he⟩ := onCreateCCTV_accepted hc
        simp only [handle, he, List.mem_append, List.mem_singleton] at h
        rcases h with h | rfl
        · exact Or.inl h
        · exact Or.inr (Or.inr (congrArg some hid.symm))
      · rw [handle, onCreateCCTV_refused hc] at h
        exact Or.inl h
    | found config =>
      by_cases hl : Lists run
      · simp only [handle, onFoundCCTVInDB_accepted hl, List.mem_append,
          List.mem_singleton] at h
        rcases h with h | rfl
        · exact Or.inl h
        · exact Or.inr (Or.inr rfl)
      · rw [handle, onFoundCCTVInDB_refused hl] at h
        exact Or.inl h
    | delete id =>
      rw [handle, onDeleteCCTV_cctvs] at h
      exact Or.inl (Keyed.mem_of_mem_discard h)
    | removed id =>
      rw [handle, onRemovedCCTVInDB_cctvs] at h
      exact Or.inl (Keyed.mem_of_mem_discard h)
    | hashUpdated => cases hw
    | setStat => cases hw
    | setProperties => cases hw
    | register => cases hw

end Catchb.Daemon
