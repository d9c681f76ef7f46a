import Catchb.CheckNew
import Catchb.Proofs.Effects

/-! The IDs of the camera list and of the switch list. -/

namespace Catchb.Proofs.UniqueIDs
open Lib Reconcile CatchbThread Sample

def cctvIDs (t : CatchbThread) : List ID := t.daemon.cctvs.map Cctv.key
def switchIDs (t : CatchbThread) : List ID := t.daemon.switches.map Switch.key

/-- No two cameras and no two switches have one ID. -/
def Unique (t : CatchbThread) : Prop := (cctvIDs t).Nodup ∧ (switchIDs t).Nodup

/-- A message enters the queue, the server changes the switch list, or the thread takes
its next message. -/
inductive Op
  | post (msg : CatchbMsg)
  | addSwitch (config : SwitchConfig) (run : SwitchRun)
  | delSwitch (id : ID) (run : SwitchRun)
  | turn (run : TurnRun)

def step (t : CatchbThread) : Op → CatchbThread
  | .post msg => t.post [msg]
  | .addSwitch config run => (t.addSwitch config run).2
  | .delSwitch id run => (t.delSwitch id run).2
  | .turn run => t.turn run

/-- A found switch finds its AC table, or none under its IP. -/
def FindsTable (t : CatchbThread) (config : SwitchConfig) (run : SwitchRun) : Prop :=
  DB.isExistTable t.acTables (DB.acTableName config.id.val) run.listed = some true ∨
    DB.isExistTable t.acTables (DB.acTableName config.ip.val) run.create.listed ≠ some true

def EntersSwitch (t : CatchbThread) (config : SwitchConfig) (run : SwitchRun) : Prop :=
  FindsTable t config run ∧ run.alloc = true ∧ run.append = true

/-- A found camera or switch that enters has an ID that is not in its list then. -/
def FreshMsg (t : CatchbThread) (run : TurnRun) : CatchbMsg → Prop
  | .cctv (.found config) => Daemon.Lists run.cctv → config.id ∉ cctvIDs t
  | .foundNewSwitch config => EntersSwitch t config run.switch → config.id ∉ switchIDs t
  | _ => True

def Fresh (t : CatchbThread) : Op → Prop
  | .turn run => ∀ msg, t.msgQ.head? = some msg → FreshMsg t run msg
  | .post _ | .addSwitch _ _ | .delSwitch _ _ => True

variable {t : CatchbThread} {id : ID} {config : SwitchConfig} {run : SwitchRun}

theorem appendSwitch_daemon (ha : run.alloc = true) (hp : run.append = true) :
    (t.appendSwitch config run).2.daemon =
      { t.daemon with switches := t.daemon.switches ++ [⟨config, [], []⟩] } := by
  simp [appendSwitch, ha, hp, setSwitches]

theorem appendSwitch_refused (h : ¬ (run.alloc = true ∧ run.append = true)) :
    (t.appendSwitch config run).2 = t := by
  unfold appendSwitch
  cases ha : run.alloc with
  | false => rfl
  | true =>
    have hp : run.append = false := by simpa [ha] using h
    simp [hp]

theorem onFoundSwitchInDB_enters (h : EntersSwitch t config run) :
    (t.onFoundSwitchInDB config run).2.daemon =
      { t.daemon with switches := t.daemon.switches ++ [⟨config, [], []⟩] } := by
  obtain ⟨htables, ha, hp⟩ := h
  unfold onFoundSwitchInDB
  split
  · exact appendSwitch_daemon ha hp
  · rename_i hown
    have hip := htables.resolve_left hown
    have hc : ∃ tables, DB.createTable t.acTables (DB.acTableName config.ip.val) run.create =
        (.ok, tables) := by
      unfold DB.createTable
      split
      · contradiction
      · exact ⟨_, rfl⟩
    obtain ⟨tables, hc⟩ := hc
    rw [hc]
    exact appendSwitch_daemon (t := { t with acTables := tables }) ha hp

theorem onFoundSwitchInDB_refused (h : ¬ EntersSwitch t config run) :
    (t.onFoundSwitchInDB config run).2.daemon = t.daemon := by
  unfold onFoundSwitchInDB
  split
  · rename_i hown
    have hno : ¬ (run.alloc = true ∧ run.append = true) := fun hn => h ⟨.inl hown, hn⟩
    rw [appendSwitch_refused hno]
  · split
    · rename_i hc
      have hip : DB.isExistTable t.acTables (DB.acTableName config.ip.val) run.create.listed ≠
          some true := by
        intro he
        simp [DB.createTable, he] at hc
      have hno : ¬ (run.alloc = true ∧ run.append = true) := fun hn => h ⟨.inr hip, hn⟩
      rw [appendSwitch_refused hno]
    · rfl

theorem onRemovedSwitchInDB_daemon (id : ID) : (t.onRemovedSwitchInDB id).2.daemon =
    { t.daemon with switches := Keyed.discard Switch.key id t.daemon.switches } := by
  unfold onRemovedSwitchInDB
  cases hg : Keyed.get Switch.key id t.daemon.switches with
  | none => rw [Keyed.discard_of_get_none hg]
  | some sw => rfl

theorem delSwitch_daemon (id : ID) (run : SwitchRun) : (t.delSwitch id run).2.daemon =
    { t.daemon with switches := Keyed.discard Switch.key id t.daemon.switches } := by
  unfold delSwitch
  cases hg : Keyed.get Switch.key id t.daemon.switches with
  | none => rw [Keyed.discard_of_get_none hg]
  | some sw => rfl

/-- The server enters a switch only with an ID that is not in the list. -/
theorem addSwitch_daemon (config : SwitchConfig) (run : SwitchRun) :
    (t.addSwitch config run).2.daemon = t.daemon ∨
      config.id ∉ switchIDs t ∧ (t.addSwitch config run).2.daemon =
        { t.daemon with switches := t.daemon.switches ++ [⟨config, [], []⟩] } := by
  unfold addSwitch
  split
  · exact Or.inl rfl
  · cases hg : Keyed.get Switch.key config.id t.daemon.switches with
    | some sw => exact Or.inl rfl
    | none =>
      cases ha : run.alloc with
      | false => exact Or.inl rfl
      | true =>
        cases hp : run.append with
        | false => exact Or.inl rfl
        | true =>
          rcases t.addSwitchTables config run with ⟨_ | _, ret, tables⟩
          · exact Or.inl rfl
          · exact Or.inr ⟨Keyed.get_eq_none_iff_not_mem.mp hg,
              appendSwitch_daemon (t := { t with acTables := tables }) ha hp⟩

/-- A camera message adds an ID only by finding a camera, or by creating one whose ID is new. -/
theorem nodup_handle {msg : CctvMsg} {run : CatchbRun} (hn : (cctvIDs t).Nodup)
    (hfresh : ∀ config, msg = .found config → Daemon.Lists run → config.id ∉ cctvIDs t) :
    ((t.daemon.handle run msg).2.cctvs.map Cctv.key).Nodup := by
  cases hw : Daemon.writes msg with
  | some f =>
    have hkeys : (t.daemon.setCCTV msg.id f).cctvs.map Cctv.key = cctvIDs t := by
      apply Keyed.map_key_update
      intro c hc
      exact (Daemon.writes_id hw c.config).trans hc
    rw [Daemon.cctvs_handle_writes hw, hkeys]
    exact hn
  | none =>
    cases msg with
    | create config =>
      by_cases hc : Daemon.Creates t.daemon config run
      · obtain ⟨c, table, hid, -, -, he⟩ := Daemon.onCreateCCTV_accepted hc
        have hkey : c.key = config.id :=
          (congrArg CctvConfig.id hid).trans (Daemon.timed_id run config)
        rw [Daemon.handle, he]
        exact Keyed.nodup_append_singleton hn (hkey ▸ hc.1)
      · rw [Daemon.handle, Daemon.onCreateCCTV_refused hc]
        exact hn
    | found config =>
      by_cases hl : Daemon.Lists run
      · have hnew := hfresh config rfl hl
        rw [← Daemon.foundConfig_id config] at hnew
        rw [Daemon.handle, Daemon.onFoundCCTVInDB_accepted hl]
        exact Keyed.nodup_append_singleton hn (Keyed.get_eq_none_iff_not_mem.mpr hnew)
      · rw [Daemon.handle, Daemon.onFoundCCTVInDB_refused hl]
        exact hn
    | delete id =>
      rw [Daemon.handle, Daemon.onDeleteCCTV_cctvs]
      exact Keyed.nodup_discard hn
    | removed id =>
      rw [Daemon.handle, Daemon.onRemovedCCTVInDB_cctvs]
      exact Keyed.nodup_discard hn
    | hashUpdated => cases hw
    | setStat => cases hw
    | setProperties => cases hw
    | register => cases hw

theorem unique_discard {t' : CatchbThread} (h : Unique t) (ht : t'.daemon =
    { t.daemon with switches := Keyed.discard Switch.key id t.daemon.switches }) : Unique t' := by
  rw [Unique, cctvIDs, switchIDs, ht]
  exact ⟨h.1, Keyed.nodup_discard h.2⟩

theorem unique_append {t' : CatchbThread} (h : Unique t) (hid : config.id ∉ switchIDs t)
    (ht : t'.daemon =
      { t.daemon with switches := t.daemon.switches ++ [⟨config, [], []⟩] }) : Unique t' := by
  rw [Unique, cctvIDs, switchIDs, ht]
  exact ⟨h.1, Keyed.nodup_append_singleton h.2 (Keyed.get_eq_none_iff_not_mem.mpr hid)⟩

theorem unique_congr {t' : CatchbThread} (h : Unique t) (ht : t'.daemon = t.daemon) :
    Unique t' := by
  rw [Unique, cctvIDs, switchIDs, ht]
  exact h

/-- What one handled message leaves unique. -/
theorem unique_handle {run : TurnRun} {msg : CatchbMsg} (h : Unique t) (hf : FreshMsg t run msg) :
    Unique (t.handle run msg).2 := by
  cases msg with
  | cctv msg =>
    refine ⟨nodup_handle h.1 ?_, ?_⟩
    · rintro config rfl hl
      exact hf hl
    · have hs := Daemon.switches_handle t.daemon run.cctv msg
      have hids : switchIDs (t.handle run (.cctv msg)).2 = switchIDs t :=
        congrArg (List.map Switch.key) hs
      exact hids ▸ h.2
  | checkNewCCTV => exact unique_congr h rfl
  | checkNewSwitch => exact unique_congr h rfl
  | foundNewSwitch config =>
    by_cases he : EntersSwitch t config run.switch
    · exact unique_append h (hf he) (onFoundSwitchInDB_enters he)
    · exact unique_congr h (onFoundSwitchInDB_refused he)
  | removedSwitch id => exact unique_discard h (onRemovedSwitchInDB_daemon id)

/-- A camera or switch that enters with an ID of its list is the second one with it. -/
theorem freshMsg_of_unique {run : TurnRun} {msg : CatchbMsg} (h : Unique (t.handle run msg).2) :
    FreshMsg t run msg := by
  cases msg with
  | cctv msg =>
    cases msg with
    | found config =>
      intro hl hmem
      have hn : ((t.daemon.handle run.cctv (.found config)).2.cctvs.map Cctv.key).Nodup := h.1
      rw [Daemon.handle, Daemon.onFoundCCTVInDB_accepted hl, List.map_append, List.map_singleton,
        List.nodup_append] at hn
      exact hn.2.2 _ hmem _ (List.mem_singleton.mpr rfl) (Daemon.foundConfig_id config).symm
    | create | delete | removed | hashUpdated | setStat | setProperties | register => trivial
  | foundNewSwitch config =>
    intro he hmem
    have hn : ((t.onFoundSwitchInDB config run.switch).2.daemon.switches.map Switch.key).Nodup :=
      h.2
    rw [onFoundSwitchInDB_enters he, List.map_append, List.map_singleton, List.nodup_append] at hn
    exact hn.2.2 _ hmem _ (List.mem_singleton.mpr rfl) rfl
  | checkNewCCTV | checkNewSwitch | removedSwitch => trivial

theorem unique_turn_iff {run : TurnRun} (h : Unique t) :
    Unique (t.turn run) ↔ Fresh t (.turn run) := by
  unfold turn Fresh
  cases hq : t.msgQ with
  | nil => simpa using h
  | cons msg rest =>
    simp only [List.head?_cons, Option.some.injEq, forall_eq']
    constructor
    · intro hu
      exact freshMsg_of_unique (t := { t with msgQ := rest }) hu
    · intro hf
      exact unique_handle (t := { t with msgQ := rest }) h hf

theorem unique_step {op : Op} (h : Unique t) (hf : Fresh t op) : Unique (step t op) := by
  cases op with
  | post msg => exact h
  | addSwitch config run =>
    rcases addSwitch_daemon (t := t) config run with he | ⟨hid, he⟩
    · exact unique_congr h he
    · exact unique_append h hid he
  | delSwitch id run => exact unique_discard h (delSwitch_daemon id run)
  | turn run => exact (unique_turn_iff h).mpr hf

theorem fresh_of_unique {op : Op} (h : Unique t) (hs : Unique (step t op)) : Fresh t op := by
  cases op with
  | post | addSwitch | delSwitch => trivial
  | turn run => exact (unique_turn_iff h).mp hs

theorem unique_iff_fresh (h : Unique t) (ops : List Op) :
    (∀ u ∈ states step t ops, Unique u) ↔ Admitted step Fresh t ops :=
  safe_iff_admitted (fun _ h => h) (fun _ _ h hf => unique_step h hf)
    (fun _ _ h hs => fresh_of_unique h hs) h ops

theorem unique_start : Unique start := ⟨List.nodup_nil, List.nodup_nil⟩

/-- From the start, IDs are unique throughout exactly the runs in which every found camera
or switch that enters has an ID that is not in its list. -/
theorem ids_unique_iff (ops : List Op) :
    (∀ t ∈ states step start ops, Unique t) ↔ Admitted step Fresh start ops :=
  unique_iff_fresh unique_start ops

/-- A turn that reads the one row of the camera table. -/
def readsPorch : TurnRun := ⟨.smooth, .reading [porch], .reading [], .smooth⟩

/-- Two comparisons before the first found camera is handled. -/
def checkedTwice : List Op :=
  [.post .checkNewCCTV, .post .checkNewCCTV, .turn readsPorch, .turn readsPorch,
    .turn readsPorch, .turn readsPorch]

theorem found_twice_listed_twice : ¬ ∀ t ∈ states step start checkedTwice, Unique t := by
  rw [unique_iff_fresh unique_start]
  rintro ⟨-, -, -, -, -, h, -⟩
  exact h (.cctv (.found porch)) rfl ⟨rfl, rfl⟩ List.mem_cons_self

end Catchb.Proofs.UniqueIDs
