import Catchb.Lib.Reconcile
import Catchb.Proofs.UniqueIDs

/-! Both lists against their tables after a reconciliation. -/

namespace Catchb.Proofs.Reconciled
open Lib Reconcile CatchbThread UniqueIDs Sample

/-- A reconciliation alone: the queue holds its message only, the database answers with
the rows, nothing fails, and all that it posts is handled. -/
structure CctvPass (t : CatchbThread) (rows : List CctvConfig) (run : TurnRun)
    (runs : List TurnRun) : Prop where
  alone : t.msgQ = [.checkNewCCTV]
  reads : run.checkCCTV = .reading rows
  succeed : ∀ r ∈ runs, Daemon.Lists r.cctv
  all : runs.length = (t.turn run).msgQ.length
  listed : (cctvIDs t).Nodup
  primary : (rows.map CctvConfig.id).Nodup

/-- Whether the CREATE of an AC table runs is left open: its text holds the switch's IP. -/
structure SwitchPass (t : CatchbThread) (rows : List SwitchConfig) (run : TurnRun)
    (runs : List TurnRun) : Prop where
  alone : t.msgQ = [.checkNewSwitch]
  reads : run.checkSwitch = .reading rows
  succeed : ∀ r ∈ runs, r.switch.alloc = true ∧ r.switch.append = true ∧
    r.switch.listed = true ∧ r.switch.create.listed = true
  all : runs.length = (t.turn run).msgQ.length
  listed : (switchIDs t).Nodup
  primary : (rows.map SwitchConfig.id).Nodup

/-- A found switch has its AC table, or none of the AC tables bears its IP. -/
def TableFree (t : CatchbThread) (run : TurnRun) : Prop :=
  ∀ config, t.msgQ.head? = some (.foundNewSwitch config) → FindsTable t config run.switch

variable {t : CatchbThread} {α : Type}

/-- One change handled apart from the queue. -/
def apply (toMsg : Change ID α → CatchbMsg) (t : CatchbThread) (c : Change ID α × TurnRun) :
    CatchbThread := (t.handle c.2 (toMsg c.1)).2

/-- Handling a message does not look at the queue, nor add to it. -/
def Quiet (toMsg : Change ID α → CatchbMsg) : Prop :=
  ∀ (t : CatchbThread) q c, apply toMsg { t with msgQ := q } c = { apply toMsg t c with msgQ := q }

theorem cctvChange_quiet : Quiet cctvChange := by
  rintro t q ⟨c, run⟩
  cases c <;> rfl

theorem switchChange_quiet : Quiet switchChange := by
  rintro t q ⟨c, run⟩
  cases c with
  | removed id =>
    simp only [apply, handle, switchChange, onRemovedSwitchInDB]
    split <;> rfl
  | found config =>
    simp only [apply, handle, switchChange, onFoundSwitchInDB, appendSwitch]
    split
    · split <;> (try split) <;> rfl
    · split
      · split <;> (try split) <;> rfl
      · rfl

/-- Turn by turn, the queue of posted changes is applied. -/
theorem turns_apply {toMsg : Change ID α → CatchbMsg} (hquiet : Quiet toMsg)
    (cs : List (Change ID α)) (runs : List TurnRun) (t : CatchbThread)
    (hlen : runs.length = cs.length) :
    runs.foldl turn { t with msgQ := cs.map toMsg } =
      { (cs.zip runs).foldl (apply toMsg) t with msgQ := [] } := by
  induction cs generalizing runs t with
  | nil =>
    cases runs with
    | nil => rfl
    | cons run runs => cases hlen
  | cons c cs ih =>
    cases runs with
    | nil => cases hlen
    | cons run runs =>
      simp only [List.length_cons, Nat.add_right_cancel_iff] at hlen
      have hturn : turn { t with msgQ := (c :: cs).map toMsg } run =
          { apply toMsg t (c, run) with msgQ := cs.map toMsg } :=
        hquiet t (cs.map toMsg) (c, run)
      simp only [List.foldl_cons, hturn, ih _ _ hlen, List.zip_cons_cons]

/-- A condition on the turns is one on the changes applied. -/
theorem admitted_turns {toMsg : Change ID α → CatchbMsg} (hquiet : Quiet toMsg)
    {good : CatchbThread → TurnRun → Prop} {good' : CatchbThread → Change ID α × TurnRun → Prop}
    (hgood : ∀ t c cs run, good { t with msgQ := toMsg c :: cs } run ↔ good' t (c, run))
    (cs : List (Change ID α)) (runs : List TurnRun) (t : CatchbThread)
    (hlen : runs.length = cs.length) :
    Admitted turn good { t with msgQ := cs.map toMsg } runs ↔
      Admitted (apply toMsg) good' t (cs.zip runs) := by
  induction cs generalizing runs t with
  | nil =>
    cases runs with
    | nil => exact Iff.rfl
    | cons run runs => cases hlen
  | cons c cs ih =>
    cases runs with
    | nil => cases hlen
    | cons run runs =>
      simp only [List.length_cons, Nat.add_right_cancel_iff] at hlen
      have hturn : turn { t with msgQ := (c :: cs).map toMsg } run =
          { apply toMsg t (c, run) with msgQ := cs.map toMsg } :=
        hquiet t (cs.map toMsg) (c, run)
      simp only [Admitted, List.zip_cons_cons, hturn, ih _ _ hlen]
      rw [List.map_cons, hgood]

theorem pushed_all (msgs : List CatchbMsg) : pushed (fun _ => true) msgs = msgs := by
  simp [pushed]

/-- What a comparison with these rows finds. -/
def posted (key : α → ID) (listed : List ID) (rows : List α) : List (Change ID α) :=
  if rows.isEmpty then [] else diff key listed rows

theorem checkNew_reading {key : α → ID} {listed : List ID} {rows : List α} :
    (checkNew key listed (.reading rows)).2 = posted key listed rows := by
  cases rows with
  | nil => rfl
  | cons row rows => simp [checkNew, CheckRun.reading, posted]

section Cctv
variable {rows : List CctvConfig} {run : TurnRun} {runs : List TurnRun}

theorem cctv_removed (t : CatchbThread) (k : ID) (e : TurnRun) (hn : (cctvIDs t).Nodup) :
    (cctvIDs (apply cctvChange t (.removed k, e))).Nodup ∧
      ∀ j, j ∈ cctvIDs (apply cctvChange t (.removed k, e)) ↔ j ∈ cctvIDs t ∧ j ≠ k := by
  have hc : cctvIDs (apply cctvChange t (.removed k, e)) =
      (Keyed.discard Cctv.key k t.daemon.cctvs).map Cctv.key :=
    congrArg (List.map Cctv.key) Daemon.onRemovedCCTVInDB_cctvs
  rw [hc]
  exact ⟨Keyed.nodup_discard hn, fun j => Keyed.mem_map_key_discard hn⟩

theorem cctv_found {t : CatchbThread} {config : CctvConfig} {e : TurnRun}
    (hl : Daemon.Lists e.cctv) :
    cctvIDs (apply cctvChange t (.found config, e)) = cctvIDs t ++ [config.id] := by
  have hc : (apply cctvChange t (.found config, e)).daemon.cctvs =
      t.daemon.cctvs ++ [⟨Daemon.foundConfig config, false⟩] := by
    simp only [apply, cctvChange, handle, Daemon.handle, Daemon.onFoundCCTVInDB_accepted hl]
  have hkey : Cctv.key ⟨Daemon.foundConfig config, false⟩ = config.id :=
    Daemon.foundConfig_id config
  rw [cctvIDs, hc, List.map_append, List.map_singleton, hkey, cctvIDs]

theorem cctv_posted (h : CctvPass t rows run runs) : t.turn run =
    { t with msgQ := (posted CctvConfig.id (cctvIDs t) rows).map cctvChange } := by
  rw [turn, h.alone]
  simp only [handle, onCheckNewCCTV, h.reads]
  have hpost : ∀ msgs, pushed (CheckRun.reading rows).pushed msgs = msgs := pushed_all
  rw [← checkNew_reading, hpost]
  rfl

theorem cctv_reconciled_iff (h : CctvPass t rows run runs) :
    (∀ id, id ∈ cctvIDs ((run :: runs).foldl turn t) ↔ id ∈ rows.map CctvConfig.id) ↔
      (rows = [] → cctvIDs t = []) := by
  have hall := h.all
  rw [cctv_posted h, List.length_map] at hall
  rw [List.foldl_cons, cctv_posted h, turns_apply cctvChange_quiet _ _ _ hall]
  cases rows with
  | nil =>
    have hruns : runs = [] := List.eq_nil_of_length_eq_zero hall
    simp [hruns, List.eq_nil_iff_forall_not_mem, cctvIDs]
  | cons row rows =>
    have hfound : ∀ (s : CatchbThread) (config : CctvConfig) (e : TurnRun), Daemon.Lists e.cctv →
        cctvIDs (apply cctvChange s (.found config, e)) = cctvIDs s ++ [config.id] :=
      fun _ _ _ hl => cctv_found hl
    have hrefused : ∀ s config e, ¬ Daemon.Lists e.cctv →
        cctvIDs (apply cctvChange s (.found config, e)) = cctvIDs s := by
      intro s config e hl
      simp only [cctvIDs, apply, cctvChange, handle, Daemon.handle,
        Daemon.onFoundCCTVInDB_refused hl]
    have hdiff := diff_reconciles_iff cctv_removed hfound hrefused t (row :: rows) runs h.listed
      h.primary hall
    refine iff_of_true (hdiff.mpr ?_) (fun he => absurd he (List.cons_ne_nil _ _))
    apply admitted_of_forall
    rintro ⟨c, e⟩ hc s
    have hl := h.succeed e (List.of_mem_zip hc).2
    cases c with
    | removed id => trivial
    | found config => exact hl

end Cctv

section Switch
variable {rows : List SwitchConfig} {run : TurnRun} {runs : List TurnRun}

theorem switch_removed (t : CatchbThread) (k : ID) (e : TurnRun) (hn : (switchIDs t).Nodup) :
    (switchIDs (apply switchChange t (.removed k, e))).Nodup ∧
      ∀ j, j ∈ switchIDs (apply switchChange t (.removed k, e)) ↔ j ∈ switchIDs t ∧ j ≠ k := by
  have hc : switchIDs (apply switchChange t (.removed k, e)) =
      (Keyed.discard Switch.key k t.daemon.switches).map Switch.key :=
    congrArg (fun d : Daemon => d.switches.map Switch.key) (onRemovedSwitchInDB_daemon k)
  rw [hc]
  exact ⟨Keyed.nodup_discard hn, fun j => Keyed.mem_map_key_discard hn⟩

theorem switch_found {t : CatchbThread} {config : SwitchConfig} {e : TurnRun}
    (he : EntersSwitch t config e.switch) :
    switchIDs (apply switchChange t (.found config, e)) = switchIDs t ++ [config.id] := by
  have hc := congrArg (fun d : Daemon => d.switches.map Switch.key) (onFoundSwitchInDB_enters he)
  simp only [List.map_append, List.map_singleton] at hc
  exact hc

theorem switch_refused {t : CatchbThread} {config : SwitchConfig} {e : TurnRun}
    (he : ¬ EntersSwitch t config e.switch) :
    switchIDs (apply switchChange t (.found config, e)) = switchIDs t :=
  congrArg (fun d : Daemon => d.switches.map Switch.key) (onFoundSwitchInDB_refused he)

theorem switch_posted (h : SwitchPass t rows run runs) : t.turn run =
    { t with msgQ := (posted SwitchConfig.id (switchIDs t) rows).map switchChange } := by
  rw [turn, h.alone]
  simp only [handle, onCheckNewSwitch, h.reads]
  have hpost : ∀ msgs, pushed (CheckRun.reading rows).pushed msgs = msgs := pushed_all
  rw [← checkNew_reading, hpost]
  rfl

theorem switch_reconciled_iff (h : SwitchPass t rows run runs) :
    (∀ id, id ∈ switchIDs ((run :: runs).foldl turn t) ↔ id ∈ rows.map SwitchConfig.id) ↔
      (rows = [] → switchIDs t = []) ∧ Admitted turn TableFree (t.turn run) runs := by
  have hall := h.all
  rw [switch_posted h, List.length_map] at hall
  rw [List.foldl_cons, switch_posted h, turns_apply switchChange_quiet _ _ _ hall]
  cases rows with
  | nil =>
    have hruns : runs = [] := List.eq_nil_of_length_eq_zero hall
    simp [hruns, List.eq_nil_iff_forall_not_mem, switchIDs, Admitted]
  | cons row rows =>
    have hfound : ∀ (s : CatchbThread) (config : SwitchConfig) (e : TurnRun),
        EntersSwitch s config e.switch →
          switchIDs (apply switchChange s (.found config, e)) = switchIDs s ++ [config.id] :=
      fun _ _ _ he => switch_found he
    have hrefused : ∀ (s : CatchbThread) (config : SwitchConfig) (e : TurnRun),
        ¬ EntersSwitch s config e.switch →
          switchIDs (apply switchChange s (.found config, e)) = switchIDs s :=
      fun _ _ _ he => switch_refused he
    have hdiff := diff_reconciles_iff switch_removed hfound hrefused t (row :: rows) runs h.listed
      h.primary hall
    have htable : ∀ (s : CatchbThread) (c : Change ID SwitchConfig) q (e : TurnRun),
        TableFree { s with msgQ := switchChange c :: q } e ↔
          Takes (fun s config e => FindsTable s config e.switch) s (c, e) := by
      intro s c q e
      simp only [TableFree, List.head?_cons, Option.some.injEq]
      cases c with
      | removed id => simp [switchChange, Takes]
      | found config => simp [switchChange, Takes, FindsTable]
    rw [and_iff_right (fun he => absurd he (List.cons_ne_nil row rows)),
      admitted_turns switchChange_quiet htable _ _ t hall]
    refine hdiff.trans (admitted_congr_mem ?_ t)
    rintro ⟨c, e⟩ hc s
    obtain ⟨ha, hp, -, -⟩ := h.succeed e (List.of_mem_zip hc).2
    cases c with
    | removed id => exact Iff.rfl
    | found config => exact and_iff_left ⟨ha, hp⟩

end Switch

/-- After a reconciliation alone the cameras are the table's exactly when the table has rows
or no camera was listed; the switches moreover when every found one got past the AC tables. -/
theorem lists_reconciled_iff (t : CatchbThread) (run : TurnRun) (runs : List TurnRun) :
    (∀ rows, CctvPass t rows run runs →
      ((∀ id, id ∈ cctvIDs ((run :: runs).foldl turn t) ↔ id ∈ rows.map CctvConfig.id) ↔
        (rows = [] → cctvIDs t = []))) ∧
    (∀ rows, SwitchPass t rows run runs →
      ((∀ id, id ∈ switchIDs ((run :: runs).foldl turn t) ↔ id ∈ rows.map SwitchConfig.id) ↔
        (rows = [] → switchIDs t = []) ∧ Admitted turn TableFree (t.turn run) runs)) :=
  ⟨fun _ h => cctv_reconciled_iff h, fun _ h => switch_reconciled_iff h⟩

/-- A daemon that has the camera or the switch only. -/
def holding (cctvs : List Cctv) (switches : List Switch) (msg : CatchbMsg) : CatchbThread :=
  ⟨{ Daemon.start switches DB.createCCTVTable with cctvs }, [msg], []⟩

def reads (cctvs : List CctvConfig) (switches : List SwitchConfig) : TurnRun :=
  ⟨.smooth, .reading cctvs, .reading switches, .smooth⟩

theorem new_camera_pass :
    CctvPass (holding [] [] .checkNewCCTV) [porch] (reads [porch] []) [reads [porch] []] where
  alone := rfl
  reads := rfl
  succeed := by simp [Daemon.Lists, reads, CatchbRun.smooth]
  all := rfl
  listed := List.nodup_nil
  primary := List.nodup_singleton _

theorem new_switch_pass :
    SwitchPass (holding [] [] .checkNewSwitch) [hall.config] (reads [] [hall.config])
      [reads [] [hall.config]] where
  alone := rfl
  reads := rfl
  succeed := by simp [reads, SwitchRun.smooth]
  all := rfl
  listed := List.nodup_nil
  primary := List.nodup_singleton _

theorem new_rows_found :
    ((∀ id, id ∈ cctvIDs ([reads [porch] [], reads [porch] []].foldl turn
        (holding [] [] .checkNewCCTV)) ↔ id ∈ [porch].map CctvConfig.id) ↔
      ([porch] = [] → cctvIDs (holding [] [] .checkNewCCTV) = [])) ∧
    ((∀ id, id ∈ switchIDs ([reads [] [hall.config], reads [] [hall.config]].foldl turn
        (holding [] [] .checkNewSwitch)) ↔ id ∈ [hall.config].map SwitchConfig.id) ↔
      ([hall.config] = [] → switchIDs (holding [] [] .checkNewSwitch) = []) ∧
      Admitted turn TableFree ((holding [] [] .checkNewSwitch).turn (reads [] [hall.config]))
        [reads [] [hall.config]]) :=
  ⟨(lists_reconciled_iff _ _ _).1 _ new_camera_pass,
    (lists_reconciled_iff _ _ _).2 _ new_switch_pass⟩

/-- The table is emptied and the camera stays. -/
theorem emptied_table_keeps_camera :
    CctvPass (holding [⟨porch, false⟩] [] .checkNewCCTV) [] (reads [] []) [] ∧
      ¬ ∀ id, id ∈ cctvIDs ([reads [] []].foldl turn
        (holding [⟨porch, false⟩] [] .checkNewCCTV)) ↔
          id ∈ ([] : List CctvConfig).map CctvConfig.id := by
  have hpass : CctvPass (holding [⟨porch, false⟩] [] .checkNewCCTV) [] (reads [] []) [] :=
    ⟨rfl, rfl, List.forall_mem_nil _, rfl, List.nodup_singleton _, List.nodup_nil⟩
  refine ⟨hpass, ?_⟩
  rw [cctv_reconciled_iff hpass]
  intro h
  exact List.cons_ne_nil _ _ (h rfl)

end Catchb.Proofs.Reconciled
