import Catchb.Lib.Run
import Catchb.Proofs.Effects

/-! The analyzer's list against the camera list. -/

namespace Catchb.Proofs.Roster
open Lib Daemon Sample

def ids (d : Daemon) : List ID := d.cctvs.map Cctv.key

/-- The analyzer's IDs are the cameras' IDs, each once. -/
def SameIDs (d : Daemon) : Prop := d.analyzer.Perm (ids d) ∧ d.analyzer.Nodup

/-- No two cameras have IDs that the analyzer takes for one. -/
structure Aligned (d : Daemon) : Prop where
  perm : d.analyzer.Perm (ids d)
  distinct : (d.analyzer.map Analyzer.key).Nodup

/-- The run in which every allocation succeeds. -/
def allocating (run : CatchbRun) : CatchbRun :=
  { run with allocCCTV := true, appendCCTV := true, allocID := true, appendID := true }

def step (d : Daemon) (e : CctvMsg × CatchbRun) : Daemon := (d.handle (allocating e.2) e.1).2

/-- A camera enters the list only if its ID differs from the others in more than case. -/
def Distinct (d : Daemon) (e : CctvMsg × CatchbRun) : Prop :=
  match e.1 with
  | .create config =>
    Creates d config (allocating e.2) → ∀ j ∈ ids d, Analyzer.key j ≠ Analyzer.key config.id
  | .found config => ∀ j ∈ ids d, Analyzer.key j ≠ Analyzer.key config.id
  | _ => True

variable {d : Daemon} {id : ID}

theorem Aligned.sameIDs (h : Aligned d) : SameIDs d := ⟨h.perm, h.distinct.of_map⟩

/-- A camera enters both lists. -/
theorem Aligned.enter (h : Aligned d) (hid : ∀ j ∈ ids d, Analyzer.key j ≠ Analyzer.key id) :
    (Analyzer.attach d.analyzer id true true).2.Perm (ids d ++ [id]) ∧
      ((Analyzer.attach d.analyzer id true true).2.map Analyzer.key).Nodup := by
  have hnone : Keyed.get Analyzer.key (Analyzer.key id) d.analyzer = none := by
    rw [Keyed.get_eq_none]
    intro j hj
    exact hid j (h.perm.mem_iff.mp hj)
  rw [Analyzer.attach_new (Keyed.get_eq_none_iff_not_mem.mp hnone)]
  exact ⟨h.perm.append_right [id], Keyed.nodup_append_singleton h.distinct hnone⟩

/-- A camera whose ID differs in case alone enters one list only. -/
theorem enter_distinct (h : Aligned d)
    (hp : (Analyzer.attach d.analyzer id true true).2.Perm (ids d ++ [id])) :
    ∀ j ∈ ids d, Analyzer.key j ≠ Analyzer.key id := by
  intro j hj hk
  have hmem : Analyzer.key id ∈ d.analyzer.map Analyzer.key :=
    List.mem_map.mpr ⟨j, h.perm.mem_iff.mpr hj, hk⟩
  rw [Analyzer.attach_found hmem] at hp
  have hlen := hp.length_eq
  have hold := h.perm.length_eq
  simp only [List.length_append, List.length_singleton] at hlen
  omega

theorem Aligned.leave (h : Aligned d) (hid : id ∈ ids d) :
    (Analyzer.detach d.analyzer id).2.Perm (ids (d.removeCCTV id)) ∧
      ((Analyzer.detach d.analyzer id).2.map Analyzer.key).Nodup := by
  have hmem : id ∈ d.analyzer := h.perm.mem_iff.mpr hid
  rw [Analyzer.detach_list]
  exact ⟨Keyed.perm_discard h.perm h.distinct hmem, Keyed.nodup_discard h.distinct⟩

theorem mem_ids_of_getCCTV {c : Cctv} (hg : d.getCCTV id = some c) : id ∈ ids d :=
  List.mem_map.mpr ⟨c, Keyed.get_mem hg, Keyed.get_key hg⟩

theorem ids_setCCTV {f : CctvConfig → CctvConfig} (hf : ∀ c, (f c).id = c.id) :
    ids (d.setCCTV id f) = ids d := by
  apply Keyed.map_key_update
  intro c hc
  exact (hf c.config).trans hc

theorem step_create {config : CctvConfig} {run : CatchbRun}
    (hc : Creates d config (allocating run)) :
    ids (step d (.create config, run)) = ids d ++ [config.id] ∧
      (step d (.create config, run)).analyzer =
        (Analyzer.attach d.analyzer config.id true true).2 := by
  obtain ⟨c, table, hid, -, -, he⟩ := onCreateCCTV_accepted hc
  have hkey : c.key = config.id := (congrArg CctvConfig.id hid).trans (timed_id _ _)
  simp only [step, handle, he, ids, List.map_append, List.map_singleton, hkey]
  exact ⟨trivial, rfl⟩

theorem step_found (config : CctvConfig) (run : CatchbRun) :
    ids (step d (.found config, run)) = ids d ++ [config.id] ∧
      (step d (.found config, run)).analyzer =
        (Analyzer.attach d.analyzer config.id true true).2 := by
  have hl : Lists (allocating run) := ⟨rfl, rfl⟩
  have hkey : Cctv.key ⟨foundConfig config, false⟩ = config.id := foundConfig_id config
  simp only [step, handle, onFoundCCTVInDB_accepted hl, ids, List.map_append,
    List.map_singleton, hkey]
  exact ⟨trivial, rfl⟩

/-- A message that writes into its camera leaves both lists of IDs as they are. -/
theorem aligned_writes {msg : CctvMsg} {run : CatchbRun} {f : CctvConfig → CctvConfig}
    (hw : writes msg = some f) (h : Aligned d) : Aligned (step d (msg, run)) := by
  have hids : ids (step d (msg, run)) = ids d := by
    rw [step, ids, cctvs_handle_writes hw]
    exact ids_setCCTV (writes_id hw)
  have han : (step d (msg, run)).analyzer = d.analyzer := by
    cases hg : d.getCCTV msg.id with
    | none =>
      cases msg <;> simp only [writes, reduceCtorEq] at hw <;> simp only [CctvMsg.id] at hg <;>
        simp [step, handle, onSetCCTVHash, onCCTVRegister, onSetCCTVStat, onSetCCTVProperties, hg]
    | some c =>
      have hmem := mem_ids_of_getCCTV hg
      have hkey : c.key = msg.id := Keyed.get_key hg
      cases msg <;> simp only [writes, reduceCtorEq] at hw <;>
        simp only [CctvMsg.id] at hg hmem hkey
      · have hfound : Analyzer.key c.key ∈ d.analyzer.map Analyzer.key := by
          rw [hkey]
          exact List.mem_map_of_mem (h.perm.mem_iff.mpr hmem)
        rw [Cctv.key] at hfound
        simp [step, handle, onSetCCTVHash, hg, DB.updateCCTVHash, attach,
          Analyzer.attach_found hfound]
      · obtain ⟨q, alarms, logs, he, -⟩ := onSetCCTVStat_found _ _ _ (allocating run) hg
        rw [step, handle, he]
      · simp [step, handle, onSetCCTVProperties, hg]
      · simp [step, handle, onCCTVRegister, hg]
  exact ⟨han ▸ hids ▸ h.perm, han ▸ h.distinct⟩

theorem aligned_step {e : CctvMsg × CatchbRun} (h : Aligned d) (hd : Distinct d e) :
    Aligned (step d e) := by
  obtain ⟨msg, run⟩ := e
  cases hw : writes msg with
  | some f => exact aligned_writes hw h
  | none =>
    cases msg with
    | create config =>
      by_cases hc : Creates d config (allocating run)
      · obtain ⟨hids, han⟩ := step_create hc
        obtain ⟨hp, hn⟩ := h.enter (hd hc)
        exact ⟨han ▸ hids ▸ hp, han ▸ hn⟩
      · have hsame : step d (.create config, run) = d := onCreateCCTV_refused hc
        rw [hsame]
        exact h
    | found config =>
      obtain ⟨hids, han⟩ := step_found config run
      obtain ⟨hp, hn⟩ := h.enter hd
      exact ⟨han ▸ hids ▸ hp, han ▸ hn⟩
    | delete id =>
      cases hg : d.getCCTV id with
      | none => simpa [step, handle, onDeleteCCTV, hg] using h
      | some c =>
        obtain ⟨hp, hn⟩ := h.leave (mem_ids_of_getCCTV hg)
        have han : (step d (.delete id, run)).analyzer = (Analyzer.detach d.analyzer id).2 := by
          simp [step, handle, onDeleteCCTV, hg, detach]
        have hids : ids (step d (.delete id, run)) = ids (d.removeCCTV id) := by
          simp only [ids, step, handle, onDeleteCCTV_cctvs]
        exact ⟨han ▸ hids ▸ hp, han ▸ hn⟩
    | removed id =>
      cases hg : d.getCCTV id with
      | none => simpa [step, handle, onRemovedCCTVInDB, hg] using h
      | some c =>
        have hkey : c.key = id := Keyed.get_key hg
        obtain ⟨hp, hn⟩ := h.leave (mem_ids_of_getCCTV hg)
        have han : (step d (.removed id, run)).analyzer = (Analyzer.detach d.analyzer id).2 := by
          rw [Cctv.key] at hkey
          simp [step, handle, onRemovedCCTVInDB, hg, detach, hkey]
        have hids : ids (step d (.removed id, run)) = ids (d.removeCCTV id) := by
          simp only [ids, step, handle, onRemovedCCTVInDB_cctvs]
        exact ⟨han ▸ hids ▸ hp, han ▸ hn⟩
    | hashUpdated => cases hw
    | setStat => cases hw
    | setProperties => cases hw
    | register => cases hw

theorem distinct_of_sameIDs {e : CctvMsg × CatchbRun} (h : Aligned d)
    (hs : SameIDs (step d e)) : Distinct d e := by
  obtain ⟨msg, run⟩ := e
  cases msg with
  | create config =>
    intro hc
    obtain ⟨hids, han⟩ := step_create hc
    exact enter_distinct h (hids ▸ han ▸ hs.1)
  | found config =>
    obtain ⟨hids, han⟩ := step_found (d := d) config run
    exact enter_distinct h (hids ▸ han ▸ hs.1)
  | delete => trivial
  | removed => trivial
  | hashUpdated => trivial
  | setStat => trivial
  | setProperties => trivial
  | register => trivial

theorem sameIDs_iff_distinct (h : Aligned d) (es : List (CctvMsg × CatchbRun)) :
    (∀ t ∈ states step d es, SameIDs t) ↔ Admitted step Distinct d es :=
  safe_iff_admitted (fun _ h => h.sameIDs) (fun _ _ h hd => aligned_step h hd)
    (fun _ _ h hs => distinct_of_sameIDs h hs) h es

theorem aligned_start (switches : List Switch) (table : Sql.Table) :
    Aligned (Daemon.start switches table) :=
  ⟨List.Perm.refl _, List.nodup_nil⟩

/-- From a start, both lists name the same cameras throughout exactly the runs in which no
camera enters with an ID that differs from another's in case alone. -/
theorem analyzer_list_is_camera_list_iff (switches : List Switch) (table : Sql.Table)
    (es : List (CctvMsg × CatchbRun)) :
    (∀ d ∈ states step (Daemon.start switches table) es, SameIDs d) ↔
      Admitted step Distinct (Daemon.start switches table) es :=
  sameIDs_iff_distinct (aligned_start switches table) es

/-- A second camera, whose ID is the first one's in capitals. -/
def shouted : CctvConfig := { porch with id := ⟨"PORCH".toList, by decide⟩ }

theorem case_twins_analyzed_once :
    ¬ ∀ d ∈ states step (Daemon.start [hall] DB.createCCTVTable)
      [(.create porch, .smooth), (.create shouted, .smooth)], SameIDs d := by
  rw [sameIDs_iff_distinct (aligned_start _ _)]
  rintro ⟨-, h, -⟩
  exact absurd rfl (h ⟨rfl, rfl, rfl, rfl⟩ porch.id List.mem_cons_self)

end Catchb.Proofs.Roster
