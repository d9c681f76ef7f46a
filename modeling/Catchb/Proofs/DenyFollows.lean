import Catchb.Lib.Run
import Catchb.Proofs.Effects

/-! Control requests against the stored status of a camera. -/

namespace Catchb.Proofs.DenyFollows
open Lib Daemon Sample

/-- The daemon with the control requests it has posted for each camera, newest first. -/
structure Observed where
  daemon : Daemon
  posted : List (ID × AcPolicy)

/-- The run in which every posted request arrives. -/
def arriving (run : CatchbRun) : CatchbRun := { run with postControl := true }

namespace Observed

def last (o : Observed) (id : ID) : Option AcPolicy := latest (fun a b => decide (a = b)) o.posted id

/-- Handling one message, with the requests that the handler left in the detector's queue. -/
def step (o : Observed) (e : CctvMsg × CatchbRun) : Observed :=
  let d := (o.daemon.handle (arriving e.2) e.1).2
  let new := d.controlQ.drop o.daemon.controlQ.length
  ⟨d, (new.map (fun c => (e.1.id, c.policy))).reverse ++ o.posted⟩

end Observed

/-- What a status says about the last request. -/
def Fits (last : Option AcPolicy) : CctvStat → Prop
  | .abnormal => last = some .deny
  | .normal => last ≠ some .deny
  | .unregistered | .unused => True

instance (last : Option AcPolicy) : DecidablePred (Fits last)
  | .abnormal => inferInstanceAs (Decidable (_ = _))
  | .normal => inferInstanceAs (Decidable (_ ≠ _))
  | .unregistered | .unused => .isTrue trivial

def FitsAt (o : Observed) (id : ID) : Prop :=
  ∀ cctv, o.daemon.getCCTV id = some cctv → Fits (o.last id) cctv.config.stat

/-- A stored status of ABNORMAL follows a DENY, and one of NORMAL no DENY. -/
def Followed (o : Observed) : Prop := ∀ id, FitsAt o id

/-- A message gives no camera a status that the last request contradicts: from UNREGISTERED,
by its properties, or as the status a camera enters the list with. -/
def Agrees (o : Observed) (e : CctvMsg × CatchbRun) : Prop :=
  match e.1 with
  | .setStat id stat _ _ =>
    ∀ cctv, o.daemon.getCCTV id = some cctv → cctv.config.stat = .unregistered →
      Fits (o.last id) stat
  | .setProperties id config flags =>
    (o.daemon.getCCTV id).isSome = true → DB.hasField flags DB.cctvFieldStat = true →
      Fits (o.last id) config.stat
  | .create config => Creates o.daemon config e.2 → Fits (o.last config.id) config.stat
  | .found config =>
    Lists e.2 → o.daemon.getCCTV config.id = none →
      Fits (o.last config.id) (foundConfig config).stat
  | .delete id | .removed id =>
    ∀ cctv, (o.daemon.removeCCTV id).getCCTV id = some cctv → Fits (o.last id) cctv.config.stat
  | .hashUpdated _ _ | .register _ _ => True

theorem posted_step (o : Observed) (msg : CctvMsg) (run : CatchbRun) :
    (o.step (msg, run)).posted =
      ((requests o.daemon msg).map (fun c => (msg.id, c.policy))).reverse ++ o.posted := by
  have hq := controlQ_handle o.daemon (arriving run) rfl msg
  simp [Observed.step, hq]

theorem last_step_other (o : Observed) {msg : CctvMsg} {run : CatchbRun} {j : ID}
    (hj : j ≠ msg.id) : (o.step (msg, run)).last j = o.last j := by
  simp only [Observed.last, posted_step]
  generalize (requests o.daemon msg) = rs
  induction rs using List.reverseRecOn with
  | nil => rfl
  | append_singleton rs c ih =>
    have hne : decide (msg.id = j) = false := decide_eq_false (Ne.symm hj)
    rw [List.map_append, List.reverse_append, List.append_assoc]
    exact (latest_cons_other hne).trans ih

theorem last_step_none (o : Observed) (msg : CctvMsg) (run : CatchbRun)
    (hr : requests o.daemon msg = []) (j : ID) : (o.step (msg, run)).last j = o.last j := by
  simp [Observed.last, posted_step, hr]

theorem fitsAt_step_other (o : Observed) {msg : CctvMsg} {run : CatchbRun} {j : ID}
    (hj : j ≠ msg.id) : FitsAt (o.step (msg, run)) j ↔ FitsAt o j := by
  have hd : (o.step (msg, run)).daemon.getCCTV j = o.daemon.getCCTV j :=
    getCCTV_handle_other hj
  simp only [FitsAt, hd, last_step_other o hj]

/-- A status change fits what it posts, except that nothing is posted from UNREGISTERED. -/
theorem fits_controlOnStat {last : Option AcPolicy} {old : CctvStat} (h : Fits last old)
    (new : CctvStat) :
    Fits ((controlOnStat old new).or last) new ↔ (old = .unregistered → Fits last new) := by
  cases old <;> cases new <;> simp_all [Fits, controlOnStat]

theorem fitsAt_setStat (o : Observed) {id : ID} {stat : CctvStat} {time : UInt32} {hash : Hash}
    {run : CatchbRun} (h : FitsAt o id) :
    FitsAt (o.step (.setStat id stat time hash, run)) id ↔
      Agrees o (.setStat id stat time hash, run) := by
  have hd : (o.step (.setStat id stat time hash, run)).daemon.getCCTV id =
      (o.daemon.getCCTV id).map (fun c => { c with config := statConfig stat c.config }) :=
    getCCTV_handle_writes (.setStat id stat time hash) rfl
  cases hg : o.daemon.getCCTV id with
  | none => simp [FitsAt, hd, Agrees, hg]
  | some c =>
    have hstat : (statConfig stat c.config).stat = stat := by cases stat <;> rfl
    have hl : (o.step (.setStat id stat time hash, run)).last id =
        (controlOnStat c.config.stat stat).or (o.last id) := by
      simp only [Observed.last, posted_step, requests, hg, request, CctvMsg.id]
      cases controlOnStat c.config.stat stat with
      | none => rfl
      | some p => simp
    have hold : Fits (o.last id) c.config.stat := h c hg
    simp only [FitsAt, hd, hg, Option.map_some, Option.some.injEq, forall_eq', hstat, hl, Agrees]
    exact fits_controlOnStat hold stat

theorem fitsAt_setProperties (o : Observed) {id : ID} {config : CctvConfig} {flags : UInt32}
    {run : CatchbRun} (h : FitsAt o id) :
    FitsAt (o.step (.setProperties id config flags, run)) id ↔
      Agrees o (.setProperties id config flags, run) := by
  have hd : (o.step (.setProperties id config flags, run)).daemon.getCCTV id =
      (o.daemon.getCCTV id).map
        (fun c => { c with config := propertyConfig config flags c.config }) :=
    getCCTV_handle_writes (.setProperties id config flags) rfl
  have hlast := last_step_none o (.setProperties id config flags) run rfl
  cases hg : o.daemon.getCCTV id with
  | none => simp [FitsAt, hd, Agrees, hg]
  | some c =>
    have hold : Fits (o.last id) c.config.stat := h c hg
    simp only [FitsAt, hd, hg, Option.map_some, Option.some.injEq, forall_eq', hlast,
      Agrees, Option.isSome_some, forall_const, propertyConfig]
    cases DB.hasField flags DB.cctvFieldStat with
    | false => simpa using hold
    | true => simp

theorem fitsAt_hash (o : Observed) (msg : CctvMsg) (run : CatchbRun) {hash : Hash}
    (hw : writes msg = some (fun c => { c with hash := hash }))
    (hr : requests o.daemon msg = []) (h : FitsAt o msg.id) :
    FitsAt (o.step (msg, run)) msg.id := by
  intro cctv hc
  rw [last_step_none o msg run hr]
  have hd : (o.step (msg, run)).daemon.getCCTV msg.id = _ := getCCTV_handle_writes msg hw
  obtain ⟨c, hg, rfl⟩ := Option.map_eq_some_iff.mp (hd.symm.trans hc)
  exact h c hg

theorem fitsAt_create (o : Observed) {config : CctvConfig} {run : CatchbRun}
    (h : FitsAt o config.id) :
    FitsAt (o.step (.create config, run)) config.id ↔ Agrees o (.create config, run) := by
  have hlast := last_step_none o (.create config) run rfl
  by_cases hc : Creates o.daemon config (arriving run)
  · obtain ⟨c, table, hid, -, -, he⟩ := onCreateCCTV_accepted hc
    have hkey : c.key = config.id := (congrArg CctvConfig.id hid).trans (timed_id _ _)
    have hstat : c.config.stat = config.stat := (congrArg CctvConfig.stat hid).trans (timed_stat _ _)
    have hd : (o.step (.create config, run)).daemon.getCCTV config.id = some c := by
      have hnone : Keyed.get Cctv.key config.id o.daemon.cctvs = none := hc.1
      simp only [Observed.step, handle, he, getCCTV, Keyed.get_append_singleton]
      simp [hnone, hkey]
    simp only [FitsAt, hd, Option.some.injEq, forall_eq', hlast, hstat, Agrees]
    exact ⟨fun hf _ => hf, fun ha => ha hc⟩
  · have hd : (o.step (.create config, run)).daemon = o.daemon := onCreateCCTV_refused hc
    simp only [FitsAt, hd, hlast, Agrees]
    exact ⟨fun _ hn => absurd hn hc, fun _ => h⟩

theorem fitsAt_found (o : Observed) {config : CctvConfig} {run : CatchbRun}
    (h : FitsAt o config.id) :
    FitsAt (o.step (.found config, run)) config.id ↔ Agrees o (.found config, run) := by
  have hlast := last_step_none o (.found config) run rfl
  by_cases hl : Lists (arriving run)
  · have hkey : Cctv.key ⟨foundConfig config, false⟩ = config.id := foundConfig_id config
    have hd : (o.step (.found config, run)).daemon.cctvs =
        o.daemon.cctvs ++ [⟨foundConfig config, false⟩] := by
      simp only [Observed.step, handle, onFoundCCTVInDB_accepted hl]
    simp only [FitsAt, getCCTV, hd, hlast, Agrees, Keyed.get_append_singleton]
    cases hg : Keyed.get Cctv.key config.id o.daemon.cctvs with
    | none =>
      simp only [hkey, and_self, ↓reduceIte, Option.some.injEq, forall_eq', forall_const]
      exact ⟨fun hf _ => hf, fun ha => ha hl⟩
    | some c =>
      have hold := h c hg
      simpa using hold
  · have hd : (o.step (.found config, run)).daemon = o.daemon := onFoundCCTVInDB_refused hl
    simp only [FitsAt, hd, hlast, Agrees]
    exact ⟨fun _ hn => absurd hn hl, fun _ => h⟩

/-- What one message does to the agreement of its own camera. -/
theorem fitsAt_step (o : Observed) (msg : CctvMsg) (run : CatchbRun) (h : FitsAt o msg.id) :
    FitsAt (o.step (msg, run)) msg.id ↔ Agrees o (msg, run) := by
  cases msg with
  | setStat id stat time hash => exact fitsAt_setStat o h
  | setProperties id config flags => exact fitsAt_setProperties o h
  | create config => exact fitsAt_create o h
  | found config => exact fitsAt_found o h
  | hashUpdated id hash =>
    exact iff_of_true (fitsAt_hash o (.hashUpdated id hash) run rfl rfl h) trivial
  | register id hash =>
    exact iff_of_true (fitsAt_hash o (.register id hash) run rfl rfl h) trivial
  | delete id =>
    have hd : (o.step (.delete id, run)).daemon.cctvs = _ := onDeleteCCTV_cctvs
    have hlast := last_step_none o (.delete id) run rfl
    simp only [FitsAt, getCCTV, hd, hlast, Agrees, CctvMsg.id]
  | removed id =>
    have hd : (o.step (.removed id, run)).daemon.cctvs = _ := onRemovedCCTVInDB_cctvs
    have hlast := last_step_none o (.removed id) run rfl
    simp only [FitsAt, getCCTV, hd, hlast, Agrees, CctvMsg.id]

theorem followed_step (o : Observed) (e : CctvMsg × CatchbRun) (h : Followed o) :
    Followed (o.step e) ↔ Agrees o e := by
  obtain ⟨msg, run⟩ := e
  constructor
  · intro hf
    exact (fitsAt_step o msg run (h msg.id)).mp (hf msg.id)
  · intro ha j
    by_cases hj : j = msg.id
    · subst hj
      exact (fitsAt_step o msg run (h msg.id)).mpr ha
    · exact (fitsAt_step_other o hj).mpr (h j)

/-- From a state that agrees, the runs that agree throughout are the admitted ones. -/
theorem followed_iff_admitted {o : Observed} (h : Followed o) (es : List (CctvMsg × CatchbRun)) :
    (∀ t ∈ states Observed.step o es, Followed t) ↔ Admitted Observed.step Agrees o es :=
  safe_iff_admitted (fun _ h => h) (fun o e h ha => (followed_step o e h).mpr ha)
    (fun o e h hf => (followed_step o e h).mp hf) h es

def Observed.start (switches : List Switch) (table : Sql.Table) : Observed :=
  ⟨Daemon.start switches table, []⟩

theorem followed_start (switches : List Switch) (table : Sql.Table) :
    Followed (Observed.start switches table) := by
  intro id cctv hc
  cases hc

/-- The requests follow the stored status throughout exactly the runs whose messages agree
with them. -/
theorem requests_follow_status_iff (switches : List Switch) (table : Sql.Table)
    (es : List (CctvMsg × CatchbRun)) :
    (∀ o ∈ states Observed.step (Observed.start switches table) es, Followed o) ↔
      Admitted Observed.step Agrees (Observed.start switches table) es :=
  followed_iff_admitted (followed_start switches table) es

/-- A camera is created and registered, and its first comparison fails. -/
def firstMismatch : List (CctvMsg × CatchbRun) :=
  [(.create porch, .smooth), (.register porch.id porchHash, .smooth),
    (.setStat porch.id .abnormal 9 ⟨"77aa".toList, by decide⟩, .smooth)]

theorem first_mismatch_posts_nothing :
    ¬ ∀ o ∈ states Observed.step (Observed.start [] DB.createCCTVTable) firstMismatch,
      Followed o := by
  rw [followed_iff_admitted (followed_start _ _)]
  rintro ⟨-, -, h, -⟩
  exact absurd (h _ rfl rfl) (by decide)

end Catchb.Proofs.DenyFollows
