import Catchb.Lib.Run
import Catchb.Proofs.Effects

/-! What the alarms and the log tell of the way a camera came to its status. -/

namespace Catchb.Proofs.StatusTrail
open Lib Daemon Sample

def step (d : Daemon) (e : CctvMsg × CatchbRun) : Daemon := (d.handle e.2 e.1).2

/-- The entry of the log that goes with an alarm. -/
def entry (alarm : SendAlarm) : Log :=
  ⟨alarm.type, alarm.time, alarm.id, alarm.ip, alarm.newStat, alarm.hash⟩

/-- Alarms that lead from one status to another, each from where the one before it left. -/
def Leads : CctvStat → List SendAlarm → CctvStat → Prop
  | a, [], b => a = b
  | a, alarm :: alarms, b => alarm.originalStat = a ∧ Leads alarm.newStat alarms b

/-- What was sent and what was written about a camera since are the same, and lead to its status. -/
def Told (since : Daemon) (id : ID) (old : CctvStat) (d : Daemon) : Prop :=
  ∃ alarms, d.alarms.filter (·.id = id) = since.alarms.filter (·.id = id) ++ alarms ∧
    d.logs.filter (·.id = id) = since.logs.filter (·.id = id) ++ alarms.map entry ∧
      ∃ c, d.getCCTV id = some c ∧ Leads old alarms c.config.stat

/-- The camera stays in the list. -/
def Stays (id : ID) : CctvMsg → Prop
  | .delete j | .removed j => j ≠ id
  | _ => True

/-- A change of the camera's status is sent and written, or neither and it is none. -/
def Tells (id : ID) (d : Daemon) (e : CctvMsg × CatchbRun) : Prop :=
  ∀ c, d.getCCTV id = some c → e.1.id = id →
    match e.1 with
    | .setStat _ stat _ _ =>
      e.2.sendAlarm = e.2.logExec ∧ (e.2.sendAlarm = true ∨ stat = c.config.stat)
    | .setProperties _ config flags =>
      DB.hasField flags DB.cctvFieldStat = true → config.stat = c.config.stat
    | _ => True

variable {d since : Daemon} {id : ID} {c : Cctv} {run : CatchbRun} {a b b' : CctvStat}
  {alarms : List SendAlarm}

theorem leads_unique (h : Leads a alarms b) (h' : Leads a alarms b') : b = b' := by
  induction alarms generalizing a with
  | nil => exact h.symm.trans h'
  | cons alarm alarms ih => exact ih h.2 h'.2

theorem leads_concat {alarm : SendAlarm} (h : Leads a alarms b) :
    Leads a (alarms ++ [alarm]) b' ↔ alarm.originalStat = b ∧ alarm.newStat = b' := by
  induction alarms generalizing a with
  | nil =>
    obtain rfl := h
    exact Iff.rfl
  | cons alarm' alarms ih =>
    rw [List.cons_append, Leads, ih h.2]
    exact and_iff_right h.1

/-- The alarm of a status change. -/
def alarmOf (c : CctvConfig) (stat : CctvStat) (time : UInt32) (hash : Hash) : SendAlarm :=
  ⟨logTypeOnStat stat, c.id, c.ip, time, stat,
    if hash.val ≠ [] then hash else (statConfig stat c).hash, c.stat⟩

theorem setStat_tells (run : CatchbRun) (stat : CctvStat) (time : UInt32) (hash : Hash)
    (hg : d.getCCTV id = some c) :
    let d' := (d.handle run (.setStat id stat time hash)).2
    d'.alarms = d.alarms ++ (if run.sendAlarm then [alarmOf c.config stat time hash] else []) ∧
      d'.logs = d.logs ++
        (if run.logExec then [entry (alarmOf c.config stat time hash)] else []) := by
  obtain rfl := getCCTV_id hg
  simp only [handle, onSetCCTVStat, hg, alarmOf, entry]
  cases controlOnStat c.config.stat stat with
  | none => cases run.sendAlarm <;> cases run.logExec <;> simp [setCCTV]
  | some policy =>
    cases run.postControl <;> cases run.sendAlarm <;> cases run.logExec <;>
      simp [setCCTV, setControl]

/-- Any other message sends nothing and writes nothing. -/
theorem handle_quiet (run : CatchbRun) {msg : CctvMsg}
    (h : ∀ stat time hash, msg = .setStat msg.id stat time hash → d.getCCTV msg.id = none) :
    (d.handle run msg).2.alarms = d.alarms ∧ (d.handle run msg).2.logs = d.logs := by
  cases msg with
  | create config =>
    by_cases hc : Creates d config run
    · obtain ⟨c, table, -, -, -, he⟩ := onCreateCCTV_accepted hc
      simp [handle, he]
    · simp [handle, onCreateCCTV_refused hc]
  | found config =>
    by_cases hl : Lists run
    · simp [handle, onFoundCCTVInDB_accepted hl]
    · simp [handle, onFoundCCTVInDB_refused hl]
  | delete id =>
    simp only [handle, onDeleteCCTV]
    split <;> simp [detach, removeCCTV]
  | removed id =>
    simp only [handle, onRemovedCCTVInDB]
    split <;> simp [detach, removeCCTV]
  | hashUpdated id hash =>
    simp only [handle, onSetCCTVHash]
    split <;> simp [DB.updateCCTVHash, attach, setCCTV]
  | register id hash =>
    simp only [handle, onCCTVRegister]
    split <;> simp [setCCTV]
  | setProperties id config flags =>
    simp only [handle, onSetCCTVProperties]
    split <;> simp [setCCTV]
  | setStat id stat time hash =>
    have hnone : d.getCCTV id = none := h stat time hash rfl
    simp [handle, onSetCCTVStat, hnone]

/-- The alarms that a message sends about other cameras are not about this one. -/
theorem handle_other (run : CatchbRun) {msg : CctvMsg} (hj : msg.id ≠ id) :
    (d.handle run msg).2.alarms.filter (·.id = id) = d.alarms.filter (·.id = id) ∧
      (d.handle run msg).2.logs.filter (·.id = id) = d.logs.filter (·.id = id) := by
  by_cases hset : ∃ stat time hash c, msg = .setStat msg.id stat time hash ∧
      d.getCCTV msg.id = some c
  · obtain ⟨stat, time, hash, c, hmsg, hg⟩ := hset
    obtain ⟨halarms, hlogs⟩ := setStat_tells run stat time hash hg
    have hid : c.config.id ≠ id := by rwa [getCCTV_id hg]
    rw [← hmsg] at halarms hlogs
    rw [halarms, hlogs, List.filter_append, List.filter_append]
    constructor
    · split <;> simp [alarmOf, hid]
    · split <;> simp [alarmOf, entry, hid]
  · obtain ⟨halarms, hlogs⟩ := handle_quiet run (fun stat time hash hmsg => by
      by_contra hg
      obtain ⟨c, hg⟩ := Option.ne_none_iff_exists'.mp hg
      exact hset ⟨stat, time, hash, c, hmsg, hg⟩)
    rw [halarms, hlogs]
    exact ⟨rfl, rfl⟩

theorem told_congr {d' : Daemon} (halarms : d'.alarms.filter (·.id = id) = d.alarms.filter (·.id = id))
    (hlogs : d'.logs.filter (·.id = id) = d.logs.filter (·.id = id))
    (hget : d'.getCCTV id = d.getCCTV id) : Told since id a d' ↔ Told since id a d := by
  simp only [Told, halarms, hlogs, hget]

/-- What a message sends has to be what it writes, and to go on to the status that it leaves. -/
theorem told_append {d' : Daemon} {c' : Cctv} (sent : List SendAlarm) (written : List Log)
    (hsent : d.alarms.filter (·.id = id) = since.alarms.filter (·.id = id) ++ alarms)
    (hwritten : d.logs.filter (·.id = id) = since.logs.filter (·.id = id) ++ alarms.map entry)
    (halarms : d'.alarms.filter (·.id = id) = d.alarms.filter (·.id = id) ++ sent)
    (hlogs : d'.logs.filter (·.id = id) = d.logs.filter (·.id = id) ++ written)
    (hget : d'.getCCTV id = some c') :
    Told since id a d' ↔ sent.map entry = written ∧ Leads a (alarms ++ sent) c'.config.stat := by
  rw [hsent, List.append_assoc] at halarms
  rw [hwritten, List.append_assoc] at hlogs
  constructor
  · rintro ⟨alarms', hsent', hwritten', c₁, hg₁, hleads⟩
    obtain rfl : c' = c₁ := Option.some.inj (hget.symm.trans hg₁)
    obtain rfl : alarms' = alarms ++ sent :=
      List.append_cancel_left (hsent'.symm.trans halarms)
    have hsame := List.append_cancel_left (hwritten'.symm.trans hlogs)
    rw [List.map_append] at hsame
    exact ⟨List.append_cancel_left hsame, hleads⟩
  · rintro ⟨rfl, hleads⟩
    exact ⟨alarms ++ sent, halarms, by rw [hlogs, List.map_append], c', hget, hleads⟩

/-- Where nothing is sent and nothing is written, the status has to stay. -/
theorem told_quiet {d' : Daemon} {c' : Cctv} (h : Told since id a d) (hg : d.getCCTV id = some c)
    (halarms : d'.alarms = d.alarms) (hlogs : d'.logs = d.logs) (hget : d'.getCCTV id = some c') :
    Told since id a d' ↔ c'.config.stat = c.config.stat := by
  obtain ⟨alarms, hsent, hwritten, c₁, hg₁, hleads⟩ := h
  obtain rfl : c = c₁ := Option.some.inj (hg.symm.trans hg₁)
  have hnone := told_append (a := a) [] [] hsent hwritten
    (by rw [halarms, List.append_nil]) (by rw [hlogs, List.append_nil]) hget
  rw [hnone, List.append_nil]
  exact ⟨fun ht => leads_unique ht.2 hleads, fun he => ⟨rfl, he ▸ hleads⟩⟩

theorem told_setStat (run : CatchbRun) (stat : CctvStat) (time : UInt32) (hash : Hash)
    (h : Told since id a d) (hg : d.getCCTV id = some c) :
    Told since id a (d.handle run (.setStat id stat time hash)).2 ↔
      run.sendAlarm = run.logExec ∧ (run.sendAlarm = true ∨ stat = c.config.stat) := by
  obtain ⟨halarms, hlogs⟩ := setStat_tells run stat time hash hg
  have hget : (d.handle run (.setStat id stat time hash)).2.getCCTV id =
      some { c with config := statConfig stat c.config } := by
    have hwrites : (d.handle run (.setStat id stat time hash)).2.getCCTV id = _ :=
      getCCTV_handle_writes (.setStat id stat time hash) rfl
    rw [CctvMsg.id, hg] at hwrites
    exact hwrites
  have hstat : (statConfig stat c.config).stat = stat := by cases stat <;> rfl
  have hid : c.config.id = id := getCCTV_id hg
  obtain ⟨alarms, hsent, hwritten, c₁, hg₁, hleads⟩ := h
  obtain rfl : c = c₁ := Option.some.inj (hg.symm.trans hg₁)
  have hsent' := congrArg (List.filter (·.id = id)) halarms
  have hwritten' := congrArg (List.filter (·.id = id)) hlogs
  rw [List.filter_append] at hsent' hwritten'
  rw [told_append _ _ hsent hwritten hsent' hwritten' hget, hstat]
  have hsame : Leads a alarms stat ↔ stat = c.config.stat :=
    ⟨fun ht => leads_unique ht hleads, fun he => he ▸ hleads⟩
  cases run.sendAlarm <;> cases run.logExec <;>
    simp [alarmOf, entry, hid, hsame, leads_concat hleads]

/-- A message that leaves the camera's lookup, and neither sends nor writes. -/
theorem told_same {d' : Daemon} (halarms : d'.alarms = d.alarms) (hlogs : d'.logs = d.logs)
    (hget : d'.getCCTV id = d.getCCTV id) : Told since id a d' ↔ Told since id a d :=
  told_congr (by rw [halarms]) (by rw [hlogs]) hget

/-- A message that does not change the status lets the camera be found as it is or rewritten. -/
theorem told_writes {msg : CctvMsg} {f : CctvConfig → CctvConfig} (h : Told since msg.id a d)
    (hg : d.getCCTV msg.id = some c) (hw : writes msg = some f)
    (hquiet : ∀ stat time hash, msg ≠ .setStat msg.id stat time hash) :
    Told since msg.id a (d.handle run msg).2 ↔ (f c.config).stat = c.config.stat := by
  obtain ⟨halarms, hlogs⟩ := handle_quiet run (fun stat time hash he =>
    absurd he (hquiet stat time hash))
  have hget : (d.handle run msg).2.getCCTV msg.id = _ := getCCTV_handle_writes msg hw
  rw [hg] at hget
  exact told_quiet h hg halarms hlogs hget

theorem told_step {e : CctvMsg × CatchbRun} (h : Told since id a d) (hs : Stays id e.1) :
    Told since id a (step d e) ↔ Tells id d e := by
  obtain ⟨msg, run⟩ := e
  by_cases hid : msg.id = id
  · obtain ⟨c, hg⟩ : ∃ c, d.getCCTV id = some c := by
      obtain ⟨alarms, -, -, c, hg, -⟩ := h
      exact ⟨c, hg⟩
    subst hid
    cases msg with
    | create config =>
      have hc : ¬Creates d config run := fun hc => Option.some_ne_none c (hg.symm.trans hc.1)
      rw [step, handle, onCreateCCTV_refused hc]
      exact iff_of_true h (fun _ _ _ => trivial)
    | found config =>
      refine iff_of_true ?_ (fun _ _ _ => trivial)
      by_cases hl : Lists run
      · rw [step, handle, onFoundCCTVInDB_accepted hl]
        refine Iff.mpr (told_same (d := d) rfl rfl ?_) h
        exact (Keyed.get_append_some hg _).trans hg.symm
      · rwa [step, handle, onFoundCCTVInDB_refused hl]
    | delete j => exact absurd rfl hs
    | removed j => exact absurd rfl hs
    | hashUpdated j hash =>
      exact iff_of_true ((told_writes h hg rfl (by simp)).mpr rfl) (fun _ _ _ => trivial)
    | register j hash =>
      exact iff_of_true ((told_writes h hg rfl (by simp)).mpr rfl) (fun _ _ _ => trivial)
    | setProperties j config flags =>
      rw [step, told_writes h hg rfl (by simp)]
      simp [Tells, hg, propertyConfig]
    | setStat j stat time hash =>
      have hset := told_setStat run stat time hash h hg
      refine hset.trans ?_
      simp [Tells, hg]
  · obtain ⟨halarms, hlogs⟩ := handle_other (d := d) run hid
    have hget : (d.handle run msg).2.getCCTV id = d.getCCTV id := getCCTV_handle_other (Ne.symm hid)
    rw [step, told_congr halarms hlogs hget]
    exact iff_of_true h (fun c _ hne => absurd hne hid)

theorem told_start (hg : since.getCCTV id = some c) : Told since id c.config.stat since :=
  ⟨[], (List.append_nil _).symm, (List.append_nil _).symm, c, hg, rfl⟩

/-- As long as a camera stays in the list, its alarms and its log entries agree and lead from its
status at the start to the one that it has, exactly if no alarm of a change and no entry is lost
without the other, and its properties do not change its status. -/
theorem status_told_iff {since : Daemon} {id : ID} {c : Cctv} {es : List (CctvMsg × CatchbRun)}
    (hg : since.getCCTV id = some c) (hs : ∀ e ∈ es, Stays id e.1) :
    (∀ d ∈ states step since es, Told since id c.config.stat d) ↔
      Admitted step (Tells id) since es := by
  have hkeep : ∀ d e, Told since id c.config.stat d → Stays id e.1 ∧ Tells id d e →
      Told since id c.config.stat (step d e) :=
    fun d e h hp => (told_step h hp.1).mpr hp.2
  have hboth : Admitted step (fun d e => Stays id e.1 ∧ Told since id c.config.stat (step d e))
      since es ↔ Admitted step (fun d e => Stays id e.1 ∧ Tells id d e) since es := by
    apply admitted_congr hkeep _ (told_start hg)
    intro d e h
    exact and_congr_right (told_step h)
  have hstays : Admitted step (fun _ e => Stays id e.1) since es := admitted_const.mpr hs
  rw [admitted_and, admitted_and] at hboth
  rw [forall_states_iff]
  exact ⟨fun ht => (hboth.mp ⟨hstays, ht⟩).2, fun ht => (hboth.mpr ⟨hstays, ht⟩).2⟩

theorem status_told_of_porch :
    let since := (Daemon.start [hall] DB.createCCTVTable).handle .smooth (.create porch)
    let es : List (CctvMsg × CatchbRun) := [(.setStat porch.id .normal 5 porchHash, .smooth),
      (.setStat porch.id .abnormal 7 porchHash, { CatchbRun.smooth with sendAlarm := false })]
    (∀ d ∈ states step since.2 es, Told since.2 porch.id .unregistered d) ↔
      Admitted step (Tells porch.id) since.2 es :=
  status_told_iff (c := ⟨porch, false⟩) rfl (by simp [Stays])

end Catchb.Proofs.StatusTrail
