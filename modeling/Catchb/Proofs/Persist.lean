import Catchb.Lib.Run
import Catchb.Proofs.Effects

/-! The cameras in memory against their rows in the database. -/

namespace Catchb.Proofs.Persist
open Lib Daemon Sample

structure Schema (t : Sql.Table) : Prop where
  columns : t.columns = DB.cctvColumns
  key : t.key = "_ID".toList

/-- A row holds the registration of a camera. -/
structure Holds (row : Sql.Row) (c : CctvConfig) : Prop where
  hash : row.cells "HASH".toList = c.hash.val
  ip : row.cells "_IP".toList = c.ip.val
  switchID : row.cells "_SWITCH_ID".toList = c.switchID.val
  comment : row.cells "_COMMENT".toList = c.comment.val

/-- Every camera that is in both places has one registration. -/
def Agree (d : Daemon) : Prop :=
  ∀ id c row, d.getCCTV id = some c → d.table.get id.val = some row → Holds row c.config

section Statements
variable {t t' : Sql.Table} {id : Text} {config : CctvConfig} {flags : UInt32}

theorem Schema.column (hs : Schema t) (name : Text) :
    t.column name = DB.cctvColumns.find? (fun c => strcasecmp c name) := by
  rw [Sql.Table.column, hs.columns]

theorem Schema.update (hs : Schema t) {set : List Sql.Clause}
    (h : Sql.update t set id = some t') : Schema t' := by
  obtain ⟨hc, hk⟩ := Sql.update_schema h
  exact ⟨hc.trans hs.columns, hk.trans hs.key⟩

theorem get_updateHash (hs : Schema t) {hash : Hash}
    (h : Sql.update t (DB.hashClauses hash) id = some t') (j : Text) :
    t'.get j = (t.get j).map (fun r =>
      if j = id then { r with cells := Function.update r.cells "HASH".toList hash.val } else r) := by
  have hp : Sql.parse (DB.hashClauses hash) = some [("HASH".toList, .quoted hash.val)] := rfl
  have hc : t.column "HASH".toList = some "HASH".toList := hs.column _
  rw [Sql.get_update hp h]
  simp only [Sql.Table.assign, List.foldl_cons, List.foldl_nil, hc, Sql.Expr.value]

theorem assignments_laterClause (flags field : UInt32) (name : Text) (e : Sql.Expr) :
    Sql.assignments (DB.laterClause flags field name e) =
      if DB.hasField flags field then [(name, e)] else [] := by
  unfold DB.laterClause
  cases DB.hasField flags field with
  | false => rfl
  | true => cases DB.hasField flags DB.cctvFieldIP <;> rfl

theorem assignments_propertyClauses (config : CctvConfig) (flags : UInt32) :
    Sql.assignments (DB.propertyClauses config flags) =
      ([] ++ if DB.hasField flags DB.cctvFieldIP then
        [("_IP".toList, .quoted config.ip.val)] else []) ++
      (if DB.hasField flags DB.cctvFieldSwitchID then
        [("_SWITCH_ID".toList, .quoted config.switchID.val)] else []) ++
      (if DB.hasField flags DB.cctvFieldComment then
        [("_COMMENT".toList, .doubleQuoted config.comment.val)] else []) ++
      (if DB.hasField flags DB.cctvFieldHash then
        [("_HASH".toList, .quoted config.hash.val)] else []) ++
      (if DB.hasField flags DB.cctvFieldStat then
        [("_STAT".toList, .number config.stat.code)] else []) := by
  simp only [DB.propertyClauses, Sql.assignments_append, assignments_laterClause]
  cases DB.hasField flags DB.cctvFieldIP <;> rfl

/-- A comment that is no name of a column is stored as it is. -/
def PlainComment (comment : Text) : Prop :=
  DB.cctvColumns.find? (fun c => strcasecmp c comment) = none ∧ Sql.isRowid comment = false

/-- The column for the hash has another name than the statement gives it, so an update that is
accepted does not set it. -/
theorem no_hash_field (hs : Schema t)
    (h : Sql.update t (DB.propertyClauses config flags) id = some t') :
    DB.hasField flags DB.cctvFieldHash = false := by
  have hha : t.column "_HASH".toList = none := hs.column _
  cases hp : Sql.parse (DB.propertyClauses config flags) with
  | none => simp [Sql.update, hp] at h
  | some as =>
    have hall := Sql.assignable_of_update hp h
    rw [Sql.assignments_of_parse hp, assignments_propertyClauses] at hall
    cases hh : DB.hasField flags DB.cctvFieldHash with
    | false => rfl
    | true =>
      simp only [hh, List.all_append, Bool.and_eq_true, ↓reduceIte, List.all_cons] at hall
      have ha := hall.1.2.1
      rw [Sql.Table.assignable, hha] at ha
      cases ha

/-- What the statement makes of a row's cells, the last of its assignments first. -/
theorem property_cells (hs : Schema t) (config : CctvConfig) (flags : UInt32) (row : Sql.Row)
    (k : Text) : (t.assign row (Sql.assignments (DB.propertyClauses config flags))).cells k =
      if DB.hasField flags DB.cctvFieldComment = true ∧ k = "_COMMENT".toList then
        Sql.Expr.value t row (.doubleQuoted config.comment.val)
      else if DB.hasField flags DB.cctvFieldSwitchID = true ∧ k = "_SWITCH_ID".toList then
        config.switchID.val
      else if DB.hasField flags DB.cctvFieldIP = true ∧ k = "_IP".toList then config.ip.val
      else row.cells k := by
  have hip : t.column "_IP".toList = some "_IP".toList := hs.column _
  have hsw : t.column "_SWITCH_ID".toList = some "_SWITCH_ID".toList := hs.column _
  have hco : t.column "_COMMENT".toList = some "_COMMENT".toList := hs.column _
  have hha : t.column "_HASH".toList = none := hs.column _
  have hst : t.column "_STAT".toList = none := hs.column _
  rw [assignments_propertyClauses, Sql.assign_if_unknown hst, Sql.assign_if_unknown hha,
    Sql.cells_assign_if hco, Sql.cells_assign_if hsw, Sql.cells_assign_if hip]
  rfl

theorem comment_value (hs : Schema t) (hplain : PlainComment config.comment.val) (row : Sql.Row) :
    Sql.Expr.value t row (.doubleQuoted config.comment.val) = config.comment.val := by
  obtain ⟨hn, hr⟩ := hplain
  have hc : t.column config.comment.val = none := (hs.column _).trans hn
  simp [Sql.Expr.value, hc, hr]

/-- Neither the hash nor the status is set. -/
theorem holds_properties (hs : Schema t)
    (h : Sql.update t (DB.propertyClauses config flags) id = some t')
    (hplain : DB.hasField flags DB.cctvFieldComment = true → PlainComment config.comment.val)
    {row : Sql.Row} {old : CctvConfig} (hold : Holds row old) :
    Holds (t.assign row (Sql.assignments (DB.propertyClauses config flags)))
      (propertyConfig config flags old) := by
  have hno := no_hash_field hs h
  have hcells := property_cells hs config flags row
  refine ⟨?_, ?_, ?_, ?_⟩
  · rw [hcells, if_neg (fun hk => absurd hk.2 (by decide)),
      if_neg (fun hk => absurd hk.2 (by decide)), if_neg (fun hk => absurd hk.2 (by decide)),
      hold.hash, propertyConfig, hno]
    rfl
  · rw [hcells, if_neg (fun hk => absurd hk.2 (by decide)),
      if_neg (fun hk => absurd hk.2 (by decide)), hold.ip, propertyConfig]
    cases DB.hasField flags DB.cctvFieldIP with
    | true => exact if_pos ⟨rfl, rfl⟩
    | false => exact if_neg (fun hk => absurd hk.1 (by decide))
  · rw [hcells, if_neg (fun hk => absurd hk.2 (by decide)), propertyConfig]
    cases DB.hasField flags DB.cctvFieldSwitchID with
    | true => exact if_pos ⟨rfl, rfl⟩
    | false =>
      rw [if_neg (fun hk => absurd hk.1 (by decide)),
        if_neg (fun hk => absurd hk.2 (by decide)), hold.switchID]
      rfl
  · rw [hcells, propertyConfig]
    cases hf : DB.hasField flags DB.cctvFieldComment with
    | true =>
      rw [if_pos ⟨rfl, rfl⟩, comment_value hs (hplain hf)]
      rfl
    | false =>
      rw [if_neg (fun hk => absurd hk.1 (by decide)),
        if_neg (fun hk => absurd hk.2 (by decide)),
        if_neg (fun hk => absurd hk.2 (by decide)), hold.comment]
      rfl

end Statements

def step (d : Daemon) (e : CctvMsg × CatchbRun) : Daemon := (d.handle e.2 e.1).2

/-- The statement is executed, and its texts are free of the quotes around them. -/
structure Executes (t : Sql.Table) (set : List Sql.Clause) (id : ID) (run : DbRun) : Prop where
  answers : run.answers = true
  closed : (Sql.Stmt.update set id.val).closed = true
  accepted : (Sql.update t set id.val).isSome = true

/-- A message writes into its camera, and what it asks of the database is done as written. -/
def Plain (d : Daemon) (e : CctvMsg × CatchbRun) : Prop :=
  match e.1 with
  | .register id hash | .hashUpdated id hash =>
    (d.getCCTV id).isSome = true → Executes d.table (DB.hashClauses hash) id e.2.db
  | .setProperties id config flags =>
    (d.getCCTV id).isSome = true →
      Executes d.table (DB.propertyClauses config flags) id e.2.db ∧
        (DB.hasField flags DB.cctvFieldComment = true → PlainComment config.comment.val)
  | .setStat _ _ _ _ => True
  | .create _ | .delete _ | .found _ | .removed _ => False

/-- A camera that has a row loses its registration only if it has no hash. -/
def KeepsHash (d : Daemon) (e : CctvMsg × CatchbRun) : Prop :=
  match e.1 with
  | .setStat id .unregistered _ _ =>
    ∀ c row, d.getCCTV id = some c → d.table.get id.val = some row → c.config.hash.val = []
  | _ => True

variable {d : Daemon} {run : CatchbRun}

theorem exec_executes {set : List Sql.Clause} {id : ID} {r : DbRun}
    (h : Executes d.table set id r) : ∃ t', Sql.update d.table set id.val = some t' ∧
      DB.exec d.table (.update set id.val) r = some t' := by
  obtain ⟨t', ht'⟩ := Option.isSome_iff_exists.mp h.accepted
  refine ⟨t', ht', ?_⟩
  simp only [DB.exec, h.answers, ↓reduceIte, Sql.exec, h.closed, Sql.Table.apply, ht']

/-- The cameras but one and the rows but one are as before, so that one pair decides. -/
theorem agree_writes {msg : CctvMsg} {f : CctvConfig → CctvConfig} {g : Sql.Row → Sql.Row}
    (hw : writes msg = some f) (h : Agree d)
    (ht : ∀ j, (step d (msg, run)).table.get j =
      (d.table.get j).map (fun r => if j = msg.id.val then g r else r)) :
    Agree (step d (msg, run)) ↔
      ∀ c row, d.getCCTV msg.id = some c → d.table.get msg.id.val = some row →
        Holds (g row) (f c.config) := by
  constructor
  · intro ha c row hc hr
    have hc' : (step d (msg, run)).getCCTV msg.id = some { c with config := f c.config } := by
      rw [step, getCCTV_handle_writes msg hw, hc]
      rfl
    have hr' : (step d (msg, run)).table.get msg.id.val = some (g row) := by
      rw [ht, hr, Option.map_some, if_pos rfl]
    exact ha _ _ _ hc' hr'
  · intro ha j c' row' hc' hr'
    rw [ht] at hr'
    obtain ⟨row, hr, rfl⟩ := Option.map_eq_some_iff.mp hr'
    by_cases hj : j = msg.id
    · subst hj
      rw [step, getCCTV_handle_writes msg hw] at hc'
      obtain ⟨c, hc, rfl⟩ := Option.map_eq_some_iff.mp hc'
      rw [if_pos rfl]
      exact ha c row hc hr
    · rw [step, getCCTV_handle_other hj] at hc'
      rw [if_neg (fun he => hj (Subtype.ext he))]
      exact h j c' row hc' hr

theorem step_unknown {msg : CctvMsg} (hw : (writes msg).isSome = true)
    (hg : d.getCCTV msg.id = none) : step d (msg, run) = d := by
  cases msg <;> simp only [writes, Option.isSome_none, Bool.false_eq_true] at hw <;>
    simp only [CctvMsg.id] at hg <;>
    simp [step, handle, onSetCCTVHash, onCCTVRegister, onSetCCTVStat, onSetCCTVProperties, hg]

/-- A new hash reaches memory and the row. -/
theorem agree_hash {msg : CctvMsg} {hash : Hash} (hs : Schema d.table) (h : Agree d)
    (hw : writes msg = some (fun c => { c with hash := hash }))
    (ht : (step d (msg, run)).table = (DB.updateCCTVHash d.table msg.id hash run.db).2)
    (hx : Executes d.table (DB.hashClauses hash) msg.id run.db) :
    Schema (step d (msg, run)).table ∧ Agree (step d (msg, run)) := by
  obtain ⟨t', hu, he⟩ := exec_executes hx
  have ht' : (step d (msg, run)).table = t' := by
    rw [ht, DB.updateCCTVHash, he]
    rfl
  refine ⟨ht' ▸ hs.update hu, ?_⟩
  rw [agree_writes hw h (ht' ▸ get_updateHash hs hu)]
  intro c row hc hr
  have hold := h _ c row hc hr
  have hne : ∀ k : Text, k ≠ "HASH".toList →
      Function.update row.cells "HASH".toList hash.val k = row.cells k :=
    fun k hk => Function.update_of_ne hk _ _
  exact ⟨Function.update_self "HASH".toList hash.val row.cells, (hne _ (by decide)).trans hold.ip,
    (hne _ (by decide)).trans hold.switchID, (hne _ (by decide)).trans hold.comment⟩

theorem agree_setProperties {id : ID} {config : CctvConfig} {flags : UInt32} {c : Cctv}
    (hs : Schema d.table) (h : Agree d) (hg : d.getCCTV id = some c)
    (hx : Executes d.table (DB.propertyClauses config flags) id run.db)
    (hplain : DB.hasField flags DB.cctvFieldComment = true → PlainComment config.comment.val) :
    Schema (step d (.setProperties id config flags, run)).table ∧
      Agree (step d (.setProperties id config flags, run)) := by
  obtain ⟨t', hu, he⟩ := exec_executes hx
  have ht : (step d (.setProperties id config flags, run)).table = t' := by
    simp [step, handle, onSetCCTVProperties, hg, DB.setCCTVProperties, he]
  refine ⟨ht ▸ hs.update hu, ?_⟩
  have hget : ∀ j, t'.get j = (d.table.get j).map (fun r => if j = id.val then
      d.table.assign r (Sql.assignments (DB.propertyClauses config flags)) else r) := by
    cases hpar : Sql.parse (DB.propertyClauses config flags) with
    | none => simp [Sql.update, hpar] at hu
    | some as => exact Sql.assignments_of_parse hpar ▸ Sql.get_update hpar hu
  rw [agree_writes rfl h (ht ▸ hget)]
  intro x row hx' hr
  exact holds_properties hs hu hplain (h _ x row hx' hr)

/-- A new status writes no row, and takes the hash from the camera when it is unregistered. -/
theorem agree_setStat_iff {id : ID} {stat : CctvStat} {time : UInt32} {hash : Hash} {c : Cctv}
    (h : Agree d) (hg : d.getCCTV id = some c) :
    (step d (.setStat id stat time hash, run)).table = d.table ∧
      (Agree (step d (.setStat id stat time hash, run)) ↔
        KeepsHash d (.setStat id stat time hash, run)) := by
  have ht : (step d (.setStat id stat time hash, run)).table = d.table := by
    obtain ⟨q, alarms, logs, he, -⟩ := onSetCCTVStat_found stat time hash run hg
    have he' : step d (.setStat id stat time hash, run) = _ := he
    rw [he']
  refine ⟨ht, ?_⟩
  have hget : ∀ j, (step d (.setStat id stat time hash, run)).table.get j =
      (d.table.get j).map (fun r => if j = id.val then r else r) := by
    intro j
    simp [ht]
  rw [agree_writes rfl h hget]
  cases stat with
  | unregistered =>
    constructor
    · intro ha x row hx hr
      exact (h _ x row hx hr).hash.symm.trans (ha x row hx hr).hash
    · intro hk x row hx hr
      have hold := h _ x row hx hr
      exact ⟨hold.hash.trans (hk x row hx hr), hold.ip, hold.switchID, hold.comment⟩
  | normal | abnormal | unused =>
    refine iff_of_true ?_ trivial
    intro x row hx hr
    have hold := h _ x row hx hr
    exact ⟨hold.hash, hold.ip, hold.switchID, hold.comment⟩

/-- Without its camera a message changes nothing. -/
theorem keepsHash_unknown {msg : CctvMsg} (hg : d.getCCTV msg.id = none) :
    KeepsHash d (msg, run) := by
  cases msg with
  | setStat id stat time hash =>
    cases stat <;> try trivial
    intro c row hc
    rw [show d.getCCTV id = none from hg] at hc
    cases hc
  | _ => trivial

theorem agree_step {e : CctvMsg × CatchbRun} (hs : Schema d.table) (h : Agree d)
    (hp : Plain d e) :
    Schema (step d e).table ∧ (Agree (step d e) ↔ KeepsHash d e) := by
  obtain ⟨msg, run⟩ := e
  have hw : (writes msg).isSome = true := by
    cases msg <;> first | rfl | exact False.elim hp
  cases hg : d.getCCTV msg.id with
  | none =>
    rw [step_unknown hw hg]
    exact ⟨hs, iff_of_true h (keepsHash_unknown hg)⟩
  | some c =>
    have hsome : (d.getCCTV msg.id).isSome = true := Option.isSome_iff_exists.mpr ⟨c, hg⟩
    cases msg with
    | register id hash =>
      have ht : (step d (.register id hash, run)).table =
          (DB.updateCCTVHash d.table id hash run.db).2 := by
        simp only [CctvMsg.id] at hg
        simp [step, handle, onCCTVRegister, hg]
      obtain ⟨hs', ha'⟩ := agree_hash hs h rfl ht (hp hsome)
      exact ⟨hs', iff_of_true ha' trivial⟩
    | hashUpdated id hash =>
      have ht : (step d (.hashUpdated id hash, run)).table =
          (DB.updateCCTVHash d.table id hash run.db).2 := by
        simp only [CctvMsg.id] at hg
        simp [step, handle, onSetCCTVHash, hg, DB.updateCCTVHash, attach]
      obtain ⟨hs', ha'⟩ := agree_hash hs h rfl ht (hp hsome)
      exact ⟨hs', iff_of_true ha' trivial⟩
    | setProperties id config flags =>
      obtain ⟨hx, hplain⟩ := hp hsome
      obtain ⟨hs', ha'⟩ := agree_setProperties hs h hg hx hplain
      exact ⟨hs', iff_of_true ha' trivial⟩
    | setStat id stat time hash =>
      obtain ⟨ht, hiff⟩ := agree_setStat_iff h hg
      exact ⟨ht ▸ hs, hiff⟩
    | create => exact False.elim hp
    | delete => exact False.elim hp
    | found => exact False.elim hp
    | removed => exact False.elim hp

def Sound (d : Daemon) : Prop := Schema d.table ∧ Agree d

theorem sound_step (d : Daemon) (e : CctvMsg × CatchbRun) (h : Sound d)
    (hpk : Plain d e ∧ KeepsHash d e) : Sound (step d e) := by
  obtain ⟨hs', ha⟩ := agree_step h.1 h.2 hpk.1
  exact ⟨hs', ha.mpr hpk.2⟩

/-- In a run whose statements are executed as written, memory and table agree throughout
exactly if no camera with a hash loses its registration. -/
theorem memory_agrees_with_table_iff {es : List (CctvMsg × CatchbRun)} (hs : Schema d.table)
    (h : Agree d) (hp : Admitted step Plain d es) :
    (∀ t ∈ states step d es, Agree t) ↔ Admitted step KeepsHash d es := by
  have hboth : Admitted step (fun d e => Plain d e ∧ Agree (step d e)) d es ↔
      Admitted step (fun d e => Plain d e ∧ KeepsHash d e) d es := by
    apply admitted_congr sound_step _ ⟨hs, h⟩
    rintro d e ⟨hs, h⟩
    exact and_congr_right (fun hp => (agree_step hs h hp).2)
  rw [admitted_and, admitted_and] at hboth
  rw [forall_states_iff]
  constructor
  · intro ha
    exact (hboth.mp ⟨hp, ha⟩).2
  · intro hk
    exact (hboth.mpr ⟨hp, hk⟩).2

/-- One camera, created and so in both places. -/
def stored : Daemon := ((Daemon.start [hall] DB.createCCTVTable).handle .smooth (.create porch)).2

theorem stored_schema : Schema stored.table := ⟨rfl, rfl⟩

theorem stored_agree : Agree stored := by
  intro id c row hc hr
  have hcs : stored.cctvs = [⟨porch, false⟩] := rfl
  have hc' : c = ⟨porch, false⟩ := List.mem_singleton.mp (hcs ▸ Keyed.get_mem hc)
  have hrow : row ∈ stored.table.rows := Keyed.get_mem hr
  obtain ⟨row', hrs, hrow'⟩ : ∃ row', stored.table.rows = [row'] ∧ Holds row' porch :=
    ⟨_, rfl, rfl, rfl, rfl, rfl⟩
  rw [hrs, List.mem_singleton] at hrow
  subst hc' hrow
  exact hrow'

theorem registration_kept : Agree (step stored (.register porch.id porchHash, .smooth)) := by
  have hp : Admitted step Plain stored [(.register porch.id porchHash, .smooth)] :=
    ⟨fun _ => ⟨rfl, by decide, rfl⟩, trivial⟩
  exact (memory_agrees_with_table_iff stored_schema stored_agree hp).mpr ⟨trivial, trivial⟩ _
    List.mem_cons_self

/-- A reset clears the hash in memory, and the next start reads the old one from the table. -/
theorem reset_keeps_stored_hash :
    ¬ ∀ d ∈ states step stored [(.register porch.id porchHash, .smooth),
      (.setStat porch.id .unregistered 9 (Field.empty 48), .smooth)], Agree d := by
  intro h
  have hlast := (h _ (List.mem_cons_of_mem _ List.mem_cons_self) porch.id _ _ rfl rfl).hash
  exact absurd hlast (by decide)

end Catchb.Proofs.Persist
