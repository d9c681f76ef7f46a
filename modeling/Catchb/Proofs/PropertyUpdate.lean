import Catchb.Proofs.Persist

/-! When the statement for a camera's properties sets what its flags name. -/

namespace Catchb.Proofs.PropertyUpdate
open Lib Sql DB Persist

def cctvFieldID : UInt32 := 1
def cctvFieldTime : UInt32 := (1 : UInt32) <<< 4

/-- The flags with their columns and what these are to hold. -/
def fields (config : CctvConfig) : List (UInt32 × Text × Text) :=
  [(cctvFieldID, "_ID".toList, config.id.val), (cctvFieldIP, "_IP".toList, config.ip.val),
    (cctvFieldSwitchID, "_SWITCH_ID".toList, config.switchID.val),
    (cctvFieldComment, "_COMMENT".toList, config.comment.val),
    (cctvFieldTime, "_TIME".toList, decimal config.time.toBitVec.toInt),
    (cctvFieldHash, "HASH".toList, config.hash.val),
    (cctvFieldStat, "STAT".toList, decimal config.stat.code)]

/-- A row with the flagged columns set. -/
def withFields (config : CctvConfig) (flags : UInt32) (r : Row) : Row :=
  { r with
    cells := fun c => (fields config).foldl
      (fun v f => if hasField flags f.1 = true ∧ c = f.2.1 then f.2.2 else v) (r.cells c) }

/-- The table as it is created, with any rows. -/
structure Created (t : Table) : Prop extends Schema t where
  unique : (t.rows.map (fun r => r.cells t.key)).Nodup

/-- In every table the statement sets the flagged columns in the row of the ID. -/
def Correct (config : CctvConfig) (flags : UInt32) (id : Text) : Prop :=
  ∀ t, Created t → ∀ other,
    Sql.exec t (.update (propertyClauses config flags) id) other =
      some { t with rows := t.rows.map (fun r =>
        if r.cells t.key = id then withFields config flags r else r) }

/-- The comment is a string to the database, or names the column that holds the same text. -/
def Literal (comment id : Text) : Prop :=
  '"' ∉ comment ∧ isRowid comment = false ∧
    (createCCTVTable.column comment = none ∨
      createCCTVTable.column comment = some "_ID".toList ∧ id = comment)

/-- What the flags and the texts have to be. -/
structure Sayable (config : CctvConfig) (flags : UInt32) (id : Text) : Prop where
  hash : hasField flags cctvFieldHash = false
  stat : hasField flags cctvFieldStat = false
  time : hasField flags cctvFieldTime = false
  name : hasField flags cctvFieldID = true → config.id.val = id
  commas : hasField flags cctvFieldIP = true ∨
    hasField flags cctvFieldSwitchID ≠ hasField flags cctvFieldComment
  key : '\'' ∉ id
  ip : hasField flags cctvFieldIP = true → '\'' ∉ config.ip.val
  switchID : hasField flags cctvFieldSwitchID = true → '\'' ∉ config.switchID.val
  comment : hasField flags cctvFieldComment = true → Literal config.comment.val id

variable {t t' : Table} {config : CctvConfig} {flags : UInt32} {id : Text}

theorem closed_laterClause (field : UInt32) (column : Text) (value : Expr) :
    (laterClause flags field column value).all Clause.closed =
      (!hasField flags field || value.closed) := by
  rw [laterClause]
  cases hasField flags field with
  | false => rfl
  | true => cases hasField flags cctvFieldIP <;> simp [Clause.closed]

/-- Each literal ends at its own quote. -/
theorem closed_propertyClauses :
    (propertyClauses config flags).all Clause.closed = true ↔
      (hasField flags cctvFieldIP = true → '\'' ∉ config.ip.val) ∧
      (hasField flags cctvFieldSwitchID = true → '\'' ∉ config.switchID.val) ∧
      (hasField flags cctvFieldComment = true → '"' ∉ config.comment.val) ∧
      (hasField flags cctvFieldHash = true → '\'' ∉ config.hash.val) := by
  have hip : (if hasField flags cctvFieldIP = true then
      [Clause.assign "_IP".toList (.quoted config.ip.val)] else []).all Clause.closed =
      (!hasField flags cctvFieldIP || (Expr.quoted config.ip.val).closed) := by
    cases hasField flags cctvFieldIP <;> simp [Clause.closed]
  rw [propertyClauses, List.all_append, List.all_append, List.all_append, List.all_append, hip]
  have hflag (b : Bool) (p : Prop) : (b = false ∨ p) ↔ (b = true → p) := by
    cases b <;> simp
  simp [closed_laterClause, Expr.closed, hflag, and_assoc]

/-- A comma stands between two assignments only where the first is that of the address. -/
theorem parse_propertyClauses (hhash : hasField flags cctvFieldHash = false)
    (hstat : hasField flags cctvFieldStat = false) :
    (parse (propertyClauses config flags)).isSome = true ↔
      hasField flags cctvFieldIP = true ∨
        hasField flags cctvFieldSwitchID ≠ hasField flags cctvFieldComment := by
  simp only [propertyClauses, laterClause, hhash, hstat]
  cases hasField flags cctvFieldIP <;> cases hasField flags cctvFieldSwitchID <;>
    cases hasField flags cctvFieldComment <;> simp [parse]

theorem withFields_cells (config : CctvConfig) (flags : UInt32) (r : Row) (k : Text) :
    (withFields config flags r).cells k =
      if hasField flags cctvFieldStat = true ∧ k = "STAT".toList then decimal config.stat.code
      else if hasField flags cctvFieldHash = true ∧ k = "HASH".toList then config.hash.val
      else if hasField flags cctvFieldTime = true ∧ k = "_TIME".toList then
        decimal config.time.toBitVec.toInt
      else if hasField flags cctvFieldComment = true ∧ k = "_COMMENT".toList then
        config.comment.val
      else if hasField flags cctvFieldSwitchID = true ∧ k = "_SWITCH_ID".toList then
        config.switchID.val
      else if hasField flags cctvFieldIP = true ∧ k = "_IP".toList then config.ip.val
      else if hasField flags cctvFieldID = true ∧ k = "_ID".toList then config.id.val
      else r.cells k := rfl

theorem Schema.column_created (hs : Schema t) (name : Text) :
    t.column name = createCCTVTable.column name := hs.column name

theorem Literal.value (hs : Schema t) {comment : Text} (h : Literal comment id) {r : Row}
    (hr : r.cells t.key = id) : (Expr.doubleQuoted comment).value t r = comment := by
  obtain ⟨-, hrowid, hnone | ⟨hkey, rfl⟩⟩ := h
  · simp [Expr.value, Schema.column_created hs, hnone, hrowid]
  · rw [hs.key] at hr
    simp only [Expr.value, Schema.column_created hs, hkey, hr]

/-- The row that the statement makes is the one that it should. -/
theorem assign_eq (hs : Schema t) (h : Sayable config flags id) {r : Row}
    (hr : r.cells t.key = id) :
    t.assign r (assignments (propertyClauses config flags)) = withFields config flags r := by
  have hcells : (t.assign r (assignments (propertyClauses config flags))).cells =
      (withFields config flags r).cells := by
    funext k
    have hname : (if hasField flags cctvFieldID = true ∧ k = "_ID".toList then config.id.val
        else r.cells k) = r.cells k := by
      split
      · rename_i hk
        rw [hk.2, ← hs.key, hr]
        exact h.name hk.1
      · rfl
    have hunset {b : Bool} (hb : b = false) (c : Text) : ¬(b = true ∧ k = c) :=
      fun hk => Bool.false_ne_true (hb.symm.trans hk.1)
    rw [property_cells hs, withFields_cells, hname, if_neg (hunset h.stat _),
      if_neg (hunset h.hash _), if_neg (hunset h.time _)]
    by_cases hco : hasField flags cctvFieldComment = true ∧ k = "_COMMENT".toList
    · rw [if_pos hco, if_pos hco]
      exact (h.comment hco.1).value hs hr
    · rw [if_neg hco, if_neg hco]
  exact congrArg₂ Row.mk (assign_rowid r) hcells

theorem assignable_if (hs : Schema t) {name : Text}
    (hcolumn : createCCTVTable.column name = some name)
    (hne : name ≠ "_ID".toList) (b : Bool) (e : Expr) :
    (if b = true then [(name, e)] else []).all t.assignable = true := by
  cases b with
  | false => rfl
  | true => simpa [Table.assignable, Schema.column_created hs, hcolumn, hs.key] using hne

/-- An accepted statement flags no column that the table does not have. -/
theorem assignable_iff (hs : Schema t) :
    (assignments (propertyClauses config flags)).all t.assignable = true ↔
      hasField flags cctvFieldHash = false ∧ hasField flags cctvFieldStat = false := by
  have hha : t.column "_HASH".toList = none := hs.column _
  have hst : t.column "_STAT".toList = none := hs.column _
  have hunknown {name : Text} (hnone : t.column name = none) (b : Bool) (e : Expr) :
      (if b = true then [(name, e)] else []).all t.assignable = !b := by
    cases b <;> simp [Table.assignable, hnone]
  rw [assignments_propertyClauses, List.all_append, List.all_append, List.all_append,
    List.all_append, List.all_append, assignable_if hs rfl (by decide),
    assignable_if hs rfl (by decide), assignable_if hs rfl (by decide), hunknown hha,
    hunknown hst]
  simp

theorem Sayable.correct (h : Sayable config flags id) : Correct config flags id := by
  intro t hcreated other
  have hs := hcreated.toSchema
  have hclosed : (Stmt.update (propertyClauses config flags) id).closed = true := by
    rw [Stmt.closed, Bool.and_eq_true, closed_propertyClauses]
    refine ⟨⟨h.ip, h.switchID, fun hf => (h.comment hf).1, ?_⟩, ?_⟩
    · exact fun hf => absurd (h.hash.symm.trans hf) Bool.false_ne_true
    · simpa [Expr.closed] using h.key
  obtain ⟨as, has⟩ : ∃ as, parse (propertyClauses config flags) = some as :=
    Option.isSome_iff_exists.mp ((parse_propertyClauses h.hash h.stat).mpr h.commas)
  have hassign := assignments_of_parse has
  have hall : as.all t.assignable = true := by
    rw [hassign]
    exact (assignable_iff hs).mpr ⟨h.hash, h.stat⟩
  rw [Sql.exec, hclosed, if_pos rfl, Table.apply, update, has]
  simp only [hall, ↓reduceIte]
  congr 2
  refine List.map_congr_left fun r _ => ?_
  split
  · rename_i hr
    rw [hassign]
    exact assign_eq hs h hr
  · rfl

/-- A statement that is executed whatever the database makes of others is one that it takes. -/
theorem applied_of_exec {s : Stmt} (h : Sql.exec t s none = some t') :
    s.closed = true ∧ t.apply s = some t' := by
  rw [Sql.exec] at h
  split at h
  · exact ⟨‹_›, h⟩
  · cases h

/-- A row of the ID that holds neither the comment nor the time. -/
def probe (config : CctvConfig) (id : Text) : Row where
  rowid := 0
  cells := fun c =>
    if c = "_ID".toList then id
    else '!' :: (config.comment.val ++ decimal config.time.toBitVec.toInt)

def probeTable (config : CctvConfig) (id : Text) : Table :=
  { createCCTVTable with rows := [probe config id] }

theorem probeTable_created : Created (probeTable config id) :=
  ⟨⟨rfl, rfl⟩, List.nodup_singleton _⟩

theorem probe_key : (probe config id).cells "_ID".toList = id := by
  simp only [probe, ↓reduceIte]

theorem probe_cells {c : Text} (hc : c ≠ "_ID".toList) :
    (probe config id).cells c =
      '!' :: (config.comment.val ++ decimal config.time.toBitVec.toInt) := by
  simp only [probe, hc, ↓reduceIte]

theorem probe_ne_comment {c : Text} (hc : c ≠ "_ID".toList) :
    (probe config id).cells c ≠ config.comment.val := by
  intro he
  rw [probe_cells hc] at he
  have hlength := congrArg List.length he
  rw [List.length_cons, List.length_append] at hlength
  omega

theorem probe_ne_time {c : Text} (hc : c ≠ "_ID".toList) :
    (probe config id).cells c ≠ decimal config.time.toBitVec.toInt := by
  intro he
  rw [probe_cells hc] at he
  have hlength := congrArg List.length he
  rw [List.length_cons, List.length_append] at hlength
  omega

/-- What the statement must be to set the probe right. -/
structure Accepted (config : CctvConfig) (flags : UInt32) (id : Text) : Prop where
  closed : (Stmt.update (propertyClauses config flags) id).closed = true
  parsed : (parse (propertyClauses config flags)).isSome = true
  hash : hasField flags cctvFieldHash = false
  stat : hasField flags cctvFieldStat = false
  row : (probeTable config id).assign (probe config id)
      (assignments (propertyClauses config flags)) = withFields config flags (probe config id)

theorem Correct.accepted (h : Correct config flags id) : Accepted config flags id := by
  have hs : Schema (probeTable config id) := probeTable_created.toSchema
  obtain ⟨hclosed, happly⟩ := applied_of_exec (h _ probeTable_created none)
  rw [Table.apply, update] at happly
  cases hparse : parse (propertyClauses config flags) with
  | none => simp [hparse] at happly
  | some as =>
    have hassign := assignments_of_parse hparse
    simp only [hparse] at happly
    split at happly
    · rename_i hall
      rw [hassign, assignable_iff hs] at hall
      have hrows := congrArg Table.rows (Option.some.inj happly)
      have hfirst : (if (probe config id).cells "_ID".toList = id then
            (probeTable config id).assign (probe config id) as else probe config id) =
          if (probe config id).cells "_ID".toList = id then
            withFields config flags (probe config id) else probe config id :=
        (List.cons.inj hrows).1
      rw [if_pos probe_key, if_pos probe_key, hassign] at hfirst
      exact ⟨hclosed, by rw [hparse]; rfl, hall.1, hall.2, hfirst⟩
    · cases happly

theorem Accepted.cells (h : Accepted config flags id) (k : Text) :
    (if hasField flags cctvFieldComment = true ∧ k = "_COMMENT".toList then
        (Expr.doubleQuoted config.comment.val).value (probeTable config id) (probe config id)
      else if hasField flags cctvFieldSwitchID = true ∧ k = "_SWITCH_ID".toList then
        config.switchID.val
      else if hasField flags cctvFieldIP = true ∧ k = "_IP".toList then config.ip.val
      else (probe config id).cells k) = (withFields config flags (probe config id)).cells k := by
  rw [← h.row, property_cells probeTable_created.toSchema]

theorem Accepted.time (h : Accepted config flags id) : hasField flags cctvFieldTime = false := by
  by_contra htime
  rw [Bool.not_eq_false] at htime
  have hcell := h.cells "_TIME".toList
  rw [withFields_cells] at hcell
  iterate 5 rw [if_neg (fun hk => absurd hk.2 (by decide))] at hcell
  rw [if_pos ⟨htime, rfl⟩] at hcell
  exact probe_ne_time (by decide) hcell

theorem Accepted.name (h : Accepted config flags id) (hid : hasField flags cctvFieldID = true) :
    config.id.val = id := by
  have hcell := h.cells "_ID".toList
  rw [withFields_cells] at hcell
  iterate 9 rw [if_neg (fun hk => absurd hk.2 (by decide))] at hcell
  rw [if_pos ⟨hid, rfl⟩, probe_key] at hcell
  exact hcell.symm

theorem isRowid_of_key {name : Text}
    (h : createCCTVTable.column name = some "_ID".toList) : isRowid name = false := by
  have hsame : strcasecmp "_ID".toList name = true :=
    List.find?_some (p := fun c => strcasecmp c name) h
  have hlower := strcasecmp_iff.mp hsame
  simp only [isRowid, strcasecmp, ← hlower]
  decide

theorem Accepted.literal (h : Accepted config flags id)
    (hcomment : hasField flags cctvFieldComment = true) : Literal config.comment.val id := by
  have hclosed := h.closed
  rw [Stmt.closed, Bool.and_eq_true, closed_propertyClauses] at hclosed
  refine ⟨hclosed.1.2.2.1 hcomment, ?_⟩
  have hcell := h.cells "_COMMENT".toList
  rw [withFields_cells, if_pos ⟨hcomment, rfl⟩] at hcell
  iterate 3 rw [if_neg (fun hk => absurd hk.2 (by decide))] at hcell
  rw [if_pos ⟨hcomment, rfl⟩, Expr.value,
    Schema.column_created probeTable_created.toSchema] at hcell
  cases hcolumn : createCCTVTable.column config.comment.val with
  | some c =>
    rw [hcolumn] at hcell
    have hc : c = "_ID".toList := by
      by_contra hne
      exact probe_ne_comment hne hcell
    rw [hc] at hcell hcolumn ⊢
    have hkey : id = config.comment.val := probe_key.symm.trans hcell
    exact ⟨isRowid_of_key hcolumn, .inr ⟨rfl, hkey⟩⟩
  | none =>
    rw [hcolumn] at hcell
    refine ⟨?_, .inl rfl⟩
    by_contra hrowid
    rw [Bool.not_eq_false] at hrowid
    simp only [hrowid, ↓reduceIte] at hcell
    rw [← hcell] at hrowid
    change isRowid (decimal ((0 : Nat) : Int)) = true at hrowid
    exact absurd hrowid (by decide)

/-- The statement is right only where the flags and the texts are sayable in it. -/
theorem correct_iff (id : ID) : Correct config flags id.val ↔ Sayable config flags id.val := by
  refine ⟨fun h => ?_, Sayable.correct⟩
  have ha := h.accepted
  have hclosed := ha.closed
  rw [Stmt.closed, Bool.and_eq_true, closed_propertyClauses] at hclosed
  obtain ⟨⟨hip, hswitchID, -, -⟩, hkey⟩ := hclosed
  exact ⟨ha.hash, ha.stat, ha.time, ha.name, (parse_propertyClauses ha.hash ha.stat).mp ha.parsed,
    by simpa [Expr.closed] using hkey, hip, hswitchID, ha.literal⟩

/-- A camera at an address. -/
def lobby : CctvConfig where
  id := Field.copy _ "lobby".toList
  ip := Field.copy _ "10.1.1.9".toList
  switchID := Field.empty _
  comment := Field.empty _
  time := 0
  hash := Field.empty _
  stat := .normal

/-- The comment and the switch are set together, and there is no comma between them. -/
theorem two_fields_refused :
    ¬Correct lobby (cctvFieldSwitchID ||| cctvFieldComment) lobby.id.val := by
  intro h
  exact absurd h.accepted.parsed (by decide)

end Catchb.Proofs.PropertyUpdate
