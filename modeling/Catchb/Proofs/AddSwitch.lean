import Catchb.SwitchStore

/-! What the addition of a switch leaves in the list and in the database. -/

namespace Catchb.Proofs.AddSwitch
open Lib

variable {engine : Engine} {s s' : SwitchStore} {config : SwitchConfig} {run : AddRun} {id : ID}
  {acTables : Catalog SwitchAc}

/-- The switch is in the list and in the table, and has an AC table that is new and empty. -/
structure Added (s s' : SwitchStore) (id : ID) : Prop where
  listed : ∃ sw ∈ s'.switches, sw.key = id
  row : (s'.table.table.get id.val).isSome = true
  fresh : ∃ t, s'.acTables.find (DB.acTableName id.val) = some t ∧ t.rows = [] ∧
    s.acTables.made ≤ t.made

/-- The ID is new, and there is memory for the switch. -/
structure Admits (s : SwitchStore) (config : SwitchConfig) (run : AddRun) : Prop where
  named : config.id.val ≠ []
  new : Keyed.get Switch.key config.id s.switches = none
  alloc : run.create.alloc = true
  list : run.create.list = true
  append : run.append = true

/-- The values of the switch's row. -/
def values (config : SwitchConfig) (run : AddRun) : List (Text × Sql.Expr) :=
  DB.switchValues config run.pEncryptedID run.pEncryptedPasswd

/-- The insertion, as the database answers it. -/
def inserted (s : SwitchStore) (config : SwitchConfig) (run : AddRun) : Ret × DB.SwitchTable :=
  DB.addSwitch s.table config run.pEncryptedID run.pEncryptedPasswd run.addSwitch

/-- The name of the AC table names that table. -/
def Names (engine : Engine) (id : ID) : Prop :=
  ∃ name, engine (DB.acTableName id.val) = some name ∧
    lower name = lower (DB.acTableName id.val)

/-- An old AC table is found and dropped. -/
structure Drops (engine : Engine) (id : ID) (run : AddRun) : Prop where
  names : Names engine id
  listed : run.destroyAC.listed = true
  runs : run.destroyAC.runs = true

/-- Every operation on the AC table does what it is for. -/
structure Renews (engine : Engine) (acTables : Catalog SwitchAc) (id : ID) (run : AddRun) :
    Prop where
  listed : run.listed = true
  drops : DB.acTableName id.val ∈ acTables.names → Drops engine id run
  free : DB.acTableName id.val ∉ acTables.names → acTables.find (DB.acTableName id.val) = none
  names : Names engine id
  runs : run.createAC.runs = true

/-- An operation on the AC table reports its failure. -/
def Reverts (engine : Engine) (acTables : Catalog SwitchAc) (id : ID) (run : AddRun) : Prop :=
  DB.acTableName id.val ∈ acTables.names ∧
    (run.listed = true ∧ run.destroyAC.listed = false ∨
      run.createAC.listed = true ∧ ¬(run.listed = true ∧ Drops engine id run))

/-- The undo of the insertion is called. -/
structure Undone (engine : Engine) (s : SwitchStore) (config : SwitchConfig) (run : AddRun) :
    Prop where
  admits : Admits s config run
  inserts : (inserted s config run).1 = .ok
  reverts : Reverts engine s.acTables config.id run

/-- The undo of the insertion is executed. -/
def Undoes (config : SwitchConfig) (run : AddRun) : Prop :=
  run.deleteSwitch.answers = true ∧
    ((Sql.Stmt.delete config.id.val).closed = true ∨ run.deleteSwitch.other.isSome = true)

/-- The insertion is several statements and fails after it has changed the table. -/
structure Spoils (s : SwitchStore) (config : SwitchConfig) (run : AddRun) : Prop where
  answers : run.addSwitch.answers = true
  opened : (Sql.Stmt.insert (values config run)).closed = false
  refused : run.addSwitch.other = none
  changed : run.addSwitch.left ≠ s.table

/-- The insertion leaves a row for the ID, as it does unless its text is another statement. -/
def Keeps (config : SwitchConfig) (run : AddRun) : Prop :=
  (Sql.Stmt.insert (values config run)).closed = false →
    ∀ t, run.addSwitch.other = some t → (t.table.get config.id.val).isSome = true

/-- Every step does what it is for. -/
structure Succeeds (engine : Engine) (s : SwitchStore) (config : SwitchConfig) (run : AddRun) :
    Prop where
  admits : Admits s config run
  inserts : (inserted s config run).1 = .ok
  renews : Renews engine s.acTables config.id run

/-- OK means that the switch is added, and a failure is reported and leaves list and table. -/
structure AllOrNothing (engine : Engine) (s : SwitchStore) (config : SwitchConfig) (run : AddRun) :
    Prop where
  all : (s.addSwitch engine config run).1 = .ok ↔
    Added s (s.addSwitch engine config run).2 config.id
  nothing : ¬Succeeds engine s config run →
    (Undone engine s config run → Undoes config run) →
    (s.addSwitch engine config run).1 ≠ .ok ∧
      (s.addSwitch engine config run).2.switches = s.switches ∧
      (s.addSwitch engine config run).2.table = s.table

theorem not_added (h : s'.acTables = s.acTables) : ¬Added s s' id := by
  intro hadded
  obtain ⟨t, hfind, -, hmade⟩ := hadded.fresh
  rw [h] at hfind
  have holder := s.acTables.older t (Keyed.get_mem hfind)
  omega

theorem create_found (hnames : Names engine id) (hnone : acTables.find (DB.acTableName id.val) = none)
    {table : TableRun} (hruns : table.runs = true) :
    ∃ c t, AcTables.create engine acTables id.val table = (.ok, c) ∧
      c.find (DB.acTableName id.val) = some t ∧ t.rows = [] ∧ t.made = acTables.made := by
  obtain ⟨name, hname, hlower⟩ := hnames
  have hfree : acTables.find name = none := (Catalog.find_congr hlower).trans hnone
  have hmem := Catalog.not_mem_names_of_find hnone
  refine ⟨acTables.create name, ⟨name, acTables.made, []⟩, ?_, ?_, rfl, rfl⟩
  · unfold AcTables.create
    cases table.listed with
    | false => simp only [AcTables.isExist_unlisted, hname, hruns, ↓reduceIte]
    | true => simp only [AcTables.isExist_listed, hmem, decide_false, hname, hruns, ↓reduceIte]
  · rw [← Catalog.find_congr hlower]
    exact Catalog.find_create_new hfree

theorem destroy_unlisted {table : TableRun} (h : table.listed = false) :
    AcTables.destroy engine acTables id.val table = (.dbTableNotExist, acTables) := by
  simp only [AcTables.destroy, h, AcTables.isExist_unlisted]

theorem destroy_drops {run : AddRun} (hmem : DB.acTableName id.val ∈ acTables.names)
    (h : Drops engine id run) : ∃ c, AcTables.destroy engine acTables id.val run.destroyAC =
      (.ok, c) ∧ c.find (DB.acTableName id.val) = none ∧ c.made = acTables.made := by
  obtain ⟨⟨name, hname, hlower⟩, hlisted, hruns⟩ := h
  refine ⟨acTables.drop name, ?_, ?_, rfl⟩
  · simp only [AcTables.destroy, hlisted, AcTables.isExist_listed, hmem, decide_true, hname, hruns,
      ↓reduceIte]
  · rw [← Catalog.find_congr hlower]
    exact Catalog.find_drop_same acTables name

/-- What is not dropped stays listed. -/
theorem destroy_keeps {run : AddRun} (hmem : DB.acTableName id.val ∈ acTables.names)
    (hlisted : run.destroyAC.listed = true) (h : ¬Drops engine id run) :
    ∃ c, AcTables.destroy engine acTables id.val run.destroyAC = (.ok, c) ∧
      DB.acTableName id.val ∈ c.names := by
  simp only [AcTables.destroy, hlisted, AcTables.isExist_listed, hmem, decide_true]
  cases hname : engine (DB.acTableName id.val) with
  | none => exact ⟨acTables, rfl, hmem⟩
  | some name =>
    cases hruns : run.destroyAC.runs with
    | false => exact ⟨acTables, rfl, hmem⟩
    | true =>
      refine ⟨acTables.drop name, rfl, (Catalog.mem_names_drop ?_).mpr hmem⟩
      intro hlower
      exact h ⟨⟨name, hname, hlower.symm⟩, hlisted, hruns⟩

/-- The renewal reports a failure exactly when one of its two operations does. -/
theorem renew_ret : (SwitchStore.renewACTable engine acTables id run).1 = .ok ↔
    ¬Reverts engine acTables id run := by
  unfold SwitchStore.renewACTable Reverts
  by_cases hmem : DB.acTableName id.val ∈ acTables.names
  · cases hlisted : run.listed with
    | false =>
      simp only [AcTables.isExist_unlisted, ne_eq, not_true_eq_false, ↓reduceIte, AcTables.create_ret, hmem]
      simp
    | true =>
      simp only [AcTables.isExist_listed, hmem, decide_true]
      cases hfound : run.destroyAC.listed with
      | false => simp [destroy_unlisted hfound]
      | true =>
        by_cases hdrops : Drops engine id run
        · obtain ⟨c, heq, hnone, -⟩ := destroy_drops hmem hdrops
          have hgone := Catalog.not_mem_names_of_find hnone
          simp [heq, AcTables.create_ret, hgone, hdrops]
        · obtain ⟨c, heq, hstays⟩ := destroy_keeps hmem hfound hdrops
          simp [heq, AcTables.create_ret, hstays, hdrops]
  · cases run.listed with
    | false => simp [AcTables.isExist_unlisted, AcTables.create_ret, hmem]
    | true => simp [AcTables.isExist_listed, AcTables.create_ret, hmem]

theorem renew_fresh (h : Renews engine acTables id run) : ∃ c t,
    SwitchStore.renewACTable engine acTables id run = (.ok, c) ∧
      c.find (DB.acTableName id.val) = some t ∧ t.rows = [] ∧ acTables.made ≤ t.made := by
  unfold SwitchStore.renewACTable
  rw [h.listed, AcTables.isExist_listed]
  by_cases hmem : DB.acTableName id.val ∈ acTables.names
  · obtain ⟨c, heq, hnone, hmade⟩ := destroy_drops hmem (h.drops hmem)
    obtain ⟨c', t, hcreate, hfind, hrows, hnew⟩ := create_found h.names hnone h.runs
    refine ⟨c', t, ?_, hfind, hrows, Nat.le_of_eq (hmade ▸ hnew.symm)⟩
    simp only [hmem, decide_true, heq, ne_eq, not_true_eq_false, ↓reduceIte, hcreate]
  · obtain ⟨c', t, hcreate, hfind, hrows, hnew⟩ := create_found h.names (h.free hmem) h.runs
    refine ⟨c', t, ?_, hfind, hrows, Nat.le_of_eq hnew.symm⟩
    simp only [hmem, decide_false, ne_eq, not_true_eq_false, ↓reduceIte, hcreate]

/-- A switch that there is no memory for changes nothing. -/
theorem addSwitch_refused (engine : Engine) (h : ¬Admits s config run) :
    ∃ ret, ret ≠ .ok ∧ s.addSwitch engine config run = (ret, s) := by
  unfold SwitchStore.addSwitch
  by_cases hid : config.id.val = []
  · exact ⟨.invalidArguments, nofun, by simp [hid]⟩
  · have hlen : ¬config.id.val.length = 0 := fun hzero => hid (List.length_eq_zero_iff.mp hzero)
    rw [if_neg hlen]
    cases hget : Keyed.get Switch.key config.id s.switches with
    | some sw => exact ⟨.objectAlreadyExist, nofun, rfl⟩
    | none =>
      cases halloc : run.create.alloc with
      | false => exact ⟨.notEnoughMemory, nofun, by simp [createSwitch, halloc]⟩
      | true =>
        cases hlist : run.create.list with
        | false => exact ⟨.notEnoughMemory, nofun, by simp [createSwitch, halloc, hlist]⟩
        | true =>
          cases happend : run.append with
          | false =>
            exact ⟨.notEnoughMemory, nofun, by
              simp [createSwitch, halloc, hlist, createACs, Except.map]⟩
          | true => exact absurd ⟨hid, hget, halloc, hlist, happend⟩ h

/-- What follows once there is memory for the switch. -/
theorem addSwitch_admitted (h : Admits s config run) : s.addSwitch engine config run =
    match inserted s config run with
    | (.ok, table) =>
      match SwitchStore.renewACTable engine s.acTables config.id run with
      | (.ok, acTables) => (.ok, ⟨s.switches ++ [⟨config, [], []⟩], table, acTables⟩)
      | (_, acTables) => SwitchStore.undoSwitch { s with table, acTables } config.id run
    | (ret, table) => (ret, { s with table }) := by
  have hlen : ¬config.id.val.length = 0 :=
    fun hzero => h.named (List.length_eq_zero_iff.mp hzero)
  simp only [SwitchStore.addSwitch, hlen, ↓reduceIte, h.new, createSwitch, h.alloc, h.list,
    createACs, h.append, Option.map_some, Except.map, Bool.not_true, Bool.false_eq_true]
  rfl

theorem key_assigned (t : DB.SwitchTable) (r : Sql.Row) :
    (t.table.assign r (values config run)).cells t.table.key = config.id.val := by
  have hid : "_ID".toList ∈ DB.switchColumns := List.mem_cons_self
  have hkey : t.table.column "_ID".toList = some t.table.key := by
    rw [t.column_eq hid, t.key]
  have hrest : (values config run).tail.all t.table.assignable = true := by
    rw [List.all_eq_true]
    intro a ha
    have hname : a.1 ∈ DB.switchColumns.tail := List.mem_map_of_mem (f := Prod.fst) ha
    have hother : a.1 ≠ "_ID".toList := by
      intro heq
      exact absurd (heq ▸ hname) (by decide +kernel)
    rw [Sql.Table.assignable, t.column_eq (List.mem_of_mem_tail hname), t.key]
    simpa using hother
  exact Sql.assign_key_first (a := ("_ID".toList, .quoted config.id.val)) hkey hrest r

/-- The row that an insertion adds has the values it is given. -/
theorem get_insert {t t' : DB.SwitchTable}
    (h : t.insert (values config run) = some t') :
    (t'.table.get config.id.val).isSome = true := by
  unfold DB.SwitchTable.insert at h
  split at h
  · cases h
  · rename_i table hins
    obtain rfl := Option.some.inj h
    simp only [Sql.insert] at hins
    split at hins
    · obtain rfl := Option.some.inj hins
      apply Keyed.get_isSome_iff_mem.mpr
      rw [List.map_append, List.map_singleton]
      apply List.mem_append_right
      rw [List.mem_singleton]
      exact (key_assigned t _).symm
    · cases hins

theorem inserted_eq (s : SwitchStore) (config : SwitchConfig) (run : AddRun) :
    inserted s config run =
      if !run.addSwitch.answers then (.dbExecError, s.table)
      else if (Sql.Stmt.insert (values config run)).closed then
        match s.table.insert (values config run) with
        | some t' => (.ok, t')
        | none => (.dbExecError, s.table)
      else
        match run.addSwitch.other with
        | some t' => (.ok, t')
        | none => (.dbExecError, run.addSwitch.left) := rfl

/-- Where an insertion is executed, the row is there unless another statement was. -/
theorem inserted_row (h : (inserted s config run).1 = .ok) :
    ((inserted s config run).2.table.get config.id.val).isSome = true ↔ Keeps config run := by
  rw [inserted_eq] at h ⊢
  cases hanswers : run.addSwitch.answers with
  | false => simp [hanswers] at h
  | true =>
    simp only [hanswers, Bool.not_true, Bool.false_eq_true, ↓reduceIte] at h ⊢
    cases hclosed : (Sql.Stmt.insert (values config run)).closed with
    | true =>
      simp only [hclosed, ↓reduceIte] at h ⊢
      have hkeeps : Keeps config run := by
        intro hopened
        rw [hclosed] at hopened
        cases hopened
      cases hins : s.table.insert (values config run) with
      | none => simp [hins] at h
      | some t' => exact iff_of_true (get_insert hins) hkeeps
    | false =>
      simp only [hclosed, Bool.false_eq_true, ↓reduceIte] at h ⊢
      cases hother : run.addSwitch.other with
      | none => simp [hother] at h
      | some t => simp [Keeps, hclosed, hother]

/-- An insertion that fails leaves the table, unless it fails halfway. -/
theorem inserted_table (h : (inserted s config run).1 ≠ .ok) :
    (inserted s config run).2 = s.table ↔ ¬Spoils s config run := by
  rw [inserted_eq] at h ⊢
  cases hanswers : run.addSwitch.answers with
  | false =>
    refine iff_of_true rfl (fun hspoils => ?_)
    rw [hspoils.answers] at hanswers
    cases hanswers
  | true =>
    simp only [hanswers, Bool.not_true, Bool.false_eq_true, ↓reduceIte] at h ⊢
    cases hclosed : (Sql.Stmt.insert (values config run)).closed with
    | true =>
      simp only [hclosed, ↓reduceIte] at h ⊢
      refine iff_of_true ?_ (fun hspoils => ?_)
      · cases hins : s.table.insert (values config run) with
        | none => rfl
        | some t' => simp [hins] at h
      · rw [hspoils.opened] at hclosed
        cases hclosed
    | false =>
      simp only [hclosed, Bool.false_eq_true, ↓reduceIte] at h ⊢
      cases hother : run.addSwitch.other with
      | some t => simp [hother] at h
      | none =>
        constructor
        · intro hsame hspoils
          exact hspoils.changed hsame
        · intro hspoils
          by_contra hchanged
          exact hspoils ⟨hanswers, hclosed, hother, hchanged⟩

theorem deleteSwitch_ret (t : DB.SwitchTable) :
    (DB.deleteSwitch t config.id run.deleteSwitch).1 = .ok ↔ Undoes config run := by
  unfold DB.deleteSwitch Undoes
  cases run.deleteSwitch.answers with
  | false => simp
  | true =>
    cases hclosed : (Sql.Stmt.delete config.id.val).closed with
    | true => simp
    | false => cases run.deleteSwitch.other <;> simp

/-- Without memory nothing happens. -/
theorem allOrNothing_refused (h : ¬Admits s config run) : AllOrNothing engine s config run := by
  obtain ⟨ret, hret, heq⟩ := addSwitch_refused engine h
  constructor
  · rw [heq]
    exact iff_of_false hret (not_added rfl)
  · intro _ _
    rw [heq]
    exact ⟨hret, rfl, rfl⟩

/-- A failing insertion is the last step. -/
theorem allOrNothing_not_inserted (h : Admits s config run)
    (hret : (inserted s config run).1 ≠ .ok) :
    AllOrNothing engine s config run ↔ ¬Spoils s config run := by
  have heq : s.addSwitch engine config run =
      ((inserted s config run).1, { s with table := (inserted s config run).2 }) := by
    rw [addSwitch_admitted h]
    split
    · rename_i hins
      exact absurd (congrArg Prod.fst hins) hret
    · rename_i hins
      rw [hins]
  rw [← inserted_table hret]
  constructor
  · intro hall
    obtain ⟨-, -, htable⟩ := hall.nothing (fun hsucceeds => hret hsucceeds.inserts)
      (fun hundone => absurd hundone.inserts hret)
    rw [heq] at htable
    exact htable
  · intro htable
    constructor
    · rw [heq]
      exact iff_of_false hret (not_added rfl)
    · intro _ _
      rw [heq]
      exact ⟨hret, rfl, htable⟩

/-- The result of the undo is returned. -/
theorem allOrNothing_reverted (h : Admits s config run) (hins : (inserted s config run).1 = .ok)
    (hreverts : Reverts engine s.acTables config.id run) :
    AllOrNothing engine s config run ↔ ¬Undoes config run := by
  have hrenew := fun hret => renew_ret.mp hret hreverts
  rcases hinserted : inserted s config run with ⟨ret, table⟩
  have hok : ret = .ok := (congrArg Prod.fst hinserted).symm.trans hins
  subst hok
  rcases hrenewed : SwitchStore.renewACTable engine s.acTables config.id run with ⟨ret, acTables⟩
  have heq : s.addSwitch engine config run =
      SwitchStore.undoSwitch { s with table, acTables } config.id run := by
    rw [addSwitch_admitted h, hinserted, hrenewed]
    cases ret with
    | ok => exact absurd (congrArg Prod.fst hrenewed) hrenew
    | _ => rfl
  have hret : (s.addSwitch engine config run).1 = .ok ↔ Undoes config run := by
    rw [heq]
    exact deleteSwitch_ret table
  have hlist : (s.addSwitch engine config run).2.switches = s.switches := by rw [heq]; rfl
  have hadded : ¬Added s (s.addSwitch engine config run).2 config.id := by
    intro hadded
    obtain ⟨sw, hmem, hkey⟩ := hadded.listed
    rw [hlist] at hmem
    exact Keyed.get_eq_none.mp h.new sw hmem hkey
  constructor
  · intro hall hundoes
    exact hadded (hall.all.mp (hret.mpr hundoes))
  · intro hundoes
    exact ⟨iff_of_false (fun hok => hundoes (hret.mp hok)) hadded,
      fun _ hundo => absurd (hundo ⟨h, hins, hreverts⟩) hundoes⟩

/-- Where no failure of the AC table is reported, OK is. -/
theorem allOrNothing_renewed (h : Admits s config run) (hins : (inserted s config run).1 = .ok)
    (hreverts : ¬Reverts engine s.acTables config.id run) :
    AllOrNothing engine s config run ↔
      Renews engine s.acTables config.id run ∧ Keeps config run := by
  have hrow := inserted_row hins
  have hrenew := renew_ret.mpr hreverts
  rcases hinserted : inserted s config run with ⟨ret, table⟩
  have hok : ret = .ok := (congrArg Prod.fst hinserted).symm.trans hins
  subst hok
  rcases hrenewed : SwitchStore.renewACTable engine s.acTables config.id run with ⟨ret, acTables⟩
  have hdone : ret = .ok := (congrArg Prod.fst hrenewed).symm.trans hrenew
  subst hdone
  have heq : s.addSwitch engine config run =
      (.ok, ⟨s.switches ++ [⟨config, [], []⟩], table, acTables⟩) := by
    rw [addSwitch_admitted h, hinserted, hrenewed]
  have hret : (s.addSwitch engine config run).1 = .ok := by rw [heq]
  rw [hinserted] at hrow
  constructor
  · intro hall
    have hadded := hall.all.mp hret
    rw [heq] at hadded
    refine ⟨?_, hrow.mp hadded.row⟩
    by_contra hrenews
    exact (hall.nothing (fun hsucceeds => hrenews hsucceeds.renews)
      (fun hundone => absurd hundone.reverts hreverts)).1 hret
  · intro hboth
    obtain ⟨hrenews, hkeeps⟩ := hboth
    obtain ⟨c, t, hc, hfresh⟩ := renew_fresh hrenews
    obtain rfl : acTables = c := congrArg Prod.snd (hrenewed.symm.trans hc)
    constructor
    · rw [heq]
      refine iff_of_true rfl ⟨⟨_, List.mem_append_right _ List.mem_cons_self, rfl⟩,
        hrow.mpr hkeeps, t, hfresh⟩
    · intro hfails
      exact absurd ⟨h, hinserted ▸ hins, hrenews⟩ hfails

/-- When the addition of a switch is all or nothing. -/
structure Sound (engine : Engine) (s : SwitchStore) (config : SwitchConfig) (run : AddRun) :
    Prop where
  fails : (inserted s config run).1 ≠ .ok → ¬Spoils s config run
  reverts : (inserted s config run).1 = .ok → Reverts engine s.acTables config.id run →
    ¬Undoes config run
  renews : (inserted s config run).1 = .ok → ¬Reverts engine s.acTables config.id run →
    Renews engine s.acTables config.id run ∧ Keeps config run

/-- The addition of a switch is all or nothing exactly when no operation on its AC table fails, or
one reports that and the undo fails as well. Its insertion has to be that of the switch's row. -/
theorem add_all_or_nothing_iff (engine : Engine) (s : SwitchStore) (config : SwitchConfig)
    (run : AddRun) : AllOrNothing engine s config run ↔
      (Admits s config run → Sound engine s config run) := by
  by_cases hadmits : Admits s config run
  · rw [forall_prop_of_true hadmits]
    by_cases hins : (inserted s config run).1 = .ok
    · by_cases hreverts : Reverts engine s.acTables config.id run
      · rw [allOrNothing_reverted hadmits hins hreverts]
        exact ⟨fun h => ⟨fun hret => absurd hins hret, fun _ _ => h,
          fun _ hnot => absurd hreverts hnot⟩, fun h => h.reverts hins hreverts⟩
      · rw [allOrNothing_renewed hadmits hins hreverts]
        exact ⟨fun h => ⟨fun hret => absurd hins hret, fun _ hyes => absurd hyes hreverts,
          fun _ _ => h⟩, fun h => h.renews hins hreverts⟩
    · rw [allOrNothing_not_inserted hadmits hins]
      exact ⟨fun h => ⟨fun _ => h, fun hok => absurd hok hins, fun hok => absurd hok hins⟩,
        fun h => h.fails hins⟩
  · exact iff_of_true (allOrNothing_refused hadmits) (fun h => absurd h hadmits)

/-- Every name names its own table. -/
def plain : Engine := some

def vacant : SwitchStore := ⟨[], DB.createSwitchTable, Catalog.empty⟩

/-- Nothing fails but the creation of the AC table. -/
def uncreated : AddRun where
  create := ⟨true, true, fun _ => true, fun _ => true⟩
  append := true
  addSwitch := .smooth
  listed := true
  destroyAC := ⟨true, true⟩
  createAC := ⟨true, false⟩
  deleteSwitch := .smooth
  pEncryptedID := []
  pEncryptedPasswd := []

/-- OK is returned for a switch without an AC table. -/
theorem added_without_table :
    let r := vacant.addSwitch plain Sample.hall.config uncreated
    r.1 = .ok ∧ r.2.acTables.names = [] ∧ ¬AllOrNothing plain vacant Sample.hall.config uncreated := by
  have hret : (vacant.addSwitch plain Sample.hall.config uncreated).1 = .ok := by decide
  have hnames : (vacant.addSwitch plain Sample.hall.config uncreated).2.acTables.names = [] := by
    decide
  refine ⟨hret, hnames, ?_⟩
  intro hall
  obtain ⟨t, hfind, -⟩ := (hall.all.mp hret).fresh
  have hmem : t.name ∈ (vacant.addSwitch plain Sample.hall.config uncreated).2.acTables.names :=
    List.mem_map.mpr ⟨t, Keyed.get_mem hfind, rfl⟩
  rw [hnames] at hmem
  cases hmem

end Catchb.Proofs.AddSwitch
