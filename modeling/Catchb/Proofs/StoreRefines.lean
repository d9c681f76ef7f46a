import Catchb.Proofs.AddSwitch
import Catchb.Proofs.Restore

/-! The store of the switches against the catchb thread, which knows of an AC table by its name
alone. -/

namespace Catchb.Proofs.StoreRefines
open Lib SwitchStore

variable {engine : Engine} {s s' : SwitchStore} {t : CatchbThread} {config : SwitchConfig}
  {c : Catalog SwitchAc} {tables : List Text}

/-- Both have the same switches, and AC tables of the same names. -/
structure Models (t : CatchbThread) (s : SwitchStore) : Prop where
  switches : t.daemon.switches = s.switches
  tables : ∀ name, name ∈ t.acTables ↔ name ∈ s.acTables.names

/-- No text names another table. -/
def Honest (engine : Engine) : Prop := ∀ text name, engine text = some name → name = text

theorem createTable_eq (name : Text) (run : TableRun) : DB.createTable tables name run =
    if run.listed = true ∧ name ∈ tables then (.dbAlreadyExist, tables)
    else (.ok, if run.runs then tables.insert name else tables) := by
  unfold DB.createTable DB.isExistTable
  cases run.listed with
  | false => rfl
  | true => by_cases hmem : name ∈ tables <;> simp [hmem]

theorem destroyTable_eq (name : Text) (run : TableRun) : DB.destroyTable tables name run =
    if run.listed = true ∧ name ∈ tables then
      (.ok, if run.runs then tables.filter (fun n => n ≠ name) else tables)
    else (.dbTableNotExist, tables) := by
  unfold DB.destroyTable DB.isExistTable
  cases run.listed with
  | false => rfl
  | true => by_cases hmem : name ∈ tables <;> simp [hmem]

/-- What the engine makes of a statement on an AC table. -/
def onTable (engine : Engine) (c : Catalog SwitchAc) (id : Text) (runs : Bool)
    (f : Text → Catalog SwitchAc) : Catalog SwitchAc :=
  match engine (DB.acTableName id) with
  | some name => if runs then f name else c
  | none => c

theorem create_eq (id : Text) (run : TableRun) : AcTables.create engine c id run =
    if run.listed = true ∧ DB.acTableName id ∈ c.names then (.dbAlreadyExist, c)
    else (.ok, onTable engine c id run.runs c.create) := by
  unfold AcTables.create AcTables.isExist DB.isExistTable onTable
  cases run.listed with
  | false => cases engine (DB.acTableName id) <;> rfl
  | true =>
    by_cases hmem : DB.acTableName id ∈ c.names
    · simp [hmem]
    · cases engine (DB.acTableName id) <;> simp [hmem]

theorem destroy_eq (id : Text) (run : TableRun) : AcTables.destroy engine c id run =
    if run.listed = true ∧ DB.acTableName id ∈ c.names then
      (.ok, onTable engine c id run.runs c.drop)
    else (.dbTableNotExist, c) := by
  unfold AcTables.destroy AcTables.isExist DB.isExistTable onTable
  cases run.listed with
  | false => rfl
  | true =>
    by_cases hmem : DB.acTableName id ∈ c.names
    · cases engine (DB.acTableName id) <;> simp [hmem]
    · simp [hmem]

/-- The names after a drop are the names before it without the one that is dropped. -/
theorem mem_names_drop_iff {name : Text} (hmem : name ∈ c.names) (n : Text) :
    n ∈ (c.drop name).names ↔ n ∈ c.names ∧ n ≠ name := by
  by_cases hlower : lower n = lower name
  · have hgone : n ∉ (c.drop name).names := by
      apply Catalog.not_mem_names_of_find
      rw [Catalog.find_congr hlower]
      exact Catalog.find_drop_same c name
    refine iff_of_false hgone ?_
    rintro ⟨hn, hne⟩
    obtain ⟨x, hx, rfl⟩ := List.mem_map.mp hmem
    obtain ⟨y, hy, rfl⟩ := List.mem_map.mp hn
    exact hne (congrArg NamedTable.name (List.inj_on_of_nodup_map c.distinct hy hx hlower))
  · rw [Catalog.mem_names_drop hlower]
    exact ⟨fun hn => ⟨hn, fun heq => hlower (congrArg lower heq)⟩, fun hn => hn.1⟩

theorem create_refines (hengine : Honest engine) (h : ∀ name, name ∈ tables ↔ name ∈ c.names)
    (id : Text) (run : TableRun) : ∃ runs,
      (DB.createTable tables (DB.acTableName id) ⟨run.listed, runs⟩).1 =
        (AcTables.create engine c id run).1 ∧
      ∀ name, name ∈ (DB.createTable tables (DB.acTableName id) ⟨run.listed, runs⟩).2 ↔
        name ∈ (AcTables.create engine c id run).2.names := by
  simp only [createTable_eq, create_eq, h]
  split
  · exact ⟨true, rfl, h⟩
  · unfold onTable
    cases hname : engine (DB.acTableName id) with
    | none => exact ⟨false, rfl, h⟩
    | some name =>
      obtain rfl := hengine _ _ hname
      cases run.runs with
      | false => exact ⟨false, rfl, h⟩
      | true =>
        cases hfind : c.find (DB.acTableName id) with
        | some table =>
          refine ⟨false, rfl, fun n => ?_⟩
          simp only [Bool.false_eq_true, ↓reduceIte, Catalog.create_of_some hfind]
          exact h n
        | none =>
          refine ⟨true, rfl, fun n => ?_⟩
          simp only [↓reduceIte, Catalog.names_create, hfind, List.mem_insert_iff, h,
            List.mem_append, List.mem_singleton]
          exact or_comm

theorem destroy_refines (hengine : Honest engine) (h : ∀ name, name ∈ tables ↔ name ∈ c.names)
    (id : Text) (run : TableRun) : ∃ runs,
      (DB.destroyTable tables (DB.acTableName id) ⟨run.listed, runs⟩).1 =
        (AcTables.destroy engine c id run).1 ∧
      ∀ name, name ∈ (DB.destroyTable tables (DB.acTableName id) ⟨run.listed, runs⟩).2 ↔
        name ∈ (AcTables.destroy engine c id run).2.names := by
  simp only [destroyTable_eq, destroy_eq, h]
  split
  · rename_i hexist
    unfold onTable
    cases hname : engine (DB.acTableName id) with
    | none => exact ⟨false, rfl, h⟩
    | some name =>
      obtain rfl := hengine _ _ hname
      cases run.runs with
      | false => exact ⟨false, rfl, h⟩
      | true =>
        refine ⟨true, rfl, fun n => ?_⟩
        simp [mem_names_drop_iff hexist.2, h]
  · exact ⟨true, rfl, h⟩

/-- The old AC table goes where it is seen. -/
def fineFirst (engine : Engine) (c : Catalog SwitchAc) (id : ID) (run : AddRun) :
    Ret × Catalog SwitchAc :=
  if run.listed = true ∧ DB.acTableName id.val ∈ c.names then
    AcTables.destroy engine c id.val run.destroyAC
  else (.ok, c)

theorem renewACTable_eq (id : ID) (run : AddRun) : renewACTable engine c id run =
    if (fineFirst engine c id run).1 ≠ .ok then fineFirst engine c id run
    else AcTables.create engine (fineFirst engine c id run).2 id.val run.createAC := by
  unfold renewACTable fineFirst AcTables.isExist DB.isExistTable
  cases run.listed with
  | false => rfl
  | true => by_cases hmem : DB.acTableName id.val ∈ c.names <;> simp [hmem]

def coarseFirst (tables : List Text) (name : Text) (run : SwitchRun) : Ret × List Text :=
  if run.listed = true ∧ name ∈ tables then DB.destroyTable tables name run.destroy
  else (.ok, tables)

theorem addSwitchTables_eq (t : CatchbThread) (config : SwitchConfig) {run : SwitchRun}
    (hadd : run.addSwitch = true) :
    let first := coarseFirst t.acTables (DB.acTableName config.id.val) run
    let last := DB.createTable first.2 (DB.acTableName config.id.val) run.create
    let deleted := if run.deleteSwitch then Ret.ok else .dbExecError
    t.addSwitchTables config run =
      if first.1 ≠ .ok then (false, deleted, first.2)
      else if last.1 ≠ .ok then (false, deleted, last.2) else (true, .ok, last.2) := by
  unfold CatchbThread.addSwitchTables coarseFirst DB.isExistTable
  rw [hadd]
  cases run.listed with
  | false => rfl
  | true =>
    by_cases hmem : DB.acTableName config.id.val ∈ t.acTables <;> simp [hmem]

/-- The two renewals end with the same names, and report the same. -/
theorem renew_refines (hengine : Honest engine) (h : Models t s) (config : SwitchConfig)
    (run : AddRun) : ∃ destroyRuns createRuns, ∀ run' : SwitchRun, run'.addSwitch = true →
      run'.listed = run.listed → run'.destroy = ⟨run.destroyAC.listed, destroyRuns⟩ →
      run'.create = ⟨run.createAC.listed, createRuns⟩ → ∃ tables,
      t.addSwitchTables config run' =
        (if (renewACTable engine s.acTables config.id run).1 = .ok then (true, .ok, tables)
        else (false, if run'.deleteSwitch then .ok else .dbExecError, tables)) ∧
      ∀ name, name ∈ tables ↔ name ∈ (renewACTable engine s.acTables config.id run).2.names := by
  obtain ⟨destroyRuns, hdestroy, hdropped⟩ :=
    destroy_refines hengine h.tables config.id.val run.destroyAC
  -- The same tables are left by the first step.
  have hfirst : ∀ run' : SwitchRun, run'.listed = run.listed →
      run'.destroy = ⟨run.destroyAC.listed, destroyRuns⟩ →
      (coarseFirst t.acTables (DB.acTableName config.id.val) run').1 =
        (fineFirst engine s.acTables config.id run).1 ∧
      ∀ name, name ∈ (coarseFirst t.acTables (DB.acTableName config.id.val) run').2 ↔
        name ∈ (fineFirst engine s.acTables config.id run).2.names := by
    intro run' hlisted hrun
    simp only [coarseFirst, fineFirst, hlisted, hrun, h.tables]
    split
    · exact ⟨hdestroy, hdropped⟩
    · exact ⟨rfl, h.tables⟩
  let sample : SwitchRun :=
    ⟨run.listed, ⟨false, false⟩, ⟨run.destroyAC.listed, destroyRuns⟩, true, true, true, true⟩
  obtain ⟨createRuns, hcreate, hcreated⟩ := create_refines hengine
    (hfirst sample rfl rfl).2 config.id.val run.createAC
  refine ⟨destroyRuns, createRuns, fun run' hadd hlisted hrun hrun' => ?_⟩
  have hsame : coarseFirst t.acTables (DB.acTableName config.id.val) run' =
      coarseFirst t.acTables (DB.acTableName config.id.val) sample := by
    simp only [coarseFirst, hlisted, hrun, sample]
  obtain ⟨hret, htables⟩ := hfirst sample rfl rfl
  simp only [addSwitchTables_eq t config hadd, renewACTable_eq, hsame, hrun', hret, hcreate]
  by_cases hok : (fineFirst engine s.acTables config.id run).1 = .ok
  · simp only [hok, ne_eq, not_true_eq_false, ↓reduceIte]
    refine ⟨_, ?_, hcreated⟩
    by_cases hlast : (AcTables.create engine (fineFirst engine s.acTables config.id run).2
      config.id.val run.createAC).1 = .ok <;> simp [hlast]
  · simp only [hok, ne_eq, not_false_eq_true, ↓reduceIte]
    exact ⟨_, rfl, htables⟩

theorem addSwitch_ret (table : DB.SwitchTable) (config : SwitchConfig) (pEncryptedID
    pEncryptedPasswd : Text) (run : DB.SwitchStmt) :
    (DB.addSwitch table config pEncryptedID pEncryptedPasswd run).1 = .ok ∨
      (DB.addSwitch table config pEncryptedID pEncryptedPasswd run).1 = .dbExecError := by
  simp only [DB.addSwitch]
  split
  · exact Or.inr rfl
  · split
    · split
      · exact Or.inl rfl
      · exact Or.inr rfl
    · split
      · exact Or.inl rfl
      · exact Or.inr rfl

theorem deleteSwitch_ret (table : DB.SwitchTable) (id : ID) (run : DB.SwitchStmt) :
    (DB.deleteSwitch table id run).1 =
      if (DB.deleteSwitch table id run).1 = .ok then .ok else .dbExecError := by
  unfold DB.deleteSwitch
  split
  · rfl
  · split
    · rfl
    · split <;> rfl

/-- The addition of a switch does in the thread what it does in the store. -/
theorem addSwitch_refines (hengine : Honest engine) (h : Models t s) (config : SwitchConfig)
    (run : AddRun) : ∃ run' : SwitchRun,
      (t.addSwitch config run').1 = (s.addSwitch engine config run).1 ∧
        Models (t.addSwitch config run').2 (s.addSwitch engine config run).2 := by
  obtain ⟨destroyRuns, createRuns, hrenew⟩ := renew_refines hengine h config run
  rcases hins : DB.addSwitch s.table config run.pEncryptedID run.pEncryptedPasswd run.addSwitch
    with ⟨ret, table⟩
  let run' : SwitchRun :=
    { listed := run.listed
      create := ⟨run.createAC.listed, createRuns⟩
      destroy := ⟨run.destroyAC.listed, destroyRuns⟩
      alloc := run.create.alloc && run.create.list
      append := run.append
      addSwitch := ret = .ok
      deleteSwitch := (DB.deleteSwitch table config.id run.deleteSwitch).1 = .ok }
  refine ⟨run', ?_⟩
  by_cases hadmits : AddSwitch.Admits s config run
  · have hlen : ¬config.id.val.length = 0 :=
      fun hzero => hadmits.named (List.length_eq_zero_iff.mp hzero)
    have hnew : Keyed.get Switch.key config.id t.daemon.switches = none := by
      rw [h.switches]
      exact hadmits.new
    have halloc : run'.alloc = true := by
      simp only [run', hadmits.alloc, hadmits.list, Bool.and_self]
    have happend : run'.append = true := hadmits.append
    rw [AddSwitch.addSwitch_admitted hadmits, AddSwitch.inserted, hins]
    simp only [CatchbThread.addSwitch, hlen, ↓reduceIte, hnew, halloc, happend, Bool.not_true,
      Bool.false_eq_true]
    by_cases hok : ret = .ok
    · obtain ⟨tables, heq, htables⟩ := hrenew run' (decide_eq_true hok) rfl rfl rfl
      subst hok
      rcases hrenewed : renewACTable engine s.acTables config.id run with ⟨ret', acTables⟩
      rw [hrenewed] at heq htables
      by_cases hok' : ret' = .ok
      · subst hok'
        simp only [↓reduceIte] at heq
        simp only [heq, CatchbThread.appendSwitch, halloc, happend, Bool.not_true,
          Bool.false_eq_true, ↓reduceIte]
        exact ⟨trivial, by simp [CatchbThread.setSwitches, h.switches], htables⟩
      · simp only [hok', ↓reduceIte] at heq
        simp only [heq, undoSwitch]
        have hdelete := deleteSwitch_ret table config.id run.deleteSwitch
        refine ⟨?_, h.switches, htables⟩
        rw [hdelete]
        simp only [run', decide_eq_true_eq]
    · have hfail : run'.addSwitch = false := decide_eq_false hok
      have hret : ret = .dbExecError := by
        have hcases := addSwitch_ret s.table config run.pEncryptedID run.pEncryptedPasswd
          run.addSwitch
        rw [hins] at hcases
        exact hcases.resolve_left hok
      subst hret
      simp only [CatchbThread.addSwitchTables, hfail, Bool.not_false, ↓reduceIte]
      exact ⟨trivial, h.switches, h.tables⟩
  · unfold CatchbThread.addSwitch SwitchStore.addSwitch
    by_cases hid : config.id.val = []
    · simp only [hid, List.length_nil, ↓reduceIte]
      exact ⟨trivial, h⟩
    · have hlen : ¬config.id.val.length = 0 := fun hzero => hid (List.length_eq_zero_iff.mp hzero)
      simp only [hlen, ↓reduceIte, h.switches]
      cases hget : Keyed.get Switch.key config.id s.switches with
      | some sw => exact ⟨rfl, h⟩
      | none =>
        have halloc : run'.alloc = (run.create.alloc && run.create.list) := rfl
        cases hswitch : run.create.alloc with
        | false => simpa [createSwitch, halloc, hswitch] using h
        | true =>
          cases hlist : run.create.list with
          | false => simpa [createSwitch, halloc, hswitch, hlist] using h
          | true =>
            have happend : run'.append = run.append := rfl
            cases hlast : run.append with
            | false =>
              simpa [createSwitch, createACs, Except.map, halloc, hswitch, hlist, happend, hlast]
                using h
            | true => exact absurd ⟨hid, hget, hswitch, hlist, hlast⟩ hadmits

/-- A switch that is entered without entries is appended in the thread. -/
theorem enterSwitch_refines (h : Models t s) {n : Nat} {run : LoadRun} {ret : Ret}
    (heq : s.enterSwitch config n run = some (ret, s')) : ∃ alloc append, ∀ run' : SwitchRun,
      run'.alloc = alloc → run'.append = append →
        (t.appendSwitch config run').1 = ret ∧ Models (t.appendSwitch config run').2 s' := by
  unfold enterSwitch at heq
  rw [Restore.createSwitch_none] at heq
  by_cases hswitch : Restore.Allocates run.create ∧ n = 0
  · obtain ⟨halloc, hn⟩ := hswitch
    simp only [if_pos halloc, if_pos hn] at heq
    cases happend : run.append with
    | true =>
      simp only [happend, ↓reduceIte, Option.some.injEq, Prod.mk.injEq] at heq
      obtain ⟨rfl, rfl⟩ := heq
      refine ⟨true, true, fun run' ha hp => ?_⟩
      simp only [CatchbThread.appendSwitch, ha, hp]
      exact ⟨rfl, by simp [CatchbThread.setSwitches, h.switches], h.tables⟩
    | false =>
      simp only [happend, Bool.false_eq_true, ↓reduceIte, Option.some.injEq, Prod.mk.injEq] at heq
      obtain ⟨rfl, rfl⟩ := heq
      refine ⟨true, false, fun run' ha hp => ?_⟩
      simp only [CatchbThread.appendSwitch, ha, hp]
      exact ⟨rfl, h⟩
  · have hfail : some (Ret.notEnoughMemory, s) = some (ret, s') := by
      by_cases halloc : Restore.Allocates run.create
      · have hn : ¬n = 0 := fun hn => hswitch ⟨halloc, hn⟩
        simp only [if_pos halloc, if_neg hn] at heq
        cases hac : run.create.allocAC 0 with
        | true => simp [hac] at heq
        | false => simpa [hac] using heq
      · simpa [halloc] using heq
    obtain ⟨rfl, rfl⟩ := Prod.mk.inj (Option.some.inj hfail)
    refine ⟨false, false, fun run' ha hp => ?_⟩
    simp only [CatchbThread.appendSwitch, ha]
    exact ⟨rfl, h⟩

theorem thread_unseen {run : SwitchRun}
    (h : DB.isExistTable t.acTables (DB.acTableName config.id.val) run.listed ≠ some true) :
    t.onFoundSwitchInDB config run =
      let created := DB.createTable t.acTables (DB.acTableName config.ip.val) run.create
      if created.1 = .ok then { t with acTables := created.2 }.appendSwitch config run
      else (created.1, t) := by
  unfold CatchbThread.onFoundSwitchInDB
  split
  · rename_i hsome
    exact absurd hsome h
  · rcases DB.createTable t.acTables (DB.acTableName config.ip.val) run.create with ⟨ret, tables⟩
    cases ret <;> rfl

theorem store_unseen {run : LoadRun}
    (h : AcTables.isExist s.acTables config.id.val run.listed ≠ some true) :
    s.onFoundSwitchInDB engine config run =
      let created := AcTables.create engine s.acTables config.ip.val run.createAC
      if created.1 = .ok then
        SwitchStore.enterSwitch { s with acTables := created.2 } config 0 run
      else some (created.1, { s with acTables := created.2 }) := by
  unfold SwitchStore.onFoundSwitchInDB
  split
  · rename_i hsome
    exact absurd hsome h
  · rcases AcTables.create engine s.acTables config.ip.val run.createAC with ⟨ret, c⟩
    cases ret <;> rfl

/-- A creation that is refused leaves the tables. -/
theorem create_refused (id : Text) (run : TableRun)
    (h : (AcTables.create engine c id run).1 ≠ .ok) : (AcTables.create engine c id run).2 = c := by
  rw [create_eq] at h ⊢
  split at h
  · rename_i hlisted
    rw [if_pos hlisted]
  · exact absurd rfl h

/-- A switch that is found does in the thread what it does in the store, unless it ends the
process. -/
theorem onFoundSwitchInDB_refines (hengine : Honest engine) (h : Models t s) {run : LoadRun}
    {ret : Ret} (heq : s.onFoundSwitchInDB engine config run = some (ret, s')) :
    ∃ run' : SwitchRun, (t.onFoundSwitchInDB config run').1 = ret ∧
      Models (t.onFoundSwitchInDB config run').2 s' := by
  have hexist : DB.isExistTable t.acTables (DB.acTableName config.id.val) run.listed =
      AcTables.isExist s.acTables config.id.val run.listed := by
    have hname := h.tables (DB.acTableName config.id.val)
    cases run.listed with
    | false => rfl
    | true =>
      by_cases hmem : DB.acTableName config.id.val ∈ s.acTables.names <;>
        simp [AcTables.isExist, DB.isExistTable, hname, hmem]
  by_cases hseen : AcTables.isExist s.acTables config.id.val run.listed = some true
  · have happended : ∃ alloc append, ∀ run' : SwitchRun,
        run'.alloc = alloc → run'.append = append →
          (t.appendSwitch config run').1 = ret ∧ Models (t.appendSwitch config run').2 s' := by
      simp only [SwitchStore.onFoundSwitchInDB, hseen] at heq
      cases hread : readACs engine s.acTables config.ip run with
      | none =>
        rw [hread] at heq
        obtain ⟨rfl, rfl⟩ := Prod.mk.inj (Option.some.inj heq)
        refine ⟨false, false, fun run' ha hp => ?_⟩
        simp only [CatchbThread.appendSwitch, ha]
        exact ⟨rfl, h⟩
      | some n =>
        rw [hread] at heq
        exact enterSwitch_refines h heq
    obtain ⟨alloc, append, happended⟩ := happended
    refine ⟨⟨run.listed, ⟨true, true⟩, ⟨true, true⟩, alloc, append, true, true⟩, ?_⟩
    simp only [CatchbThread.onFoundSwitchInDB, hexist, hseen]
    exact happended _ rfl rfl
  · obtain ⟨runs, hcreate, hcreated⟩ :=
      create_refines hengine h.tables config.ip.val run.createAC
    rw [store_unseen hseen] at heq
    simp only at heq
    have hunseen : ∀ run' : SwitchRun, run'.listed = run.listed →
        DB.isExistTable t.acTables (DB.acTableName config.id.val) run'.listed ≠ some true := by
      intro run' hlisted
      rw [hlisted, hexist]
      exact hseen
    by_cases hok : (AcTables.create engine s.acTables config.ip.val run.createAC).1 = .ok
    · rw [if_pos hok] at heq
      have hmodels : Models
          { t with acTables := (DB.createTable t.acTables (DB.acTableName config.ip.val)
            ⟨run.createAC.listed, runs⟩).2 }
          { s with acTables := (AcTables.create engine s.acTables config.ip.val
            run.createAC).2 } := ⟨h.switches, hcreated⟩
      obtain ⟨alloc, append, happended⟩ := enterSwitch_refines hmodels heq
      refine ⟨⟨run.listed, ⟨run.createAC.listed, runs⟩, ⟨true, true⟩, alloc, append, true, true⟩,
        ?_⟩
      rw [thread_unseen (hunseen _ rfl)]
      simp only [hcreate, hok, ↓reduceIte]
      exact happended _ rfl rfl
    · rw [if_neg hok] at heq
      obtain ⟨rfl, rfl⟩ := Prod.mk.inj (Option.some.inj heq)
      refine ⟨⟨run.listed, ⟨run.createAC.listed, runs⟩, ⟨true, true⟩, true, true, true, true⟩, ?_⟩
      rw [thread_unseen (hunseen _ rfl)]
      simp only [hcreate, hok, ↓reduceIte]
      refine ⟨trivial, h.switches, ?_⟩
      rw [create_refused _ _ hok]
      exact h.tables

end Catchb.Proofs.StoreRefines
