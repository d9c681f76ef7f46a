import Catchb.Lib.Run
import Catchb.SwitchStore

/-! The AC lists of the switches that are created from the database, against its AC tables. -/

namespace Catchb.Proofs.Restore
open Lib SwitchStore

variable {engine : Engine} {s : SwitchStore} {config : SwitchConfig} {run : LoadRun}

/-- The rows of the AC table that has the switch's ID in its name. -/
def rows (s : SwitchStore) (id : ID) : List SwitchAc := s.acTables.content (DB.acTableName id.val)

/-- The process goes on, and every switch has the entries of its own AC table. -/
def Restored (o : Option SwitchStore) : Prop :=
  ∃ s, o = some s ∧ ∀ sw ∈ s.switches, sw.acList = rows s sw.config.id

/-- The switch's own AC table is there and is seen. -/
def Seen (s : SwitchStore) (config : SwitchConfig) (run : LoadRun) : Prop :=
  run.listed = true ∧ DB.acTableName config.id.val ∈ s.acTables.names

instance : Decidable (Seen s config run) := inferInstanceAs (Decidable (_ ∧ _))

/-- Rows are read from the table that the switch's IP names. -/
def Reads (engine : Engine) (s : SwitchStore) (config : SwitchConfig) (run : LoadRun) : Prop :=
  run.countAC = true ∧ run.allocACs = true ∧ run.listAC = true ∧
    ∃ t, (engine (DB.acTableName config.ip.val)).bind s.acTables.find = some t ∧ t.rows ≠ []

/-- There is memory for a switch. -/
def Allocates (run : CreateRun) : Prop := run.alloc = true ∧ run.list = true

instance (run : CreateRun) : Decidable (Allocates run) := inferInstanceAs (Decidable (_ ∧ _))

/-- Entries are copied from an array that is not there. -/
structure Crashes (engine : Engine) (s : SwitchStore) (config : SwitchConfig) (run : LoadRun) :
    Prop where
  seen : Seen s config run
  reads : Reads engine s config run
  allocates : Allocates run.create
  allocAC : run.create.allocAC 0 = true

/-- What stops a found switch whose AC table is not seen, or has no array. -/
def Stops (engine : Engine) (s : SwitchStore) (config : SwitchConfig) (run : LoadRun) :
    Source → Prop
  | .init => False
  | .found =>
    if Seen s config run then readACs engine s.acTables config.ip run = none
    else run.createAC.listed = true ∧ DB.acTableName config.ip.val ∈ s.acTables.names

/-- A switch is created, and without entries. -/
structure Creates (engine : Engine) (s : SwitchStore) (config : SwitchConfig) (run : LoadRun)
    (source : Source) : Prop where
  goes : ¬Stops engine s config run source
  reads : Seen s config run → ¬Reads engine s config run
  allocates : Allocates run.create
  append : run.append = true

/-- No entry is read for the switch from the table its IP names, and a switch that is created has
none in its own table. -/
def Fits (engine : Engine) (o : Option SwitchStore) (e : Source × SwitchConfig × LoadRun) :
    Prop :=
  ∀ s, o = some s → ¬Crashes engine s e.2.1 e.2.2 ∧
    (Creates engine s e.2.1 e.2.2 e.1 → rows s e.2.1.id = [])

/-- Entries are only ever asked for without an array. -/
theorem createSwitch_none (config : SwitchConfig) (ulACCount : Nat) (run : CreateRun) :
    createSwitch config none ulACCount run =
      if Allocates run then
        if ulACCount = 0 then some (.ok ⟨config, [], []⟩)
        else if run.allocAC 0 then none
        else some (.error .notEnoughMemory)
      else some (.error .notEnoughMemory) := by
  cases halloc : run.alloc with
  | false => simp [createSwitch, Allocates, halloc]
  | true =>
    cases hlist : run.list with
    | false => simp [createSwitch, Allocates, halloc, hlist]
    | true =>
      cases ulACCount with
      | zero => simp [createSwitch, Allocates, halloc, hlist, createACs, Except.map]
      | succ n =>
        cases hac : run.allocAC 0 with
        | true => simp [createSwitch, Allocates, halloc, hlist, createACs, hac]
        | false => simp [createSwitch, Allocates, halloc, hlist, createACs, hac, Except.map]

/-- Entries are counted exactly when there are rows to read, and there is an array for them. -/
theorem readACs_pos : (∃ n, readACs engine s.acTables config.ip run = some n ∧ n ≠ 0) ↔
    Reads engine s config run := by
  unfold readACs AcTables.getACCount AcTables.getACList AcTables.select Reads
  cases run.countAC with
  | false => simp
  | true =>
    cases (engine (DB.acTableName config.ip.val)).bind s.acTables.find with
    | none => simp
    | some t =>
      cases ht : t.rows with
      | nil => simp [ht]
      | cons ac acs =>
        cases run.allocACs with
        | false => simp [ht]
        | true => cases run.listAC <;> simp [ht]

theorem readACs_getD : (readACs engine s.acTables config.ip run).getD 0 = 0 ↔
    ¬Reads engine s config run := by
  rw [← readACs_pos]
  cases hread : readACs engine s.acTables config.ip run with
  | none => simp
  | some n => simp

/-- A new table leaves the rows of the others. -/
theorem rows_create (engine : Engine) (s : SwitchStore) (ip : Text) (table : TableRun) (id : ID) :
    rows { s with acTables := (AcTables.create engine s.acTables ip table).2 } id = rows s id := by
  unfold rows AcTables.create
  split
  · rfl
  · cases engine (DB.acTableName ip) with
    | none => rfl
    | some name =>
      cases table.runs with
      | false => rfl
      | true => exact Catalog.content_create _ _ _

/-- The list with a switch that is created, if it is. -/
def listed (s : SwitchStore) (config : SwitchConfig) (entered : Prop) [Decidable entered] :
    List Switch := if entered then s.switches ++ [⟨config, [], []⟩] else s.switches

theorem enterSwitch_ended {n : Nat} (hn : n ≠ 0) (halloc : Allocates run.create)
    (hac : run.create.allocAC 0 = true) : s.enterSwitch config n run = none := by
  simp only [enterSwitch, createSwitch_none, if_pos halloc, hn, hac, ↓reduceIte]

theorem enterSwitch_goes (s : SwitchStore) (config : SwitchConfig) {run : LoadRun} {n : Nat}
    (h : ¬(n ≠ 0 ∧ Allocates run.create ∧ run.create.allocAC 0 = true)) :
    ∃ ret, s.enterSwitch config n run = some (ret, { s with
      switches := listed s config (n = 0 ∧ Allocates run.create ∧ run.append = true) }) := by
  unfold enterSwitch
  rw [createSwitch_none]
  by_cases halloc : Allocates run.create
  · rw [if_pos halloc]
    by_cases hn : n = 0
    · cases happend : run.append with
      | true => exact ⟨.ok, by simp [hn, listed, halloc]⟩
      | false => exact ⟨.notEnoughMemory, by simp [hn, listed]⟩
    · have hac : run.create.allocAC 0 = false := by
        simpa [hn, halloc] using h
      exact ⟨.notEnoughMemory, by simp [hn, hac, listed]⟩
  · rw [if_neg halloc]
    exact ⟨.notEnoughMemory, by simp [halloc, listed]⟩

theorem isExist_eq (s : SwitchStore) (config : SwitchConfig) (run : LoadRun) :
    AcTables.isExist s.acTables config.id.val run.listed = some true ↔ Seen s config run := by
  unfold AcTables.isExist DB.isExistTable Seen
  cases run.listed <;> simp

/-- What a switch from the database does to the store, which it may end. -/
structure Entered (engine : Engine) (s s' : SwitchStore) (e : Source × SwitchConfig × LoadRun) :
    Prop where
  rows : ∀ id, rows s' id = rows s id
  created : Creates engine s e.2.1 e.2.2 e.1 → s'.switches = s.switches ++ [⟨e.2.1, [], []⟩]
  other : ¬Creates engine s e.2.1 e.2.2 e.1 → s'.switches = s.switches

/-- A switch whose entries have been counted. -/
theorem entered_seen {source : Source} {n : Nat} (hseen : Seen s config run)
    (hgoes : ¬Stops engine s config run source)
    (hn : n = 0 ↔ ¬Reads engine s config run) :
    (Crashes engine s config run ∧ s.enterSwitch config n run = none) ∨
      (¬Crashes engine s config run ∧ ∃ s' ret, s.enterSwitch config n run = some (ret, s') ∧
        Entered engine s s' (source, config, run)) := by
  by_cases hends : n ≠ 0 ∧ Allocates run.create ∧ run.create.allocAC 0 = true
  · obtain ⟨hne, halloc, hac⟩ := hends
    have hreads : Reads engine s config run := by
      by_contra hnot
      exact hne (hn.mpr hnot)
    exact Or.inl ⟨⟨hseen, hreads, halloc, hac⟩, enterSwitch_ended hne halloc hac⟩
  · obtain ⟨ret, heq⟩ := enterSwitch_goes s config hends
    refine Or.inr ⟨?_, _, ret, heq, fun _ => rfl, ?_, ?_⟩
    · intro hcrash
      exact hends ⟨fun hzero => hn.mp hzero hcrash.reads, hcrash.allocates, hcrash.allocAC⟩
    · intro hcreates
      exact if_pos ⟨hn.mpr (hcreates.reads hseen), hcreates.allocates, hcreates.append⟩
    · intro hcreates
      apply if_neg
      rintro ⟨hzero, halloc, happend⟩
      exact hcreates ⟨hgoes, fun _ => hn.mp hzero, halloc, happend⟩

/-- A switch whose AC table is not seen has no entries. -/
theorem entered_unseen (engine : Engine) (source : Source) (hseen : ¬Seen s config run)
    (hgoes : ¬Stops engine s config run source) (ip : Text) :
    ∃ s' ret, ({ s with
        acTables := (AcTables.create engine s.acTables ip run.createAC).2 } : SwitchStore).enterSwitch
          config 0 run = some (ret, s') ∧ Entered engine s s' (source, config, run) := by
  have hzero : ¬((0 : Nat) ≠ 0 ∧ Allocates run.create ∧ run.create.allocAC 0 = true) :=
    fun h => h.1 rfl
  obtain ⟨ret, heq⟩ := enterSwitch_goes { s with
    acTables := (AcTables.create engine s.acTables ip run.createAC).2 } config hzero
  refine ⟨_, ret, heq, fun id => rows_create engine s ip run.createAC id, ?_, ?_⟩
  · intro hcreates
    exact if_pos ⟨rfl, hcreates.allocates, hcreates.append⟩
  · intro hcreates
    apply if_neg
    rintro ⟨-, halloc, happend⟩
    exact hcreates ⟨hgoes, fun h => absurd h hseen, halloc, happend⟩

theorem not_crashes_unseen (h : ¬Seen s config run) : ¬Crashes engine s config run :=
  fun hcrash => h hcrash.seen

/-- Every switch from the database ends the process, or is entered as it says. -/
theorem enter_cases (engine : Engine) (s : SwitchStore) (e : Source × SwitchConfig × LoadRun) :
    (Crashes engine s e.2.1 e.2.2 ∧ enter engine (some s) e = none) ∨
      (¬Crashes engine s e.2.1 e.2.2 ∧ ∃ s', enter engine (some s) e = some s' ∧
        Entered engine s s' e) := by
  obtain ⟨source, config, run⟩ := e
  have hexist := isExist_eq s config run
  cases source with
  | init =>
    have hgoes : ¬Stops engine s config run .init := id
    simp only [enter, Option.bind_some, loadSwitch]
    by_cases hseen : Seen s config run
    · rw [hexist.mpr hseen]
      rcases entered_seen hseen hgoes readACs_getD with ⟨hcrash, heq⟩ | ⟨hcrash, s', ret, heq, hs'⟩
      · exact Or.inl ⟨hcrash, by rw [heq]; rfl⟩
      · exact Or.inr ⟨hcrash, s', by rw [heq]; rfl, hs'⟩
    · obtain ⟨s', ret, heq, hs'⟩ := entered_unseen engine .init hseen hgoes config.id.val
      refine Or.inr ⟨not_crashes_unseen hseen, s', ?_, hs'⟩
      split
      · rename_i hsome
        exact absurd (hexist.mp hsome) hseen
      · exact congrArg (Option.map Prod.snd) heq
  | found =>
    simp only [enter, Option.bind_some, onFoundSwitchInDB]
    by_cases hseen : Seen s config run
    · rw [hexist.mpr hseen]
      cases hread : readACs engine s.acTables config.ip run with
      | none =>
        have hstops : Stops engine s config run .found := by
          rw [Stops, if_pos hseen]
          exact hread
        refine Or.inr ⟨fun hcrash => ?_, s, rfl, fun _ => rfl,
          fun hcreates => absurd hstops hcreates.goes, fun _ => rfl⟩
        obtain ⟨n, hn, -⟩ := readACs_pos.mpr hcrash.reads
        rw [hread] at hn
        cases hn
      | some n =>
        have hgoes : ¬Stops engine s config run .found := by
          rw [Stops, if_pos hseen, hread]
          exact Option.some_ne_none n
        have hzero : n = 0 ↔ ¬Reads engine s config run := by
          rw [← readACs_getD, hread]
          rfl
        rcases entered_seen hseen hgoes hzero with ⟨hcrash, heq⟩ | ⟨hcrash, s', ret, heq, hs'⟩
        · exact Or.inl ⟨hcrash, congrArg (Option.map Prod.snd) heq⟩
        · exact Or.inr ⟨hcrash, s', congrArg (Option.map Prod.snd) heq, hs'⟩
    · have hret := AcTables.create_ret engine s.acTables config.ip.val run.createAC
      have hstops : Stops engine s config run .found ↔
          (AcTables.create engine s.acTables config.ip.val run.createAC).1 ≠ .ok := by
        rw [Stops, if_neg hseen, ne_eq, hret, not_not]
      have hunseen := fun hgoes =>
        entered_unseen engine .found hseen hgoes config.ip.val
      have hrows := rows_create engine s config.ip.val run.createAC
      refine Or.inr ⟨not_crashes_unseen hseen, ?_⟩
      split
      · rename_i hsome
        exact absurd (hexist.mp hsome) hseen
      · rcases hcreate : AcTables.create engine s.acTables config.ip.val run.createAC with
          ⟨ret, acTables⟩
        rw [hcreate] at hstops hunseen hrows
        cases ret with
        | ok =>
          obtain ⟨s', ret', heq, hs'⟩ := hunseen (fun h => hstops.mp h rfl)
          exact ⟨s', congrArg (Option.map Prod.snd) heq, hs'⟩
        | _ =>
          exact ⟨_, rfl, hrows, fun hcreates => absurd (hstops.mpr Ret.noConfusion) hcreates.goes,
            fun _ => rfl⟩

/-- What is not restored is never restored. -/
theorem restored_back (o : Option SwitchStore) (e : Source × SwitchConfig × LoadRun)
    (h : Restored (enter engine o e)) : Restored o := by
  cases o with
  | none => exact h
  | some s =>
    obtain ⟨s', hs', hlists⟩ := h
    rcases enter_cases engine s e with ⟨-, heq⟩ | ⟨-, t, heq, ht⟩
    · rw [heq] at hs'
      cases hs'
    · obtain rfl : t = s' := Option.some.inj (heq.symm.trans hs')
      refine ⟨s, rfl, fun sw hsw => ?_⟩
      rw [← ht.rows]
      apply hlists
      by_cases hcreates : Creates engine s e.2.1 e.2.2 e.1
      · rw [ht.created hcreates]
        exact List.mem_append_left _ hsw
      · rw [ht.other hcreates]
        exact hsw

theorem restored_enter_iff (o : Option SwitchStore) (e : Source × SwitchConfig × LoadRun)
    (h : Restored o) : Restored (enter engine o e) ↔ Fits engine o e := by
  obtain ⟨s, rfl, hlists⟩ := h
  rcases enter_cases engine s e with ⟨hcrash, heq⟩ | ⟨hcrash, s', heq, hs'⟩
  · rw [heq]
    refine iff_of_false ?_ (fun hfits => (hfits s rfl).1 hcrash)
    rintro ⟨s', hs', -⟩
    cases hs'
  · rw [heq]
    constructor
    · rintro ⟨t, ht, hnext⟩ t' ht'
      obtain rfl := Option.some.inj ht
      obtain rfl := Option.some.inj ht'
      refine ⟨hcrash, fun hcreates => ?_⟩
      have hnew := hnext ⟨e.2.1, [], []⟩
        (by rw [hs'.created hcreates]; exact List.mem_append_right _ List.mem_cons_self)
      rw [hs'.rows] at hnew
      exact hnew.symm
    · intro hfits
      refine ⟨s', rfl, fun sw hsw => ?_⟩
      rw [hs'.rows]
      by_cases hcreates : Creates engine s e.2.1 e.2.2 e.1
      · rw [hs'.created hcreates] at hsw
        rcases List.mem_append.mp hsw with hsw | hsw
        · exact hlists sw hsw
        · rw [List.mem_singleton.mp hsw]
          exact ((hfits s rfl).2 hcreates).symm
      · rw [hs'.other hcreates] at hsw
        exact hlists sw hsw

/-- After the start, and after every switch that is found from then on, the switches have the
entries of their AC tables exactly when all those tables are empty and no entry is read. -/
theorem restores_iff (engine : Engine) (table : DB.SwitchTable) (acTables : Catalog SwitchAc)
    (init : InitRun) (founds : List (SwitchConfig × LoadRun)) :
    (Restored (initProcess engine table acTables init) ∧
      ∀ o ∈ states (enter engine) (initProcess engine table acTables init)
        (founds.map (Prod.mk .found)), Restored o) ↔
      Admitted (enter engine) (Fits engine) (some (start table acTables)) (InitRun.loads init) ∧
        Admitted (enter engine) (Fits engine) (initProcess engine table acTables init)
          (founds.map (Prod.mk .found)) := by
  have hstart : Restored (some (start table acTables)) := ⟨_, rfl, nofun⟩
  have hinit : Restored (initProcess engine table acTables init) ↔
      Admitted (enter engine) (Fits engine) (some (start table acTables)) (InitRun.loads init) :=
    foldl_safe_iff_admitted restored_back restored_enter_iff hstart _
  rw [← hinit]
  apply and_congr_right
  intro hrestored
  exact safe_iff_admitted (fun _ h => h) (fun o e h hfits => (restored_enter_iff o e h).mpr hfits)
    (fun o e h hnext => (restored_enter_iff o e h).mp hnext) hrestored _

/-- Every name names its own table. -/
def plain : Engine := some

/-- The AC table of the switch, with one address denied. -/
def denied : Catalog SwitchAc where
  tables := [⟨DB.acTableName Sample.hall.config.id.val, 0, [⟨0, Sample.porch.ip, .deny⟩]⟩]
  made := 1
  older := by simp
  distinct := by simp

/-- Nothing fails. -/
def smooth : LoadRun where
  listed := true
  countAC := true
  allocACs := true
  listAC := true
  createAC := ⟨true, true⟩
  create := ⟨true, true, fun _ => true, fun _ => true⟩
  append := true

def starting (config : SwitchConfig) : InitRun where
  exist := true
  check := .reading [config]
  load := fun _ => smooth

/-- The switch comes up without its entry. -/
theorem entry_lost :
    (initProcess plain DB.createSwitchTable denied (starting Sample.hall.config)).map
        (fun s => s.switches.map Switch.acList) = some [[]] ∧
      ¬Restored (initProcess plain DB.createSwitchTable denied (starting Sample.hall.config)) := by
  have heq : initProcess plain DB.createSwitchTable denied (starting Sample.hall.config) =
      some ⟨[⟨Sample.hall.config, [], []⟩], DB.createSwitchTable, denied⟩ := rfl
  refine ⟨by rw [heq]; rfl, ?_⟩
  rw [heq]
  rintro ⟨s, hs, hrestored⟩
  obtain rfl := Option.some.inj hs
  have hacs : [] = [(⟨0, Sample.porch.ip, .deny⟩ : SwitchAc)] := hrestored _ List.mem_cons_self
  cases hacs

end Catchb.Proofs.Restore
