import Catchb.Handlers
import Catchb.Proofs.Effects

/-! What a camera's creation leaves when one of its steps fails. -/

namespace Catchb.Proofs.CreateFails
open Lib Daemon Sample

variable {d : Daemon} {config : CctvConfig} {run : CatchbRun} {left : Sql.Table}

/-- The analyzer has the ID, or takes it. -/
def Attaches (d : Daemon) (id : ID) (run : CatchbRun) : Prop :=
  Analyzer.key id ∈ d.analyzer.map Analyzer.key ∨ run.allocID = true ∧ run.appendID = true

/-- No step fails. -/
def Succeeds (d : Daemon) (config : CctvConfig) (run : CatchbRun) : Prop :=
  Creates d config run ∧ Attaches d config.id run

/-- The insert is several statements and fails after it has changed the table. -/
structure Spoils (d : Daemon) (config : CctvConfig) (run : CatchbRun) (left : Sql.Table) :
    Prop where
  new : d.getCCTV config.id = none
  alloc : run.allocCCTV = true
  append : run.appendCCTV = true
  answers : run.db.answers = true
  opened : (Sql.Stmt.insert (DB.cctvValues (timed run config))).closed = false
  refused : run.db.other = none
  changed : left ≠ d.table

/-- The failure is reported, the lists and the table are as before, and no list refers to a
camera that is destroyed. -/
structure Intact (d : Daemon) (r : Ret × Daemon) : Prop where
  ret : r.1 ≠ .ok
  cctvs : r.2.cctvs = d.cctvs
  analyzer : r.2.analyzer = d.analyzer
  table : r.2.table = d.table
  live : (∀ c ∈ d.cctvs, c.destroyed = false) → ∀ c ∈ r.2.cctvs, c.destroyed = false

theorem intact_self {ret : Ret} (h : ret ≠ .ok) : Intact d (ret, d) := ⟨h, rfl, rfl, rfl, fun h => h⟩

/-- An insert that has not spoiled the table goes as one that fails as a whole. -/
theorem createCCTV_eq (h : ¬Spoils d config run left) :
    d.createCCTV config run left = d.onCreateCCTV config run := by
  rw [← createCCTV_table]
  by_cases hleft : left = d.table
  · rw [hleft]
  · simp only [createCCTV]
    cases hg : d.getCCTV config.id with
    | some c => rfl
    | none =>
      cases ha : run.allocCCTV with
      | false => rfl
      | true =>
        cases hp : run.appendCCTV with
        | false => rfl
        | true =>
          have hins : DB.insertCCTV d.table (timed run config) run.db left =
              DB.insertCCTV d.table (timed run config) run.db d.table := by
            unfold DB.insertCCTV
            cases hx : DB.exec d.table (.insert (DB.cctvValues (timed run config))) run.db with
            | some t => rfl
            | none =>
              simp only [ite_self, Prod.mk.injEq, true_and, ite_eq_right_iff, Bool.and_eq_true,
                Bool.not_eq_true']
              rintro ⟨hanswers, hopened⟩
              have hother : run.db.other = none := by
                simpa [DB.exec, hanswers, Sql.exec, hopened] using hx
              exact absurd ⟨hg, ha, hp, hanswers, hopened, hother, hleft⟩ h
          simp only [hins]

theorem createCCTV_spoiled (h : Spoils d config run left) :
    d.createCCTV config run left = (.dbExecError, { d with table := left }) := by
  have hx : DB.exec d.table (.insert (DB.cctvValues (timed run config))) run.db = none := by
    simp only [DB.exec, h.answers, ↓reduceIte, Sql.exec, h.opened, h.refused]
    rfl
  have hins : DB.insertCCTV d.table (timed run config) run.db left = (.dbExecError, left) := by
    simp only [DB.insertCCTV, hx, h.answers, h.opened]
    rfl
  simp only [createCCTV, h.new, h.alloc, h.append, hins]
  rfl

theorem onCreateCCTV_refused_ret (h : ¬Creates d config run) :
    (d.onCreateCCTV config run).1 ≠ .ok := by
  unfold onCreateCCTV
  cases hg : d.getCCTV config.id with
  | some c => exact Ret.noConfusion
  | none =>
    cases ha : run.allocCCTV with
    | false => exact Ret.noConfusion
    | true =>
      cases hp : run.appendCCTV with
      | false => exact Ret.noConfusion
      | true =>
        have hx : DB.exec d.table (.insert (DB.cctvValues (timed run config))) run.db = none := by
          by_contra hn
          exact h ⟨hg, ha, hp, Option.isSome_iff_ne_none.mpr hn⟩
        simp only [DB.addCCTV, hx]
        exact Ret.noConfusion

theorem intact_refused (h : ¬Creates d config run) : Intact d (d.onCreateCCTV config run) := by
  have hret := onCreateCCTV_refused_ret h
  have heq : d.onCreateCCTV config run = ((d.onCreateCCTV config run).1, d) :=
    Prod.ext rfl (onCreateCCTV_refused h)
  rw [heq]
  exact intact_self hret

/-- A camera that enters the list stays there. -/
theorem not_intact_accepted (h : Creates d config run) :
    ¬Intact d (d.onCreateCCTV config run) := by
  obtain ⟨c, table, -, -, -, heq⟩ := onCreateCCTV_accepted h
  intro hintact
  have hlist := hintact.cctvs
  rw [heq] at hlist
  exact absurd hlist (by simp)

theorem spoils_not_creates (h : Spoils d config run left) : ¬Creates d config run := by
  rintro ⟨-, -, -, hx⟩
  simp only [DB.exec, h.answers, ↓reduceIte, Sql.exec, h.opened, h.refused] at hx
  cases hx

/-- A creation that fails leaves everything as it was exactly when its camera is attached once it
is in the list, and its insert has not spoiled the table. -/
theorem create_intact_iff (d : Daemon) (config : CctvConfig) (run : CatchbRun)
    (left : Sql.Table) :
    (¬Succeeds d config run → Intact d (d.createCCTV config run left)) ↔
      (Creates d config run → Attaches d config.id run) ∧ ¬Spoils d config run left := by
  by_cases hspoils : Spoils d config run left
  · have hcreates := spoils_not_creates hspoils
    refine iff_of_false (fun hintact => ?_) (fun h => h.2 hspoils)
    have htable := (hintact (fun h => hcreates h.1)).table
    rw [createCCTV_spoiled hspoils] at htable
    exact hspoils.changed htable
  · rw [createCCTV_eq hspoils]
    by_cases hcreates : Creates d config run
    · constructor
      · intro hintact
        refine ⟨fun _ => ?_, hspoils⟩
        by_contra hattach
        exact not_intact_accepted hcreates (hintact (fun h => hattach h.2))
      · intro hattach hfails
        exact absurd ⟨hcreates, hattach.1 hcreates⟩ hfails
    · exact iff_of_true (fun _ => intact_refused hcreates) ⟨fun h => absurd h hcreates, hspoils⟩

/-- The run in which the analyzer gets no memory for the ID. -/
def unattached : CatchbRun := { CatchbRun.smooth with allocID := false }

def vacant : Daemon := Daemon.start [hall] DB.createCCTVTable

/-- The camera is destroyed and stays in the list, and its row stays in the table. -/
theorem destroyed_camera_listed :
    let r := vacant.createCCTV porch unattached vacant.table
    r.1 = .objectNotFound ∧ r.2.cctvs = [⟨porch, true⟩] ∧
      r.2.table.rows.map (fun row => row.cells "_ID".toList) = [porch.id.val] ∧
      ¬Succeeds vacant porch unattached ∧ ¬Intact vacant r := by
  have hlisted : (vacant.createCCTV porch unattached vacant.table).2.cctvs = [⟨porch, true⟩] := by
    decide
  refine ⟨by decide, hlisted, by decide, ?_, ?_⟩
  · rintro ⟨-, hattach⟩
    rcases hattach with hmem | ⟨halloc, -⟩
    · cases hmem
    · cases halloc
  · intro hintact
    have hlist := hintact.cctvs
    rw [hlisted] at hlist
    cases hlist

end Catchb.Proofs.CreateFails
