import Catchb.Analysis
import Catchb.Lib.Run
import Catchb.Proofs.Effects

/-! The hash that a stored verdict was compared with. -/

namespace Catchb.Proofs.Verdict
open Lib Daemon Sample

inductive Mark
  | read (pass : Pass)
  | handled (msg : CctvMsg)
  deriving DecidableEq

/-- The system with what happened in it, newest first. -/
structure Watch where
  system : System
  trace : List Mark

/-- What reaches the queue from elsewhere than the analyzer: nothing that asks for a verdict. -/
def Requested : CctvMsg → Prop
  | .setStat _ stat _ _ => stat = .unregistered
  | .create config => ¬ config.stat.IsVerdict
  | .found config => ¬ (foundConfig config).stat.IsVerdict
  | .setProperties _ _ flags => DB.hasField flags DB.cctvFieldStat = false
  | .delete _ | .removed _ | .hashUpdated _ _ | .register _ _ => True

inductive Event
  | read (obs : Observation) (appended : Bool)
  | post (pushed : Bool)
  | request (msg : {msg // Requested msg}) (pushed : Bool)
  | handle (run : CatchbRun)

namespace Watch

def start (switches : List Switch) (table : Sql.Table) (test : TestConfig) : Watch :=
  ⟨⟨Daemon.start switches table, test, none⟩, []⟩

def step (w : Watch) : Event → Watch
  | .read obs appended =>
    let s := w.system.read obs appended
    match w.system.pass, s.pass with
    | none, some pass => ⟨s, .read pass :: w.trace⟩
    | _, _ => { w with system := s }
  | .post pushed => { w with system := w.system.post pushed }
  | .request msg pushed =>
    { w with system := { w.system with daemon := (w.system.daemon.push msg pushed).2 } }
  | .handle run =>
    match w.system.daemon.msgQ with
    | [] => w
    | msg :: _ =>
      ⟨{ w.system with daemon := w.system.daemon.handleNext run }, .handled msg :: w.trace⟩

end Watch

/-- Of the messages for a camera, these leave its hash alone. -/
def KeepsHash : CctvMsg → Prop
  | .setStat _ stat _ _ => stat ≠ .unregistered
  | _ => False

instance : DecidablePred KeepsHash
  | .setStat _ _ _ _ => inferInstanceAs (Decidable (_ ≠ _))
  | .create _ | .delete _ | .found _ | .removed _ | .hashUpdated _ _ | .setProperties _ _ _
  | .register _ _ => .isFalse id

/-- Every message handled for the camera left its hash alone. -/
def HashKept (id : ID) (marks : List Mark) : Prop :=
  ∀ msg, .handled msg ∈ marks → msg.id = id → KeepsHash msg

/-- What one mark more says about the messages before it. -/
theorem HashKept.of_cons {id : ID} {mark : Mark} {marks : List Mark}
    (h : HashKept id (mark :: marks)) : HashKept id marks :=
  fun msg hm => h msg (List.mem_cons_of_mem _ hm)

/-- A camera's verdict is the outcome of this pass's comparison with the hash it had read,
and the camera still has that hash unless a message for it has touched the hash since. -/
structure CameFrom (trace : List Mark) (c : CctvConfig) (p : Pass) : Prop where
  camera : p.config.id = c.id
  registered : p.config.hash.val ≠ []
  replied : p.obs.replied = true
  outcome : c.stat = if p.Matches then .normal else .abnormal
  applied : ∃ marks msg, marks ++ [.read p] <+: trace ∧ p.message = some msg ∧
    .handled msg ∈ marks ∧ (HashKept c.id marks → c.hash = p.config.hash)

def Settled (w : Watch) : Prop :=
  ∀ cctv ∈ w.system.daemon.cctvs, cctv.config.stat.IsVerdict →
    ∃ p, CameFrom w.trace cctv.config p

/-- The camera a pass has read still has the hash it read, unless that was touched since. -/
def Fresh (w : Watch) (p : Pass) : Prop :=
  ∃ marks, marks ++ [.read p] <+: w.trace ∧
    (HashKept p.config.id marks →
      ∀ cctv, w.system.daemon.getCCTV p.config.id = some cctv → cctv.config.hash = p.config.hash)

structure Inv (w : Watch) : Prop where
  settled : Settled w
  queued : ∀ msg ∈ w.system.daemon.msgQ, Requested msg ∨ ∃ p, p.message = some msg ∧ Fresh w p
  pending : ∀ p, w.system.pass = some p → Fresh w p

theorem CameFrom.cons {trace : List Mark} {c : CctvConfig} {p : Pass} (h : CameFrom trace c p)
    (mark : Mark) : CameFrom (mark :: trace) c p := by
  obtain ⟨hc, hr, hp, ho, marks, msg, ht, hm, hh, hk⟩ := h
  refine ⟨hc, hr, hp, ho, mark :: marks, msg, ?_, hm, List.mem_cons_of_mem _ hh, ?_⟩
  · exact List.prefix_cons_inj mark |>.mpr ht
  · intro hkept
    exact hk hkept.of_cons

/-- A mark that is not about the camera's hash, in a state that has kept the hash. -/
theorem Fresh.cons {w w' : Watch} {p : Pass} {mark : Mark} (h : Fresh w p)
    (ht : w'.trace = mark :: w.trace)
    (hg : HashKept p.config.id [mark] → ∀ cctv',
      w'.system.daemon.getCCTV p.config.id = some cctv' →
      ∃ cctv, w.system.daemon.getCCTV p.config.id = some cctv ∧
        cctv'.config.hash = cctv.config.hash) : Fresh w' p := by
  obtain ⟨marks, hp, hk⟩ := h
  refine ⟨mark :: marks, ?_, ?_⟩
  · rw [ht]
    exact (List.prefix_cons_inj mark).mpr hp
  · intro hkept cctv' hc'
    have hone : HashKept p.config.id [mark] := by
      intro msg hm
      rw [List.mem_singleton] at hm
      exact hkept msg (hm ▸ List.mem_cons_self)
    obtain ⟨cctv, hc, he⟩ := hg hone cctv' hc'
    exact he.trans (hk hkept.of_cons cctv hc)

/-- Steps that neither mark anything nor touch a camera. -/
theorem Fresh.congr {w w' : Watch} {p : Pass} (h : Fresh w p) (ht : w'.trace = w.trace)
    (hc : w'.system.daemon.cctvs = w.system.daemon.cctvs) : Fresh w' p := by
  simpa only [Fresh, ht, getCCTV, hc] using h

/-- A pass reads the camera as it is. -/
theorem begin_config (config : CctvConfig) (test : TestConfig) (obs : Observation) :
    (Pass.begin config test obs).1.config = config := by
  unfold Pass.begin
  split <;> rfl

/-- A pass begins at a camera of the list, or nothing happens. -/
theorem read_cases (s : System) (obs : Observation) (appended : Bool) :
    s.read obs appended = s ∨
    (s.pass = none ∧ ∃ p cctv, (s.read obs appended).pass = some p ∧
      s.daemon.getCCTV p.config.id = some cctv ∧ p.config = cctv.config ∧
      (s.read obs appended).daemon.cctvs = s.daemon.cctvs ∧
      (s.read obs appended).daemon.msgQ = s.daemon.msgQ) := by
  unfold System.read
  split
  · rename_i id rest hp ha
    split
    · exact Or.inl rfl
    · rename_i cctv hg
      have hc := begin_config cctv.config s.test obs
      have hid : cctv.config.id = id := getCCTV_id hg
      refine Or.inr ⟨hp, _, cctv, rfl, ?_, hc, rfl, rfl⟩
      rw [hc, hid]
      exact hg
  · exact Or.inl rfl

theorem inv_read {w : Watch} (h : Inv w) (obs : Observation) (appended : Bool) :
    Inv (w.step (.read obs appended)) := by
  rcases read_cases w.system obs appended with he | ⟨hn, p, cctv, hp, hg, hc, hcs, hq⟩
  · have hs : w.step (.read obs appended) = w := by
      simp only [Watch.step, he]
      split
      · rename_i hn hs
        rw [hn] at hs
        cases hs
      · rfl
    rw [hs]
    exact h
  · have hs : w.step (.read obs appended) =
        ⟨w.system.read obs appended, .read p :: w.trace⟩ := by
      simp only [Watch.step, hn, hp]
    have hget : ∀ id, (w.system.read obs appended).daemon.getCCTV id =
        w.system.daemon.getCCTV id := by
      intro id
      simp only [getCCTV, hcs]
    rw [hs]
    refine ⟨?_, ?_, ?_⟩
    · intro x hx hv
      rw [hcs] at hx
      obtain ⟨q, hcame⟩ := h.settled x hx hv
      exact ⟨q, hcame.cons _⟩
    · intro msg hm
      rw [hq] at hm
      rcases h.queued msg hm with hr | ⟨q, hmsg, hf⟩
      · exact Or.inl hr
      · refine Or.inr ⟨q, hmsg, hf.cons rfl ?_⟩
        intro _ x hx
        rw [hget] at hx
        exact ⟨x, hx, rfl⟩
    · intro q hq'
      rw [hp] at hq'
      cases hq'
      refine ⟨[], List.prefix_append _ _, ?_⟩
      intro _ x hx
      rw [hget, hg] at hx
      cases hx
      rw [hc]

/-- A message enters the queue. -/
theorem inv_push {w w' : Watch} (h : Inv w) (msg : CctvMsg) (pushed : Bool)
    (hmsg : Requested msg ∨ ∃ p, p.message = some msg ∧ Fresh w p)
    (hd : w'.system.daemon = (w.system.daemon.push msg pushed).2)
    (ht : w'.trace = w.trace)
    (hp : ∀ p, w'.system.pass = some p → w.system.pass = some p) : Inv w' := by
  have hcs : w'.system.daemon.cctvs = w.system.daemon.cctvs := by
    rw [hd, push]
    split <;> rfl
  refine ⟨?_, ?_, ?_⟩
  · intro x hx hv
    rw [hcs] at hx
    rw [ht]
    exact h.settled x hx hv
  · intro m hm
    have hm' : m ∈ w.system.daemon.msgQ ∨ m = msg := by
      rw [hd, push] at hm
      split at hm
      · exact (List.mem_append.mp hm).imp_right List.mem_singleton.mp
      · exact Or.inl hm
    have hin : Requested m ∨ ∃ p, p.message = some m ∧ Fresh w p := by
      rcases hm' with hm' | rfl
      · exact h.queued m hm'
      · exact hmsg
    rcases hin with hr | ⟨p, hpm, hf⟩
    · exact Or.inl hr
    · exact Or.inr ⟨p, hpm, hf.congr ht hcs⟩
  · intro p hpass
    exact (h.pending p (hp p hpass)).congr ht hcs

theorem inv_post {w : Watch} (h : Inv w) (pushed : Bool) : Inv (w.step (.post pushed)) := by
  cases hp : w.system.pass with
  | none =>
    have hs : w.step (.post pushed) = w := by simp only [Watch.step, System.post, hp]
    rw [hs]
    exact h
  | some p =>
    have hf := h.pending p hp
    cases hm : p.message with
    | none =>
      have hs : w.step (.post pushed) = ⟨{ w.system with pass := none }, w.trace⟩ := by
        simp only [Watch.step, System.post, hp, hm]
      rw [hs]
      refine ⟨h.settled, h.queued, ?_⟩
      intro q hq
      cases hq
    | some msg =>
      have hs : w.step (.post pushed) =
          ⟨⟨(w.system.daemon.push msg pushed).2, w.system.test, none⟩, w.trace⟩ := by
        simp only [Watch.step, System.post, hp, hm]
      rw [hs]
      refine inv_push h msg pushed (Or.inr ⟨p, hm, hf⟩) rfl rfl ?_
      intro q hq
      cases hq

/-- A handled message that keeps the hash of its camera changes no camera's hash. -/
theorem hash_handle {d : Daemon} {run : CatchbRun} {msg : CctvMsg} {id : ID} {cctv' : Cctv}
    (hk : msg.id = id → KeepsHash msg)
    (hc : (d.handle run msg).2.getCCTV id = some cctv') :
    ∃ cctv, d.getCCTV id = some cctv ∧ cctv'.config.hash = cctv.config.hash := by
  by_cases hid : id = msg.id
  · subst hid
    have hkeep := hk rfl
    cases msg with
    | setStat id stat time hash =>
      have hg : (d.handle run (.setStat id stat time hash)).2.getCCTV id = _ :=
        getCCTV_handle_writes (.setStat id stat time hash) rfl
      obtain ⟨c, hg', rfl⟩ := Option.map_eq_some_iff.mp (hg.symm.trans hc)
      refine ⟨c, hg', ?_⟩
      cases stat with
      | unregistered => exact absurd rfl hkeep
      | unused => rfl
      | normal => rfl
      | abnormal => rfl
    | create => exact hkeep.elim
    | delete => exact hkeep.elim
    | found => exact hkeep.elim
    | removed => exact hkeep.elim
    | hashUpdated => exact hkeep.elim
    | setProperties => exact hkeep.elim
    | register => exact hkeep.elim
  · rw [getCCTV_handle_other hid] at hc
    exact ⟨cctv', hc, rfl⟩

/-- What the queue says about a message that rewrites its camera: the new configuration has
no verdict, has kept the old one, or has a pass's verdict. -/
theorem writes_cases {w : Watch} {msg : CctvMsg} {f : CctvConfig → CctvConfig}
    (hw : writes msg = some f) (hq : Requested msg ∨ ∃ p, p.message = some msg ∧ Fresh w p)
    (c : CctvConfig) (hv : (f c).stat.IsVerdict) :
    (¬ KeepsHash msg ∧ (f c).stat = c.stat) ∨
    ∃ p, p.message = some msg ∧ Fresh w p ∧ p.config.id = msg.id ∧ p.config.hash.val ≠ [] ∧
      p.obs.replied = true ∧ (f c).stat = (if p.Matches then .normal else .abnormal) ∧
      (f c).hash = c.hash := by
  rcases hq with hr | ⟨p, hp, hf⟩
  · left
    cases msg with
    | setStat id stat time hash =>
      cases hw
      have hs : stat = .unregistered := hr
      subst hs
      exact hv.elim
    | setProperties id config flags =>
      cases hw
      have hflag : DB.hasField flags DB.cctvFieldStat = false := hr
      exact ⟨fun hk => hk, by simp [propertyConfig, hflag]⟩
    | hashUpdated id hash => cases hw; exact ⟨fun hk => hk, rfl⟩
    | register id hash => cases hw; exact ⟨fun hk => hk, rfl⟩
    | create => cases hw
    | delete => cases hw
    | found => cases hw
    | removed => cases hw
  · rcases Pass.message_cases hp with ⟨time, hash, rfl⟩ | ⟨hash, rfl⟩ | ⟨hr, hne, time, hash, rfl⟩
    · cases hw
      exact hv.elim
    · cases hw
      exact Or.inl ⟨fun hk => hk, rfl⟩
    · cases hw
      refine Or.inr ⟨p, hp, hf, rfl, hne, hr, ?_, ?_⟩
      · split <;> rfl
      · split <;> rfl

theorem settled_handle {w : Watch} (h : Inv w) (run : CatchbRun) {msg : CctvMsg}
    (hq : Requested msg ∨ ∃ p, p.message = some msg ∧ Fresh w p) {d : Daemon}
    (hd : d.cctvs = w.system.daemon.cctvs) (x : Cctv) (hx : x ∈ (d.handle run msg).2.cctvs)
    (hv : x.config.stat.IsVerdict) : ∃ p, CameFrom (.handled msg :: w.trace) x.config p := by
  rcases mem_cctvs_handle hx with hx | ⟨f, c, hw, hg, rfl⟩ | he
  · obtain ⟨p, hcame⟩ := h.settled x (hd ▸ hx) hv
    exact ⟨p, hcame.cons _⟩
  · have hkey : c.config.id = msg.id := getCCTV_id hg
    have hid : (f c.config).id = msg.id := (writes_id hw c.config).trans hkey
    have hmem : c ∈ w.system.daemon.cctvs := hd ▸ Keyed.get_mem hg
    rcases writes_cases hw hq c.config hv with
      ⟨hk, hstat⟩ | ⟨p, hp, ⟨marks, ht, hkept⟩, hpid, hne, hr, ho, hhash⟩
    · -- The old verdict stays; its hash has been touched.
      obtain ⟨p, hcam, hreg, hrep, ho, marks, m, ht, hm, hin, -⟩ :=
        h.settled c hmem (hstat ▸ hv)
      refine ⟨p, hcam.trans (hkey.trans hid.symm), hreg, hrep, hstat.trans ho,
        .handled msg :: marks, m, ?_, hm, List.mem_cons_of_mem _ hin, ?_⟩
      · exact (List.prefix_cons_inj _).mpr ht
      · intro hkept
        exact absurd (hkept msg List.mem_cons_self hid.symm) hk
    · refine ⟨p, hpid.trans hid.symm, hne, hr, ho, .handled msg :: marks, msg, ?_, hp,
        List.mem_cons_self, ?_⟩
      · exact (List.prefix_cons_inj _).mpr ht
      · intro hall
        have hg' : w.system.daemon.getCCTV p.config.id = some c := by
          rw [hpid, getCCTV, ← hd]
          exact hg
        have hpre : HashKept p.config.id marks := by
          rw [hpid, ← hid]
          exact hall.of_cons
        exact hhash.trans (hkept hpre c hg')
  · rcases hq with hr | ⟨p, hp, -⟩
    · cases msg with
      | create config =>
        have hc : timed run config = x.config := Option.some.inj he
        rw [← hc, timed_stat] at hv
        exact absurd hv hr
      | found config =>
        have hc : foundConfig config = x.config := Option.some.inj he
        rw [← hc] at hv
        exact absurd hv hr
      | delete => cases he
      | removed => cases he
      | hashUpdated => cases he
      | setStat => cases he
      | setProperties => cases he
      | register => cases he
    · rcases Pass.message_cases hp with ⟨_, _, rfl⟩ | ⟨_, rfl⟩ | ⟨-, -, _, _, rfl⟩
      · cases he
      · cases he
      · cases he

theorem inv_handle {w : Watch} (h : Inv w) (run : CatchbRun) : Inv (w.step (.handle run)) := by
  cases hq : w.system.daemon.msgQ with
  | nil =>
    have hs : w.step (.handle run) = w := by simp only [Watch.step, hq]
    rw [hs]
    exact h
  | cons msg rest =>
    obtain ⟨d, hd⟩ : ∃ d, d = { w.system.daemon with msgQ := rest } := ⟨_, rfl⟩
    have hs : w.step (.handle run) =
        ⟨{ w.system with daemon := (d.handle run msg).2 }, .handled msg :: w.trace⟩ := by
      simp only [Watch.step, handleNext, hq, hd]
    have hcs : d.cctvs = w.system.daemon.cctvs := by rw [hd]
    have hmsg := h.queued msg (hq ▸ List.mem_cons_self)
    have hfresh : ∀ p, Fresh w p → Fresh (w.step (.handle run)) p := by
      intro p hf
      rw [hs]
      apply hf.cons rfl
      intro hkept x hx
      have hk : msg.id = p.config.id → KeepsHash msg :=
        hkept msg (List.mem_singleton.mpr rfl)
      obtain ⟨c, hg, he⟩ := hash_handle hk hx
      refine ⟨c, ?_, he⟩
      rw [getCCTV, ← hcs]
      exact hg
    refine ⟨?_, ?_, ?_⟩
    · rw [hs]
      intro x hx hv
      exact settled_handle h run hmsg hcs x hx hv
    · intro m hm
      rw [hs] at hm
      have hm' : m ∈ rest := by
        have hrest : (d.handle run msg).2.msgQ = rest := by rw [msgQ_handle, hd]
        exact hrest ▸ hm
      rcases h.queued m (hq ▸ List.mem_cons_of_mem _ hm') with hr | ⟨p, hp, hf⟩
      · exact Or.inl hr
      · exact Or.inr ⟨p, hp, hfresh p hf⟩
    · intro p hp
      rw [hs] at hp
      exact hfresh p (h.pending p hp)

theorem inv_step (w : Watch) (e : Event) (h : Inv w) : Inv (w.step e) := by
  cases e with
  | read obs appended => exact inv_read h obs appended
  | post pushed => exact inv_post h pushed
  | request msg pushed =>
    exact inv_push h msg.val pushed (Or.inl msg.property) rfl rfl (fun _ hp => hp)
  | handle run => exact inv_handle h run

theorem inv_start (switches : List Switch) (table : Sql.Table) (test : TestConfig) :
    Inv (Watch.start switches table test) := by
  refine ⟨?_, ?_, ?_⟩
  · intro x hx
    cases hx
  · intro m hm
    cases hm
  · intro p hp
    cases hp

/-- In every state reached, a camera with a verdict has it from a pass that compared a hash
the camera had, and still has, unless a message has touched it since. -/
theorem verdicts_come_from_comparisons (switches : List Switch) (table : Sql.Table)
    (test : TestConfig) (es : List Event) :
    ∀ w ∈ states Watch.step (Watch.start switches table test) es, Settled w := by
  intro w hw
  have hinv := states_inv inv_step (inv_start switches table test) es
  exact (hinv w hw).settled

/-- What every pass over the sample camera finds. -/
def seen : Observation := ⟨7, true, ⟨porchHash.val, by decide⟩, 0⟩

/-- A camera enters, its first pass registers it and its second one compares. -/
def compared : List Event :=
  [.request ⟨.create porch, id⟩ true, .handle .smooth,
    .read seen true, .post true, .handle .smooth,
    .read seen true, .post true, .handle .smooth]

theorem compared_verdict_settled :
    Settled (compared.foldl Watch.step (Watch.start [hall] DB.createCCTVTable ⟨false, 0⟩)) :=
  verdicts_come_from_comparisons [hall] DB.createCCTVTable ⟨false, 0⟩ compared _
    (foldl_mem_states _ (List.cons_ne_nil _ _))

/-- No verdict without the hash that it was found by. -/
def Current (w : Watch) : Prop :=
  ∀ cctv ∈ w.system.daemon.cctvs, cctv.config.stat.IsVerdict → cctv.config.hash.val ≠ [] ∧
    ∃ p, CameFrom w.trace cctv.config p ∧ cctv.config.hash = p.config.hash

/-- The same camera, and a reset is queued while the second pass compares. -/
def overtaken : List Event :=
  compared.take 6 ++
    [.request ⟨.setStat porch.id .unregistered 9 (Field.empty 48), rfl⟩ true,
      .post true, .handle .smooth, .handle .smooth]

theorem verdict_after_reset : ¬ ∀ w ∈ states Watch.step
    (Watch.start [hall] DB.createCCTVTable ⟨false, 0⟩) overtaken, Current w := by
  intro h
  obtain ⟨w, hw, c, hc, hv, he⟩ : ∃ w ∈ states Watch.step
      (Watch.start [hall] DB.createCCTVTable ⟨false, 0⟩) overtaken,
      ∃ c ∈ w.system.daemon.cctvs, c.config.stat.IsVerdict ∧ c.config.hash.val = [] := by
    refine ⟨_, List.mem_of_getElem? (i := 9) rfl, _, List.mem_cons_self, ?_, ?_⟩
    · trivial
    · rfl
  exact (h w hw c hc hv).1 he

end Catchb.Proofs.Verdict
