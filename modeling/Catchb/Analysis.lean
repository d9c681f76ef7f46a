import Catchb.EventTimer
import Catchb.Handlers

/-! One pass of the analyzer over the first camera of its list, when there is one to analyse, and what
happens to the list. -/

namespace Catchb
open Lib

/-- The analyzer's test section. -/
structure TestConfig where
  enable : Bool
  errorRate : UInt32
  deriving DecidableEq

/-- Whether the comparison is made to fail; the rate is turned around when it is. -/
def TestConfig.fails (test : TestConfig) (errorProbability : UInt32) : Bool × TestConfig :=
  if test.enable && decide (test.errorRate > errorProbability) then
    (true, { test with errorRate := 100 - test.errorRate })
  else (false, test)

/-- What a pass finds out about its camera. -/
structure Observation where
  time : UInt32
  replied : Bool
  hashValue : Field 63
  errorProbability : UInt32
  deriving DecidableEq

/-- A pass that has read its camera. -/
structure Pass where
  config : CctvConfig
  obs : Observation
  testFailed : Bool
  deriving DecidableEq

namespace Pass

/-- Only a comparison asks the test section. -/
def begin (config : CctvConfig) (test : TestConfig) (obs : Observation) : Pass × TestConfig :=
  if obs.replied && config.hash.val.length ≠ 0 then
    let (testFailed, test) := test.fails obs.errorProbability
    (⟨config, obs, testFailed⟩, test)
  else (⟨config, obs, false⟩, test)

/-- The hash that the comparison finds equal. -/
def Matches (p : Pass) : Prop :=
  p.testFailed = false ∧ strncmp 64 p.config.hash.val p.obs.hashValue.val = true

instance (p : Pass) : Decidable p.Matches := inferInstanceAs (Decidable (_ ∧ _))

/-- The message that the pass sends to the catchb thread. -/
def message (p : Pass) : Option CctvMsg :=
  let id := p.config.id
  let hash := Field.copy 48 p.obs.hashValue.val
  if !p.obs.replied then
    if p.config.stat ≠ .unregistered then some (.setStat id .unused p.obs.time (Field.empty 48))
    else none
  else if p.config.hash.val.length = 0 then some (.register id hash)
  else if p.Matches then some (.setStat id .normal p.obs.time hash)
  else some (.setStat id .abnormal p.obs.time hash)

end Pass

/-- A pass moves its camera to the end of the list. -/
def Analyzer.rotate (list : List ID) (appended : Bool) : List ID :=
  match list with
  | [] => []
  | id :: rest => if appended then rest ++ [id] else rest

/-- The daemon with its analyzer, which may have read a camera and not yet sent what it
found. The analyzer's lock hides its list until then. -/
structure System where
  daemon : Daemon
  test : TestConfig
  pass : Option Pass

namespace System

/-- A pass begins; `appended` tells whether its camera goes back into the list. -/
def read (s : System) (obs : Observation) (appended : Bool) : System :=
  match s.pass, s.daemon.analyzer with
  | none, id :: _ =>
    match s.daemon.getCCTV id with
    | none => s
    | some cctv =>
      let (pass, test) := Pass.begin cctv.config s.test obs
      let analyzer := Analyzer.rotate s.daemon.analyzer appended
      ⟨{ s.daemon with analyzer }, test, some pass⟩
  | _, _ => s

/-- The pass sends its message and ends. -/
def post (s : System) (pushed : Bool) : System :=
  match s.pass with
  | none => s
  | some pass =>
    match pass.message with
    | none => { s with pass := none }
    | some msg => { s with daemon := (s.daemon.push msg pushed).2, pass := none }

end System

/-- A status that only a comparison gives. -/
def CctvStat.IsVerdict : CctvStat → Prop
  | .normal | .abnormal => True
  | .unregistered | .unused => False

instance : DecidablePred CctvStat.IsVerdict
  | .normal | .abnormal => .isTrue trivial
  | .unregistered | .unused => .isFalse id

namespace Pass
variable {p : Pass}

/-- The only status changes of a pass are UNUSED and the outcome of its comparison. -/
theorem message_cases {msg : CctvMsg} (h : p.message = some msg) :
    (∃ time hash, msg = .setStat p.config.id .unused time hash) ∨
    (∃ hash, msg = .register p.config.id hash) ∨
    (p.obs.replied = true ∧ p.config.hash.val ≠ [] ∧
      ∃ time hash, msg = .setStat p.config.id (if p.Matches then .normal else .abnormal) time hash) := by
  unfold message at h
  cases hr : p.obs.replied with
  | false =>
    simp only [hr, Bool.not_false, ↓reduceIte, Option.ite_none_right_eq_some,
      Option.some.injEq] at h
    exact Or.inl ⟨_, _, h.2.symm⟩
  | true =>
    simp only [hr, Bool.not_true, Bool.false_eq_true, ↓reduceIte] at h
    by_cases he : p.config.hash.val.length = 0
    · simp only [he, ↓reduceIte, Option.some.injEq] at h
      exact Or.inr (Or.inl ⟨_, h.symm⟩)
    · have hne : p.config.hash.val ≠ [] := fun hn => he (congrArg List.length hn)
      refine Or.inr (Or.inr ⟨rfl, hne, ?_⟩)
      by_cases hm : p.Matches
      · simp only [he, hm, ↓reduceIte, Option.some.injEq] at h
        exact ⟨_, _, by rw [if_pos hm]; exact h.symm⟩
      · simp only [he, hm, ↓reduceIte, Option.some.injEq] at h
        exact ⟨_, _, by rw [if_neg hm]; exact h.symm⟩

theorem matches_iff : p.Matches ↔ p.testFailed = false ∧ p.config.hash.val = p.obs.hashValue.val := by
  have hc : p.config.hash.val.length ≤ 64 := Nat.le_trans p.config.hash.property (by decide)
  have ho : p.obs.hashValue.val.length ≤ 64 := Nat.le_trans p.obs.hashValue.property (by decide)
  rw [Matches, strncmp_iff hc ho]

end Pass

/-- The analyzer's list, and the timers of the cameras that the daemon has under their IDs. -/
structure AnalyzerState where
  pList : List ID
  xExpiredTimer : ID → Option FtmTimer

/-- What a pass meets: the clock when it begins and when its camera is analysed, and whether there
is memory for an entry of the list. -/
structure PassRun where
  now : Nat
  later : Nat
  appended : Bool

/-- What a pass returns, and the camera that it has analysed. -/
structure PassResult where
  xRet : Ret
  analysed : Option ID
  state : AnalyzerState

namespace AnalyzerState

def process (ulIPCheckInterval : UInt32) (run : PassRun) (s : AnalyzerState) : PassResult :=
  match s.pList with
  | [] => ⟨.ok, none, s⟩
  | pID :: _ =>
    match s.xExpiredTimer pID with
    | none => ⟨.objectNotFound, none, s⟩
    | some xTimer =>
      if xTimer.isExpired run.now then
        ⟨.ok, some pID,
          { pList := Analyzer.rotate s.pList run.appended
            xExpiredTimer := Function.update s.xExpiredTimer pID
              (some (xTimer.addMS run.later ulIPCheckInterval)) }⟩
      else ⟨.ok, none, s⟩

/-- What happens to the analyzer's list and to the cameras' timers. -/
inductive Event
  | pass (run : PassRun)
  | attach (pID : ID) (allocID appendID : Bool)
  | detach (pID : ID)
  | cameras (xExpiredTimer : ID → Option FtmTimer)

def step (ulIPCheckInterval : UInt32) (s : AnalyzerState) : Event → Option ID × AnalyzerState
  | .pass run =>
    let result := s.process ulIPCheckInterval run
    (result.analysed, result.state)
  | .attach pID allocID appendID =>
    (none, { s with pList := (Analyzer.attach s.pList pID allocID appendID).2 })
  | .detach pID => (none, { s with pList := (Analyzer.detach s.pList pID).2 })
  | .cameras xExpiredTimer => (none, { s with xExpiredTimer })

/-- The cameras that are analysed, in their order. -/
def analysed (ulIPCheckInterval : UInt32) : AnalyzerState → List Event → List ID
  | _, [] => []
  | s, e :: es =>
    let (pID, s) := s.step ulIPCheckInterval e
    pID.toList ++ s.analysed ulIPCheckInterval es

end AnalyzerState
end Catchb
