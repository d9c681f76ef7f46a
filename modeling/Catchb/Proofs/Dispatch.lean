import Catchb.EventTimer
import Catchb.Lib.Deadline
import Catchb.Lib.Run

/-! What the scan of the event list leaves behind when it stops. -/

namespace Catchb.Proofs.Dispatch
open Lib Timeval FtmTimer EventTimerManager Sequence

def us (t : Timeval) : Nat := t.tv_sec * 1000000 + t.tv_usec

def Normal (t : Timeval) : Prop := t.tv_usec < 1000000

/-- A positive number of whole seconds. -/
def Whole (ulTimeMS : UInt32) : Prop := 0 < ulTimeMS.toNat ∧ ulTimeMS.toNat % 1000 = 0

instance (ulTimeMS : UInt32) : Decidable (Whole ulTimeMS) := inferInstanceAs (Decidable (_ ∧ _))

section
variable {a b : Timeval} {now : Nat} {ulTimeMS : UInt32} {pTimer : FtmTimer}

theorem us_gettimeofday (now : Nat) : us (gettimeofday now) = now := Nat.div_add_mod' now 1000000

theorem normal_gettimeofday (now : Nat) : Normal (gettimeofday now) := Nat.mod_lt now (by decide)

theorem us_timeradd (a b : Timeval) : us (a.timeradd b) = us a + us b := by
  simp only [timeradd, us]
  split <;> dsimp only <;> omega

theorem normal_timeradd (ha : Normal a) (hb : Normal b) : Normal (a.timeradd b) := by
  simp only [Normal, timeradd] at *
  split <;> dsimp only <;> omega

theorem before_iff (ha : Normal a) (hb : Normal b) : a.before b = true ↔ us a < us b := by
  unfold Normal at ha hb
  unfold before us
  split <;> simp only [decide_eq_true_eq] <;> omega

theorem us_timersub (ha : Normal a) (hb : Normal b) (h : us b ≤ us a) :
    us (a.timersub b) = us a - us b := by
  unfold Normal at ha hb
  unfold us at h
  unfold timersub us
  split <;> dsimp only <;> omega

theorem isExpired_iff (hbase : Normal pTimer.xBaseTime) (hexpired : Normal pTimer.xExpiredTime) :
    pTimer.isExpired now = true ↔ us pTimer.xExpiredTime < now ∨ now < us pTimer.xBaseTime := by
  have hnow := normal_gettimeofday now
  rw [isExpired, Bool.or_eq_true, before_iff hexpired hnow, before_iff hnow hbase, us_gettimeofday]

/-- Below 2^32 milliseconds nothing is cut off. -/
theorem remainMS_toNat (hexpired : Normal pTimer.xExpiredTime)
    (hfits : us pTimer.xExpiredTime < now + 0x100000000 * 1000) :
    (pTimer.remainMS now).toNat = (us pTimer.xExpiredTime - now) / 1000 := by
  have hnow := normal_gettimeofday now
  have hsub : (pTimer.remainUS now).toNat = us pTimer.xExpiredTime - now := by
    simp only [remainUS]
    split
    · rename_i hbefore
      rw [before_iff hnow hexpired, us_gettimeofday] at hbefore
      have hus := us_timersub hexpired hnow (by rw [us_gettimeofday]; omega)
      rw [us_gettimeofday] at hus
      generalize pTimer.xExpiredTime.timersub (gettimeofday now) = d at hus
      have hd : d.tv_sec * 1000000 + d.tv_usec = us pTimer.xExpiredTime - now := hus
      have hmillion : (1000000 : UInt64).toNat = 1000000 := rfl
      simp only [UInt64.toNat_add, UInt64.toNat_mul, UInt64.toNat_ofNat', Nat.toUInt64, hmillion]
      omega
    · rename_i hbefore
      rw [before_iff hnow hexpired, us_gettimeofday] at hbefore
      simp only [UInt64.toNat_zero]
      omega
  rw [remainMS, UInt64.toNat_toUInt32, UInt64.toNat_div, hsub]
  have hthousand : (1000 : UInt64).toNat = 1000 := rfl
  rw [hthousand]
  omega

theorem us_initMS (now : Nat) (ulTimeoutMS : UInt32) :
    us (initMS now ulTimeoutMS).xExpiredTime = now + ulTimeoutMS.toNat * 1000 := by
  rw [initMS, us_timeradd, us_gettimeofday, us]
  dsimp only
  omega

theorem normal_initMS (now : Nat) (ulTimeoutMS : UInt32) :
    Normal (initMS now ulTimeoutMS).xExpiredTime := by
  refine normal_timeradd (normal_gettimeofday now) ?_
  rw [Normal]
  dsimp only
  omega

theorem us_addMS (hwhole : Whole ulTimeMS) :
    us (addMS now ulTimeMS pTimer).xExpiredTime =
      us pTimer.xExpiredTime + ulTimeMS.toNat * 1000 := by
  obtain ⟨-, hmod⟩ := hwhole
  rw [addMS, us_timeradd, us, us]
  dsimp only
  omega

theorem normal_addMS (hwhole : Whole ulTimeMS) (hexpired : Normal pTimer.xExpiredTime) :
    Normal (addMS now ulTimeMS pTimer).xExpiredTime := by
  obtain ⟨-, hmod⟩ := hwhole
  refine normal_timeradd hexpired ?_
  rw [Normal]
  dsimp only
  omega

theorem normal_addMS_base (hbase : Normal pTimer.xBaseTime)
    (hexpired : Normal pTimer.xExpiredTime) : Normal (addMS now ulTimeMS pTimer).xBaseTime := by
  simp only [addMS]
  split
  · exact normal_gettimeofday now
  · split
    · exact hbase
    · exact hexpired

/-- The base time comes back from ahead of the clock. Otherwise it goes on to the time at which
the timer expired, unless more than the interval has passed since. -/
theorem us_addMS_base (hbase : Normal pTimer.xBaseTime) (hwhole : Whole ulTimeMS) :
    now < us pTimer.xBaseTime ∧ us (addMS now ulTimeMS pTimer).xBaseTime = now ∨
    us pTimer.xBaseTime ≤ now ∧ (us pTimer.xBaseTime + ulTimeMS.toNat * 1000 < now ∨
      us (addMS now ulTimeMS pTimer).xBaseTime = us pTimer.xExpiredTime) := by
  obtain ⟨-, hmod⟩ := hwhole
  have hnow := normal_gettimeofday now
  simp only [addMS]
  split
  · rename_i hahead
    rw [before_iff hnow hbase, us_gettimeofday] at hahead
    exact .inl ⟨hahead, us_gettimeofday now⟩
  · rename_i hahead
    rw [before_iff hnow hbase, us_gettimeofday, Nat.not_lt] at hahead
    refine .inr ⟨hahead, ?_⟩
    split
    · rename_i hdiff
      have hsec : ulTimeMS.toNat / 1000 <
          ((now / 1000000 - pTimer.xBaseTime.tv_sec) % 2 ^ 32) := by
        have hlt := UInt32.lt_iff_toNat_lt.mp hdiff
        rwa [UInt32.toNat_div] at hlt
      have hle := Nat.mod_le (now / 1000000 - pTimer.xBaseTime.tv_sec) (2 ^ 32)
      unfold Normal at hbase
      unfold us
      exact .inl (by omega)
    · exact .inr rfl

end

def due (pEvent : EventTimer) : Nat := us pEvent.xTimer.xExpiredTime

/-- What `gettimeofday` and whole intervals leave in an event. -/
structure Timed (pEvent : EventTimer) : Prop where
  base : Normal pEvent.xTimer.xBaseTime
  expired : Normal pEvent.xTimer.xExpiredTime
  whole : pEvent.xType = .repeating → Whole pEvent.ulTimeMS

/-- Less than 2^32 milliseconds are left. -/
def Near (now : Nat) (pEvent : EventTimer) : Prop := due pEvent < now + 0x100000000 * 1000

/-- The event as the scan puts it back. -/
def again (added : Nat) (pEvent : EventTimer) : EventTimer :=
  { pEvent with xTimer := pEvent.xTimer.addMS added pEvent.ulTimeMS }

section
variable {now added : Nat} {pEvent : EventTimer} {pETM : EventTimerManager}

theorem Timed.again (h : Timed pEvent) (hrepeat : pEvent.xType = .repeating) :
    Timed (again added pEvent) where
  base := normal_addMS_base h.base h.expired
  expired := normal_addMS (h.whole hrepeat) h.expired
  whole := h.whole

theorem due_again (h : Timed pEvent) (hrepeat : pEvent.xType = .repeating) :
    due (again added pEvent) = due pEvent + pEvent.ulTimeMS.toNat * 1000 :=
  us_addMS (h.whole hrepeat)

/-- Near enough, the comparator sees the milliseconds that are left. -/
theorem comparator_pos {a b : EventTimer} (ha : Timed a) (hb : Timed b) (hna : Near now a)
    (hnb : Near now b) : EventTimer.comparator now a b > 0 ↔
      Deadline.remaining 1000 now due b < Deadline.remaining 1000 now due a := by
  have hgt : EventTimer.comparator now a b > 0 ↔ a.xTimer.remainMS now > b.xTimer.remainMS now := by
    unfold EventTimer.comparator
    dsimp only
    split
    · simp [*]
    · split <;> simp [*]
  rw [hgt, gt_iff_lt, UInt32.lt_iff_toNat_lt, remainMS_toNat ha.expired hna,
    remainMS_toNat hb.expired hnb]
  rfl

/-- The list after an event was put in. -/
theorem mem_insert {e : EventTimer} : e ∈ (pETM.insert now pEvent).pEventList ↔
    e = pEvent ∨ e ∈ pETM.pEventList := by
  simp only [EventTimerManager.insert, insertBefore, List.mem_append, List.mem_cons]
  rw [or_left_comm, ← List.mem_append, List.takeWhile_append_dropWhile]

/-- This is the list's own insertion, with the comparator as it is at `now`. -/
theorem insert_plain {κ : Type} (seek : EventTimer → κ → Bool) (answer : Ptr) :
    (pETM.insert now pEvent).pEventList =
      (plain seek (EventTimer.comparator now) pETM.pEventList
        (.insert pEvent .assending answer)).2 := rfl

theorem pairwise_insert (htimed : ∀ e ∈ pETM.pEventList, Timed e ∧ Near now e)
    (hp : Timed pEvent ∧ Near now pEvent)
    (h : pETM.pEventList.Pairwise (Deadline.Before 1000 now due)) :
    (pETM.insert now pEvent).pEventList.Pairwise (Deadline.Before 1000 now due) := by
  refine Deadline.pairwise_insert (by decide) h ?_
  intro e he
  obtain ⟨ht, hn⟩ := htimed e he
  rw [Bool.not_eq_true', decide_eq_false_iff_not, comparator_pos ht hp.1 hn hp.2, Nat.not_lt]

end

/-- A manager, and the last time its clock was read. -/
structure Dispatcher where
  clock : Nat
  pETM : EventTimerManager

/-- Events are added by any thread; the turns are the scan's. -/
inductive Op
  | add (created now : Nat) (xType : EventTimerType) (ulExpiredTime : UInt32)
  | turn (checked added inserted : Nat)

def step (s : Dispatcher) : Op → Dispatcher
  | .add created now xType ulExpiredTime => ⟨now, s.pETM.add created now xType ulExpiredTime⟩
  | .turn checked added inserted =>
    match s.pETM.dispatch checked added inserted with
    | some pETM => ⟨inserted, pETM⟩
    | none => ⟨checked, s.pETM⟩

def start : Dispatcher := ⟨0, create⟩

/-- The clock does not go back. An event may have been created long before it is put in. -/
def Forward (s : Dispatcher) : Op → Prop
  | .add created now _ _ => created ≤ now ∧ s.clock ≤ now
  | .turn checked added inserted => s.clock ≤ checked ∧ checked ≤ added ∧ added ≤ inserted

/-- What repeats does so after whole seconds. -/
def WholeSeconds : Op → Prop
  | .add _ _ xType ulExpiredTime => xType = .repeating → Whole ulExpiredTime
  | .turn _ _ _ => True

/-- An event that is put back then has less than 2^32 milliseconds left. -/
def Fits (s : Dispatcher) : Op → Prop
  | .add _ _ _ _ => True
  | .turn checked _ inserted => ∀ pEvent ∈ s.pETM.pEventList.head?,
      pEvent.xTimer.isExpired checked = true → pEvent.xType = .repeating →
      due pEvent + pEvent.ulTimeMS.toNat * 1000 < inserted + 0x100000000 * 1000

/-- The scan stops at its first event, which has a millisecond left. -/
def Stops (now : Nat) (pETM : EventTimerManager) : Prop :=
  ∃ pEvent ∈ pETM.pEventList.head?, pEvent.xTimer.isExpired now = false ∧
    now + 1000 ≤ due pEvent

def NoneDue (now : Nat) (pETM : EventTimerManager) : Prop :=
  ∀ pEvent ∈ pETM.pEventList, now < due pEvent

/-- The turns of a scan come to an end while the clock stands still. -/
def Ends (now : Nat) (pETM : EventTimerManager) : Prop :=
  ∃ n, (fun o : Option EventTimerManager => o.bind (dispatch now now now))^[n] (some pETM) = none

instance (s : Dispatcher) : ∀ op, Decidable (Forward s op)
  | .add created now _ _ => inferInstanceAs (Decidable (created ≤ now ∧ s.clock ≤ now))
  | .turn checked added inserted =>
    inferInstanceAs (Decidable (s.clock ≤ checked ∧ checked ≤ added ∧ added ≤ inserted))

instance : ∀ op, Decidable (WholeSeconds op)
  | .add _ _ xType ulExpiredTime =>
    inferInstanceAs (Decidable (xType = .repeating → Whole ulExpiredTime))
  | .turn _ _ _ => .isTrue trivial

instance (s : Dispatcher) : ∀ op, Decidable (Fits s op)
  | .add _ _ _ _ => .isTrue trivial
  | .turn checked _ inserted => inferInstanceAs (Decidable (∀ pEvent ∈ s.pETM.pEventList.head?,
      pEvent.xTimer.isExpired checked = true → pEvent.xType = .repeating →
      due pEvent + pEvent.ulTimeMS.toNat * 1000 < inserted + 0x100000000 * 1000))

instance (now : Nat) (pETM : EventTimerManager) : Decidable (Stops now pETM) :=
  inferInstanceAs (Decidable (∃ pEvent ∈ pETM.pEventList.head?, _ ∧ _))

instance (now : Nat) (pETM : EventTimerManager) : Decidable (NoneDue now pETM) :=
  inferInstanceAs (Decidable (∀ pEvent ∈ pETM.pEventList, now < due pEvent))

/-- At any later moment. -/
structure MissesNothing (s : Dispatcher) : Prop where
  noneDue : ∀ now, s.clock ≤ now → Stops now s.pETM → NoneDue now s.pETM
  ends : ∀ now, s.clock ≤ now → Ends now s.pETM

/-- The list is in order up to a millisecond, as far as its events are not about to expire. -/
structure Inv (s : Dispatcher) : Prop where
  interval : s.pETM.ulLoopInterval = 10
  timed : ∀ pEvent ∈ s.pETM.pEventList, Timed pEvent ∧ Near s.clock pEvent
  order : s.pETM.pEventList.Pairwise (Deadline.Before 1000 s.clock due)

theorem inv_start : Inv start where
  interval := rfl
  timed := fun _ he => absurd he List.not_mem_nil
  order := List.Pairwise.nil

section
variable {s : Dispatcher} {now created checked added inserted : Nat} {pEvent : EventTimer}
  {pETM : EventTimerManager}

/-- What a turn of the scan does. -/
theorem dispatch_cases (h : pETM.dispatch checked added inserted = some pETM') :
    ∃ pEvent rest, pETM.pEventList = pEvent :: rest ∧ pEvent.xTimer.isExpired checked = true ∧
      (pEvent.xType = .once ∧ pETM' = { pETM with pEventList := rest } ∨
        pEvent.xType = .repeating ∧
          pETM' = { pETM with pEventList := rest }.insert inserted (again added pEvent)) := by
  unfold dispatch at h
  split at h
  · cases h
  · rename_i pEvent rest hlist
    split at h
    · rename_i hexpired
      refine ⟨pEvent, rest, hlist, hexpired, ?_⟩
      cases htype : pEvent.xType with
      | once =>
        rw [htype] at h
        exact .inl ⟨rfl, (Option.some.inj h).symm⟩
      | repeating =>
        rw [htype] at h
        refine .inr ⟨rfl, ?_⟩
        rw [again, htype]
        exact (Option.some.inj h).symm
    · cases h

theorem Inv.later (h : Inv s) (hle : s.clock ≤ now) : Inv ⟨now, s.pETM⟩ where
  interval := h.interval
  timed := fun e he => ⟨(h.timed e he).1, Nat.lt_of_lt_of_le (h.timed e he).2 (by dsimp only; omega)⟩
  order := h.order.imp fun hb => hb.later hle

theorem Inv.insert (h : Inv ⟨now, pETM⟩) (ht : Timed pEvent) (hn : Near now pEvent) :
    Inv ⟨now, pETM.insert now pEvent⟩ where
  interval := h.interval
  timed := by
    intro e he
    rcases mem_insert.mp he with rfl | he
    · exact ⟨ht, hn⟩
    · exact h.timed e he
  order := pairwise_insert h.timed ⟨ht, hn⟩ h.order

theorem Inv.rest {rest : List EventTimer} (h : Inv s) (hlist : s.pETM.pEventList = pEvent :: rest) :
    Inv ⟨s.clock, { s.pETM with pEventList := rest }⟩ where
  interval := h.interval
  timed := fun e he => h.timed e (hlist ▸ List.mem_cons_of_mem _ he)
  order := (List.pairwise_cons.mp (hlist ▸ h.order)).2

/-- Whole seconds are longer than the loop's interval. -/
theorem keeps_interval {ulTimeMS : UInt32} (h : Whole ulTimeMS) :
    (if ulTimeMS > 10 then ulTimeMS else 10) = ulTimeMS := by
  obtain ⟨hpos, hmod⟩ := h
  have hten : (10 : UInt32).toNat = 10 := rfl
  rw [if_pos]
  rw [gt_iff_lt, UInt32.lt_iff_toNat_lt]
  omega

theorem inv_add {xType : EventTimerType} {ulExpiredTime : UInt32} (h : Inv s)
    (hcreated : created ≤ now) (hclock : s.clock ≤ now)
    (hwhole : xType = .repeating → Whole ulExpiredTime) :
    Inv ⟨now, s.pETM.add created now xType ulExpiredTime⟩ := by
  refine (h.later hclock).insert ⟨normal_gettimeofday created, normal_initMS _ _, ?_⟩ ?_
  · intro htype
    rw [h.interval, keeps_interval (hwhole htype)]
    exact hwhole htype
  · have hlt := ulExpiredTime.toNat_lt
    rw [Near, due, us_initMS]
    omega

theorem inv_turn (h : Inv s) (hforward : Forward s (.turn checked added inserted))
    (hfits : Fits s (.turn checked added inserted)) : Inv (step s (.turn checked added inserted)) := by
  obtain ⟨hchecked, hadded, hinserted⟩ := hforward
  rw [step]
  split
  · rename_i pETM' hdispatch
    obtain ⟨pEvent, rest, hlist, hexpired, hcase⟩ := dispatch_cases hdispatch
    have hclock : s.clock ≤ inserted := by omega
    have hrest := (h.rest hlist).later hclock
    rcases hcase with ⟨-, rfl⟩ | ⟨hrepeat, rfl⟩
    · exact hrest
    · have ht := (h.timed pEvent (hlist ▸ List.mem_cons_self)).1
      refine hrest.insert (ht.again hrepeat) ?_
      rw [Near, due_again ht hrepeat]
      exact hfits pEvent (by rw [hlist]; rfl) hexpired hrepeat
  · exact h.later hchecked

theorem inv_step {op : Op} (h : Inv s) (hop : Forward s op ∧ WholeSeconds op ∧ Fits s op) :
    Inv (step s op) := by
  obtain ⟨hforward, hwhole, hfits⟩ := hop
  cases op with
  | add created now xType ulExpiredTime => exact inv_add h hforward.1 hforward.2 hwhole
  | turn checked added inserted => exact inv_turn h hforward hfits

theorem Inv.noneDue (h : Inv s) (hstops : Stops s.clock s.pETM) : NoneDue s.clock s.pETM := by
  obtain ⟨pEvent, hhead, -, hfar⟩ := hstops
  obtain ⟨rest, hlist⟩ := List.head?_eq_some_iff.mp hhead
  rw [NoneDue, hlist]
  exact Deadline.none_due (hlist ▸ h.order) (by decide) hfar

/-- How many more turns an event can take at `now`: two for each time that it has to catch up
with, and one when its base time is ahead. -/
def lag (now : Nat) (pEvent : EventTimer) : Nat :=
  2 * (now - due pEvent) + if now < us pEvent.xTimer.xBaseTime then 1 else 0

theorem lag_again (ht : Timed pEvent) (hrepeat : pEvent.xType = .repeating)
    (hexpired : pEvent.xTimer.isExpired now = true) : lag now (again now pEvent) < lag now pEvent := by
  rw [isExpired_iff ht.base ht.expired] at hexpired
  have hdue : due (again now pEvent) = due pEvent + pEvent.ulTimeMS.toNat * 1000 :=
    due_again ht hrepeat
  have hpos := (ht.whole hrepeat).1
  have hbase := @us_addMS_base now _ _ ht.base (ht.whole hrepeat)
  have hagain : us (again now pEvent).xTimer.xBaseTime =
      us (addMS now pEvent.ulTimeMS pEvent.xTimer).xBaseTime := rfl
  have hold : due pEvent = us pEvent.xTimer.xExpiredTime := rfl
  unfold lag
  rw [hdue, hagain]
  split <;> split <;> omega

/-- All the turns that the events can take. -/
def lags (now : Nat) : List EventTimer → Nat
  | [] => 0
  | e :: es => lag now e + 1 + lags now es

theorem lags_append (xs ys : List EventTimer) :
    lags now (xs ++ ys) = lags now xs + lags now ys := by
  induction xs with
  | nil => simp [lags]
  | cons e xs ih =>
    rw [List.cons_append, lags, lags, ih]
    omega

theorem lags_insert : lags now (pETM.insert now pEvent).pEventList =
    lag now pEvent + 1 + lags now pETM.pEventList := by
  have hsplit : lags now pETM.pEventList =
      lags now (pETM.pEventList.takeWhile fun e => !(EventTimer.comparator now e pEvent > 0)) +
        lags now (pETM.pEventList.dropWhile fun e => !(EventTimer.comparator now e pEvent > 0)) := by
    rw [← lags_append, List.takeWhile_append_dropWhile]
  rw [EventTimerManager.insert, insertBefore, lags_append, lags, hsplit]
  omega

theorem ends (h : ∀ e ∈ pETM.pEventList, Timed e) (now : Nat) : Ends now pETM := by
  refine Deadline.ends_of_measure (fun p => ∀ e ∈ p.pEventList, Timed e)
    (fun p => lags now p.pEventList) ?_ h
  intro p p' hp hdispatch
  obtain ⟨pEvent, rest, hlist, hexpired, hcase⟩ := dispatch_cases hdispatch
  obtain ⟨ht, hrest⟩ := List.forall_mem_cons.mp (hlist ▸ hp)
  have hlags : lags now p.pEventList = lag now pEvent + 1 + lags now rest := by
    rw [hlist, lags]
  rw [hlags]
  rcases hcase with ⟨-, rfl⟩ | ⟨hrepeat, rfl⟩
  · exact ⟨hrest, by dsimp only; omega⟩
  · constructor
    · intro e he
      rcases mem_insert.mp he with rfl | he
      · exact ht.again hrepeat
      · exact hrest e he
    · have hlt := lag_again ht hrepeat hexpired
      rw [lags_insert]
      dsimp only
      omega

/-- In every run in which what is put back has less than 2^32 milliseconds left. -/
theorem dispatch_misses_nothing {ops : List Op} (hforward : Admitted step Forward start ops)
    (hwhole : ∀ op ∈ ops, WholeSeconds op) (hfits : Admitted step Fits start ops) :
    ∀ s ∈ states step start ops, MissesNothing s := by
  have hadmitted : Admitted step (fun s op => Forward s op ∧ WholeSeconds op ∧ Fits s op)
      start ops := admitted_and.mpr ⟨hforward, admitted_and.mpr ⟨admitted_const.mpr hwhole, hfits⟩⟩
  intro s hs
  have h := states_inv_of_admitted (fun _ _ => inv_step) inv_start hadmitted s hs
  constructor
  · intro now hnow hstops
    exact (h.later hnow).noneDue hstops
  · intro now _
    exact ends (fun e he => (h.timed e he).1) now

end

/-- A check every ten seconds and an event in three, with the scan a little late. -/
def daily : List Op :=
  [.add 0 0 .repeating 10000, .add 7000000 7000400 .once 3000, .turn 10000800 10000900 10001000,
    .turn 10001000 10001000 10001000]

theorem daily_misses_nothing : Admitted step Forward start daily ∧
    ∀ s ∈ states step start daily, MissesNothing s :=
  ⟨by decide, dispatch_misses_nothing (by decide) (by decide) (by decide)⟩

/-- An interval of 2147490 seconds that the scan comes to 1.2 seconds late is put back twice. What
is left then is 12 seconds more than 2^32 milliseconds, and an event of 20 seconds goes behind. -/
def late : List Op :=
  [.add 500000 500000 .repeating 2147490000,
    .turn 2147491200000 2147491200000 2147491200000,
    .turn 2147491200000 2147491200000 2147491200000,
    .add 2147492000000 2147492000000 .once 20000]

theorem event_missed : Admitted step Forward start late ∧ (∀ op ∈ late, WholeSeconds op) ∧
    ¬∀ s ∈ states step start late, MissesNothing s := by
  refine ⟨by decide +kernel, by decide, fun h => ?_⟩
  have hlast := h (late.foldl step start) (foldl_mem_states start (by decide))
  have hstops : Stops 2147520000000 (late.foldl step start).pETM := by decide +kernel
  have hnone := hlast.noneDue 2147520000000 (by decide +kernel) hstops
  exact absurd hnone (by decide +kernel)

/-- Three intervals are less than 2^32 milliseconds. -/
def Short : Op → Prop
  | .add _ _ xType ulExpiredTime => xType = .repeating → ulExpiredTime.toNat ≤ 1431655000
  | .turn _ _ _ => True

/-- How far ahead of the clock a repeated event gets: a turn that only the base time calls for
puts it on by an interval, and takes the base time to the clock or leaves it one interval back. -/
structure Paced (now : Nat) (pEvent : EventTimer) : Prop where
  short : pEvent.ulTimeMS.toNat ≤ 1431655000
  ahead : due pEvent ≤ now + pEvent.ulTimeMS.toNat * 1000 ∨
    us pEvent.xTimer.xBaseTime ≤ now ∧ due pEvent ≤ now + 3 * (pEvent.ulTimeMS.toNat * 1000) ∨
    due pEvent = us pEvent.xTimer.xBaseTime + pEvent.ulTimeMS.toNat * 1000 ∧
      due pEvent ≤ now + 2 * (pEvent.ulTimeMS.toNat * 1000)

/-- The invariant of runs with short intervals. -/
structure Calm (s : Dispatcher) : Prop extends Inv s where
  paced : ∀ pEvent ∈ s.pETM.pEventList, pEvent.xType = .repeating → Paced s.clock pEvent

section
variable {s : Dispatcher} {now created checked added inserted : Nat} {pEvent : EventTimer}

theorem Paced.later {now' : Nat} (h : Paced now pEvent) (hle : now ≤ now') : Paced now' pEvent where
  short := h.short
  ahead := by
    have hahead := h.ahead
    omega

theorem Paced.putBack (h : Paced now pEvent) (ht : Timed pEvent)
    (hrepeat : pEvent.xType = .repeating) (hexpired : pEvent.xTimer.isExpired checked = true)
    (hnow : now ≤ checked) (hchecked : checked ≤ added) (hadded : added ≤ inserted) :
    Paced inserted (again added pEvent) where
  short := h.short
  ahead := by
    rw [isExpired_iff ht.base ht.expired] at hexpired
    have hdue : due (again added pEvent) = due pEvent + pEvent.ulTimeMS.toNat * 1000 :=
      due_again ht hrepeat
    have hbase := @us_addMS_base added _ _ ht.base (ht.whole hrepeat)
    have hagain : us (again added pEvent).xTimer.xBaseTime =
        us (addMS added pEvent.ulTimeMS pEvent.xTimer).xBaseTime := rfl
    have hinterval : (again added pEvent).ulTimeMS = pEvent.ulTimeMS := rfl
    have hold : due pEvent = us pEvent.xTimer.xExpiredTime := rfl
    have hahead := h.ahead
    rw [hdue, hagain, hinterval]
    omega

theorem Paced.fits (h : Paced now pEvent) (ht : Timed pEvent)
    (hrepeat : pEvent.xType = .repeating) (hexpired : pEvent.xTimer.isExpired checked = true)
    (hnow : now ≤ checked) (hchecked : checked ≤ added) (hadded : added ≤ inserted) :
    due pEvent + pEvent.ulTimeMS.toNat * 1000 < inserted + 0x100000000 * 1000 := by
  have hpaced := h.putBack ht hrepeat hexpired hnow hchecked hadded
  have hahead := hpaced.ahead
  have hshort : (again added pEvent).ulTimeMS.toNat ≤ 1431655000 := h.short
  have hdue : due (again added pEvent) = due pEvent + pEvent.ulTimeMS.toNat * 1000 :=
    due_again ht hrepeat
  omega

theorem Calm.fits {op : Op} (h : Calm s) (hforward : Forward s op) : Fits s op := by
  cases op with
  | add created now xType ulExpiredTime => trivial
  | turn checked added inserted =>
    obtain ⟨hclock, hchecked, hadded⟩ := hforward
    intro pEvent hhead hexpired hrepeat
    have hmem : pEvent ∈ s.pETM.pEventList := List.mem_of_mem_head? hhead
    exact (h.paced pEvent hmem hrepeat).fits (h.timed pEvent hmem).1 hrepeat hexpired hclock
      hchecked hadded

theorem calm_step {op : Op} (h : Calm s)
    (hop : Forward s op ∧ WholeSeconds op ∧ Short op) : Calm (step s op) := by
  obtain ⟨hforward, hwhole, hshort⟩ := hop
  refine ⟨inv_step h.toInv ⟨hforward, hwhole, h.fits hforward⟩, ?_⟩
  cases op with
  | add created now xType ulExpiredTime =>
    obtain ⟨hcreated, hclock⟩ := hforward
    intro e he hrepeat
    rcases mem_insert.mp he with rfl | he
    · have hms : (if ulExpiredTime > s.pETM.ulLoopInterval then ulExpiredTime
          else s.pETM.ulLoopInterval) = ulExpiredTime := by
        rw [h.interval, keeps_interval (hwhole hrepeat)]
      refine ⟨by rw [hms]; exact hshort hrepeat, .inl ?_⟩
      rw [due, us_initMS, hms]
      exact Nat.add_le_add_right hcreated _
    · exact (h.paced e he hrepeat).later hclock
  | turn checked added inserted =>
    obtain ⟨hclock, hchecked, hadded⟩ := hforward
    rw [step]
    split
    · rename_i pETM' hdispatch
      obtain ⟨pEvent, rest, hlist, hexpired, hcase⟩ := dispatch_cases hdispatch
      have hrest : ∀ e ∈ rest, e.xType = .repeating → Paced inserted e := fun e he hrepeat =>
        (h.paced e (hlist ▸ List.mem_cons_of_mem _ he) hrepeat).later (by omega)
      rcases hcase with ⟨-, rfl⟩ | ⟨hrepeat, rfl⟩
      · exact hrest
      · intro e he hr
        rcases mem_insert.mp he with rfl | he
        · have hmem : pEvent ∈ s.pETM.pEventList := hlist ▸ List.mem_cons_self
          exact (h.paced pEvent hmem hrepeat).putBack (h.timed pEvent hmem).1 hrepeat hexpired
            hclock hchecked hadded
        · exact hrest e he hr
    · exact fun e he hrepeat => (h.paced e he hrepeat).later hclock

/-- No repetition of up to 1431655 seconds comes near 2^32 milliseconds. -/
theorem fits_of_short {ops : List Op} (hforward : Admitted step Forward start ops)
    (hwhole : ∀ op ∈ ops, WholeSeconds op) (hshort : ∀ op ∈ ops, Short op) :
    Admitted step Fits start ops := by
  have hstart : Calm start := ⟨inv_start, fun _ he => absurd he List.not_mem_nil⟩
  have hadmitted : Admitted step (fun s op => Forward s op ∧ WholeSeconds op ∧ Short op)
      start ops := admitted_and.mpr
        ⟨hforward, admitted_and.mpr ⟨admitted_const.mpr hwhole, admitted_const.mpr hshort⟩⟩
  have hboth := (admitted_congr (fun _ _ => calm_step)
    (fun s op h => ⟨And.right, fun hop => ⟨h.fits hop.1, hop⟩⟩) hstart ops).mpr hadmitted
  exact (admitted_and.mp hboth).1

end

end Catchb.Proofs.Dispatch
