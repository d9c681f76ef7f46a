import Catchb.Lib.Run
import Catchb.ServerSessions

/-! Sessions between the accept loop, their threads and the release list. -/

namespace Catchb.Proofs.ServerLifetime
open Lib ServerSessions

variable {t : ServerSessions} {ulMaxSession n id : Nat} {p q : ServicePc}

def serving (p : Option ServicePc) : Bool := p = some .serving

/-- The thread has had the semaphore and not given it back. -/
def holds : ServicePc → Bool
  | .serving | .posting _ => true
  | .waiting | .returning _ | .exited => false

/-- The session has been put into the release list. -/
def handed : ServicePc → Bool
  | .posting appended | .returning appended => appended
  | .exited => true
  | .waiting | .serving => false

/-- What may be said of the sessions at any time. -/
structure Safe (ulMaxSession : Nat) (t : ServerSessions) : Prop where
  settled : ∀ id, t.pc id = some .exited → id ∈ t.xReleaseSessionList ∨ id ∈ t.destroyed
  once : t.destroyed.Nodup
  ended : ∀ id ∈ t.destroyed, ∀ p, t.pc id = some p → p = .exited
  bounded : t.threads.countP serving ≤ ulMaxSession

/-- No thread ends whose wait for the semaphore failed, or whose session the release list had no
memory for. -/
def HandsOver (t : ServerSessions) : SessionEvent → Prop
  | .exit id => t.pc id ≠ some (.returning false)
  | _ => True

instance (t : ServerSessions) : ∀ e, Decidable (HandsOver t e)
  | .exit _ => inferInstanceAs (Decidable (_ ≠ _))
  | .accept _ _ | .acquire _ | .timeout _ | .leave _ _ | .post _ | .release | .stop | .drain =>
    .isTrue trivial

/-- The semaphore's count and the threads that hold it make up its initial count. Until the loop
stops, what is in the release list is not destroyed. -/
structure Inv (ulMaxSession : Nat) (t : ServerSessions) : Prop where
  permits : t.xSemaphore + t.threads.countP (Option.any holds) = ulMaxSession
  once : t.destroyed.Nodup
  dead : ∀ id ∈ t.destroyed, id < t.threads.length ∧ ∀ p, t.pc id = some p → p = .exited
  settled : ∀ id p, t.pc id = some p → handed p = true →
    id ∈ t.xReleaseSessionList ∨ id ∈ t.destroyed
  queue : t.xReleaseSessionList.Nodup
  queued : ∀ id ∈ t.xReleaseSessionList, ∃ p, t.pc id = some p ∧ handed p = true
  fresh : t.bStop = false → ∀ id ∈ t.xReleaseSessionList, id ∉ t.destroyed
  list : t.xSessionList.Nodup
  listed : ∀ id ∈ t.xSessionList, id < t.threads.length ∧ id ∉ t.destroyed

theorem Inv.safe (h : Inv ulMaxSession t) : Safe ulMaxSession t where
  settled := fun id hid => h.settled id .exited hid rfl
  once := h.once
  ended := fun id hid => (h.dead id hid).2
  bounded := by
    have hle : t.threads.countP serving ≤ t.threads.countP (Option.any holds) := by
      apply List.countP_mono_left
      intro p _ hp
      have hserving : p = some .serving := by simpa [serving] using hp
      rw [hserving]
      rfl
    have hpermits := h.permits
    omega

theorem inv_start : Inv ulMaxSession (start ulMaxSession) where
  permits := rfl
  once := List.nodup_nil
  dead := fun _ hid => absurd hid List.not_mem_nil
  settled := fun id p hp => by simp [pc, start] at hp
  queue := List.nodup_nil
  queued := fun _ hid => absurd hid List.not_mem_nil
  fresh := fun _ _ hid => absurd hid List.not_mem_nil
  list := List.nodup_nil
  listed := fun _ hid => absurd hid List.not_mem_nil

/-- How a thread's next operation changes what its semaphore has handed out. -/
theorem permits_goTo (hq : t.pc id = some q) :
    (t.goTo id p).threads.countP (Option.any holds) + (holds q).toNat =
      t.threads.countP (Option.any holds) + (holds p).toNat := by
  have hlt := lt_of_pc hq
  obtain ⟨_, hget⟩ := List.getElem?_eq_some_iff.mp (pc_eq_some.mp hq)
  have hpos : holds q = true → 0 < t.threads.countP (Option.any holds) := by
    intro hheld
    rw [List.countP_pos_iff]
    exact ⟨some q, List.mem_of_getElem hget, hheld⟩
  rw [goTo, List.countP_set hlt, hget]
  cases hheld : holds q with
  | false => cases hnext : holds p <;> simp [hheld, hnext]
  | true =>
    have hcount := hpos hheld
    cases hnext : holds p <;> simp [hheld, hnext] <;> omega

/-- The release list after a thread's next operation. -/
def released (t : ServerSessions) (id : Nat) (q p : ServicePc) : List Nat :=
  if handed p && !handed q then t.xReleaseSessionList ++ [id] else t.xReleaseSessionList

theorem mem_released (hkeep : handed q = true → handed p = true) {j : Nat}
    (hid : handed q = true → id ∈ t.xReleaseSessionList) :
    j ∈ released t id q p ↔ j ∈ t.xReleaseSessionList ∨ (j = id ∧ handed p = true) := by
  unfold released
  cases hq : handed q with
  | true =>
    simp only [hkeep hq, Bool.not_true, Bool.and_false, Bool.false_eq_true, ↓reduceIte, and_true]
    constructor
    · exact Or.inl
    · rintro (hj | rfl)
      · exact hj
      · exact hid hq
  | false => cases hp : handed p <;> simp

/-- A thread goes on that has not ended, and puts its session into the release list if it is
handed over there. -/
theorem inv_goTo (h : Inv ulMaxSession t) (hq : t.pc id = some q) (hlive : q ≠ .exited)
    (hkeep : handed q = true → handed p = true)
    (hn : n + (holds p).toNat = t.xSemaphore + (holds q).toNat) :
    Inv ulMaxSession { t.goTo id p with
      xSemaphore := n
      xReleaseSessionList := released t id q p } := by
  have hpc : ∀ j p', (t.goTo id p).pc j = some p' ↔
      (j = id ∧ p' = p) ∨ (j ≠ id ∧ t.pc j = some p') := fun j p' => pc_goTo_iff hq
  have hnot : id ∉ t.destroyed := fun hid => hlive ((h.dead id hid).2 q hq)
  have hin : handed q = true → id ∈ t.xReleaseSessionList :=
    fun hhanded => (h.settled id q hq hhanded).resolve_right hnot
  have hout : handed q = false → id ∉ t.xReleaseSessionList := by
    intro hno hid
    obtain ⟨q', hq', hyes⟩ := h.queued id hid
    rw [hq, Option.some.injEq] at hq'
    rw [hq', hyes] at hno
    cases hno
  have hmem : ∀ j, j ∈ released t id q p ↔
      j ∈ t.xReleaseSessionList ∨ (j = id ∧ handed p = true) := fun j => mem_released hkeep hin
  constructor
  · have hcount := permits_goTo (p := p) hq
    have hpermits := h.permits
    show n + (t.goTo id p).threads.countP (Option.any holds) = ulMaxSession
    omega
  · exact h.once
  · intro j hj
    obtain ⟨hlt, hend⟩ := h.dead j hj
    refine ⟨by simpa [goTo] using hlt, fun p' hp' => ?_⟩
    rcases (hpc j p').mp hp' with ⟨rfl, -⟩ | ⟨-, hold⟩
    · exact absurd hj hnot
    · exact hend p' hold
  · intro j p' hp' hhanded
    rw [hmem]
    rcases (hpc j p').mp hp' with ⟨rfl, rfl⟩ | ⟨-, hold⟩
    · exact Or.inl (Or.inr ⟨rfl, hhanded⟩)
    · exact (h.settled j p' hold hhanded).imp_left Or.inl
  · show (released t id q p).Nodup
    unfold released
    split
    · rename_i hnew
      have hno : handed q = false := by simpa using (Bool.and_eq_true_iff.mp hnew).2
      rw [List.nodup_append]
      refine ⟨h.queue, List.nodup_singleton _, ?_⟩
      rintro j hj k hk rfl
      rw [List.mem_singleton] at hk
      exact hout hno (hk ▸ hj)
    · exact h.queue
  · intro j hj
    by_cases hid : j = id
    · refine ⟨p, (hpc j p).mpr (Or.inl ⟨hid, rfl⟩), ?_⟩
      rcases (hmem j).mp hj with hold | ⟨-, hhanded⟩
      · obtain ⟨q', hq', hyes⟩ := h.queued j hold
        rw [hid, hq, Option.some.injEq] at hq'
        exact hkeep (hq' ▸ hyes)
      · exact hhanded
    · obtain ⟨p', hp', hyes⟩ := h.queued j (((hmem j).mp hj).resolve_right (fun hc => hid hc.1))
      exact ⟨p', (hpc j p').mpr (Or.inr ⟨hid, hp'⟩), hyes⟩
  · intro hstop j hj
    rw [hmem] at hj
    rcases hj with hj | ⟨rfl, -⟩
    · exact h.fresh hstop j hj
    · exact hnot
  · exact h.list
  · intro j hj
    obtain ⟨hlt, hdead⟩ := h.listed j hj
    exact ⟨by simpa [goTo] using hlt, hdead⟩

/-- A session whose thread has ended is destroyed, and only it may leave the release list. -/
theorem inv_destroySession {r : List Nat} (h : Inv ulMaxSession t) (hid : t.pc id = some .exited)
    (hnot : id ∉ t.destroyed) (hr : r.Sublist t.xReleaseSessionList)
    (hkept : ∀ j ∈ t.xReleaseSessionList, j ∈ r ∨ j = id) (hgone : t.bStop = false → id ∉ r) :
    Inv ulMaxSession ({ t with xReleaseSessionList := r }.destroySession id) where
  permits := h.permits
  once := List.nodup_cons.mpr ⟨hnot, h.once⟩
  dead := by
    intro j hj
    rcases List.mem_cons.mp hj with rfl | hj
    · refine ⟨lt_of_pc hid, fun p hp => ?_⟩
      have hsome : t.pc j = some p := hp
      rw [hid, Option.some.injEq] at hsome
      exact hsome.symm
    · exact h.dead j hj
  settled := by
    intro j p hp hhanded
    rcases h.settled j p hp hhanded with hj | hj
    · rcases hkept j hj with hj | rfl
      · exact Or.inl hj
      · exact Or.inr List.mem_cons_self
    · exact Or.inr (List.mem_cons_of_mem _ hj)
  queue := h.queue.sublist hr
  queued := fun j hj => h.queued j (hr.subset hj)
  fresh := by
    intro hstop j hj hdead
    rcases List.mem_cons.mp hdead with rfl | hdead
    · exact hgone hstop hj
    · exact h.fresh hstop j (hr.subset hj) hdead
  list := h.list.sublist List.erase_sublist
  listed := by
    intro j hj
    obtain ⟨hne, hj⟩ := (List.Nodup.mem_erase_iff h.list).mp hj
    obtain ⟨hlt, hdead⟩ := h.listed j hj
    exact ⟨hlt, fun hc => (List.mem_cons.mp hc).elim hne hdead⟩

theorem inv_release (h : Inv ulMaxSession t) : Inv ulMaxSession t.release := by
  unfold release
  cases hlist : t.xReleaseSessionList with
  | nil => exact h
  | cons id rest =>
    simp only
    split
    · rename_i hgo
      obtain ⟨hstop, hid⟩ := hgo
      have hqueue := h.queue
      rw [hlist, List.nodup_cons] at hqueue
      have hmem : id ∈ t.xReleaseSessionList := by rw [hlist]; exact List.mem_cons_self
      refine inv_destroySession h hid (h.fresh hstop id hmem) ?_ ?_ (fun _ => hqueue.1)
      · rw [hlist]
        exact List.sublist_cons_self _ _
      · intro j hj
        rw [hlist, List.mem_cons] at hj
        exact hj.symm
    · exact h

theorem inv_drain (h : Inv ulMaxSession t) : Inv ulMaxSession t.drain := by
  unfold drain
  cases hlist : t.xSessionList with
  | nil => exact h
  | cons id rest =>
    simp only
    split
    · rename_i hgo
      obtain ⟨hstop, hid⟩ := hgo
      have hmem : id ∈ t.xSessionList := by rw [hlist]; exact List.mem_cons_self
      refine inv_destroySession h hid (h.listed id hmem).2 (List.Sublist.refl _) ?_ ?_
      · exact fun j hj => Or.inl hj
      · intro hgoing
        rw [hstop] at hgoing
        cases hgoing
    · exact h

/-- The thread of a new session, or none, and nobody has heard of the session yet. -/
theorem pc_concat_iff {x : Option ServicePc} {u : ServerSessions} {j : Nat}
    (hu : u.threads = t.threads ++ [x]) :
    u.pc j = some p ↔ t.pc j = some p ∨ (j = t.threads.length ∧ x = some p) := by
  rw [pc_eq_some, pc_eq_some, hu]
  rcases Nat.lt_trichotomy j t.threads.length with hlt | rfl | hgt
  · rw [List.getElem?_append_left hlt]
    simp [Nat.ne_of_lt hlt]
  · simp
  · have hnone : (t.threads ++ [x])[j]? = none := by
      rw [List.getElem?_eq_none_iff, List.length_append, List.length_singleton]
      exact hgt
    have hold : t.threads[j]? = none := List.getElem?_eq_none_iff.mpr (Nat.le_of_lt hgt)
    rw [hnone, hold]
    simp [Nat.ne_of_gt hgt]

/-- A new thread waits for the semaphore. -/
theorem inv_started (h : Inv ulMaxSession t) : Inv ulMaxSession { t with
    threads := t.threads ++ [some .waiting]
    xSessionList := t.xSessionList ++ [t.threads.length] } := by
  have hnew : t.threads.length ∉ t.destroyed := fun hid => Nat.lt_irrefl _ (h.dead _ hid).1
  constructor
  · simpa [holds] using h.permits
  · exact h.once
  · intro j hj
    obtain ⟨hlt, hend⟩ := h.dead j hj
    refine ⟨by simp; omega, fun p hp => ?_⟩
    rcases (pc_concat_iff rfl).mp hp with hp | ⟨rfl, -⟩
    · exact hend p hp
    · exact absurd hlt (Nat.lt_irrefl _)
  · intro j p hp hhanded
    rcases (pc_concat_iff rfl).mp hp with hp | ⟨-, hx⟩
    · exact h.settled j p hp hhanded
    · obtain rfl := Option.some.inj hx
      cases hhanded
  · exact h.queue
  · intro j hj
    obtain ⟨p, hp, hhanded⟩ := h.queued j hj
    exact ⟨p, (pc_concat_iff rfl).mpr (Or.inl hp), hhanded⟩
  · exact h.fresh
  · rw [List.nodup_append]
    refine ⟨h.list, List.nodup_singleton _, ?_⟩
    rintro j hj k hk rfl
    obtain rfl := List.mem_singleton.mp hk
    exact Nat.lt_irrefl _ (h.listed _ hj).1
  · intro j hj
    rcases List.mem_append.mp hj with hj | hj
    · obtain ⟨hlt, hdead⟩ := h.listed j hj
      exact ⟨by simp; omega, hdead⟩
    · obtain rfl := List.mem_singleton.mp hj
      exact ⟨by simp, hnew⟩

/-- A session that gets no thread is destroyed at once. -/
theorem inv_unstarted (h : Inv ulMaxSession t) : Inv ulMaxSession { t with
    threads := t.threads ++ [none]
    destroyed := t.threads.length :: t.destroyed } := by
  have hnew : t.threads.length ∉ t.destroyed := fun hid => Nat.lt_irrefl _ (h.dead _ hid).1
  have hpc : ∀ j p, ServerSessions.pc { t with
      threads := t.threads ++ [none]
      destroyed := t.threads.length :: t.destroyed } j = some p ↔ t.pc j = some p := by
    intro j p
    rw [pc_concat_iff rfl]
    simp
  constructor
  · simpa using h.permits
  · exact List.nodup_cons.mpr ⟨hnew, h.once⟩
  · intro j hj
    rcases List.mem_cons.mp hj with rfl | hj
    · refine ⟨by simp, fun p hp => ?_⟩
      exact absurd (lt_of_pc ((hpc _ p).mp hp)) (Nat.lt_irrefl _)
    · obtain ⟨hlt, hend⟩ := h.dead j hj
      exact ⟨by simp; omega, fun p hp => hend p ((hpc j p).mp hp)⟩
  · intro j p hp hhanded
    exact (h.settled j p ((hpc j p).mp hp) hhanded).imp_right (List.mem_cons_of_mem _)
  · exact h.queue
  · intro j hj
    obtain ⟨p, hp, hhanded⟩ := h.queued j hj
    exact ⟨p, (hpc j p).mpr hp, hhanded⟩
  · intro hstop j hj hdead
    rcases List.mem_cons.mp hdead with rfl | hdead
    · obtain ⟨p, hp, -⟩ := h.queued _ hj
      exact Nat.lt_irrefl _ (lt_of_pc hp)
    · exact h.fresh hstop j hj hdead
  · exact h.list
  · intro j hj
    obtain ⟨hlt, hdead⟩ := h.listed j hj
    refine ⟨by simp; omega, fun hc => ?_⟩
    rcases List.mem_cons.mp hc with rfl | hc
    · exact Nat.lt_irrefl _ hlt
    · exact hdead hc

/-- Every step keeps the invariant that ends no thread without handing its session over. -/
theorem inv_step {e : SessionEvent} (h : Inv ulMaxSession t) (hgood : HandsOver t e) :
    Inv ulMaxSession (t.step e) := by
  cases e with
  | accept created thread =>
    simp only [step, accept]
    split
    · exact h
    · split
      · exact inv_started h
      · exact inv_unstarted h
  | acquire id =>
    simp only [step]
    split
    · rename_i hpc
      split
      · exact h
      · rename_i hpositive
        refine inv_goTo h hpc (by decide) (by decide) ?_
        simp only [holds, Bool.toNat_true, Bool.toNat_false]
        omega
    · exact h
  | timeout id =>
    simp only [step]
    split
    · rename_i hpc
      exact inv_goTo h hpc (by decide) (by decide) rfl
    · exact h
  | leave id append =>
    simp only [step]
    split
    · rename_i hpc
      have hnext := inv_goTo (p := .posting append) h hpc (by decide) (fun hc => nomatch hc) rfl
      simpa [released, handed] using hnext
    · exact h
  | post id =>
    simp only [step]
    split
    · rename_i appended hpc
      have hnext := inv_goTo (p := .returning appended) (n := t.xSemaphore + 1) h hpc
        (fun hc => nomatch hc) (fun hc => hc) rfl
      simpa [released, handed] using hnext
    · exact h
  | exit id =>
    simp only [step]
    split
    · rename_i appended hpc
      have happended : appended = true := by
        cases appended with
        | true => rfl
        | false => exact absurd hpc hgood
      subst happended
      exact inv_goTo h hpc (by decide) (by decide) rfl
    · exact h
  | release => exact inv_release h
  | stop =>
    exact { h with fresh := fun hgoing => nomatch hgoing }
  | drain => exact inv_drain h

/-- A session whose thread ends otherwise is lost: nothing refers to it but the session list. -/
theorem handsOver_of_safe {e : SessionEvent} (h : Inv ulMaxSession t)
    (hsafe : Safe ulMaxSession (t.step e)) : HandsOver t e := by
  cases e with
  | exit id =>
    intro hpc
    have hnext : t.step (.exit id) = t.goTo id .exited := by simp [step, hpc]
    rw [hnext] at hsafe
    have hexited : (t.goTo id .exited).pc id = some .exited :=
      (pc_goTo_iff hpc).mpr (Or.inl ⟨rfl, rfl⟩)
    rcases hsafe.settled id hexited with hid | hid
    · obtain ⟨p, hp, hhanded⟩ := h.queued id hid
      rw [hpc, Option.some.injEq] at hp
      rw [← hp] at hhanded
      cases hhanded
    · cases (h.dead id hid).2 _ hpc
  | accept _ _ | acquire _ | timeout _ | leave _ _ | post _ | release | stop | drain => trivial

/-- The sessions are safe throughout a run exactly when no thread ends in it that did not get the
semaphore in time, or whose session the release list had no memory for. -/
theorem lifecycle_iff (ulMaxSession : Nat) (es : List SessionEvent) :
    (∀ t ∈ states step (start ulMaxSession) es, Safe ulMaxSession t) ↔
      Admitted step HandsOver (start ulMaxSession) es :=
  safe_iff_admitted (fun _ h => h.safe) (fun _ _ h hgood => inv_step h hgood)
    (fun _ _ h hsafe => handsOver_of_safe h hsafe) inv_start es

/-- Of two connections to a server for one session the second waits in vain. -/
theorem late_session_lost : ∃ t ∈ states step (start 1)
    [.accept true true, .acquire 0, .accept true true, .timeout 1, .exit 1], ¬Safe 1 t := by
  refine ⟨⟨0, [some .serving, some .exited], [0, 1], [], [], false⟩, by decide, fun h => ?_⟩
  have hlost := h.settled 1 rfl
  simp at hlost

end Catchb.Proofs.ServerLifetime
