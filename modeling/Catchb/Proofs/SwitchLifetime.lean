import Catchb.SwitchThreads
import Catchb.Lib.Run

/-! Policy changes on switches that other threads destroy. -/

namespace Catchb.Proofs.SwitchLifetime
open Lib SwitchThreads

/-- The switch that a thread has got from `getSwitch` and operates on next. -/
def inUse : SwitchPc → Option SwitchObject
  | .getAC sw _ | .appendAC sw | .loadScript sw _ | .runScript sw _ | .findAC sw
  | .removeAC sw => some sw
  | .idle | .getSwitch _ _ | .get _ _ | .remove _ _ | .deleteDB _ | .destroySet _
  | .destroyFree _ => none

/-- The switch that a thread has taken out of the list to destroy it. -/
def ending : SwitchPc → Option SwitchObject
  | .deleteDB sw | .destroySet sw | .destroyFree sw => some sw
  | _ => none

/-- No thread is about to operate on a switch that has been destroyed. -/
def Sound (t : SwitchThreads) : Prop :=
  ∀ thread sw, inUse (t.pc thread) = some sw → sw.addr ∉ t.destroyed

/-- A switch is freed when no thread is in the middle of a policy change on it. -/
def Alone (t : SwitchThreads) : SwitchEvent → Prop
  | .go thread _ => ∀ sw, t.pc thread = .destroyFree sw →
    ∀ other user, inUse (t.pc other) = some user → user.addr ≠ sw.addr
  | .appear _ | .control _ _ | .setPolicy _ _ | .delSwitch _ _ | .removed _ => True

/-- A switch that has left the list for good. -/
structure Gone (t : SwitchThreads) (sw : SwitchObject) : Prop where
  absent : ∀ x ∈ t.switches, x.addr ≠ sw.addr
  bounded : sw.addr < t.next

structure Inv (t : SwitchThreads) : Prop where
  sound : Sound t
  addrs : (t.switches.map SwitchObject.addr).Nodup
  bounded : ∀ sw ∈ t.switches, sw.addr < t.next
  live : ∀ sw ∈ t.switches, sw.addr ∉ t.destroyed
  dead : ∀ a ∈ t.destroyed, a < t.next
  gone : ∀ thread sw, ending (t.pc thread) = some sw → Gone t sw

variable {t : SwitchThreads} {thread : SwitchThread}

theorem inv_start : Inv start where
  sound := by intro i sw h; cases h
  addrs := List.nodup_nil
  bounded := by intro sw h; cases h
  live := by intro sw h; cases h
  dead := by intro a h; cases h
  gone := by intro i sw h; cases h

/-- After one thread's step every thread is where it was or at the new place. -/
theorem update_cases (pc : SwitchPc) (i : SwitchThread) :
    Function.update t.pc thread pc i = t.pc i ∨ Function.update t.pc thread pc i = pc := by
  by_cases hi : i = thread
  · subst hi
    exact Or.inr (Function.update_self ..)
  · exact Or.inl (Function.update_of_ne hi ..)

/-- A thread goes on to a place where it holds nothing destroyed. -/
theorem inv_set (h : Inv t) (pc : SwitchPc)
    (huse : ∀ sw, inUse pc = some sw → sw.addr ∉ t.destroyed)
    (hend : ∀ sw, ending pc = some sw → Gone t sw) : Inv (t.set thread pc) where
  sound := by
    intro i sw hsw
    dsimp only [SwitchThreads.set] at hsw
    rcases update_cases pc i with he | he
    · exact h.sound i sw (he ▸ hsw)
    · exact huse sw (he ▸ hsw)
  addrs := h.addrs
  bounded := h.bounded
  live := h.live
  dead := h.dead
  gone := by
    intro i sw hsw
    dsimp only [SwitchThreads.set] at hsw
    have hgone : Gone t sw := by
      rcases update_cases pc i with he | he
      · exact h.gone i sw (he ▸ hsw)
      · exact hend sw (he ▸ hsw)
    exact ⟨hgone.absent, hgone.bounded⟩

theorem inv_set_free (h : Inv t) {pc : SwitchPc} (huse : inUse pc = none)
    (hend : ending pc = none) : Inv (t.set thread pc) := by
  apply inv_set h
  · intro sw hsw
    rw [huse] at hsw
    cases hsw
  · intro sw hsw
    rw [hend] at hsw
    cases hsw

theorem inv_begin (h : Inv t) {pc : SwitchPc} (huse : inUse pc = none) (hend : ending pc = none) :
    Inv (t.begin thread pc) := by
  unfold SwitchThreads.begin
  split
  · exact inv_set_free h huse hend
  · exact h

theorem inv_appear (h : Inv t) (id : ID) : Inv (t.step (.appear id)) where
  sound := h.sound
  addrs := by
    apply Keyed.nodup_append_singleton h.addrs
    rw [Keyed.get_eq_none]
    exact fun sw hsw => Nat.ne_of_lt (h.bounded sw hsw)
  bounded := by
    intro sw hsw
    rcases List.mem_append.mp hsw with hsw | hsw
    · exact Nat.lt_succ_of_lt (h.bounded sw hsw)
    · rw [List.mem_singleton.mp hsw]
      exact Nat.lt_succ_self _
  live := by
    intro sw hsw hd
    rcases List.mem_append.mp hsw with hsw | hsw
    · exact h.live sw hsw hd
    · rw [List.mem_singleton.mp hsw] at hd
      exact absurd (h.dead _ hd) (Nat.lt_irrefl _)
  dead := fun a ha => Nat.lt_succ_of_lt (h.dead a ha)
  gone := by
    intro i sw hsw
    obtain ⟨ha, hb⟩ := h.gone i sw hsw
    refine ⟨?_, Nat.lt_succ_of_lt hb⟩
    intro x hx
    rcases List.mem_append.mp hx with hx | hx
    · exact ha x hx
    · rw [List.mem_singleton.mp hx]
      exact (Nat.ne_of_lt hb).symm

theorem getSwitch_mem {id : ID} {sw : SwitchObject} (h : t.getSwitch id = some sw) :
    sw ∈ t.switches := by
  unfold SwitchThreads.getSwitch at h
  split at h
  · exact Keyed.get_mem h
  · exact List.mem_of_mem_head? h

/-- An operation on a switch leads to another one on it or to the end. -/
theorem inUse_afterUse {pc : SwitchPc} {outcome : Outcome} {sw : SwitchObject}
    (h : inUse (afterUse pc outcome) = some sw) : inUse pc = some sw := by
  unfold afterUse afterGetAC at h
  grind [inUse]

theorem ending_afterUse (pc : SwitchPc) (outcome : Outcome) : ending (afterUse pc outcome) = none := by
  unfold afterUse afterGetAC
  grind [ending]

/-- A switch leaves the list. -/
theorem inv_remove (h : Inv t) {sw : SwitchObject} (hm : sw.addr ∈ t.switches.map SwitchObject.addr)
    {pc : SwitchPc} (huse : inUse pc = none) (hend : ∀ x, ending pc = some x → x = sw) :
    Inv { t with
      switches := Keyed.discard SwitchObject.addr sw.addr t.switches
      pc := Function.update t.pc thread pc } where
  sound := by
    intro i x hx
    dsimp only at hx
    rcases update_cases pc i with he | he
    · exact h.sound i x (he ▸ hx)
    · rw [he, huse] at hx
      cases hx
  addrs := Keyed.nodup_discard h.addrs
  bounded := fun x hx => h.bounded x (Keyed.mem_of_mem_discard hx)
  live := fun x hx => h.live x (Keyed.mem_of_mem_discard hx)
  dead := h.dead
  gone := by
    intro i x hx
    dsimp only at hx
    rcases update_cases pc i with he | he
    · obtain ⟨habsent, hbound⟩ := h.gone i x (he ▸ hx)
      exact ⟨fun y hy => habsent y (Keyed.mem_of_mem_discard hy), hbound⟩
    · obtain ⟨y, hy, haddr⟩ := List.mem_map.mp hm
      rw [hend x (he ▸ hx)]
      refine ⟨Keyed.get_eq_none.mp (Keyed.get_discard_same h.addrs), ?_⟩
      rw [← haddr]
      exact h.bounded y hy

/-- A switch that nobody uses is freed. -/
theorem inv_free (h : Inv t) {sw : SwitchObject} {outcome : Outcome}
    (hpc : t.pc thread = .destroyFree sw) (ha : Alone t (.go thread outcome)) :
    Inv (t.go thread outcome) := by
  obtain ⟨habsent, hbound⟩ := h.gone thread sw (by rw [hpc]; rfl)
  simp only [SwitchThreads.go, hpc]
  refine ⟨?_, h.addrs, h.bounded, ?_, ?_, ?_⟩
  · intro i user hu hd
    dsimp only at hu
    rcases update_cases .idle i with he | he
    · rcases List.mem_cons.mp hd with heq | hd
      · exact ha sw hpc i user (he ▸ hu) heq
      · exact h.sound i user (he ▸ hu) hd
    · rw [he] at hu
      cases hu
  · intro x hx hd
    rcases List.mem_cons.mp hd with he | hd
    · exact habsent x hx he
    · exact h.live x hx hd
  · intro a ha
    rcases List.mem_cons.mp ha with rfl | ha
    · exact hbound
    · exact h.dead a ha
  · intro i x hx
    dsimp only at hx
    rcases update_cases .idle i with he | he
    · obtain ⟨hx1, hx2⟩ := h.gone i x (he ▸ hx)
      exact ⟨hx1, hx2⟩
    · rw [he] at hx
      cases hx

/-- An operation on a switch that a thread has got. -/
theorem inv_use (h : Inv t) (outcome : Outcome) :
    Inv (t.set thread (afterUse (t.pc thread) outcome)) := by
  apply inv_set h
  · intro sw hsw
    exact h.sound thread sw (inUse_afterUse hsw)
  · intro sw hsw
    rw [ending_afterUse] at hsw
    cases hsw

theorem inv_go (h : Inv t) (thread : SwitchThread) (outcome : Outcome)
    (ha : Alone t (.go thread outcome)) : Inv (t.go thread outcome) := by
  have huse : Inv (t.set thread (afterUse (t.pc thread) outcome)) := inv_use h outcome
  cases hpc : t.pc thread with
  | idle =>
    simp only [SwitchThreads.go, hpc]
    exact h
  | getSwitch switchID job =>
    simp only [SwitchThreads.go, hpc]
    cases hg : t.getSwitch switchID with
    | none => exact inv_set_free h rfl rfl
    | some sw =>
      have hlive := h.live sw (getSwitch_mem hg)
      cases job with
      | control policy =>
        apply inv_set h
        · rintro x ⟨⟩
          exact hlive
        · rintro x ⟨⟩
      | addAC =>
        apply inv_set h
        · rintro x ⟨⟩
          exact hlive
        · rintro x ⟨⟩
  | get id inDB =>
    simp only [SwitchThreads.go, hpc]
    split
    · exact inv_set_free h rfl rfl
    · exact inv_set_free h rfl rfl
  | remove sw inDB =>
    simp only [SwitchThreads.go, hpc]
    split
    · rename_i hm
      apply inv_remove h hm
      · cases inDB <;> rfl
      · intro x hx
        cases inDB with
        | true => cases hx; rfl
        | false => cases hx; rfl
    · exact inv_set_free h rfl rfl
  | deleteDB sw =>
    have hgone := h.gone thread sw (by rw [hpc]; rfl)
    simp only [SwitchThreads.go, hpc]
    apply inv_set h
    · rintro x ⟨⟩
    · rintro x ⟨⟩
      exact hgone
  | destroySet sw =>
    have hgone := h.gone thread sw (by rw [hpc]; rfl)
    simp only [SwitchThreads.go, hpc]
    split
    · exact h
    · have hset : Inv (t.set thread (.destroyFree sw)) := by
        apply inv_set h
        · rintro x ⟨⟩
        · rintro x ⟨⟩
          exact hgone
      refine ⟨hset.sound, hset.addrs, hset.bounded, hset.live, hset.dead, ?_⟩
      intro i x hx
      obtain ⟨habsent, hbound⟩ := hset.gone i x hx
      exact ⟨habsent, hbound⟩
  | destroyFree sw => exact inv_free h hpc ha
  | getAC | appendAC | loadScript | runScript | findAC | removeAC =>
    rw [hpc] at huse
    simpa only [SwitchThreads.go, hpc] using huse

theorem inv_step (t : SwitchThreads) (e : SwitchEvent) (h : Inv t) (ha : Alone t e) :
    Inv (t.step e) := by
  cases e with
  | appear id => exact inv_appear h id
  | control switchID policy => exact inv_begin h rfl rfl
  | setPolicy session switchID => exact inv_begin h rfl rfl
  | delSwitch session id => exact inv_begin h rfl rfl
  | removed id => exact inv_begin h rfl rfl
  | go thread outcome => exact inv_go h thread outcome ha

/-- Freeing a switch under a policy change leaves that thread with a destroyed switch. -/
theorem alone_of_sound {e : SwitchEvent} (h : Sound (t.step e)) : Alone t e := by
  cases e with
  | go thread outcome =>
    intro sw hpc other user hu haddr
    have hne : other ≠ thread := by
      rintro rfl
      rw [hpc] at hu
      cases hu
    have hstay : (t.go thread outcome).pc other = t.pc other := by
      simp only [SwitchThreads.go, hpc]
      exact Function.update_of_ne hne ..
    have hfreed : user.addr ∈ (t.go thread outcome).destroyed := by
      simp only [SwitchThreads.go, hpc, haddr]
      exact List.mem_cons_self
    exact h other user (by rw [SwitchThreads.step, hstay]; exact hu) hfreed
  | appear | control | setPolicy | delSwitch | removed => trivial

/-- No thread gets to operate on a destroyed switch exactly in the runs that free switches
only while no policy change is going on on them. -/
theorem switches_sound_iff (es : List SwitchEvent) :
    (∀ t ∈ states step start es, Sound t) ↔ Admitted step Alone start es :=
  safe_iff_admitted (fun _ h => h.sound) inv_step
    (fun _ _ _ hs => alone_of_sound hs) inv_start es

def sw2 : ID := ⟨"sw2".toList, by decide⟩

/-- A server sets a policy while another one deletes the camera's switch. -/
def deletedUnderPolicy : List SwitchEvent :=
  [.appear sw2, .setPolicy 0 sw2, .go (.server 0) .ok, .go (.server 0) .ok, .go (.server 0) .ok,
    .delSwitch 1 sw2, .go (.server 1) .ok, .go (.server 1) .ok, .go (.server 1) .ok,
    .go (.server 1) .ok, .go (.server 1) .ok, .go (.server 0) .busy]

theorem script_runs_on_freed_switch :
    ¬ ∀ t ∈ states step start deletedUnderPolicy, Sound t := by
  intro h
  have hlast := h _ (List.mem_of_getElem? (i := 11) rfl)
  exact hlast (.server 0) ⟨0, sw2⟩ rfl (by decide)

end Catchb.Proofs.SwitchLifetime
