import Catchb.CameraThreads
import Catchb.Lib.Run

/-! The camera that a pass holds stays alive until the pass has released the lock. -/

namespace Catchb.Proofs.CameraLifetime
open Lib CameraThreads

/-- The camera a pass has got and may still use. -/
def held : PassPc → Option Camera
  | .analyze _ cctv | .append _ cctv => some cctv
  | .reset cctv => cctv
  | .set | .count | .getAt | .getCCTV _ => none

/-- The camera in a pass's hands is not destroyed. -/
def Alive (t : CameraThreads) : Prop :=
  ∀ cctv, held t.pass = some cctv → cctv.addr ∉ t.destroyed

def passLocks : PassPc → Nat
  | .set => 0
  | _ => 1

def catchbLocks : CatchbPc → Nat
  | .attachGet _ | .attachAppend _ | .attachReset | .detachGet _ _ | .detachRemove _ _
  | .detachReset _ => 1
  | _ => 0

/-- The analyzer's list, with the ID a pass has taken out to put it back at the end. -/
def entries (t : CameraThreads) : List ID :=
  match t.pass with
  | .append pID _ => t.analyzer ++ [pID]
  | _ => t.analyzer

/-- `onRemovedCCTVInDB` has unlinked the camera of an ID that is still listed. -/
def Leftover : CatchbPc → ID → Prop
  | .detachSet _ (.destroy cctv), id | .detachGet _ (.destroy cctv), id
  | .detachRemove _ (.destroy cctv), id => Analyzer.key id = Analyzer.key cctv.id
  | _, _ => False

/-- The one moment at which a pass may hold a camera that is not in the list: its handler
waits for the lock before it destroys it. -/
def Awaited (pc : CatchbPc) (cctv : Camera) : Prop := ∃ id, pc = .detachSet id (.destroy cctv)

def Listed (t : CameraThreads) (id : ID) : Prop := ∃ cctv ∈ t.cctvs, cctv.id = id

/-- A camera that is not in the list and whose memory is in use. -/
structure Unlinked (t : CameraThreads) (cctv : Camera) : Prop where
  absent : ∀ c ∈ t.cctvs, c.addr ≠ cctv.addr
  live : cctv.addr ∉ t.destroyed
  bounded : cctv.addr < t.next

/-- No entry of the analyzer's list leads to the camera. -/
def NoEntry (t : CameraThreads) (cctv : Camera) : Prop :=
  Analyzer.key cctv.id ∉ (entries t).map Analyzer.key

/-- What each operation of the catchb thread finds. -/
def Handler (t : CameraThreads) : CatchbPc → Prop
  | .pop | .createGet _ | .foundNew _ | .attachReset | .deleteGet _ | .removedGet _ => True
  | .createNew id => id ∉ entries t
  | .createAppend cctv => Unlinked t cctv ∧ cctv.id ∉ entries t
  | .createDB cctv | .createRemove cctv => cctv ∈ t.cctvs ∧ cctv.id ∉ entries t
  | .foundAppend cctv => Unlinked t cctv
  | .attachSet id | .attachGet id => Listed t id
  | .attachAppend id => Listed t id ∧ Analyzer.key id ∉ (entries t).map Analyzer.key
  | .detachSet id (.unlink cctv) | .detachGet id (.unlink cctv) => cctv ∈ t.cctvs ∧ cctv.id = id
  | .detachRemove pSavedID (.unlink cctv) =>
    cctv ∈ t.cctvs ∧ pSavedID ∈ entries t ∧ Analyzer.key pSavedID = Analyzer.key cctv.id
  | .detachReset (.unlink cctv) | .deleteRemove cctv => cctv ∈ t.cctvs ∧ NoEntry t cctv
  | .detachSet id (.destroy cctv) | .detachGet id (.destroy cctv) =>
    Unlinked t cctv ∧ cctv.id = id
  | .detachRemove pSavedID (.destroy cctv) =>
    Unlinked t cctv ∧ pSavedID ∈ entries t ∧ Analyzer.key pSavedID = Analyzer.key cctv.id
  | .detachReset (.destroy cctv) | .deleteDB cctv | .destroy cctv => Unlinked t cctv
  | .removedRemove cctv => cctv ∈ t.cctvs

/-- What each operation of a pass finds. -/
def Passing (t : CameraThreads) : PassPc → Prop
  | .set | .count | .getAt | .reset none => True
  | .getCCTV pID => pID ∈ t.analyzer
  | .analyze pID cctv => cctv.id = pID ∧ pID ∈ t.analyzer
  | .append pID cctv => cctv.id = pID
  | .reset (some cctv) => cctv.id ∈ t.analyzer

structure Inv (t : CameraThreads) : Prop where
  mutex : t.key + passLocks t.pass + catchbLocks t.catchb = 1
  distinct : ((entries t).map Analyzer.key).Nodup
  addrs : (t.cctvs.map Camera.addr).Nodup
  bounded : ∀ cctv ∈ t.cctvs, cctv.addr < t.next
  live : ∀ cctv ∈ t.cctvs, cctv.addr ∉ t.destroyed
  dead : ∀ a ∈ t.destroyed, a < t.next
  covered : ∀ id ∈ entries t, Listed t id ∨ Leftover t.catchb id
  holding : ∀ cctv, held t.pass = some cctv → cctv ∈ t.cctvs ∨ Awaited t.catchb cctv
  passing : Passing t t.pass
  handler : Handler t t.catchb

variable {t : CameraThreads}

/-- The camera a pass holds has its ID in the analyzer's list. -/
theorem held_entry {cctv : Camera} (h : Passing t t.pass) (hh : held t.pass = some cctv) :
    cctv.id ∈ entries t := by
  unfold entries
  cases hp : t.pass with
  | set | count | getAt | getCCTV =>
    rw [hp] at hh
    cases hh
  | analyze pID c =>
    rw [hp] at hh h
    cases hh
    obtain ⟨rfl, hm⟩ := h
    exact hm
  | append pID c =>
    rw [hp] at hh h
    cases hh
    have hid : cctv.id = pID := h
    simp [hid]
  | reset c =>
    rw [hp] at hh h
    cases hh
    exact h

theorem Inv.alive (h : Inv t) : Alive t := by
  intro cctv hh
  rcases h.holding cctv hh with hm | ⟨id, hpc⟩
  · exact h.live cctv hm
  · have hl := h.handler
    rw [hpc] at hl
    exact hl.1.live

/-- Whoever else has the lock, or could take it, no pass is going on. -/
theorem Inv.pass_idle (h : Inv t) (hl : 0 < t.key + catchbLocks t.catchb) : t.pass = .set := by
  have hm := h.mutex
  have hlocks : passLocks t.pass = 0 := by omega
  cases hp : t.pass with
  | set => rfl
  | count | getAt | getCCTV | analyze | append | reset =>
    rw [hp] at hlocks
    cases hlocks

theorem Inv.pass_idle_of_locked (h : Inv t) (hl : catchbLocks t.catchb = 1) : t.pass = .set :=
  h.pass_idle (by omega)

theorem inv_start : Inv start where
  mutex := rfl
  distinct := List.nodup_nil
  addrs := List.nodup_nil
  bounded := by intro c hc; cases hc
  live := by intro c hc; cases hc
  dead := by intro a ha; cases ha
  covered := by intro id hid; cases hid
  holding := by intro c hc; cases hc
  passing := trivial
  handler := trivial

section Pass

/-- The handlers read the list of entries without regard to its order. -/
theorem handler_perm {t' : CameraThreads} {pc : CatchbPc} (hc : t'.cctvs = t.cctvs)
    (hd : t'.destroyed = t.destroyed) (hn : t'.next = t.next)
    (he : (entries t').Perm (entries t)) (h : Handler t pc) : Handler t' pc := by
  have hmem : ∀ id, id ∈ entries t' ↔ id ∈ entries t := fun id => he.mem_iff
  have hkey : ∀ k, k ∈ (entries t').map Analyzer.key ↔ k ∈ (entries t).map Analyzer.key :=
    fun k => (he.map Analyzer.key).mem_iff
  have hu : ∀ cctv, Unlinked t' cctv ↔ Unlinked t cctv := by
    intro cctv
    constructor
    · rintro ⟨ha, hl, hb⟩
      exact ⟨hc ▸ ha, hd ▸ hl, hn ▸ hb⟩
    · rintro ⟨ha, hl, hb⟩
      exact ⟨hc ▸ ha, hd ▸ hl, hn ▸ hb⟩
  have hl : ∀ id, Listed t' id ↔ Listed t id := fun id => by simp only [Listed, hc]
  have hdet : ∀ cctv, NoEntry t' cctv ↔ NoEntry t cctv := fun cctv => not_congr (hkey _)
  unfold Handler at h ⊢
  split at h <;> simp only [hc, hmem, hkey, hu, hl, hdet] <;> exact h

/-- A step of a pass: it changes its own place, the order of the entries and the lock. -/
theorem inv_pass (h : Inv t) (analyzer : List ID) (key : Nat) (pass : PassPc)
    (he : (entries { t with analyzer := analyzer, key := key, pass := pass }).Perm (entries t))
    (hk : key + passLocks pass = t.key + passLocks t.pass)
    (hh : ∀ cctv, held pass = some cctv → held t.pass = some cctv ∨ cctv ∈ t.cctvs)
    (hp : Passing { t with analyzer := analyzer, key := key, pass := pass } pass) :
    Inv { t with analyzer := analyzer, key := key, pass := pass } where
  mutex := by
    have hm := h.mutex
    dsimp only
    omega
  distinct := (he.map Analyzer.key).nodup_iff.mpr h.distinct
  addrs := h.addrs
  bounded := h.bounded
  live := h.live
  dead := h.dead
  covered := fun id hid => h.covered id (he.mem_iff.mp hid)
  holding := by
    intro cctv hcctv
    rcases hh cctv hcctv with hold | hm
    · exact h.holding cctv hold
    · exact Or.inl hm
  passing := hp
  handler := handler_perm (t := t) rfl rfl rfl he h.handler

/-- A step of a pass that leaves it without a camera. -/
theorem inv_pass_free (h : Inv t) (key : Nat) (pass : PassPc)
    (he : entries { t with key := key, pass := pass } = entries t)
    (hk : key + passLocks pass = t.key + passLocks t.pass) (hh : held pass = none)
    (hp : Passing { t with key := key, pass := pass } pass) :
    Inv { t with key := key, pass := pass } := by
  refine inv_pass h t.analyzer key pass (he ▸ List.Perm.refl _) hk ?_ hp
  intro cctv hc
  rw [hh] at hc
  cases hc

theorem inv_passStep (h : Inv t) (expired : Bool) : Inv (t.passStep expired) := by
  have hpass := h.passing
  unfold passStep
  cases hp : t.pass with
  | set =>
    dsimp only
    split
    · exact h
    · rename_i hk
      refine inv_pass_free h _ _ (by simp [entries, hp]) ?_ rfl trivial
      simp only [hp, passLocks]
      omega
  | count =>
    dsimp only
    split
    · exact inv_pass_free h _ _ (by simp [entries, hp]) (by simp [hp, passLocks]) rfl trivial
    · exact inv_pass_free h _ _ (by simp [entries, hp]) (by simp [hp, passLocks]) rfl trivial
  | getAt =>
    dsimp only
    split
    · exact inv_pass_free h _ _ (by simp [entries, hp]) (by simp [hp, passLocks]) rfl trivial
    · rename_i pID rest ha
      refine inv_pass_free h _ _ (by simp [entries, hp]) (by simp [hp, passLocks]) rfl ?_
      simp [Passing, ha]
  | getCCTV pID =>
    rw [hp] at hpass
    dsimp only
    split
    · exact inv_pass_free h _ _ (by simp [entries, hp]) (by simp [hp, passLocks]) rfl trivial
    · rename_i cctv hg
      have hm : cctv ∈ t.cctvs := Keyed.get_mem hg
      have hid : cctv.id = pID := Keyed.get_key hg
      refine inv_pass h _ _ _ ?_ ?_ ?_ ?_
      · simp [entries, hp]
      · simp [hp, passLocks]
      · intro c hc
        cases hc
        exact Or.inr hm
      · exact ⟨hid, hpass⟩
  | analyze pID cctv =>
    rw [hp] at hpass
    obtain ⟨hid, hm⟩ := hpass
    have hheld : held t.pass = some cctv := by rw [hp]; rfl
    dsimp only
    split
    · refine inv_pass h _ _ _ ?_ ?_ ?_ ?_
      · have hperm := List.perm_cons_erase hm
        simp only [entries, hp]
        exact (List.perm_append_singleton _ _).trans hperm.symm
      · simp [hp, passLocks]
      · intro c hc
        exact Or.inl (hheld.trans hc)
      · exact hid
    · refine inv_pass h _ _ _ ?_ ?_ ?_ ?_
      · simp [entries, hp]
      · simp [hp, passLocks]
      · intro c hc
        exact Or.inl (hheld.trans hc)
      · have hmem : cctv.id ∈ t.analyzer := by rw [hid]; exact hm
        exact hmem
  | append pID cctv =>
    rw [hp] at hpass
    have hid : cctv.id = pID := hpass
    have hheld : held t.pass = some cctv := by rw [hp]; rfl
    refine inv_pass h _ _ _ ?_ ?_ ?_ ?_
    · simp [entries, hp]
    · simp [hp, passLocks]
    · intro c hc
      exact Or.inl (hheld.trans hc)
    · simp [Passing, hid]
  | reset cctv =>
    refine inv_pass_free h _ _ (by simp [entries, hp]) ?_ rfl trivial
    simp only [hp, passLocks]

end Pass

section Catchb

/-- An unlinked camera still has to be detached. -/
def removing : CatchbPc → Bool
  | .detachSet _ (.destroy _) | .detachGet _ (.destroy _) | .detachRemove _ (.destroy _) => true
  | _ => false

theorem not_leftover {pc : CatchbPc} (hp : removing pc = false) (id : ID) : ¬ Leftover pc id := by
  intro hf
  unfold Leftover at hf
  split at hf
  · cases hp
  · cases hp
  · cases hp
  · exact hf

theorem not_awaited {pc : CatchbPc} (hp : removing pc = false) (cctv : Camera) :
    ¬ Awaited pc cctv := by
  rintro ⟨id, rfl⟩
  cases hp

/-- A step that changes the thread's own place and the lock. -/
theorem inv_move (h : Inv t) (key : Nat) (pc : CatchbPc)
    (hk : key + catchbLocks pc = t.key + catchbLocks t.catchb)
    (hleft : ∀ id ∈ entries t, Leftover t.catchb id → Leftover pc id)
    (hwait : ∀ cctv, held t.pass = some cctv → Awaited t.catchb cctv → Awaited pc cctv)
    (hl : Handler t pc) : Inv { t with key := key, catchb := pc } where
  mutex := by
    have hm := h.mutex
    dsimp only
    omega
  distinct := h.distinct
  addrs := h.addrs
  bounded := h.bounded
  live := h.live
  dead := h.dead
  covered := by
    intro id hid
    exact (h.covered id hid).imp_right (hleft id hid)
  holding := by
    intro cctv hh
    exact (h.holding cctv hh).imp_right (hwait cctv hh)
  passing := h.passing
  handler := handler_perm (t := t) rfl rfl rfl (List.Perm.refl _) hl

theorem inv_move_plain (h : Inv t) (hp : removing t.catchb = false) (key : Nat) (pc : CatchbPc)
    (hk : key + catchbLocks pc = t.key + catchbLocks t.catchb) (hl : Handler t pc) :
    Inv { t with key := key, catchb := pc } :=
  inv_move h key pc hk (fun id _ hf => absurd hf (not_leftover hp id))
    (fun cctv _ hf => absurd hf (not_awaited hp cctv)) hl

/-- A new address. -/
theorem inv_new (h : Inv t) (hp : removing t.catchb = false) (pc : CatchbPc)
    (hk : catchbLocks pc = catchbLocks t.catchb)
    (hl : Handler { t with next := t.next + 1, catchb := pc } pc) :
    Inv { t with next := t.next + 1, catchb := pc } where
  mutex := by
    have hm := h.mutex
    dsimp only
    omega
  distinct := h.distinct
  addrs := h.addrs
  bounded := fun c hc => Nat.lt_succ_of_lt (h.bounded c hc)
  live := h.live
  dead := fun a ha => Nat.lt_succ_of_lt (h.dead a ha)
  covered := by
    intro id hid
    exact (h.covered id hid).imp_right (fun hf => absurd hf (not_leftover hp id))
  holding := by
    intro cctv hh
    exact (h.holding cctv hh).imp_right (fun hf => absurd hf (not_awaited hp cctv))
  passing := h.passing
  handler := hl

theorem new_unlinked (h : Inv t) (id : ID) (pc : CatchbPc) :
    Unlinked { t with next := t.next + 1, catchb := pc } ⟨t.next, id⟩ where
  absent := fun c hc => Nat.ne_of_lt (h.bounded c hc)
  live := fun hd => absurd (h.dead _ hd) (Nat.lt_irrefl _)
  bounded := Nat.lt_succ_self _

/-- A camera enters the list. -/
theorem inv_link (h : Inv t) (hp : removing t.catchb = false) {cctv : Camera} (hu : Unlinked t cctv)
    (pc : CatchbPc) (hk : catchbLocks pc = catchbLocks t.catchb)
    (hl : Handler { t with cctvs := t.cctvs ++ [cctv], catchb := pc } pc) :
    Inv { t with cctvs := t.cctvs ++ [cctv], catchb := pc } where
  mutex := by
    have hm := h.mutex
    dsimp only
    omega
  distinct := h.distinct
  addrs := by
    apply Keyed.nodup_append_singleton h.addrs
    rw [Keyed.get_eq_none]
    exact hu.absent
  bounded := by
    intro c hc
    rcases List.mem_append.mp hc with hc | hc
    · exact h.bounded c hc
    · rw [List.mem_singleton.mp hc]
      exact hu.bounded
  live := by
    intro c hc
    rcases List.mem_append.mp hc with hc | hc
    · exact h.live c hc
    · rw [List.mem_singleton.mp hc]
      exact hu.live
  dead := h.dead
  covered := by
    intro id hid
    rcases h.covered id hid with ⟨c, hc, he⟩ | hf
    · exact Or.inl ⟨c, List.mem_append_left _ hc, he⟩
    · exact absurd hf (not_leftover hp id)
  holding := by
    intro c hh
    rcases h.holding c hh with hc | hf
    · exact Or.inl (List.mem_append_left _ hc)
    · exact absurd hf (not_awaited hp c)
  passing := h.passing
  handler := hl

/-- The other cameras stay in the list. -/
theorem mem_remove (h : Inv t) {c cctv : Camera} (hc : c ∈ t.cctvs) (hm : cctv ∈ t.cctvs)
    (hne : c ≠ cctv) : c ∈ t.remove cctv := by
  have haddr : c.addr ≠ cctv.addr :=
    fun he => hne (List.inj_on_of_nodup_map h.addrs hc hm he)
  exact Keyed.mem_discard_of_ne haddr hc

/-- A camera leaves the list: none of the entries leads to it, or they are about to go. -/
theorem inv_unlink (h : Inv t) (hp : removing t.catchb = false) {cctv : Camera} (hm : cctv ∈ t.cctvs)
    (pc : CatchbPc) (hk : catchbLocks pc = catchbLocks t.catchb)
    (hkeep : cctv.id ∉ entries t ∨ pc = .detachSet cctv.id (.destroy cctv))
    (hl : Handler { t with cctvs := t.remove cctv, catchb := pc } pc) :
    Inv { t with cctvs := t.remove cctv, catchb := pc } where
  mutex := by
    have hmutex := h.mutex
    dsimp only
    omega
  distinct := h.distinct
  addrs := Keyed.nodup_discard h.addrs
  bounded := fun c hc => h.bounded c (Keyed.mem_of_mem_discard hc)
  live := fun c hc => h.live c (Keyed.mem_of_mem_discard hc)
  dead := h.dead
  covered := by
    intro id hid
    rcases h.covered id hid with ⟨c, hc, rfl⟩ | hf
    · by_cases he : c = cctv
      · subst he
        rcases hkeep with hn | rfl
        · exact absurd hid hn
        · exact Or.inr rfl
      · exact Or.inl ⟨c, mem_remove h hc hm he, rfl⟩
    · exact absurd hf (not_leftover hp id)
  holding := by
    intro c hh
    rcases h.holding c hh with hc | hf
    · by_cases he : c = cctv
      · subst he
        rcases hkeep with hn | rfl
        · exact absurd (held_entry h.passing hh) hn
        · exact Or.inr ⟨_, rfl⟩
      · exact Or.inl (mem_remove h hc hm he)
    · exact absurd hf (not_awaited hp c)
  passing := h.passing
  handler := hl

theorem remove_unlinked (h : Inv t) {cctv : Camera} (hm : cctv ∈ t.cctvs) (pc : CatchbPc) :
    Unlinked { t with cctvs := t.remove cctv, catchb := pc } cctv where
  absent := Keyed.get_eq_none.mp (Keyed.get_discard_same h.addrs)
  live := h.live cctv hm
  bounded := h.bounded cctv hm

/-- The analyzer's list changes in the hands of the thread that has the lock. -/
theorem inv_entries (h : Inv t) (hlock : catchbLocks t.catchb = 1) (analyzer : List ID)
    (pc : CatchbPc) (hk : catchbLocks pc = 1) (hn : (analyzer.map Analyzer.key).Nodup)
    (hcov : ∀ id ∈ analyzer, Listed t id)
    (hl : Handler { t with analyzer := analyzer, catchb := pc } pc) :
    Inv { t with analyzer := analyzer, catchb := pc } := by
  have hidle := h.pass_idle_of_locked hlock
  have he : entries { t with analyzer := analyzer, catchb := pc } = analyzer := by
    simp only [entries, hidle]
  refine ⟨?_, ?_, h.addrs, h.bounded, h.live, h.dead, ?_, ?_, ?_, hl⟩
  · have hm := h.mutex
    dsimp only
    omega
  · rw [he]
    exact hn
  · intro id hid
    rw [he] at hid
    exact Or.inl (hcov id hid)
  · intro cctv hh
    dsimp only at hh
    rw [hidle] at hh
    cases hh
  · dsimp only
    rw [hidle]
    trivial

variable {id : ID} {cctv : Camera} {next : Detached} {dbOk : Bool}

theorem inv_createGet (h : Inv t) (hpc : t.catchb = .createGet id) : Inv (t.catchbStep dbOk) := by
  have hp : removing t.catchb = false := by rw [hpc]; rfl
  simp only [catchbStep, hpc]
  split
  · exact inv_move_plain h hp _ _ (by rw [hpc]; rfl) trivial
  · rename_i hg
    refine inv_move_plain h hp _ _ (by rw [hpc]; rfl) ?_
    intro hid
    rcases h.covered id hid with ⟨c, hc, he⟩ | hf
    · exact Keyed.get_eq_none.mp hg c hc he
    · exact not_leftover hp id hf

theorem inv_createNew (h : Inv t) (hpc : t.catchb = .createNew id) : Inv (t.catchbStep dbOk) := by
  have hl := h.handler
  rw [hpc] at hl
  simp only [catchbStep, hpc]
  exact inv_new h (by rw [hpc]; rfl) _ (by rw [hpc]; rfl) ⟨new_unlinked h id _, hl⟩

theorem inv_createAppend (h : Inv t) (hpc : t.catchb = .createAppend cctv) :
    Inv (t.catchbStep dbOk) := by
  have hl := h.handler
  rw [hpc] at hl
  simp only [catchbStep, hpc]
  exact inv_link h (by rw [hpc]; rfl) hl.1 _ (by rw [hpc]; rfl)
    ⟨List.mem_append_right _ List.mem_cons_self, hl.2⟩

theorem inv_createDB (h : Inv t) (hpc : t.catchb = .createDB cctv) :
    Inv (t.catchbStep dbOk) := by
  have hl := h.handler
  rw [hpc] at hl
  have hp : removing t.catchb = false := by rw [hpc]; rfl
  simp only [catchbStep, hpc]
  cases dbOk with
  | true => exact inv_move_plain h hp _ _ (by rw [hpc]; rfl) ⟨cctv, hl.1, rfl⟩
  | false => exact inv_move_plain h hp _ _ (by rw [hpc]; rfl) hl

theorem inv_createRemove (h : Inv t) (hpc : t.catchb = .createRemove cctv) :
    Inv (t.catchbStep dbOk) := by
  have hl := h.handler
  rw [hpc] at hl
  simp only [catchbStep, hpc]
  exact inv_unlink h (by rw [hpc]; rfl) hl.1 _ (by rw [hpc]; rfl) (Or.inl hl.2)
    (remove_unlinked h hl.1 _)

theorem inv_foundNew (h : Inv t) (hpc : t.catchb = .foundNew id) : Inv (t.catchbStep dbOk) := by
  simp only [catchbStep, hpc]
  exact inv_new h (by rw [hpc]; rfl) _ (by rw [hpc]; rfl) (new_unlinked h id _)

theorem inv_foundAppend (h : Inv t) (hpc : t.catchb = .foundAppend cctv) :
    Inv (t.catchbStep dbOk) := by
  have hl := h.handler
  rw [hpc] at hl
  simp only [catchbStep, hpc]
  exact inv_link h (by rw [hpc]; rfl) hl _ (by rw [hpc]; rfl)
    ⟨cctv, List.mem_append_right _ List.mem_cons_self, rfl⟩

theorem inv_attachSet (h : Inv t) (hpc : t.catchb = .attachSet id) : Inv (t.catchbStep dbOk) := by
  have hl := h.handler
  rw [hpc] at hl
  simp only [catchbStep, hpc]
  split
  · exact h
  · rename_i hk
    refine inv_move_plain h (by rw [hpc]; rfl) _ _ ?_ hl
    rw [hpc]
    simp only [catchbLocks]
    omega

theorem inv_attachGet (h : Inv t) (hpc : t.catchb = .attachGet id) : Inv (t.catchbStep dbOk) := by
  have hl := h.handler
  rw [hpc] at hl
  have hp : removing t.catchb = false := by rw [hpc]; rfl
  have hidle := h.pass_idle_of_locked (by rw [hpc]; rfl)
  simp only [catchbStep, hpc]
  split
  · exact inv_move_plain h hp _ _ (by rw [hpc]; rfl) trivial
  · rename_i hg
    refine inv_move_plain h hp _ _ (by rw [hpc]; rfl) ⟨hl, ?_⟩
    simp only [entries, hidle]
    exact Keyed.get_eq_none_iff_not_mem.mp hg

theorem inv_attachAppend (h : Inv t) (hpc : t.catchb = .attachAppend id) :
    Inv (t.catchbStep dbOk) := by
  have hl := h.handler
  rw [hpc] at hl
  have hidle := h.pass_idle_of_locked (by rw [hpc]; rfl)
  have he : entries t = t.analyzer := by simp only [entries, hidle]
  have hnew := hl.2
  have hdistinct := h.distinct
  rw [he] at hnew hdistinct
  simp only [catchbStep, hpc]
  refine inv_entries h (by rw [hpc]; rfl) _ _ rfl ?_ ?_ trivial
  · exact Keyed.nodup_append_singleton hdistinct (Keyed.get_eq_none_iff_not_mem.mpr hnew)
  · intro x hx
    rcases List.mem_append.mp hx with hx | hx
    · rcases h.covered x (he ▸ hx) with hx | hf
      · exact hx
      · rw [hpc] at hf
        exact hf.elim
    · rw [List.mem_singleton.mp hx]
      exact hl.1

theorem inv_attachReset (h : Inv t) (hpc : t.catchb = .attachReset) : Inv (t.catchbStep dbOk) := by
  simp only [catchbStep, hpc]
  exact inv_move_plain h (by rw [hpc]; rfl) _ _ (by rw [hpc]; rfl) trivial

theorem inv_deleteGet (h : Inv t) (hpc : t.catchb = .deleteGet id) : Inv (t.catchbStep dbOk) := by
  have hp : removing t.catchb = false := by rw [hpc]; rfl
  simp only [catchbStep, hpc]
  split
  · exact inv_move_plain h hp _ _ (by rw [hpc]; rfl) trivial
  · rename_i cctv hg
    have hid : cctv.id = id := Keyed.get_key hg
    exact inv_move_plain h hp _ _ (by rw [hpc]; rfl) ⟨Keyed.get_mem hg, hid⟩

/-- The lock is free, so no pass holds the camera that waits to be detached. -/
theorem inv_detachSet (h : Inv t) (hpc : t.catchb = .detachSet id next) :
    Inv (t.catchbStep dbOk) := by
  have hl := h.handler
  rw [hpc] at hl
  simp only [catchbStep, hpc]
  split
  · exact h
  · rename_i hk
    have hidle := h.pass_idle (by omega)
    refine inv_move h _ _ ?_ ?_ ?_ ?_
    · rw [hpc]
      simp only [catchbLocks]
      omega
    · intro x _ hf
      rw [hpc] at hf
      cases next with
      | unlink => exact hf.elim
      | destroy => exact hf
    · intro c hh
      rw [hidle] at hh
      cases hh
    · cases next with
      | unlink => exact hl
      | destroy => exact hl

theorem inv_detachGet (h : Inv t) (hpc : t.catchb = .detachGet id next) :
    Inv (t.catchbStep dbOk) := by
  have hl := h.handler
  rw [hpc] at hl
  have hidle := h.pass_idle_of_locked (by rw [hpc]; rfl)
  have he : entries t = t.analyzer := by simp only [entries, hidle]
  have hwait : ∀ pc c, held t.pass = some c → Awaited t.catchb c → Awaited pc c := by
    intro pc c hh
    rw [hidle] at hh
    cases hh
  simp only [catchbStep, hpc]
  split
  · rename_i hg
    have hnone := Keyed.get_eq_none_iff_not_mem.mp hg
    refine inv_move h _ _ (by rw [hpc]; rfl) ?_ (hwait _) ?_
    · intro x hx hf
      rw [hpc] at hf
      rw [he] at hx
      cases next with
      | unlink => exact hf.elim
      | destroy cctv =>
        have hkey : Analyzer.key x = Analyzer.key id := by rw [← hl.2]; exact hf
        exact absurd (hkey ▸ List.mem_map_of_mem hx) hnone
    · cases next with
      | unlink cctv =>
        refine ⟨hl.1, ?_⟩
        rw [NoEntry, he, hl.2]
        exact hnone
      | destroy cctv => exact hl.1
  · rename_i pSavedID hg
    have hkey : Analyzer.key pSavedID = Analyzer.key id := Keyed.get_key hg
    have hmem : pSavedID ∈ entries t := he ▸ Keyed.get_mem hg
    refine inv_move h _ _ (by rw [hpc]; rfl) ?_ (hwait _) ?_
    · intro x _ hf
      rw [hpc] at hf
      cases next with
      | unlink => exact hf.elim
      | destroy => exact hf
    · cases next with
      | unlink cctv => exact ⟨hl.1, hmem, by rw [hl.2]; exact hkey⟩
      | destroy cctv => exact ⟨hl.1, hmem, by rw [hl.2]; exact hkey⟩

theorem inv_detachRemove {pSavedID : ID} (h : Inv t) (hpc : t.catchb = .detachRemove pSavedID next) :
    Inv (t.catchbStep dbOk) := by
  have hl := h.handler
  rw [hpc] at hl
  have hidle := h.pass_idle_of_locked (by rw [hpc]; rfl)
  have he : entries t = t.analyzer := by simp only [entries, hidle]
  have hdistinct := h.distinct
  rw [he] at hdistinct
  have hsub : (t.analyzer.erase pSavedID).Sublist t.analyzer := List.erase_sublist
  have hmem : pSavedID ∈ t.analyzer := by
    rw [← he]
    cases next with
    | unlink => exact hl.2.1
    | destroy => exact hl.2.1
  -- The keys are distinct, so the entry that goes is the only one with its key.
  have hgone : Analyzer.key pSavedID ∉ (t.analyzer.erase pSavedID).map Analyzer.key := by
    have hperm := (List.perm_cons_erase hmem).map Analyzer.key
    have hnodup := hperm.nodup_iff.mp hdistinct
    rw [List.map_cons, List.nodup_cons] at hnodup
    exact hnodup.1
  simp only [catchbStep, hpc]
  refine inv_entries h (by rw [hpc]; rfl) _ _ rfl (hdistinct.sublist (hsub.map _)) ?_ ?_
  · intro x hx
    rcases h.covered x (he ▸ hsub.subset hx) with hlisted | hf
    · exact hlisted
    · rw [hpc] at hf
      cases next with
      | unlink => exact hf.elim
      | destroy cctv =>
        have hkey : Analyzer.key x = Analyzer.key pSavedID := Eq.trans hf hl.2.2.symm
        exact absurd (hkey ▸ List.mem_map_of_mem hx) hgone
  · cases next with
    | unlink cctv =>
      refine ⟨hl.1, ?_⟩
      rw [NoEntry, ← hl.2.2]
      simp only [entries, hidle]
      exact hgone
    | destroy cctv => exact ⟨hl.1.absent, hl.1.live, hl.1.bounded⟩

theorem inv_detachReset (h : Inv t) (hpc : t.catchb = .detachReset next) :
    Inv (t.catchbStep dbOk) := by
  have hl := h.handler
  rw [hpc] at hl
  simp only [catchbStep, hpc]
  cases next with
  | unlink cctv => exact inv_move_plain h (by rw [hpc]; rfl) _ _ (by rw [hpc]; rfl) hl
  | destroy cctv => exact inv_move_plain h (by rw [hpc]; rfl) _ _ (by rw [hpc]; rfl) hl

theorem inv_deleteRemove (h : Inv t) (hpc : t.catchb = .deleteRemove cctv) :
    Inv (t.catchbStep dbOk) := by
  have hl := h.handler
  rw [hpc] at hl
  have hnone : cctv.id ∉ entries t := fun hid => hl.2 (List.mem_map_of_mem hid)
  simp only [catchbStep, hpc]
  exact inv_unlink h (by rw [hpc]; rfl) hl.1 _ (by rw [hpc]; rfl) (Or.inl hnone)
    (remove_unlinked h hl.1 _)

theorem inv_deleteDB (h : Inv t) (hpc : t.catchb = .deleteDB cctv) : Inv (t.catchbStep dbOk) := by
  have hl := h.handler
  rw [hpc] at hl
  simp only [catchbStep, hpc]
  exact inv_move_plain h (by rw [hpc]; rfl) _ _ (by rw [hpc]; rfl) hl

theorem inv_removedGet (h : Inv t) (hpc : t.catchb = .removedGet id) :
    Inv (t.catchbStep dbOk) := by
  have hp : removing t.catchb = false := by rw [hpc]; rfl
  simp only [catchbStep, hpc]
  split
  · exact inv_move_plain h hp _ _ (by rw [hpc]; rfl) trivial
  · rename_i cctv hg
    exact inv_move_plain h hp _ _ (by rw [hpc]; rfl) (Keyed.get_mem hg)

theorem inv_removedRemove (h : Inv t) (hpc : t.catchb = .removedRemove cctv) :
    Inv (t.catchbStep dbOk) := by
  have hl := h.handler
  rw [hpc] at hl
  simp only [catchbStep, hpc]
  exact inv_unlink h (by rw [hpc]; rfl) hl _ (by rw [hpc]; rfl) (Or.inr rfl)
    ⟨remove_unlinked h hl _, rfl⟩

/-- What is destroyed is in no list, so nobody holds it. -/
theorem inv_destroy (h : Inv t) (hpc : t.catchb = .destroy cctv) : Inv (t.catchbStep dbOk) := by
  have hl := h.handler
  rw [hpc] at hl
  have hp : removing t.catchb = false := by rw [hpc]; rfl
  simp only [catchbStep, hpc]
  refine ⟨?_, h.distinct, h.addrs, h.bounded, ?_, ?_, ?_, ?_, h.passing, trivial⟩
  · have hm := h.mutex
    rw [hpc] at hm
    exact hm
  · intro c hc hd
    rcases List.mem_cons.mp hd with he | hd
    · exact hl.absent c hc he
    · exact h.live c hc hd
  · intro a ha
    rcases List.mem_cons.mp ha with rfl | ha
    · exact hl.bounded
    · exact h.dead a ha
  · intro id hid
    exact (h.covered id hid).imp_right (fun hf => absurd hf (not_leftover hp id))
  · intro c hh
    exact (h.holding c hh).imp_right (fun hf => absurd hf (not_awaited hp c))

theorem inv_catchbStep (h : Inv t) (dbOk : Bool) : Inv (t.catchbStep dbOk) := by
  cases hpc : t.catchb with
  | pop =>
    simp only [catchbStep, hpc]
    exact h
  | createGet id => exact inv_createGet h hpc
  | createNew id => exact inv_createNew h hpc
  | createAppend cctv => exact inv_createAppend h hpc
  | createDB cctv => exact inv_createDB h hpc
  | createRemove cctv => exact inv_createRemove h hpc
  | foundNew id => exact inv_foundNew h hpc
  | foundAppend cctv => exact inv_foundAppend h hpc
  | attachSet id => exact inv_attachSet h hpc
  | attachGet id => exact inv_attachGet h hpc
  | attachAppend id => exact inv_attachAppend h hpc
  | attachReset => exact inv_attachReset h hpc
  | deleteGet id => exact inv_deleteGet h hpc
  | detachSet id next => exact inv_detachSet h hpc
  | detachGet id next => exact inv_detachGet h hpc
  | detachRemove pSavedID next => exact inv_detachRemove h hpc
  | detachReset next => exact inv_detachReset h hpc
  | deleteRemove cctv => exact inv_deleteRemove h hpc
  | deleteDB cctv => exact inv_deleteDB h hpc
  | removedGet id => exact inv_removedGet h hpc
  | removedRemove cctv => exact inv_removedRemove h hpc
  | destroy cctv => exact inv_destroy h hpc

theorem inv_receive (h : Inv t) (msg : CameraMsg) : Inv (t.receive msg) := by
  unfold receive
  split
  · rename_i hpc
    have hp : removing t.catchb = false := by rw [hpc]; rfl
    cases msg with
    | create id => exact inv_move_plain h hp _ _ (by rw [hpc]; rfl) trivial
    | delete id => exact inv_move_plain h hp _ _ (by rw [hpc]; rfl) trivial
    | found id => exact inv_move_plain h hp _ _ (by rw [hpc]; rfl) trivial
    | removed id => exact inv_move_plain h hp _ _ (by rw [hpc]; rfl) trivial
  · exact h

end Catchb

theorem inv_step (t : CameraThreads) (e : CameraEvent) (h : Inv t) : Inv (t.step e) := by
  cases e with
  | pass expired => exact inv_passStep h expired
  | pop msg => exact inv_receive h msg
  | catchb dbOk => exact inv_catchbStep h dbOk

/-- In every interleaving the camera that a pass has got is alive until the pass has
released the analyzer's lock. -/
theorem analyzed_camera_alive (es : List CameraEvent) :
    ∀ t ∈ states step start es, Alive t := by
  intro t ht
  exact (states_inv inv_step inv_start es t ht).alive

/-- A camera is created, a pass gets it, and a delete waits for the lock. -/
def deletedUnderPass : List CameraEvent :=
  .pop (.create ⟨['a'], by decide⟩) :: List.replicate 8 (.catchb true) ++
    List.replicate 4 (.pass true) ++
    .pop (.delete ⟨['a'], by decide⟩) :: List.replicate 3 (.catchb true)

theorem delete_waits_for_pass :
    (deletedUnderPass.foldl step start).catchb =
      .detachSet ⟨['a'], by decide⟩ (.unlink ⟨0, ⟨['a'], by decide⟩⟩) ∧
    held (deletedUnderPass.foldl step start).pass = some ⟨0, ⟨['a'], by decide⟩⟩ ∧
    Alive (deletedUnderPass.foldl step start) :=
  ⟨rfl, rfl, analyzed_camera_alive deletedUnderPass _
    (foldl_mem_states _ (List.cons_ne_nil _ _))⟩

end Catchb.Proofs.CameraLifetime
