import Catchb.FtmShell
import Catchb.Lib.Keyed
import Catchb.Lib.Run
import Catchb.Proofs.OrderedInsert

/-! The shell's table of commands over the calls that fill it. -/

namespace Catchb.Proofs.CommandTable
open Lib Sequence FtmShell

variable {s : FtmShell} {xs : List CmdEntry} {x : CmdEntry} {a b : Text} {request : CmdRequest}

theorem strcmp_pos : 0 < ShellCmd.strcmp a b ↔ b < a := by
  unfold ShellCmd.strcmp
  split
  · rename_i hab
    exact iff_of_false (by decide) (lt_asymm hab)
  · split
    · rename_i hba
      exact iff_of_true (by decide) hba
    · rename_i hba
      exact iff_of_false (by decide) hba

theorem strcmp_zero : ShellCmd.strcmp a b = 0 ↔ a = b := by
  unfold ShellCmd.strcmp
  split
  · rename_i hab
    exact iff_of_false (by decide) hab.ne
  · split
    · rename_i hba
      exact iff_of_false (by decide) hba.ne'
    · rename_i hab hba
      exact iff_of_true rfl (le_antisymm (not_lt.mp hba) (not_lt.mp hab))

/-- A command's name. -/
def key (x : CmdEntry) : Text := x.cmd.pString

/-- The order of the names. -/
def Before (x y : CmdEntry) : Prop := key x < key y

/-- The commands in the list's order. -/
def table (s : FtmShell) : List CmdEntry := (forward s.pCmdList).filterMap id

/-- The command of a name. -/
def bound (s : FtmShell) (pString : Text) : Option ShellCmd :=
  (Keyed.get key pString (table s)).map CmdEntry.cmd

/-- The shell's list holds these commands, by name. -/
structure Table (s : FtmShell) (xs : List CmdEntry) : Prop where
  holds : ∃ ps, Holds s.pCmdList ps xs
  seek : s.pCmdList.fSeeker = some seeker
  compare : s.pCmdList.fComparator = some comparator
  sorted : xs.Pairwise Before

theorem Table.table_eq (h : Table s xs) : table s = xs := by
  obtain ⟨ps, hl⟩ := h.holds
  rw [table, hl.refines.forward, List.filterMap_map, Function.id_comp, List.filterMap_some]

theorem Table.bound_eq (h : Table s xs) (pString : Text) :
    bound s pString = (Keyed.get key pString xs).map CmdEntry.cmd := by rw [bound, h.table_eq]

/-- No two commands have one name. -/
theorem nodup_keys (h : xs.Pairwise Before) : (xs.map key).Nodup :=
  List.pairwise_map.mpr (h.imp fun hxy => hxy.ne)

theorem get_seeker (pKey : Text) (xs : List CmdEntry) :
    xs.find? (fun e => seeker e pKey) = Keyed.get key pKey xs := by
  unfold Keyed.get
  congr 1
  funext e
  change (ShellCmd.strcmp (key e) pKey == 0) = decide (key e = pKey)
  rw [Bool.eq_iff_iff, beq_iff_eq, strcmp_zero, decide_eq_true_iff]

/-- What a search of the list answers. -/
theorem Table.get_cases (h : Table s xs) (pString : Text) :
    (Keyed.get key pString xs = none ∧
        ∃ pCmd, s.pCmdList.get pString = some (.objectNotFound, pCmd)) ∨
      ∃ x, Keyed.get key pString xs = some x ∧ s.pCmdList.get pString = some (.ok, some x) := by
  obtain ⟨ps, hl⟩ := h.holds
  have hget := get_eq pString hl h.seek
  obtain ⟨⟨xRet, pCmd⟩, hr, helement⟩ := Option.map_eq_some_iff.mp hget
  rw [get_seeker] at helement
  simp only [element, Prod.mk.injEq, and_true] at helement
  cases hfound : Keyed.get key pString xs with
  | none =>
    rw [hfound, found, Answer.element.injEq] at helement
    obtain ⟨rfl, rfl⟩ := helement
    exact .inl ⟨rfl, none, hr⟩
  | some x =>
    rw [hfound, found, Answer.element.injEq] at helement
    obtain ⟨rfl, rfl⟩ := helement
    exact .inr ⟨x, rfl, hr⟩

/-- Afterwards the list has no command of the name. -/
theorem removeExisting_table (h : Table s xs) (pString : Text) : ∃ s',
    s.removeExisting pString = some s' ∧ Table s' (Keyed.discard key pString xs) := by
  rcases h.get_cases pString with ⟨hnone, pCmd, hget⟩ | ⟨x, hsome, hget⟩
  · refine ⟨s, ?_, ?_⟩
    · simp [removeExisting, hget]
    · rwa [Keyed.discard_of_get_none hnone]
  · obtain ⟨ps, hl⟩ := h.holds
    have hmem := Keyed.get_mem hsome
    have hremove := remove_yields x hl
    rw [if_pos hmem] at hremove
    obtain ⟨l', qs, hl', hholds, hseek, hcompare⟩ := hremove
    have herase : xs.erase x = Keyed.discard key pString xs := by
      rw [← Keyed.get_key hsome, Keyed.discard_eq_erase (nodup_keys h.sorted) hmem]
    refine ⟨{ s with pCmdList := l', allocated := s.allocated.erase x.address }, ?_, ?_⟩
    · simp [removeExisting, hget, hl']
    · refine ⟨⟨qs, herase ▸ hholds⟩, hseek.trans h.seek, hcompare.trans h.compare, ?_⟩
      rw [← herase]
      exact h.sorted.sublist List.erase_sublist

/-- There is memory for a copy of the command and for its entry. -/
def Room (s : FtmShell) (request : CmdRequest) : Prop :=
  (s.malloc request.cmdAnswer).isSome ∧ (s.pCmdList.malloc request.entryAnswer).isSome

instance (s : FtmShell) (request : CmdRequest) : Decidable (Room s request) :=
  inferInstanceAs (Decidable (_ ∧ _))

/-- The place of a new name is behind all the names that are not behind it. -/
theorem insert_cases (h : Table s xs) (x : CmdEntry) (answer : Ptr) :
    OrderedInsert.Inserts s.pCmdList .assending (fun x y => key x ≤ key y) xs x answer := by
  obtain ⟨ps, hl⟩ := h.holds
  have hstop : ∀ e, decide (comparator e x > 0) = false ↔ key e ≤ key x := by
    intro e
    rw [decide_eq_false_iff_not, gt_iff_lt, comparator, strcmp_pos, not_lt]
    rfl
  have htrans : ∀ x y z : CmdEntry, key x ≤ key y → key y ≤ key z → key x ≤ key z :=
    fun _ _ _ => le_trans
  have hback : ∀ e, ¬ key e ≤ key x → key x ≤ key e := fun e he => (not_le.mp he).le
  have hsorted : xs.Pairwise (fun x y => key x ≤ key y) := h.sorted.imp fun hxy => hxy.le
  apply OrderedInsert.insert_at _ htrans hstop hback hl hsorted
  simp only [FtmList.insert, FtmList.pPrevOf, h.compare]

/-- A new name keeps the order strict. -/
theorem sorted_place {us vs : List CmdEntry} (h : (us ++ vs).Pairwise Before)
    (hle : (us ++ x :: vs).Pairwise (fun x y => key x ≤ key y))
    (hnew : Keyed.get key (key x) (us ++ vs) = none) : (us ++ x :: vs).Pairwise Before := by
  have hne : ((us ++ x :: vs).map key).Nodup := by
    have hold := nodup_keys h
    rw [Keyed.get_eq_none_iff_not_mem] at hnew
    rw [List.map_append] at hold hnew
    rw [List.map_append, List.map_cons, List.nodup_middle, List.nodup_cons]
    exact ⟨hnew, hold⟩
  exact (hle.and (List.pairwise_map.mp hne)).imp fun hxy => lt_of_le_of_ne hxy.1 hxy.2

/-- A request for a new name is answered by whether there is room for it. -/
theorem insertNew_table (h : Table s xs)
    (hnew : Keyed.get key request.pCmd.pString xs = none) : ∃ s',
      if Room s request then s.insertNew request = some (.ok, s') ∧ ∃ address us vs,
        xs = us ++ vs ∧ Table s' (us ++ ⟨address, request.pCmd⟩ :: vs)
      else s.insertNew request = some (.notEnoughMemory, s') ∧ Table s' xs := by
  cases hcmd : s.malloc request.cmdAnswer with
  | none =>
    have hno : ¬ Room s request := fun hroom => by simp [Room, hcmd] at hroom
    refine ⟨s, ?_⟩
    rw [if_neg hno, insertNew, hcmd]
    exact ⟨rfl, h⟩
  | some address =>
    have hinsert := insert_cases h ⟨address, request.pCmd⟩ request.entryAnswer
    unfold OrderedInsert.Inserts at hinsert
    cases hentry : s.pCmdList.malloc request.entryAnswer with
    | none =>
      have hno : ¬ Room s request := fun hroom => by simp [Room, hentry] at hroom
      rw [hentry] at hinsert
      refine ⟨s, ?_⟩
      rw [if_neg hno]
      exact ⟨by simp [insertNew, hcmd, hinsert], h⟩
    | some p =>
      have hroom : Room s request := by simp [Room, hcmd, hentry]
      rw [hentry] at hinsert
      obtain ⟨l', qs, us, vs, hl', rfl, hholds, hle, -⟩ := hinsert
      obtain ⟨hseek, hcompare⟩ := insert_frame hl'
      refine ⟨{ s with pCmdList := l', allocated := address :: s.allocated }, ?_⟩
      rw [if_pos hroom]
      refine ⟨by simp [insertNew, hcmd, hl'], address, us, vs, rfl, ⟨qs, hholds⟩,
        hseek.trans h.seek, hcompare.trans h.compare, sorted_place h.sorted hle hnew⟩

/-- Whether the call succeeds is told by the room there is without the old command. -/
theorem appendCmd_table (h : Table s xs) (request : CmdRequest) : ∃ s₁ s',
    s.removeExisting request.pCmd.pString = some s₁ ∧
      if Room s₁ request then s.appendCmd request = some (.ok, s') ∧ ∃ address us vs,
        Keyed.discard key request.pCmd.pString xs = us ++ vs ∧
          Table s' (us ++ ⟨address, request.pCmd⟩ :: vs)
      else s.appendCmd request = some (.notEnoughMemory, s') ∧
        Table s' (Keyed.discard key request.pCmd.pString xs) := by
  obtain ⟨s₁, hremove, h₁⟩ := removeExisting_table h request.pCmd.pString
  have hgone := Keyed.get_discard_same (nodup_keys h.sorted) (k := request.pCmd.pString)
  obtain ⟨s', hinsert⟩ := insertNew_table h₁ hgone
  refine ⟨s₁, s', hremove, ?_⟩
  rw [appendCmd, hremove, Option.bind_eq_bind, Option.bind_some]
  exact hinsert

/-- The shell while commands are appended, with what was returned for each. -/
structure Session where
  shell : FtmShell
  log : List (ShellCmd × Ret)

def Session.step (t : Session) (request : CmdRequest) : Session :=
  match t.shell.appendCmd request with
  | none => t
  | some (xRet, shell) => ⟨shell, t.log ++ [(request.pCmd, xRet)]⟩

/-- The last command that was appended under a name with success, and before that what `start`
has. -/
def lastAppended (start : Text → Option ShellCmd) (log : List (ShellCmd × Ret)) (pString : Text) :
    Option ShellCmd :=
  log.foldl (fun last e => if e.2 = .ok ∧ e.1.pString = pString then some e.1 else last)
    (start pString)

theorem lastAppended_append (start : Text → Option ShellCmd) (log : List (ShellCmd × Ret))
    (e : ShellCmd × Ret) (pString : Text) : lastAppended start (log ++ [e]) pString =
      if e.2 = .ok ∧ e.1.pString = pString then some e.1
      else lastAppended start log pString := by
  rw [lastAppended, List.foldl_append]
  rfl

/-- What one call has to keep. -/
structure Kept (start : Text → Option ShellCmd) (t : Session) (request : CmdRequest) : Prop where
  returns : (t.shell.appendCmd request).isSome
  sorted : (table (t.step request).shell).Pairwise Before
  binds : ∀ pString, bound (t.step request).shell pString =
    lastAppended start (t.step request).log pString
  failed : ∀ xRet s', t.shell.appendCmd request = some (xRet, s') → xRet ≠ .ok →
    table s' = table t.shell

/-- There is memory to replace a command. -/
def Replaceable (t : Session) (request : CmdRequest) : Prop :=
  (bound t.shell request.pCmd.pString).isSome →
    ∀ s₁, t.shell.removeExisting request.pCmd.pString = some s₁ → Room s₁ request

/-- The invariant of a run. -/
def Sound (start : Text → Option ShellCmd) (t : Session) : Prop :=
  (∃ xs, Table t.shell xs) ∧ ∀ pString, bound t.shell pString = lastAppended start t.log pString

variable {start : Text → Option ShellCmd} {t : Session}

/-- A new command is bound to its name, and the other names are bound as before. -/
theorem bound_place {us vs : List CmdEntry} {s' : FtmShell} (h : Table s xs)
    (hsplit : Keyed.discard key (key x) xs = us ++ vs) (h' : Table s' (us ++ x :: vs))
    (pString : Text) :
    bound s' pString = if key x = pString then some x.cmd else bound s pString := by
  have hgone := Keyed.get_discard_same (nodup_keys h.sorted) (k := key x)
  rw [h'.bound_eq, Keyed.get_place (by rwa [← hsplit]), ← hsplit]
  split
  · rfl
  · rename_i hne
    rw [h.bound_eq, Keyed.get_discard_other (Ne.symm hne)]

/-- What a call has to keep, from what it returns and leaves. -/
theorem kept_of_call {xRet : Ret} {s' : FtmShell}
    (hcall : t.shell.appendCmd request = some (xRet, s')) (h' : Table s' xs)
    (hbound : ∀ pString, bound s' pString =
      lastAppended start (t.log ++ [(request.pCmd, xRet)]) pString)
    (hfailed : xRet ≠ .ok → table s' = table t.shell) :
    Kept start t request ∧ Sound start (t.step request) := by
  have hstep : t.step request = ⟨s', t.log ++ [(request.pCmd, xRet)]⟩ := by
    rw [Session.step, hcall]
  refine ⟨⟨?_, ?_, ?_, ?_⟩, ?_⟩
  · rw [hcall, Option.isSome_some]
  · rw [hstep, h'.table_eq]
    exact h'.sorted
  · rw [hstep]
    exact hbound
  · intro xRet' s'' hcall' hne
    rw [hcall, Option.some.injEq, Prod.mk.injEq] at hcall'
    obtain ⟨rfl, rfl⟩ := hcall'
    exact hfailed hne
  · rw [hstep]
    exact ⟨⟨_, h'⟩, hbound⟩

theorem kept_of_replaceable (hs : Sound start t) (hr : Replaceable t request) :
    Kept start t request ∧ Sound start (t.step request) := by
  obtain ⟨⟨xs, h⟩, hbinds⟩ := hs
  obtain ⟨s₁, s', hremove, hcase⟩ := appendCmd_table h request
  split at hcase
  · obtain ⟨hcall, address, us, vs, hsplit, h'⟩ := hcase
    refine kept_of_call hcall h' ?_ (fun hne => absurd rfl hne)
    intro pString
    rw [bound_place h (x := ⟨address, request.pCmd⟩) hsplit h', lastAppended_append, hbinds]
    simp only [true_and]
    rfl
  · rename_i hno
    obtain ⟨hcall, h'⟩ := hcase
    -- without room the name was not in the table, and nothing was removed
    have hnone : Keyed.get key request.pCmd.pString xs = none := by
      cases hfound : Keyed.get key request.pCmd.pString xs with
      | none => rfl
      | some x =>
        refine absurd (hr ?_ s₁ hremove) hno
        rw [h.bound_eq, hfound]
        rfl
    rw [Keyed.discard_of_get_none hnone] at h'
    refine kept_of_call hcall h' ?_ (fun _ => h'.table_eq.trans h.table_eq.symm)
    intro pString
    rw [lastAppended_append, if_neg (fun hok => nomatch hok.1), ← hbinds, h'.bound_eq, h.bound_eq]

/-- Without room to replace it, a command is lost. -/
theorem replaceable_of_kept (hs : Sound start t) (hk : Kept start t request) :
    Replaceable t request := by
  intro hsome s₁ hremove
  obtain ⟨⟨xs, h⟩, -⟩ := hs
  obtain ⟨s₂, s', hremove', hcase⟩ := appendCmd_table h request
  obtain rfl := Option.some.inj (hremove.symm.trans hremove')
  split at hcase
  · assumption
  · obtain ⟨hcall, h'⟩ := hcase
    have hsame := hk.failed _ _ hcall (by decide)
    rw [h'.table_eq, h.table_eq] at hsame
    have hgone := Keyed.get_discard_same (nodup_keys h.sorted) (k := request.pCmd.pString)
    rw [hsame] at hgone
    rw [h.bound_eq, hgone] at hsome
    cases hsome

theorem run_kept_iff (hs : Sound start t) (requests : List CmdRequest) :
    Admitted Session.step (Kept start) t requests ↔
      Admitted Session.step Replaceable t requests := by
  apply admitted_congr _ _ hs
  · intro t request ht hr
    exact (kept_of_replaceable ht hr).2
  · intro t request ht
    exact ⟨replaceable_of_kept ht, fun hr => (kept_of_replaceable ht hr).1⟩

/-- Whatever memory there is, a call leaves a table. -/
theorem appendCmd_sound (h : ∃ xs, Table s xs) (request : CmdRequest) :
    ∃ xRet s', s.appendCmd request = some (xRet, s') ∧ ∃ xs, Table s' xs := by
  obtain ⟨xs, h⟩ := h
  obtain ⟨s₁, s', -, hcase⟩ := appendCmd_table h request
  split at hcase
  · obtain ⟨hcall, address, us, vs, -, h'⟩ := hcase
    exact ⟨_, s', hcall, _, h'⟩
  · exact ⟨_, s', hcase.1, _, hcase.2⟩

theorem addCmds_sound (h : ∃ xs, Table s xs) (requests : List CmdRequest) :
    ∃ s', s.addCmds requests = some s' ∧ ∃ xs, Table s' xs := by
  induction requests generalizing s with
  | nil => exact ⟨s, rfl, h⟩
  | cons request requests ih =>
    obtain ⟨xRet, s₁, hcall, h₁⟩ := appendCmd_sound h request
    obtain ⟨s', hrest, h'⟩ := ih h₁
    refine ⟨s', ?_, h'⟩
    rw [addCmds, hcall, Option.bind_eq_bind, Option.bind_some]
    exact hrest

/-- A default command is new, and it is added where there is memory for it. -/
theorem addDefault_table (h : Table s xs)
    (hnew : Keyed.get key request.pCmd.pString xs = none) : ∃ s' ys,
      s.addDefault request = some s' ∧ Table s' ys ∧
        ∀ pString, pString ≠ request.pCmd.pString → Keyed.get key pString xs = none →
          Keyed.get key pString ys = none := by
  cases hcmd : s.malloc request.cmdAnswer with
  | none =>
    refine ⟨s, xs, ?_, h, fun _ _ hnone => hnone⟩
    rw [addDefault, hcmd]
  | some address =>
    have hinsert := insert_cases h ⟨address, request.pCmd⟩ request.entryAnswer
    unfold OrderedInsert.Inserts at hinsert
    cases hentry : s.pCmdList.malloc request.entryAnswer with
    | none =>
      rw [hentry] at hinsert
      refine ⟨{ s with allocated := address :: s.allocated }, xs, ?_,
        ⟨h.holds, h.seek, h.compare, h.sorted⟩, fun _ _ hnone => hnone⟩
      simp [addDefault, hcmd, hinsert]
    | some p =>
      rw [hentry] at hinsert
      obtain ⟨l', qs, us, vs, hl', rfl, hholds, hle, -⟩ := hinsert
      obtain ⟨hseek, hcompare⟩ := insert_frame hl'
      refine ⟨{ s with pCmdList := l', allocated := address :: s.allocated }, _, ?_,
        ⟨⟨qs, hholds⟩, hseek.trans h.seek, hcompare.trans h.compare,
          sorted_place h.sorted hle hnew⟩, ?_⟩
      · simp [addDefault, hcmd, hl']
      · intro pString hne hnone
        rw [Keyed.get_place hnew, hnone]
        exact if_neg (Ne.symm hne)

theorem addDefaults_sound (h : Table s xs) (requests : List CmdRequest)
    (hnames : (requests.map (fun r => r.pCmd.pString)).Nodup)
    (hnew : ∀ r ∈ requests, Keyed.get key r.pCmd.pString xs = none) :
    ∃ s', s.addDefaults requests = some s' ∧ ∃ ys, Table s' ys := by
  induction requests generalizing s xs with
  | nil => exact ⟨s, rfl, xs, h⟩
  | cons request requests ih =>
    rw [List.map_cons, List.nodup_cons] at hnames
    obtain ⟨hfirst, hrest⟩ := List.forall_mem_cons.mp hnew
    obtain ⟨s₁, ys, hadd, h₁, hkept⟩ := addDefault_table h hfirst
    have hnew₁ : ∀ r ∈ requests, Keyed.get key r.pCmd.pString ys = none := by
      intro r hr
      refine hkept _ (fun he => hnames.1 ?_) (hrest r hr)
      rw [← he]
      exact List.mem_map_of_mem hr
    obtain ⟨s', hadds, h'⟩ := ih h₁ hnames.2 hnew₁
    refine ⟨s', ?_, h'⟩
    rw [addDefaults, hadd, Option.bind_eq_bind, Option.bind_some]
    exact hadds

/-- Requests with the default commands' names, one for each answer. -/
theorem names_sublist (pCmds : List ShellCmd) (answers : List (Ptr × Ptr)) :
    (((pCmds.zip answers).map (fun (pCmd, c, e) => (⟨pCmd, c, e⟩ : CmdRequest))).map
      (fun r => r.pCmd.pString)).Sublist (pCmds.map ShellCmd.pString) := by
  induction pCmds generalizing answers with
  | nil => exact List.Sublist.refl _
  | cons pCmd pCmds ih =>
    cases answers with
    | nil => exact List.nil_sublist _
    | cons answer answers => exact (ih answers).cons_cons pCmd.pString

theorem default_names : (xDefaultCmds.map ShellCmd.pString).Nodup := by decide

theorem init_table (pList : FtmList CmdEntry Text) (answers : List (Ptr × Ptr))
    (pCmds : List CmdRequest) :
    ∃ s, FtmShell.init pList answers pCmds = some s ∧ ∃ xs, Table s xs := by
  have hempty : Table ⟨{ pList.init with fSeeker := some seeker, fComparator := some comparator },
      []⟩ [] := by
    have hl := init_holds pList
    exact ⟨⟨[], hl.ring, hl.data, hl.live, hl.count⟩, rfl, rfl, List.Pairwise.nil⟩
  have hnames := default_names.sublist (names_sublist xDefaultCmds answers)
  obtain ⟨s₁, hdefaults, h₁⟩ := addDefaults_sound hempty _ hnames (fun _ _ => rfl)
  obtain ⟨s, hadd, h⟩ := addCmds_sound h₁ pCmds
  refine ⟨s, ?_, h⟩
  rw [FtmShell.init, hdefaults, Option.bind_eq_bind, Option.bind_some, hadd]

/-- After an initialisation, the calls of a run keep the table sorted, with each name bound to its
last command, and leave it as it is when they fail, exactly if none of them runs out of memory
while it replaces a command. -/
theorem table_kept_iff (pList : FtmList CmdEntry Text) (answers : List (Ptr × Ptr))
    (pCmds requests : List CmdRequest) : ∃ s, FtmShell.init pList answers pCmds = some s ∧
      (table s).Pairwise Before ∧
      (Admitted Session.step (Kept (bound s)) ⟨s, []⟩ requests ↔
        Admitted Session.step Replaceable ⟨s, []⟩ requests) := by
  obtain ⟨s, hinit, xs, h⟩ := init_table pList answers pCmds
  refine ⟨s, hinit, ?_, run_kept_iff ⟨⟨xs, h⟩, fun _ => rfl⟩ requests⟩
  rw [h.table_eq]
  exact h.sorted

/-- Memory for a list, with its head at 100. -/
def memory : FtmList CmdEntry Text := ⟨0, 100, fun _ => ⟨0, 0, none⟩, [], 0, none, none⟩

/-- There is no memory for another help. -/
def moreHelp : CmdRequest := ⟨⟨"help".toList, .other 4096, [], [], 0⟩, 0, 16⟩

/-- The help that there was is gone. -/
theorem help_lost : ∃ s, FtmShell.init memory [(4, 8)] [] = some s ∧
    ¬ Admitted Session.step (Kept (bound s)) ⟨s, []⟩ [moreHelp] := by
  refine ⟨_, rfl, ?_⟩
  rintro ⟨hk, -⟩
  have hsame := hk.failed .notEnoughMemory _ rfl (by decide)
  exact absurd (congrArg List.length hsame) (by decide)

end Catchb.Proofs.CommandTable
