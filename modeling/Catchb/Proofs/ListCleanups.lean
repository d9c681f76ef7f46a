import Catchb.ListCleanup
import Catchb.Proofs.CommandTable
import Catchb.Proofs.Iterations
import Catchb.Proofs.IteratorLive
import Catchb.Proofs.ServerLifetime
import Mathlib.Logic.Function.Iterate

/-! What the loops that remove while they iterate visit, and what they leave. -/

namespace Catchb.Proofs.ListCleanups
open Lib Sequence Iterations IteratorLive

section Loop
variable {δ κ : Type} [DecidableEq δ] {l : IterList δ κ} {ps : List Ptr} {ys zs : List δ} {z : δ}
variable {drop : δ → Bool}

/-- A search for `z` stops at the first one. -/
theorem split_at (hz : z ∉ ys) :
    (ys ++ z :: zs).takeWhile (fun x => !decide (some x = some z)) = ys ∧
      (ys ++ z :: zs).dropWhile (fun x => !decide (some x = some z)) = z :: zs := by
  have hys : ∀ y ∈ ys, (!decide (some y = some z)) = true := by
    intro y hy
    simpa using fun he : y = z => hz (he ▸ hy)
  rw [List.takeWhile_append_of_pos hys, List.dropWhile_append_of_pos hys]
  simp

/-- The item that was just visited is removed, and the iterator is behind those before it. -/
theorem remove_behind (h : Behind ps (ys ++ z :: zs) l (ys.length + 1)) (hz : z ∉ ys) :
    ∃ list qs, l.remove z = some (.ok, list) ∧
      Behind qs (ys ++ zs) { l with toFtmList := list } ys.length := by
  obtain ⟨us, vs, hscan, hh, hlen, hdata⟩ := h.holds.scan (fun d => d = some z)
  obtain rfl := places_unique h.holds hh
  rw [(split_at hz).1, (split_at hz).2] at hh
  rw [(split_at hz).1] at hlen
  rw [(split_at hz).2] at hdata
  cases vs with
  | nil => cases hdata
  | cons p vs =>
    have hiter : l.pIter = p := by
      rw [h.place, ← hlen]
      simp [List.take_append]
    have hprev : l.pPrev p = us.getLastD l.xHead := hh.ring.prev_head
    refine ⟨{ l.unlink p with pIter := l.pPrev p }, us ++ vs, ?_, ?_⟩
    · simp [FtmList.remove, hscan, hh.ne_head, hiter]
    · refine ⟨(unlink_holds hh hlen).setIter _, h.flag, ?_, ?_⟩
      · simp [← hlen]
      · rw [← hlen, List.take_left]
        exact hprev

/-- The items that stay in front of the iterator. -/
def passed (drop : δ → Bool) (ys : List δ) (z : δ) : List δ := if drop z then ys else ys ++ [z]

/-- A turn passes its item or removes it. -/
theorem turn_behind (drop : δ → Bool) (h : Behind ps (ys ++ z :: zs) l ys.length) (hz : z ∉ ys) :
    ∃ l₁ l₂ qs, l.iteratorNext = ((.ok, some z), l₁) ∧
      l₁.removeVisited drop z = some (drop z, l₂) ∧
      Behind qs (passed drop ys z ++ zs) l₂ (passed drop ys z).length := by
  obtain ⟨l₁, hnext, h₁⟩ := h.next_some (x := z) (by simp)
  cases hdrop : drop z with
  | true =>
    obtain ⟨list, qs, hremove, h₂⟩ := remove_behind h₁ hz
    refine ⟨l₁, { l₁ with toFtmList := list }, qs, hnext, ?_, ?_⟩
    · simp [IterList.removeVisited, hdrop, hremove]
    · simpa [passed, hdrop] using h₂
  | false =>
    refine ⟨l₁, l₁, ps, hnext, ?_, ?_⟩
    · simp [IterList.removeVisited, hdrop]
    · simpa [passed, hdrop] using h₁

omit [DecidableEq δ] in
theorem passed_sublist : (passed drop ys z ++ zs).Sublist (ys ++ z :: zs) := by
  cases hdrop : drop z <;> simp [passed, hdrop]

omit [DecidableEq δ] in
theorem passed_append_filter :
    passed drop ys z ++ zs.filter (fun x => !drop x) =
      ys ++ (z :: zs).filter (fun x => !drop x) := by
  cases hdrop : drop z <;> simp [passed, hdrop]

/-- The rest of a loop, behind the items that it has passed. -/
theorem removeLoop_behind {n : Nat} (h : Behind ps (ys ++ zs) l ys.length)
    (hd : (ys ++ zs).Nodup) (hn : zs.length < n) :
    ∃ r qs, l.removeLoop drop n = some r ∧ r.visited = zs ∧ r.removed = zs.filter drop ∧
      Holds r.list.toFtmList qs (ys ++ zs.filter (fun x => !drop x)) := by
  induction zs generalizing n l ps ys with
  | nil =>
    cases n with
    | zero => omega
    | succ n =>
      obtain ⟨l', hnext, h'⟩ := h.next_none (by simp)
      exact ⟨⟨[], [], l'⟩, ps, by rw [IterList.removeLoop, hnext], rfl, rfl, h'.holds⟩
  | cons z zs ih =>
    cases n with
    | zero => omega
    | succ n =>
      have hz : z ∉ ys := by
        have hmiddle := (List.nodup_cons.mp (List.nodup_middle.mp hd)).1
        exact fun hmem => hmiddle (List.mem_append_left zs hmem)
      obtain ⟨l₁, l₂, qs, hnext, hturn, h₂⟩ := turn_behind drop h hz
      obtain ⟨r, rs, hrest, hvisited, hremoved, hr⟩ :=
        ih h₂ (hd.sublist passed_sublist) (Nat.lt_of_succ_lt_succ hn)
      refine ⟨⟨z :: r.visited, if drop z then z :: r.removed else r.removed, r.list⟩, rs,
        ?_, ?_, ?_, ?_⟩
      · simp [IterList.removeLoop, hnext, hturn, hrest]
      · simp [hvisited]
      · cases hdrop : drop z <;> simp [hremoved, hdrop]
      · rwa [← passed_append_filter]

/-- A loop over distinct items visits each of them once, in order, and leaves those that it was
not to drop. -/
theorem removeLoop_returns {n : Nat} {xs : List δ} (h : Holds l.toFtmList ps xs) (hd : xs.Nodup)
    (drop : δ → Bool) (hn : xs.length < n) :
    ∃ r qs, l.iteratorStart.removeLoop drop n = some r ∧ r.visited = xs ∧
      r.removed = xs.filter drop ∧ Holds r.list.toFtmList qs (xs.filter (fun x => !drop x)) := by
  have hstart : Behind ps ([] ++ xs) l.iteratorStart ([] : List δ).length := start_behind h
  exact removeLoop_behind hstart hd hn

/-- For every choice of items to drop, a loop over a list of distinct items returns. It has visited
every item once, in order, and the list that it leaves has the others in their order. -/
theorem cleanup_keeps_others {xs : List δ} (h : Holds l.toFtmList ps xs) (hd : xs.Nodup)
    (drop : δ → Bool) : ∀ n > xs.length, ∃ r, l.iteratorStart.removeLoop drop n = some r ∧
      r.visited = xs ∧ r.removed = xs.filter drop ∧
      Refines r.list.toFtmList (xs.filter (fun x => !drop x)) := by
  intro n hn
  obtain ⟨r, qs, hloop, hvisited, hremoved, hr⟩ := removeLoop_returns h hd drop hn
  exact ⟨r, hloop, hvisited, hremoved, hr.refines⟩

theorem first_item_dropped : ∃ r,
    twoItems.iteratorStart.removeLoop (fun x => x == 5) 3 = some r ∧ r.visited = [5, 7] ∧
      r.removed = [5] ∧ Refines r.list.toFtmList [7] :=
  cleanup_keeps_others twoItems_hold (by decide) (fun x => x == 5) 3 (by decide)

/-- A loop that removes every item leaves an empty list. -/
theorem removeLoop_all {n : Nat} {xs : List δ} (h : Holds l.toFtmList ps xs) (hd : xs.Nodup)
    (hn : xs.length < n) :
    ∃ r, l.iteratorStart.removeLoop (fun _ => true) n = some r ∧ r.visited = xs ∧
      r.removed = xs ∧ Holds r.list.toFtmList [] [] := by
  obtain ⟨r, qs, hloop, hvisited, hremoved, hr⟩ := removeLoop_returns h hd (fun _ => true) hn
  have hnil : xs.filter (fun _ => !true) = [] := by simp
  rw [hnil] at hr
  obtain rfl := List.eq_nil_of_length_eq_zero hr.length
  exact ⟨r, hloop, hvisited, by simpa using hremoved, hr⟩

end Loop

section Shell
variable {s : FtmShell} {xs : List CmdEntry}
open CommandTable

/-- Of an empty list `FTM_LIST_final` frees nothing. -/
theorem final_empty {δ κ : Type} {l : FtmList δ κ} (h : Holds l [] []) :
    l.final = some { l.init with allocated := l.allocated } := by
  have hnext : l.pNext l.xHead = l.xHead := h.ring.next_head
  simp [FtmList.final, FtmList.fuel, FtmList.freeFrom, hnext]

/-- The end of a shell frees each command of its table once, and nothing else. -/
theorem final_frees (h : Table s xs) : ∃ s', s.final = some s' ∧ table s' = [] ∧
    s'.allocated = s.allocated.diff ((table s).map CmdEntry.address) := by
  obtain ⟨ps, hl⟩ := h.holds
  have hd : xs.Nodup := (nodup_keys h.sorted).of_map key
  have hn : xs.length < FtmList.fuel := by
    rw [← hl.length]
    exact length_lt_fuel hl.ring.distinct
  have hiter : Holds ({ s.pCmdList with bIterator := false } : IterList CmdEntry Text).toFtmList
      ps xs := hl
  obtain ⟨r, hloop, -, hremoved, hr⟩ := removeLoop_all hiter hd hn
  refine ⟨⟨{ r.list.init with allocated := r.list.allocated },
    (r.removed.map CmdEntry.address).foldl List.erase s.allocated⟩, ?_, ?_, ?_⟩
  · simp only [FtmShell.final, hloop, final_empty hr, Option.bind_eq_bind, Option.bind_some]
  · have hempty : Holds { r.list.init with allocated := r.list.allocated } [] [] :=
      ⟨(init_holds r.list.toFtmList).ring, rfl, by simp, rfl⟩
    rw [table, hempty.refines.forward]
    rfl
  · rw [hremoved, h.table_eq, List.diff_eq_foldl]

end Shell

section Server
open ServerSessions ServerLifetime

/-- The rounds at the end of the server. -/
theorem drain_all {t : ServerSessions} {xs : List Nat} (hlist : t.xSessionList = xs)
    (hstop : t.bStop = true) (hexit : ∀ id ∈ xs, t.pc id = some .exited) :
    drain^[xs.length] t = xs.foldl destroySession t := by
  induction xs generalizing t with
  | nil => rfl
  | cons id xs ih =>
    obtain ⟨hfirst, hrest⟩ := List.forall_mem_cons.mp hexit
    have hdrain : t.drain = t.destroySession id := by simp [drain, hlist, hstop, hfirst]
    rw [List.length_cons, Function.iterate_succ_apply, List.foldl_cons, hdrain]
    apply ih
    · simp [destroySession, hlist]
    · exact hstop
    · exact hrest

/-- The sessions that the server's last loop visits are those of the rounds. -/
theorem shutdown_drains {κ : Type} {l : IterList Nat κ} {ps : List Ptr} {t : ServerSessions}
    {ulMaxSession n : Nat} (ht : Inv ulMaxSession t) (h : Holds l.toFtmList ps t.xSessionList)
    (hstop : t.bStop = true) (hexit : ∀ id ∈ t.xSessionList, t.pc id = some .exited)
    (hn : t.xSessionList.length < n) :
    ∃ r, l.iteratorStart.removeLoop (fun _ => true) n = some r ∧
      Holds r.list.toFtmList [] [] ∧
      r.visited.foldl destroySession t = drain^[t.xSessionList.length] t := by
  obtain ⟨r, hloop, hvisited, -, hr⟩ := removeLoop_all h ht.list hn
  refine ⟨r, hloop, hr, ?_⟩
  rw [hvisited, drain_all rfl hstop hexit]

end Server

end Catchb.Proofs.ListCleanups
