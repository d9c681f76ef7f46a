import Catchb.Client
import Catchb.Lib.Run

/-! Whose response a call's status comes from. -/

namespace Catchb.Proofs.Replies
open Lib Client

variable {c : Connection} {call nRespLen n : Nat} {e : Event}

/-- What came of the status is in its place in the call's own response. -/
def Own : Nat × Result → Prop
  | (call, .status xRet) =>
    ∀ (i : Nat) (b : RespByte), xRet[i]? = some (some b) → b.call = call ∧ b.offset = retOffset + i
  | _ => True

def Matched (c : Connection) : Prop := ∀ r ∈ c.returned, Own r

/-- No byte of an earlier call's response is unread when a status is received. -/
def InTurn (c : Connection) : Event → Prop
  | .poll n =>
    match c.phase with
    | .polling nRespLen nTimeout =>
      1 < nTimeout → retOffset < (received c nRespLen n).length →
        ∀ b ∈ c.unread, b.call = c.calls
    | .idle => True
  | _ => True

/-- The unread bytes are of earlier calls, then the beginning of the present call's. -/
structure Ordered (c : Connection) : Prop where
  ascending : c.waiting.Pairwise (· < ·)
  sent : ∀ k ∈ c.waiting, k ≤ c.calls
  old : ∀ b ∈ c.unread, b.call ≤ c.calls
  fresh : c.phase ≠ .idle → ∃ earlier own, c.unread = earlier ++ own ∧
    (∀ b ∈ earlier, b.call < c.calls) ∧
    (own = [] ∨ c.waiting = [] ∧ ∃ resp, own = tag c.calls resp)

theorem tag_getElem? {resp : List UInt8} {i : Nat} {b : RespByte}
    (h : (tag call resp)[i]? = some b) : b.call = call ∧ b.offset = i := by
  rw [tag, List.getElem?_mapIdx, Option.map_eq_some_iff] at h
  obtain ⟨v, -, rfl⟩ := h
  exact ⟨rfl, rfl⟩

theorem tag_call {resp : List UInt8} {b : RespByte} (h : b ∈ tag call resp) : b.call = call := by
  obtain ⟨i, hi⟩ := List.mem_iff_getElem?.mp h
  exact (tag_getElem? hi).1

theorem ordered_connect : Ordered connect where
  ascending := List.Pairwise.nil
  sent := by simp [connect]
  old := by simp [connect]
  fresh := fun h => absurd rfl h

theorem ordered_request (h : Ordered c) (nRespLen : Nat) (sends : Bool) :
    Ordered (step c (.request nRespLen sends)) := by
  cases hphase : c.phase with
  | polling n t =>
    simp only [step, hphase]
    exact h
  | idle =>
    obtain ⟨hasc, hsent, hold, -⟩ := h
    have hlater : ∀ k ∈ c.waiting, k < c.calls + 1 := fun k hk => Nat.lt_succ_of_le (hsent k hk)
    have hearlier : ∀ b ∈ c.unread, b.call < c.calls + 1 :=
      fun b hb => Nat.lt_succ_of_le (hold b hb)
    cases sends with
    | true =>
      simp only [step, hphase]
      refine ⟨?_, ?_, fun b hb => Nat.le_of_lt (hearlier b hb), fun _ =>
        ⟨c.unread, [], (List.append_nil _).symm, hearlier, Or.inl rfl⟩⟩
      · apply List.pairwise_append.mpr
        refine ⟨hasc, List.pairwise_singleton _ _, fun k hk m hm => ?_⟩
        rw [List.mem_singleton.mp hm]
        exact hlater k hk
      · intro k hk
        rcases List.mem_append.mp hk with hk | hk
        · exact Nat.le_of_lt (hlater k hk)
        · exact Nat.le_of_eq (List.mem_singleton.mp hk)
    | false =>
      simp only [step, hphase, Bool.false_eq_true, ↓reduceIte]
      exact ⟨hasc, fun k hk => Nat.le_of_lt (hlater k hk),
        fun b hb => Nat.le_of_lt (hearlier b hb), fun hne => absurd rfl hne⟩

/-- Behind earlier responses comes the response to the present call only when nothing waits. -/
theorem fresh_respond {call : Nat} {rest : List Nat} (h : Ordered c) (hw : c.waiting = call :: rest)
    (hne : c.phase ≠ .idle) (resp : List UInt8) : ∃ earlier own,
      c.unread ++ tag call resp = earlier ++ own ∧ (∀ b ∈ earlier, b.call < c.calls) ∧
        (own = [] ∨ rest = [] ∧ ∃ resp, own = tag c.calls resp) := by
  have hasc := h.ascending
  have hsent := h.sent
  rw [hw, List.pairwise_cons] at hasc
  rw [hw, List.forall_mem_cons] at hsent
  obtain ⟨hfirst, -⟩ := hasc
  obtain ⟨hcall, hsent⟩ := hsent
  obtain ⟨earlier, own, hsplit, hearlier, hown⟩ := h.fresh hne
  have hnone : own = [] := by
    rcases hown with hown | hown
    · exact hown
    · rw [hw] at hown
      exact absurd hown.1 (List.cons_ne_nil _ _)
  rw [hnone, List.append_nil] at hsplit
  rw [hsplit]
  by_cases hlast : call = c.calls
  · refine ⟨earlier, tag call resp, rfl, hearlier, Or.inr ⟨?_, resp, by rw [hlast]⟩⟩
    apply List.eq_nil_iff_forall_not_mem.mpr
    intro k hk
    have hlt := hfirst k hk
    have hle := hsent k hk
    omega
  · refine ⟨earlier ++ tag call resp, [], (List.append_nil _).symm, ?_, Or.inl rfl⟩
    intro b hb
    rcases List.mem_append.mp hb with hb | hb
    · exact hearlier b hb
    · rw [tag_call hb]
      exact Nat.lt_of_le_of_ne hcall hlast

theorem ordered_respond (h : Ordered c) (resp : List UInt8) : Ordered (step c (.respond resp)) := by
  cases hw : c.waiting with
  | nil =>
    simp only [step, hw]
    exact h
  | cons call rest =>
    simp only [step, hw]
    refine ⟨?_, ?_, ?_, fun hne => fresh_respond h hw hne resp⟩
    · have hasc := h.ascending
      rw [hw] at hasc
      exact hasc.of_cons
    · intro k hk
      exact h.sent k (hw ▸ List.mem_cons_of_mem call hk)
    · intro b hb
      rcases List.mem_append.mp hb with hb | hb
      · exact h.old b hb
      · rw [tag_call hb]
        exact h.sent call (hw ▸ List.mem_cons_self)

theorem ordered_ignore (h : Ordered c) : Ordered (step c .ignore) := by
  obtain ⟨hasc, hsent, hold, hfresh⟩ := h
  refine ⟨hasc.tail, fun k hk => hsent k (List.mem_of_mem_tail hk), hold, fun hne => ?_⟩
  obtain ⟨earlier, own, hsplit, hearlier, hown⟩ := hfresh hne
  refine ⟨earlier, own, hsplit, hearlier, hown.imp id (fun hown => ?_)⟩
  exact ⟨by rw [step, hown.1]; rfl, hown.2⟩

theorem ordered_poll (h : Ordered c) (n : Nat) : Ordered (step c (.poll n)) := by
  cases hphase : c.phase with
  | idle =>
    simp only [step, hphase]
    exact h
  | polling nRespLen nTimeout =>
    obtain ⟨hasc, hsent, hold, hfresh⟩ := h
    have hne : c.phase ≠ .idle := by
      rw [hphase]
      nofun
    simp only [step, hphase]
    split
    · exact ⟨hasc, hsent, hold, fun hidle => absurd rfl hidle⟩
    · split
      · exact ⟨hasc, hsent, hold, fun _ => hfresh hne⟩
      · exact ⟨hasc, hsent, fun b hb => hold b (List.mem_of_mem_drop hb),
          fun hidle => absurd rfl hidle⟩

theorem ordered_step (h : Ordered c) (e : Event) : Ordered (step c e) := by
  cases e with
  | request nRespLen sends => exact ordered_request h nRespLen sends
  | respond resp => exact ordered_respond h resp
  | ignore => exact ordered_ignore h
  | poll n => exact ordered_poll h n

theorem status_getElem? {got : List RespByte} {i : Nat} {b : RespByte} :
    (status got)[i]? = some (some b) ↔ i < retSize ∧ got[retOffset + i]? = some b := by
  rw [status, List.getElem?_map]
  by_cases hi : i < retSize <;> simp [hi]

/-- The byte where the status begins is out of its place when an earlier byte lies before it. -/
theorem misplaced {earlier own : List RespByte} {call m : Nat} {b : RespByte} (hne : earlier ≠ [])
    (hearlier : ∀ x ∈ earlier, x.call < call)
    (hown : ∀ (i : Nat) (x : RespByte), own[i]? = some x → x.offset = i)
    (hb : ((earlier ++ own).take m)[retOffset]? = some b) :
    ¬(b.call = call ∧ b.offset = retOffset) := by
  have hpos := List.length_pos_iff.mpr hne
  have hm : retOffset < m := by
    by_contra hm
    rw [List.getElem?_take, if_neg hm] at hb
    cases hb
  rw [List.getElem?_take_of_lt hm] at hb
  intro hplace
  obtain ⟨hcall, hoffset⟩ := hplace
  by_cases hlen : retOffset < earlier.length
  · rw [List.getElem?_append_left hlen] at hb
    have hlt := hearlier b (List.mem_of_getElem? hb)
    omega
  · rw [List.getElem?_append_right (by omega)] at hb
    have hplace := hown _ _ hb
    omega

/-- A status is the call's own exactly when nothing of earlier calls lies before it. -/
theorem own_status_iff (h : Ordered c) (hne : c.phase ≠ .idle) :
    Own (c.calls, .status (status (received c nRespLen n))) ↔
      (retOffset < (received c nRespLen n).length → ∀ b ∈ c.unread, b.call = c.calls) := by
  obtain ⟨earlier, own, hsplit, hearlier, hown⟩ := h.fresh hne
  have hplace : ∀ (i : Nat) (x : RespByte), own[i]? = some x → x.call = c.calls ∧ x.offset = i := by
    intro i x hx
    rcases hown with hown | hown
    · rw [hown] at hx
      cases hx
    · obtain ⟨-, resp, hown⟩ := hown
      rw [hown] at hx
      exact tag_getElem? hx
  constructor
  · intro hall hlong b hb
    have hnone : earlier = [] := by
      by_contra hsome
      obtain ⟨x, hget⟩ : ∃ x, (received c nRespLen n)[retOffset]? = some x :=
        ⟨_, List.getElem?_eq_getElem hlong⟩
      have hfirst := hall 0 x (status_getElem?.mpr ⟨by decide, hget⟩)
      rw [received, hsplit] at hget
      exact misplaced hsome hearlier (fun i x hx => (hplace i x hx).2) hget hfirst
    rw [hsplit, hnone, List.nil_append] at hb
    obtain ⟨i, hi⟩ := List.mem_iff_getElem?.mp hb
    exact (hplace i b hi).1
  · intro hclean i b hb
    obtain ⟨-, hget⟩ := status_getElem?.mp hb
    have hlong : retOffset < (received c nRespLen n).length := by
      by_contra hlong
      rw [List.getElem?_eq_none (by omega)] at hget
      cases hget
    have hnone : earlier = [] := by
      apply List.eq_nil_iff_forall_not_mem.mpr
      intro x hx
      have heq := hclean hlong x (hsplit ▸ List.mem_append_left own hx)
      have hlt := hearlier x hx
      omega
    rw [received, hsplit, hnone, List.nil_append] at hget
    have htaken : own[retOffset + i]? = some b := by
      rw [List.getElem?_take] at hget
      split at hget
      · exact hget
      · cases hget
    exact hplace _ _ htaken

structure Inv (c : Connection) : Prop extends Ordered c where
  matched : Matched c

theorem matched_append {r : Nat × Result} {rs : List (Nat × Result)}
    (h : ∀ r ∈ rs, Own r) : (∀ r' ∈ rs ++ [r], Own r') ↔ Own r := by
  rw [List.forall_mem_append, List.forall_mem_singleton]
  exact and_iff_right h

theorem matched_step_iff (h : Inv c) (e : Event) : Matched (step c e) ↔ InTurn c e := by
  have hsame := h.matched
  cases e with
  | request nRespLen sends =>
    refine iff_of_true ?_ trivial
    simp only [step]
    split
    · split
      · exact hsame
      · exact (matched_append hsame).mpr trivial
    · exact hsame
  | respond resp =>
    refine iff_of_true ?_ trivial
    simp only [step]
    split
    · exact hsame
    · exact hsame
  | ignore => exact iff_of_true hsame trivial
  | poll n =>
    cases hphase : c.phase with
    | idle =>
      simp only [step, InTurn, hphase]
      exact iff_of_true hsame trivial
    | polling nRespLen nTimeout =>
      have hne : c.phase ≠ .idle := by
        rw [hphase]
        nofun
      simp only [step, InTurn, hphase]
      split
      · refine iff_of_true ((matched_append hsame).mpr trivial) (fun hlt => ?_)
        omega
      · split
        · rename_i hempty
          refine iff_of_true hsame (fun _ hlong => ?_)
          rw [hempty] at hlong
          cases hlong
        · have hlt : 1 < nTimeout := by omega
          rw [Matched, matched_append hsame, own_status_iff h.toOrdered hne]
          exact ⟨fun hown _ => hown, fun hturn => hturn hlt⟩

/-- Every status comes from the call's own response exactly when no byte of an earlier call's
response is unread at any receive that brings a status. -/
theorem replies_match_iff (es : List Event) :
    (∀ c ∈ states step connect es, Matched c) ↔ Admitted step InTurn connect es := by
  apply safe_iff_admitted (fun c (h : Inv c) => h.matched)
  · intro c e h hturn
    exact ⟨ordered_step h.toOrdered e, (matched_step_iff h e).mpr hturn⟩
  · intro c e h hmatched
    exact (matched_step_iff h e).mp hmatched
  · exact ⟨ordered_connect, by simp [Matched, connect]⟩

theorem poll_nothing (m : Nat) {nTimeout : Nat} (hphase : c.phase = .polling nRespLen nTimeout)
    (hm : m < nTimeout) : (List.replicate m (.poll 0)).foldl step c =
      { c with phase := .polling nRespLen (nTimeout - m) } := by
  induction m generalizing c nTimeout with
  | zero =>
    rw [Nat.sub_zero, ← hphase]
    rfl
  | succ m ih =>
    have hnone : received c nRespLen 0 = [] := by rw [received, Nat.zero_min, List.take_zero]
    have hround : step c (.poll 0) = { c with phase := .polling nRespLen (nTimeout - 1) } := by
      simp only [step, hphase, hnone]
      rw [if_neg (by omega), if_pos trivial]
    have hnext : (step c (.poll 0)).phase = .polling nRespLen (nTimeout - 1) := by rw [hround]
    rw [List.replicate_succ, List.foldl_cons, ih hnext (by omega), hround]
    congr 2
    omega

/-- The first call's answer comes after its timeout, and the second call receives it. -/
def lateReply : List Event :=
  .request 12 true :: List.replicate 4999 (.poll 0) ++ [.poll 0,
    .respond [1, 0, 0, 0, 12, 0, 0, 0, 5, 0, 0, 0], .request 12 true,
    .respond [2, 0, 0, 0, 12, 0, 0, 0, 0, 0, 0, 0], .poll 12]

theorem late_reply_taken : (lateReply.foldl step connect).returned =
      [(1, .timeout), (2, .status [some ⟨1, 8, 5⟩, some ⟨1, 9, 0⟩, some ⟨1, 10, 0⟩, some ⟨1, 11, 0⟩])] ∧
    ¬Matched (lateReply.foldl step connect) := by
  have hsent : (step connect (.request 12 true)).phase = .polling 12 5000 := rfl
  have hwait : (Event.request 12 true :: List.replicate 4999 (.poll 0)).foldl step connect =
      { step connect (.request 12 true) with phase := .polling 12 (5000 - 4999) } := by
    rw [List.foldl_cons]
    exact poll_nothing 4999 hsent (by decide)
  have hreturned : (lateReply.foldl step connect).returned = [(1, .timeout),
      (2, .status [some ⟨1, 8, 5⟩, some ⟨1, 9, 0⟩, some ⟨1, 10, 0⟩, some ⟨1, 11, 0⟩])] := by
    rw [lateReply, List.foldl_append, hwait]
    rfl
  refine ⟨hreturned, fun hmatched => ?_⟩
  rw [Matched, hreturned] at hmatched
  have hown := hmatched _ (List.mem_cons_of_mem _ List.mem_cons_self)
  have hfirst := hown 0 ⟨1, 8, 5⟩ rfl
  exact absurd hfirst.1 (by decide)

end Catchb.Proofs.Replies
