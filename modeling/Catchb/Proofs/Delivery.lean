import Catchb.Lib.Run
import Catchb.MsgQueue
import Mathlib.Data.Finset.Card

/-! What a message queue's consumer gets. -/

namespace Catchb.Proofs.Delivery
open Lib Channel

variable {π μ : Type} {c : Channel π μ}

/-- The consumer has a token of the semaphore and has not taken its message out yet. -/
def holding : PopPc μ → Nat
  | .getAt | .remove _ | .post => 1
  | .idle | .wait _ => 0

/-- Each listed message has a token: in the semaphore, with a producer that still has to
post it, or with the consumer. -/
structure Accounted (c : Channel π μ) : Prop where
  order : c.returned ++ c.queue.xList = c.appended
  tokens : ∃ posting : Finset π, (∀ p, p ∈ posting ↔ c.producers p = .post) ∧
    c.queue.xLock + posting.card + holding c.consumer = c.queue.xList.length
  head : ∀ pMsg, c.consumer = .remove pMsg → c.queue.xList.head? = some pMsg
  found : c.consumer ≠ .post

variable [DecidableEq π]

theorem mem_insert_posting {posting : Finset π} {pcs : π → PushPc μ} {p : π}
    (h : ∀ q, q ∈ posting ↔ pcs q = .post) (q : π) :
    q ∈ insert p posting ↔ Function.update pcs p .post q = .post := by
  by_cases hq : q = p
  · simp [hq]
  · simp [hq, h]

theorem mem_erase_posting {posting : Finset π} {pcs : π → PushPc μ} {p : π} {pc : PushPc μ}
    (hpc : pc ≠ .post) (h : ∀ q, q ∈ posting ↔ pcs q = .post) (q : π) :
    q ∈ posting.erase p ↔ Function.update pcs p pc q = .post := by
  by_cases hq : q = p
  · simp [hq, hpc]
  · simp [hq, h]

/-- A producer that is not posting moves to another step before its append. -/
theorem Accounted.moved (h : Accounted c) {p : π} {pc : PushPc μ} (hpc : pc ≠ .post)
    (hp : c.producers p ≠ .post) : Accounted (c.setProducer p pc) := by
  obtain ⟨posting, hmem, hsum⟩ := h.tokens
  refine ⟨h.order, ⟨posting, ?_, hsum⟩, h.head, h.found⟩
  have hnot : p ∉ posting := fun hin => hp ((hmem p).mp hin)
  intro q
  have hq := mem_erase_posting (p := p) hpc hmem q
  rwa [Finset.erase_eq_of_notMem hnot] at hq

theorem Accounted.pushStep (h : Accounted c) (p : π) (alloc : Bool) :
    Accounted (c.pushStep p alloc) := by
  unfold Channel.pushStep
  cases hp : c.producers p with
  | idle => exact h
  | append pMsg =>
    cases alloc with
    | false => exact h.moved nofun (by simp [hp])
    | true =>
      obtain ⟨posting, hmem, hsum⟩ := h.tokens
      have hnot : p ∉ posting := fun hin => by simp [(hmem p).mp hin] at hp
      refine ⟨?_, ⟨insert p posting, mem_insert_posting hmem, ?_⟩, ?_, h.found⟩
      · simp [setProducer, ← h.order]
      · rw [Finset.card_insert_of_notMem hnot]
        simp only [setProducer, ↓reduceIte, List.length_append, List.length_singleton]
        omega
      · intro q hq
        have hhead := h.head q hq
        cases hl : c.queue.xList with
        | nil => simp [hl] at hhead
        | cons x xs => simpa [hl] using hhead
  | post =>
    obtain ⟨posting, hmem, hsum⟩ := h.tokens
    have hin : p ∈ posting := (hmem p).mpr hp
    refine ⟨h.order, ⟨posting.erase p, mem_erase_posting nofun hmem, ?_⟩, h.head, h.found⟩
    have hcard := Finset.card_erase_add_one hin
    simp only [setProducer]
    omega

variable [DecidableEq μ]

omit [DecidableEq π] in
/-- The consumer's own step: with a token it finds the message that it takes out. -/
theorem Accounted.popStep (h : Accounted c) : Accounted c.popStep := by
  obtain ⟨posting, hmem, hsum⟩ := h.tokens
  unfold Channel.popStep
  cases hc : c.consumer with
  | idle => exact h
  | wait timed =>
    cases hlock : c.queue.xLock with
    | zero => exact h
    | succ n =>
      refine ⟨h.order, ⟨posting, hmem, ?_⟩, nofun, nofun⟩
      simp only [hc, hlock, holding] at hsum ⊢
      omega
  | getAt =>
    cases hl : c.queue.xList with
    | nil =>
      simp only [hc, hl, holding, List.length_nil] at hsum
      omega
    | cons pMsg rest =>
      refine ⟨h.order, ⟨posting, hmem, ?_⟩, ?_, nofun⟩
      · simpa only [hc, holding] using hsum
      · rintro q ⟨⟩
        exact congrArg List.head? hl
  | remove pMsg =>
    have hhead := h.head pMsg hc
    cases hl : c.queue.xList with
    | nil => simp [hl] at hhead
    | cons x rest =>
      have hx : x = pMsg := by simpa [hl] using hhead
      subst hx
      simp only [List.mem_cons_self, ↓reduceIte, List.erase_cons_head]
      refine ⟨?_, ⟨posting, hmem, ?_⟩, nofun, nofun⟩
      · simp [← h.order, hl]
      · simp only [hc, hl, holding, List.length_cons] at hsum ⊢
        omega
  | post => exact absurd hc h.found

theorem Accounted.step (h : Accounted c) (e : ChannelEvent π μ) : Accounted (c.step e) := by
  cases e with
  | push p pMsg =>
    simp only [Channel.step]
    cases hp : c.producers p with
    | idle => exact h.moved nofun (by simp [hp])
    | append | post => exact h
  | producer p alloc => exact h.pushStep p alloc
  | pop timed =>
    simp only [Channel.step]
    cases hc : c.consumer with
    | idle =>
      obtain ⟨posting, hmem, hsum⟩ := h.tokens
      refine ⟨h.order, ⟨posting, hmem, ?_⟩, nofun, nofun⟩
      simpa only [hc, holding] using hsum
    | wait | getAt | remove | post => exact h
  | consumer => exact h.popStep
  | timeout =>
    simp only [Channel.step]
    cases hc : c.consumer with
    | wait timed =>
      cases timed with
      | true =>
        obtain ⟨posting, hmem, hsum⟩ := h.tokens
        refine ⟨h.order, ⟨posting, hmem, ?_⟩, nofun, nofun⟩
        simpa only [hc, holding] using hsum
      | false => exact h
    | idle | getAt | remove | post => exact h

/-- One whole pop. -/
def popOnce (c : Channel π μ) (timed : Bool) : Channel π μ :=
  [.pop timed, .consumer, .consumer, .consumer].foldl Channel.step c

/-- A pop that finds a token and a message returns that message. -/
theorem popOnce_idle {n : Nat} {pMsg : μ} {rest : List μ} (timed : Bool)
    (hc : c.consumer = .idle) (hlock : c.queue.xLock = n + 1)
    (hl : c.queue.xList = pMsg :: rest) :
    popOnce c timed = { c with
      queue := ⟨rest, n⟩
      returned := c.returned ++ [pMsg] } := by
  simp [popOnce, Channel.step, Channel.popStep, hc, hlock, hl]

/-- As many pops as there are messages with a token return them all in order. -/
theorem returned_pops (ts : List Bool) (c : Channel π μ) (hc : c.consumer = .idle)
    (hlock : c.queue.xLock = c.queue.xList.length) (hts : ts.length = c.queue.xList.length) :
    (ts.foldl popOnce c).returned = c.returned ++ c.queue.xList := by
  induction ts generalizing c with
  | nil =>
    have hl : c.queue.xList = [] := List.eq_nil_of_length_eq_zero hts.symm
    simp [hl]
  | cons t ts ih =>
    cases hl : c.queue.xList with
    | nil => simp [hl] at hts
    | cons pMsg rest =>
      rw [hl, List.length_cons] at hlock hts
      have hrest := ih { c with queue := ⟨rest, rest.length⟩, returned := c.returned ++ [pMsg] }
        hc rfl (Nat.succ.inj hts)
      rw [List.foldl_cons, popOnce_idle t hc hlock hl, hrest, List.append_assoc,
        List.singleton_append]

/-- What the queue promises: the messages returned so far are the first ones appended, in
order; a token always has its message; and once no push is half done, popping the rest
returns every message appended. -/
structure Delivered (c : Channel π μ) : Prop where
  order : c.returned ++ c.queue.xList = c.appended
  tokens : c.queue.xLock ≤ c.queue.xList.length
  found : c.consumer ≠ .post
  rest : (∀ p, c.producers p ≠ .post) → c.consumer = .idle → ∀ ts : List Bool,
    ts.length = c.queue.xList.length → (ts.foldl popOnce c).returned = c.appended

theorem Accounted.delivered (h : Accounted c) : Delivered c := by
  obtain ⟨posting, hmem, hsum⟩ := h.tokens
  refine ⟨h.order, by omega, h.found, ?_⟩
  intro hidle hc ts hts
  have hnone : posting = ∅ := by
    apply Finset.eq_empty_of_forall_notMem
    intro p hp
    exact hidle p ((hmem p).mp hp)
  have hlock : c.queue.xLock = c.queue.xList.length := by
    simpa [hnone, hc, holding] using hsum
  rw [returned_pops ts c hc hlock hts, h.order]

/-- Two producers meet between append and post, and the second message's post comes first. -/
def crossed : List (ChannelEvent Bool Nat) :=
  [.push true 7, .push false 8, .pop true, .producer true true, .timeout, .producer false true,
    .pop false, .producer false true, .consumer, .consumer, .consumer, .producer true true]

example : (crossed.foldl Channel.step start).returned = [7] := by decide

end Catchb.Proofs.Delivery
