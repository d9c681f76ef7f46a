import Mathlib.Logic.Function.Basic

/-! A message queue between any number of producers and one consumer, one list or semaphore
operation at a time. -/

namespace Catchb
variable {π μ : Type} [DecidableEq π] [DecidableEq μ]

/-- `xList` holds the messages' addresses and `xLock` is the semaphore's value. -/
structure MsgQ (μ : Type) where
  xList : List μ
  xLock : Nat

/-- What the next operation of a producer is. -/
inductive PushPc (μ : Type)
  | idle
  | append (pMsg : μ)
  | post

/-- What the next operation of the consumer is. `post` gives the semaphore back when
`FTM_QUEUE_pop` has failed. -/
inductive PopPc (μ : Type)
  | idle
  | wait (timed : Bool)
  | getAt
  | remove (pMsg : μ)
  | post

/-- `appended` lists the messages in the order of the list appends, `returned` those that
pops have returned. -/
structure Channel (π μ : Type) where
  queue : MsgQ μ
  producers : π → PushPc μ
  consumer : PopPc μ
  appended : List μ
  returned : List μ

/-- Which thread goes on: a producer calls `FTM_MSGQ_push` or takes its next step, with or
without memory for the list entry; the consumer calls `FTM_MSGQ_pop` or `FTM_MSGQ_timedPop`,
takes its next step, or its wait times out. -/
inductive ChannelEvent (π μ : Type)
  | push (p : π) (pMsg : μ)
  | producer (p : π) (alloc : Bool)
  | pop (timed : Bool)
  | consumer
  | timeout

namespace Channel

def start : Channel π μ where
  queue := ⟨[], 0⟩
  producers := fun _ => .idle
  consumer := .idle
  appended := []
  returned := []

def setProducer (c : Channel π μ) (p : π) (pc : PushPc μ) : Channel π μ :=
  { c with producers := Function.update c.producers p pc }

def pushStep (c : Channel π μ) (p : π) (alloc : Bool) : Channel π μ :=
  match c.producers p with
  | .idle => c
  | .append pMsg =>
    if alloc then
      { c.setProducer p .post with
        queue := { c.queue with xList := c.queue.xList ++ [pMsg] }
        appended := c.appended ++ [pMsg] }
    else c.setProducer p .idle
  | .post => { c.setProducer p .idle with queue := { c.queue with xLock := c.queue.xLock + 1 } }

/-- A wait on an empty semaphore goes on waiting. -/
def popStep (c : Channel π μ) : Channel π μ :=
  match c.consumer with
  | .idle => c
  | .wait _ =>
    match c.queue.xLock with
    | 0 => c
    | n + 1 => { c with queue := { c.queue with xLock := n }, consumer := .getAt }
  | .getAt =>
    match c.queue.xList with
    | [] => { c with consumer := .post }
    | pMsg :: _ => { c with consumer := .remove pMsg }
  | .remove pMsg =>
    if pMsg ∈ c.queue.xList then
      { c with
        queue := { c.queue with xList := c.queue.xList.erase pMsg }
        consumer := .idle
        returned := c.returned ++ [pMsg] }
    else { c with consumer := .post }
  | .post => { c with queue := { c.queue with xLock := c.queue.xLock + 1 }, consumer := .idle }

def step (c : Channel π μ) : ChannelEvent π μ → Channel π μ
  | .push p pMsg =>
    match c.producers p with
    | .idle => c.setProducer p (.append pMsg)
    | .append _ | .post => c
  | .producer p alloc => c.pushStep p alloc
  | .pop timed =>
    match c.consumer with
    | .idle => { c with consumer := .wait timed }
    | .wait _ | .getAt | .remove _ | .post => c
  | .consumer => c.popStep
  | .timeout =>
    match c.consumer with
    | .wait true => { c with consumer := .idle }
    | .idle | .wait false | .getAt | .remove _ | .post => c

end Channel
end Catchb
