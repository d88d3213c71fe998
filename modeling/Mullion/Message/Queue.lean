import Mathlib.Data.List.Basic

/-!
# Messages from one session to another

`SessionMessageQueue` (`session-message-queue.ts`): a bounded queue for each target,
emptied by passes that ask `check` whether the target can take text and `deliver` it.

* `Message`, `Queue` — the map of the messages in insertion order, the timer, and the
  pass that is in flight, with the callback it waits for;
* `prune`, `expire`, `heads` — the synchronous part of a pass;
* `Mark` — what the log of a run records;
* `Event`, `step` — enqueues, ticks, timer firings, and the answers of the callbacks.

The callbacks are asynchronous: they do not call the queue while they are called.
-/

namespace Mullion
namespace MessageQueue

inductive MessageStatus
  | queued
  | delivered
  | expired
  | refused
  deriving DecidableEq, Repr

/-- `QueuedMessage`. An id is the number of the message, in the order of the enqueues. -/
structure Message where
  id : Nat
  fromSessionId : Nat
  fromLabel : String
  targetSessionId : Nat
  text : String
  status : MessageStatus := .queued
  reason : Option String := none
  createdAt : Nat
  expiresAt : Nat
  finishedAt : Option Nat := none
  deriving DecidableEq, Repr

def Message.isQueued (m : Message) : Bool := m.status = .queued

/-- `MAX_QUEUED_PER_TARGET`. -/
def maxQueuedPerTarget : Nat := 8

/-- `MAX_MESSAGE_TTL_MS`. -/
def maxMessageTtlMs : Nat := 60 * 60000

/-- `FINISHED_RETAIN_MS`. -/
def finishedRetainMs : Nat := 60 * 60000

/-- `FINISHED_RETAIN_MAX`. -/
def finishedRetainMax : Nat := 500

/-- `TargetReadiness`. -/
inductive TargetReadiness
  | ready
  | wait
  | refuse (reason : String)
  deriving DecidableEq, Repr

/-- `DeliverOutcome`. -/
inductive DeliverOutcome
  | ok
  | failed (reason : String) (retry : Bool)
  deriving DecidableEq, Repr

/-- Where the pass in flight waits; `heads` are the messages it has still to attempt. -/
inductive Pass
  /-- before the next attempt -/
  | between (heads : List Nat)
  /-- `check` -/
  | checking (id : Nat) (heads : List Nat)
  /-- `deliver` -/
  | delivering (id : Nat) (heads : List Nat)
  /-- the run is over, `inflight` is not yet cleared -/
  | ended
  deriving DecidableEq, Repr

/-- What the log records. -/
inductive Mark
  | enqueued (id target : Nat)
  /-- The message leaves `queued`. -/
  | left (id : Nat)
  /-- `deliver` is called. -/
  | called (id target : Nat)
  /-- `deliver` has answered. -/
  | returned (id : Nat) (ok : Bool)
  deriving DecidableEq, Repr

/-- The queue, the clock, and the log. -/
structure Queue where
  messages : List Message := []
  nextId : Nat := 0
  /-- The interval timer is armed. -/
  timer : Bool := false
  /-- `inflight`. -/
  pass : Option Pass := none
  now : Nat := 0
  log : List Mark := []
  deriving DecidableEq, Repr

namespace Queue

/-- `queuedFor`. -/
def queuedFor (q : Queue) (target : Nat) : List Message :=
  q.messages.filter (fun m => m.isQueued && m.targetSessionId = target)

/-! ## Finishing a message -/

/-- The patch of `finish`. -/
def finishPatch (now : Nat) (status : MessageStatus) (reason : Option String) (m : Message) :
    Message :=
  { m with status, reason := reason.or m.reason, finishedAt := some now }

/-- `finish`. -/
def finish (q : Queue) (id : Nat) (status : MessageStatus) (reason : Option String) : Queue :=
  { q with
    messages := q.messages.map fun m => if m.id = id then finishPatch q.now status reason m else m
    log := q.log ++ [.left id] }

/-! ## A pass -/

/-- `prune`. -/
def prune (q : Queue) : Queue :=
  let old := fun (m : Message) => finishedRetainMs < q.now - m.finishedAt.getD q.now
  let kept := q.messages.filter (fun m => !m.isQueued && !old m)
  let surplus := (kept.take (kept.length - finishedRetainMax)).map Message.id
  { q with
    messages := q.messages.filter (fun m => m.isQueued || !(old m || decide (m.id ∈ surplus))) }

/-- The message is queued and its time is over. -/
def isOver (q : Queue) (m : Message) : Bool := m.isQueued && decide (m.expiresAt ≤ q.now)

/-- The expiries of a pass. -/
def expire (q : Queue) : Queue :=
  { q with
    messages := q.messages.map fun m =>
      if q.isOver m then
        finishPatch q.now .expired (some "the target did not become idle in time") m
      else m
    log := q.log ++ (q.messages.filter q.isOver).map fun m => .left m.id }

/-- The first message of each target that is not in `seen`. -/
def firsts (seen : List Nat) : List Message → List Message
  | [] => []
  | m :: ms =>
    if m.targetSessionId ∈ seen then firsts seen ms
    else m :: firsts (m.targetSessionId :: seen) ms

/-- The messages that are queued, oldest first. -/
def waiting (q : Queue) : List Message := q.messages.filter Message.isQueued

/-- The oldest queued message of each target. -/
def heads (q : Queue) : List Nat := (firsts [] q.waiting).map Message.id

/-- The end of a run: the timer is disarmed when nothing is queued. -/
def endRun (q : Queue) : Queue :=
  { q with timer := q.timer && q.messages.any Message.isQueued, pass := some .ended }

/-- The next attempt, or the end of the run. -/
def attemptNext (q : Queue) : List Nat → Queue
  | [] => q.endRun
  | id :: heads => { q with pass := some (.checking id heads) }

/-- `tick`: a pass runs up to its first await, or the call joins the pass in flight. -/
def tick (q : Queue) : Queue :=
  match q.pass with
  | some _ => q
  | none =>
    let q := q.prune.expire
    q.attemptNext q.heads

/-- After `check`; `none` is a callback that threw, with its message. -/
def checked (q : Queue) (id : Nat) (heads : List Nat) : Except String TargetReadiness → Queue
  | .error message => { q.finish id .refused (some message) with pass := some (.between heads) }
  | .ok .wait => { q with pass := some (.between heads) }
  | .ok (.refuse reason) =>
    { q.finish id .refused (some reason) with pass := some (.between heads) }
  | .ok .ready =>
    match q.messages.find? (fun m => m.id = id) with
    | none => { q with pass := some (.between heads) }
    | some m =>
      { q with
        pass := some (.delivering id heads)
        log := q.log ++ [.called id m.targetSessionId] }

/-- After `deliver`. -/
def delivered (q : Queue) (id : Nat) (heads : List Nat) (answer : Except String DeliverOutcome) :
    Queue :=
  let outcome := match answer with
    | .ok outcome => outcome
    | .error message => .failed message false
  let settled :=
    if q.messages.any (fun m => m.id = id && m.isQueued) then
      match outcome with
      | .ok => q.finish id .delivered none
      | .failed _ true => q
      | .failed reason false => q.finish id .refused (some reason)
    else q
  { settled with
    pass := some (.between heads)
    log := settled.log ++ [Mark.returned id (decide (outcome = .ok))] }

/-- `enqueue`. -/
def enqueue (q : Queue) (fromSessionId : Nat) (fromLabel : String) (targetSessionId : Nat)
    (text : String) (ttlMs : Nat) : Queue :=
  if maxQueuedPerTarget ≤ (q.queuedFor targetSessionId).length then q
  else
    let message : Message :=
      { id := q.nextId, fromSessionId, fromLabel, targetSessionId, text, createdAt := q.now
        expiresAt := q.now + min (max ttlMs 1000) maxMessageTtlMs }
    let q := { q with
      messages := q.messages ++ [message]
      nextId := q.nextId + 1
      timer := true
      log := q.log ++ [Mark.enqueued q.nextId targetSessionId] }
    q.tick

end Queue

/-! ## Runs -/

/-- What can happen. -/
inductive Event
  | enqueue (fromSessionId : Nat) (fromLabel : String) (targetSessionId : Nat) (text : String)
      (ttlMs : Nat)
  | tick
  /-- The interval timer fires. -/
  | timer
  /-- The next attempt of the pass begins. -/
  | proceed
  | checked (answer : Except String TargetReadiness)
  | delivered (answer : Except String DeliverOutcome)
  /-- `inflight` is cleared. -/
  | settle
  | advance (ms : Nat)

/-- One step. -/
def step (q : Queue) : Event → Option Queue
  | .enqueue fromSessionId fromLabel targetSessionId text ttlMs =>
    some (q.enqueue fromSessionId fromLabel targetSessionId text ttlMs)
  | .tick => some q.tick
  | .timer => if q.timer then some q.tick else none
  | .proceed =>
    match q.pass with
    | some (.between heads) => some (q.attemptNext heads)
    | _ => none
  | .checked answer =>
    match q.pass with
    | some (.checking id heads) => some (q.checked id heads answer)
    | _ => none
  | .delivered answer =>
    match q.pass with
    | some (.delivering id heads) => some (q.delivered id heads answer)
    | _ => none
  | .settle => if q.pass = some .ended then some { q with pass := none } else none
  | .advance ms => some { q with now := q.now + ms }

end MessageQueue
end Mullion
