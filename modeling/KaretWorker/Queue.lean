import KaretWorker.Claimed
import KaretWorker.Library.Runs

/-!
# The queue and everyone who works on it

Any number of handlers and sweeps over the shared services, each as the rest of its
program. One step enqueues a job, delivers or reclaims a stream entry to a new
handler, answers the pending operation of a handler or a sweep, or stops it; the
heartbeat task of a handler renews its lock; the mover puts due messages back on the
stream. Locks and live hashes expire and the stream is trimmed at any time. Handlers
interleave freely.

The history is never read by the code. It keeps the messages enqueued, the jobs whose
live status was terminal at some time, for each handler the attempt it was numbered as
and whether it went past the look at its job, and a log of deeds with the latest first.
A deed counts when the command was applied, whether or not the handler learned of it.
-/
namespace KaretWorker

open Texts Interaction

/-- A handler of one stream entry. While its run lasts, it has the pipeline and the
fence of the lock to renew. -/
structure Handler where
  entry : Nat
  payload : Payload
  program : Handling Unit
  lock : Option (Text × Text)
  cancelled : Bool
  attempt : Option Nat
  admitted : Bool

/-- A handler that was just given its entry. -/
def Handler.fresh (settings : QueueSettings) (worker : Text) (entry : Nat) (payload : Payload) :
    Handler :=
  ⟨entry, payload, handleClaimed settings worker entry payload, none, false, none, false⟩

/-- A sweep, and the job whose status it has last read as not terminal. -/
structure Sweep where
  program : Handling (Except Text Unit)
  held : Option Text

/-- What a handler does that others can tell. -/
inductive Deed where
  | acquired (fence : Text)
  | started
  | wroteRow
  | wroteLive (status : Status)
  | acked
  deriving DecidableEq, Repr

/-- A deed with the handler that did it, its job, and its attempt if it has one. -/
structure Happening where
  handler : Nat
  jobId : Text
  attempt : Option Nat
  deed : Deed
  deriving DecidableEq, Repr

/-- Services, handlers and sweeps at work, and the history that the properties speak of. -/
structure Queue where
  services : Services
  handlers : AList (fun _ : Nat => Handler)
  sweeps : AList (fun _ : Nat => Sweep)
  enqueued : List JobMessage
  settled : List Text
  log : List Happening

/-- The queue before anything was enqueued. -/
def Queue.initial (rows : AList (fun _ : Text => JobRow)) : Queue :=
  ⟨⟨Redis.empty, rows⟩, ∅, ∅, [], [], []⟩

/-! ## Answers -/

/-- How the surroundings answer one operation. -/
inductive Response where
  | fate (fate : Fate)
  | iso (text : Text)
  | ms (now : Int)
  | keys (result : Except Text (List Text))
  | outcome (result : Except JobError JobOutcome)
  | done

/-- Perform an operation under a response. A response that does not fit the
operation performs nothing. -/
def respond (services : Services) : (op : Op) → Response → Option (OpReply op × Services)
  | .command command, .fate fate =>
    some (command.reply services fate, command.execute services fate)
  | .nowIso, .iso text => some (text, services)
  | .nowMs, .ms now => some (now, services)
  | .scanLive, .keys result => some (result, services)
  | .startJob _ _, .done => some ((), services)
  | .awaitJob, .outcome result => some (result, services)
  | .abortHeartbeat, .done => some ((), services)
  | _, _ => none

/-- A run ends cancelled only if its cancel flag was set. -/
def Handler.permits (handler : Handler) : Response → Bool
  | .outcome (.error .cancelled) => handler.cancelled
  | _ => true

/-- The handler after the reply to an operation, with the rest of its program. -/
def Handler.advance (handler : Handler) : (op : Op) → OpReply op → Handling Unit → Handler
  | .command (.hincrAttempts _ 1), reply, rest =>
    { handler with program := rest, attempt := some (attemptsFrom reply) }
  | .command (.hgetStatus _), reply, rest =>
    { handler with program := rest, admitted := !seenTerminal reply }
  | .command (.getLock _), _, rest => { handler with program := rest, admitted := true }
  | .startJob pipeline fence, _, rest =>
    { handler with program := rest, lock := some (pipeline, fence) }
  | .abortHeartbeat, _, rest => { handler with program := rest, lock := none }
  | _, _, rest => { handler with program := rest }

/-- Handlers that have ended are gone. -/
def keepRunning (handlers : AList (fun _ : Nat => Handler)) (id : Nat) (handler : Handler) :
    AList (fun _ : Nat => Handler) :=
  match handler.program with
  | .done _ => handlers.erase id
  | .call _ _ => handlers.insert id handler

/-- The jobs whose live status becomes terminal by a command. -/
def Command.settles : Command → List Text
  | .finishLive jobId status _ _ _ _ => if status.terminal then [jobId] else []
  | .abandonLive jobId _ _ _ => [jobId]
  | _ => []

/-- The jobs settled by an operation under a response. -/
def settledBy : Op → Response → List Text
  | .command command, .fate fate => if fate.applied then command.settles else []
  | _, _ => []

/-- The deeds of an operation under a response. -/
def deeds (services : Services) : Op → Response → List Deed
  | .command command, .fate fate =>
    if fate.applied then
      match command with
      | .setLock pipeline fence _ =>
        if (services.redis.locks.lookup pipeline).isNone then [.acquired fence] else []
      | .markFinished _ _ => [.wroteRow]
      | .finishLive _ status _ _ _ _ => [.wroteLive status]
      | .xack _ => [.acked]
      | .deferEntry _ _ _ => [.acked]
      | _ => []
    else []
  | .startJob _ _, _ => [.started]
  | _, _ => []

/-- The log entries for the deeds of a handler; an entry without a job has none. -/
def Handler.happenings (handler : Handler) (id : Nat) (done : List Deed) : List Happening :=
  match handler.payload with
  | .message msg => done.map (fun deed => ⟨id, msg.jobId, handler.attempt, deed⟩)
  | .malformed _ => []

/-! ## The stream and the delayed set -/

/-- The first entry the group has not been given. -/
def Redis.nextUnread (redis : Redis) : Option (Nat × Payload) :=
  redis.entries.find? (fun entry => redis.unread ≤ entry.1)

/-- The payload of an entry that is still in the stream. -/
def Redis.payloadAt (redis : Redis) (entry : Nat) : Option Payload :=
  (redis.entries.find? (fun other => other.1 = entry)).map Prod.snd

/-- Stream entry and live hash of a new job. -/
def Redis.enqueue (redis : Redis) (msg : JobMessage) : Redis :=
  (redis.append (.message msg)).setHash msg.jobId (fun hash =>
    { hash with
      status := some .queued
      pipeline := some msg.pipeline
      trigger := some msg.trigger
      enqueuedAt := some msg.enqueuedAt
      cleanRun := some msg.cleanRun })

/-- The messages one run of the mover takes: at most ten of those due, the earliest
first. -/
structure Due (delayed : AList (fun _ : JobMessage => Int)) (now : Int) (due : List JobMessage) :
    Prop where
  distinct : due.Nodup
  few : due.length ≤ 10
  scheduled : ∀ msg ∈ due, ∃ fireAt ∈ delayed.lookup msg, fireAt ≤ now
  ordered : due.Pairwise (fun earlier later =>
    (delayed.lookup earlier).getD 0 ≤ (delayed.lookup later).getD 0)
  earliest : ∀ msg ∈ delayed.keys, (delayed.lookup msg).getD 0 ≤ now → msg ∈ due ∨
    (due.length = 10 ∧
      ∀ taken ∈ due, (delayed.lookup taken).getD 0 ≤ (delayed.lookup msg).getD 0)

instance (delayed : AList (fun _ : JobMessage => Int)) (now : Int) (due : List JobMessage) :
    Decidable (Due delayed now due) :=
  decidable_of_iff
    (due.Nodup ∧ due.length ≤ 10 ∧ (∀ msg ∈ due, ∃ fireAt ∈ delayed.lookup msg, fireAt ≤ now) ∧
      due.Pairwise (fun earlier later =>
        (delayed.lookup earlier).getD 0 ≤ (delayed.lookup later).getD 0) ∧
      ∀ msg ∈ delayed.keys, (delayed.lookup msg).getD 0 ≤ now → msg ∈ due ∨
        (due.length = 10 ∧
          ∀ taken ∈ due, (delayed.lookup taken).getD 0 ≤ (delayed.lookup msg).getD 0))
    ⟨fun ⟨distinct, few, scheduled, ordered, earliest⟩ =>
      ⟨distinct, few, scheduled, ordered, earliest⟩,
      fun due => ⟨due.distinct, due.few, due.scheduled, due.ordered, due.earliest⟩⟩

/-- Take one message from the delayed set to the stream. -/
def Redis.moveOne (redis : Redis) (msg : JobMessage) : Redis :=
  Redis.append { redis with delayed := redis.delayed.erase msg } (.message msg)

/-! ## Steps -/

/-- Jobs are enqueued, delivered, reclaimed and moved; handlers and sweeps take their steps, with
any response, and may crash; locks and hashes expire and the stream is trimmed. -/
inductive QueueAction where
  | enqueue (msg : JobMessage)
  | poison (text : Text)
  | deliver (id : Nat) (worker : Text)
  | reclaim (id : Nat) (worker : Text) (entry : Nat)
  | answer (id : Nat) (response : Response)
  | beat (id : Nat) (fate : Fate)
  | progress (id : Nat)
  | crash (id : Nat)
  | move (now : Int) (due : List JobMessage)
  | trim
  | expireLock (pipeline : Text)
  | expireLive (jobId : Text)
  | sweep (id : Nat)
  | answerSweep (id : Nat) (response : Response)
  | stopSweep (id : Nat)

/-- Replace the contents of Redis. -/
def Queue.withRedis (queue : Queue) (redis : Redis) : Queue :=
  { queue with services := { queue.services with redis := redis } }

/-- Give an entry to a new handler. -/
def Queue.claim (settings : QueueSettings) (queue : Queue) (id : Nat) (worker : Text) (entry : Nat)
    (payload : Payload) : Queue :=
  { queue with handlers := queue.handlers.insert id (.fresh settings worker entry payload) }

/-- One pass of a handler's heartbeat: renew the lock, and cancel the run if the lock
is no longer its own, which ends the heartbeat. A renewal that fails is tried again
later. -/
def Queue.beat (queue : Queue) (id : Nat) (handler : Handler) (lock : Text × Text) (ttlMs : Nat)
    (fate : Fate) : Queue :=
  match (Command.renewLock lock.1 lock.2 ttlMs).reply queue.services fate with
  | .ok false =>
    { queue with handlers := queue.handlers.insert id { handler with cancelled := true } }
  | .ok true => queue
  | .error _ => queue

/-- The job a sweep holds after it read a status. -/
def heldAfter (jobId : Text) : Except Text (Option Status) → Option Text
  | .ok (some status) => if status.terminal then none else some jobId
  | _ => none

/-- The sweep after the reply to an operation, with the rest of its program. -/
def Sweep.advance (sweep : Sweep) : (op : Op) → OpReply op → Handling (Except Text Unit) → Sweep
  | .command (.hgetStatus jobId), reply, rest => ⟨rest, heldAfter jobId reply⟩
  | .command (.abandonLive _ _ _ _), _, rest => ⟨rest, none⟩
  | _, _, rest => ⟨rest, sweep.held⟩

/-- Sweeps that have ended are gone. -/
def keepSweeping (sweeps : AList (fun _ : Nat => Sweep)) (id : Nat) (sweep : Sweep) :
    AList (fun _ : Nat => Sweep) :=
  match sweep.program with
  | .done _ => sweeps.erase id
  | .call _ _ => sweeps.insert id sweep

/-- One action, if it is possible here. -/
def Queue.step (settings : QueueSettings) (queue : Queue) : QueueAction → Option Queue
  | .enqueue msg =>
    some { queue.withRedis (queue.services.redis.enqueue msg) with
      enqueued := msg :: queue.enqueued }
  | .poison text => some (queue.withRedis (queue.services.redis.append (.malformed text)))
  | .deliver id worker =>
    match queue.handlers.lookup id, queue.services.redis.nextUnread with
    | none, some (entry, payload) =>
      some (Queue.claim settings
        (queue.withRedis { queue.services.redis with
          unread := entry + 1, pending := entry :: queue.services.redis.pending })
        id worker entry payload)
    | _, _ => none
  | .reclaim id worker entry =>
    match queue.handlers.lookup id, queue.services.redis.payloadAt entry with
    | none, some payload =>
      if entry ∈ queue.services.redis.pending then some (queue.claim settings id worker entry payload)
      else none
    | _, _ => none
  | .answer id response =>
    match queue.handlers.lookup id with
    | some handler =>
      match handler.program with
      | .call op next =>
        match respond queue.services op response with
        | some (reply, services) =>
          if handler.permits response then
            some { queue with
              services := services
              handlers := keepRunning queue.handlers id (handler.advance op reply (next reply))
              settled := settledBy op response ++ queue.settled
              log := handler.happenings id (deeds queue.services op response) ++ queue.log }
          else none
        | none => none
      | .done _ => none
    | none => none
  | .beat id fate =>
    match queue.handlers.lookup id with
    | some handler =>
      if handler.cancelled then none
      else handler.lock.map (fun lock => queue.beat id handler lock settings.lockTtlMs fate)
    | none => none
  | .progress id =>
    match queue.handlers.lookup id with
    | some handler =>
      match handler.payload, handler.lock with
      | .message msg, some _ =>
        some (queue.withRedis (queue.services.redis.setHash msg.jobId (fun hash => hash)))
      | _, _ => none
    | none => none
  | .crash id => some { queue with handlers := queue.handlers.erase id }
  | .move now due =>
    if Due queue.services.redis.delayed now due then
      some (queue.withRedis (due.foldl Redis.moveOne queue.services.redis))
    else none
  | .trim =>
    some (queue.withRedis { queue.services.redis with entries := queue.services.redis.entries.tail })
  | .expireLock pipeline =>
    some (queue.withRedis { queue.services.redis with
      locks := queue.services.redis.locks.erase pipeline })
  | .expireLive jobId =>
    some (queue.withRedis { queue.services.redis with
      live := queue.services.redis.live.erase jobId })
  | .sweep id =>
    match queue.sweeps.lookup id with
    | none =>
      some { queue with
        sweeps := queue.sweeps.insert id ⟨sweepOrphanedLiveHashes settings, none⟩ }
    | some _ => none
  | .answerSweep id response =>
    match queue.sweeps.lookup id with
    | some sweep =>
      match sweep.program with
      | .call op next =>
        match respond queue.services op response with
        | some (reply, services) =>
          some { queue with
            services := services
            sweeps := keepSweeping queue.sweeps id (sweep.advance op reply (next reply))
            settled := settledBy op response ++ queue.settled }
        | none => none
      | .done _ => none
    | none => none
  | .stopSweep id => some { queue with sweeps := queue.sweeps.erase id }

end KaretWorker
