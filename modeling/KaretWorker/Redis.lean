import KaretWorker.Library.Text
import Mathlib.Data.List.AList

/-!
# The shared state of the queue

What `src/queue.rs` keeps in Redis, and the job rows of `src/db.rs`. The stream is
its entries with the group's position in it and its pending list. The delayed set
scores messages by the time they fire. Each job has a live hash, each pipeline may
have a lock with the fence that holds it.

Payloads are kept decoded: a message is read back as it was written, and any other
payload is malformed. Expiry is a step of the surroundings, so times to live are
carried by the commands but not counted down. The index of jobs and the event
channel are read by nothing here and are left out.

A command, a MULTI block or a Lua script is one atomic step: the value it returns
when it is served, and what it does when it is applied.
-/
namespace KaretWorker

open Texts

/-- One queued job. -/
structure JobMessage where
  jobId : Text
  pipeline : Text
  pipelinePrefix : Text
  configVersionId : Option Int
  cleanRun : Bool
  trigger : Text
  enqueuedAt : Int
  deriving DecidableEq, Repr

/-- What an entry of the stream holds: a job, or a text that is none. -/
inductive Payload where
  | message (msg : JobMessage)
  | malformed (text : Text)
  deriving DecidableEq, Repr

/-- The status of a job. -/
inductive Status where
  | queued
  | running
  | completed
  | failed
  | abandoned
  deriving DecidableEq, Repr

/-- The statuses a job does not leave. -/
def Status.terminal : Status → Bool
  | .completed | .failed | .abandoned => true
  | .queued | .running => false

/-- The live hash of a job; a field that was never set is missing. -/
structure LiveHash where
  status : Option Status
  pipeline : Option Text
  trigger : Option Text
  enqueuedAt : Option Int
  cleanRun : Option Bool
  attempts : Option Int
  worker : Option Text
  startedAt : Option Text
  finishedAt : Option Text
  error : Option Text
  partitionsWritten : Option Nat
  deriving DecidableEq, Repr

/-- A hash without fields. -/
def LiveHash.empty : LiveHash :=
  ⟨none, none, none, none, none, none, none, none, none, none, none⟩

/-- The stream with its group, the delayed set, the live hashes and the locks. -/
structure Redis where
  entries : List (Nat × Payload)
  nextEntry : Nat
  unread : Nat
  pending : List Nat
  delayed : AList (fun _ : JobMessage => Int)
  live : AList (fun _ : Text => LiveHash)
  locks : AList (fun _ : Text => Text)

/-- Nothing in it, and no entry numbered. -/
def Redis.empty : Redis := ⟨[], 0, 0, [], ∅, ∅, ∅⟩

/-- Counters and outcome of a finished run. -/
structure JobOutcomeRow where
  status : Status
  error : Option Text
  filesProcessed : Option Int
  partitionsWritten : Option Int
  rowsDeduped : Option Int
  deriving DecidableEq, Repr

/-- A row of the jobs table. -/
structure JobRow where
  worker : Option Text
  attempts : Nat
  outcome : JobOutcomeRow
  deriving DecidableEq, Repr

/-- The shared services: Redis and the jobs table. -/
structure Services where
  redis : Redis
  rows : AList (fun _ : Text => JobRow)

/-! ## Reading and changing a live hash -/

/-- The live hash of a job, empty if it has none. -/
def Redis.hash (redis : Redis) (jobId : Text) : LiveHash := (redis.live.lookup jobId).getD .empty

/-- The status a job's live hash has. -/
def Redis.status (redis : Redis) (jobId : Text) : Option Status := (redis.hash jobId).status

/-- The attempt counter of a job; a missing counter counts from zero. -/
def Redis.attempts (redis : Redis) (jobId : Text) : Int := (redis.hash jobId).attempts.getD 0

/-- Change a job's live hash, which creates it if there is none. -/
def Redis.setHash (redis : Redis) (jobId : Text) (change : LiveHash → LiveHash) : Redis :=
  { redis with live := redis.live.insert jobId (change (redis.hash jobId)) }

/-- Append a payload to the stream. -/
def Redis.append (redis : Redis) (payload : Payload) : Redis :=
  { redis with
    entries := redis.entries ++ [(redis.nextEntry, payload)]
    nextEntry := redis.nextEntry + 1 }

/-- Acknowledge a delivery. -/
def Redis.ack (redis : Redis) (entry : Nat) : Redis :=
  { redis with pending := redis.pending.filter (· ≠ entry) }

/-- The single field a handler sets on its own. -/
inductive LiveField where
  | status (status : Status)
  | worker (name : Text)
  | startedAt (iso : Text)
  deriving DecidableEq, Repr

/-- One field is written, the others stay. -/
def LiveHash.set (hash : LiveHash) : LiveField → LiveHash
  | .status status => { hash with status := some status }
  | .worker name => { hash with worker := some name }
  | .startedAt iso => { hash with startedAt := some iso }

/-! ## Commands -/

/-- The commands that `src/queue.rs` sends to Redis, and its writes to the job's row. -/
inductive Command where
  | connect
  | hgetStatus (jobId : Text)
  | hgetEnqueuedAt (jobId : Text)
  | hincrAttempts (jobId : Text) (increment : Int)
  | hset (jobId : Text) (field : LiveField)
  | setLock (pipeline fence : Text) (ttlMs : Nat)
  | getLock (pipeline : Text)
  | releaseLock (pipeline fence : Text)
  | renewLock (pipeline fence : Text) (ttlMs : Nat)
  | finishLive (jobId : Text) (status : Status) (finishedAt : Text) (error : Option Text)
      (partitionsWritten : Option Nat) (ttlS : Nat)
  | abandonLive (jobId : Text) (error finishedAt : Text) (ttlS : Nat)
  | deferEntry (msg : JobMessage) (fireAt : Int) (entry : Nat)
  | xack (entry : Nat)
  | xrange
  | markRunning (jobId worker : Text)
  | markFinished (jobId : Text) (outcome : JobOutcomeRow)
  deriving DecidableEq, Repr

/-- What a served command returns. -/
abbrev Value : Command → Type
  | .hgetStatus _ => Option Status
  | .hgetEnqueuedAt _ => Option Int
  | .hincrAttempts _ _ => Int
  | .setLock _ _ _ => Bool
  | .getLock _ => Option Text
  | .renewLock _ _ _ => Bool
  | .xrange => List Payload
  | _ => Unit

/-- The value a command returns when it is served. -/
def Command.value (services : Services) : (command : Command) → Value command
  | .hgetStatus jobId => services.redis.status jobId
  | .hgetEnqueuedAt jobId => (services.redis.hash jobId).enqueuedAt
  | .hincrAttempts jobId increment => services.redis.attempts jobId + increment
  | .setLock pipeline _ _ => (services.redis.locks.lookup pipeline).isNone
  | .getLock pipeline => services.redis.locks.lookup pipeline
  | .renewLock pipeline fence _ => services.redis.locks.lookup pipeline = some fence
  | .xrange => services.redis.entries.map Prod.snd
  | .connect => ()
  | .hset _ _ => ()
  | .releaseLock _ _ => ()
  | .finishLive _ _ _ _ _ _ => ()
  | .abandonLive _ _ _ _ => ()
  | .deferEntry _ _ _ => ()
  | .xack _ => ()
  | .markRunning _ _ => ()
  | .markFinished _ _ => ()

/-- What a command does to Redis when it is applied. -/
def Command.applyRedis (redis : Redis) : Command → Redis
  | .hincrAttempts jobId increment =>
    redis.setHash jobId (fun hash => { hash with attempts := some (hash.attempts.getD 0 + increment) })
  | .hset jobId field => redis.setHash jobId (fun hash => hash.set field)
  | .setLock pipeline fence _ =>
    if (redis.locks.lookup pipeline).isNone then
      { redis with locks := redis.locks.insert pipeline fence }
    else redis
  | .releaseLock pipeline fence =>
    if redis.locks.lookup pipeline = some fence then
      { redis with locks := redis.locks.erase pipeline }
    else redis
  | .finishLive jobId status finishedAt error partitionsWritten _ =>
    redis.setHash jobId (fun hash =>
      { hash with
        status := some status
        finishedAt := some finishedAt
        error := error.or hash.error
        partitionsWritten := partitionsWritten.or hash.partitionsWritten })
  | .abandonLive jobId error finishedAt _ =>
    redis.setHash jobId (fun hash =>
      { hash with status := some .abandoned, error := some error, finishedAt := some finishedAt })
  | .deferEntry msg fireAt entry =>
    { redis with delayed := redis.delayed.insert msg fireAt }.ack entry
  | .xack entry => redis.ack entry
  | _ => redis

/-- What a command does to the jobs table. An update of a row that is not there
matches nothing. -/
def Command.applyRows (rows : AList (fun _ : Text => JobRow)) :
    Command → AList (fun _ : Text => JobRow)
  | .markRunning jobId worker =>
    match rows.lookup jobId with
    | some row => rows.insert jobId { row with
        worker := some worker
        attempts := row.attempts + 1
        outcome := { row.outcome with status := .running } }
    | none => rows
  | .markFinished jobId outcome =>
    match rows.lookup jobId with
    | some row => rows.insert jobId { row with outcome := outcome }
    | none => rows
  | _ => rows

/-- What a command does when it takes effect. -/
def Command.apply (services : Services) (command : Command) : Services :=
  ⟨command.applyRedis services.redis, command.applyRows services.rows⟩

/-- How a command fares: it is served, refused without having been applied, or
applied although the caller sees an error. -/
inductive Fate where
  | served
  | refused (error : Text)
  | lost (error : Text)
  deriving DecidableEq, Repr

/-- The command was applied. -/
def Fate.applied : Fate → Bool
  | .served => true
  | .refused _ => false
  | .lost _ => true

/-- What the caller of a command sees. -/
def Command.reply (services : Services) (command : Command) :
    Fate → Except Text (Value command)
  | .served => .ok (command.value services)
  | .refused error => .error error
  | .lost error => .error error

/-- The services after a command. -/
def Command.execute (services : Services) (command : Command) (fate : Fate) : Services :=
  if fate.applied then command.apply services else services

end KaretWorker
