import KaretWorker.Queue
import Mathlib.Data.List.Sort

/-!
# Debounced uploads

The debounce of upload events in `src/queue.rs`. A webhook handler marks the start of a
batch and sets the time at which its slug fires; a scheduler pops the slugs that are due
with one script, and then enqueues a job for each.

Any number of handlers and schedulers take their commands in any order. A command may be
refused, or applied although its caller sees an error, and everyone may be stopped
between two commands. The log, which the code does not read, keeps the events that were
recorded and the jobs that were enqueued, the latest first.
-/
namespace KaretWorker

open Texts Interaction

/-- Quiet window after an event. -/
def quietMs : Int := 5000

/-- Longest wait after the first event of a batch. -/
def maxWaitMs : Int := 30000

/-- Redis, with the slugs that wait to fire and the start of each one's batch. -/
structure Debounce where
  redis : Redis
  waiting : AList (fun _ : Text => Int)
  first : AList (fun _ : Text => Int)

/-! ## Commands -/

/-- The commands of `src/debounce.rs`; enqueueing a job counts as one. -/
inductive DebounceCommand where
  | connect
  | setFirst (slug : Text) (now ttlMs : Int)
  | zadd (slug : Text) (fireAt : Int)
  | popDue (now : Int)
  | enqueue (msg : JobMessage)
  deriving DecidableEq, Repr

/-- What a served command returns. -/
abbrev DebounceCommand.Value : DebounceCommand → Type
  | .setFirst _ _ _ => Option Int
  | .popDue _ => List Text
  | _ => Unit

/-- The order of a sorted set: by score, and by name within one score. -/
def firesBefore (left right : Σ _ : Text, Int) : Prop :=
  left.2 < right.2 ∨ (left.2 = right.2 ∧ left.1 ≤ right.1)

instance : DecidableRel firesBefore := fun _ _ => inferInstanceAs (Decidable (_ ∨ _))

/-- The slugs that are due, at most ten, the earliest first. -/
def dueSlugs (waiting : AList (fun _ : Text => Int)) (now : Int) : List Text :=
  (((waiting.entries.filter (fun entry => entry.2 ≤ now)).insertionSort firesBefore).take 10).map
    Sigma.fst

/-- The value a command returns when it is served. -/
def DebounceCommand.value (services : Debounce) : (command : DebounceCommand) → command.Value
  | .connect => ()
  | .setFirst slug _ _ => services.first.lookup slug
  | .zadd _ _ => ()
  | .popDue now => dueSlugs services.waiting now
  | .enqueue _ => ()

/-- Remove slugs from a map. -/
def eraseAll (map : AList (fun _ : Text => Int)) (slugs : List Text) : AList (fun _ : Text => Int) :=
  slugs.foldl (fun map slug => map.erase slug) map

/-- What a command does when it is applied. -/
def DebounceCommand.apply (services : Debounce) : DebounceCommand → Debounce
  | .connect => services
  | .setFirst slug now _ =>
    if (services.first.lookup slug).isNone then
      { services with first := services.first.insert slug now }
    else services
  | .zadd slug fireAt => { services with waiting := services.waiting.insert slug fireAt }
  | .popDue now =>
    let due := dueSlugs services.waiting now
    { services with waiting := eraseAll services.waiting due, first := eraseAll services.first due }
  | .enqueue msg => { services with redis := services.redis.enqueue msg }

/-- What the caller of a command sees. -/
def DebounceCommand.reply (services : Debounce) (command : DebounceCommand) :
    Fate → Except Text command.Value
  | .served => .ok (command.value services)
  | .refused error => .error error
  | .lost error => .error error

/-! ## Handlers and schedulers -/

/-- What an upload or the scheduler waits for. -/
inductive DebounceOp where
  | command (command : DebounceCommand)
  | nowMs
  | newJobId
  deriving DecidableEq, Repr

/-- What each operation returns. -/
abbrev DebounceReply : DebounceOp → Type
  | .command command => Except Text command.Value
  | .nowMs => Int
  | .newJobId => Text

/-- Programs over these operations. -/
abbrev Debouncing (α : Type) : Type := Program DebounceOp DebounceReply α

/-- Issue one operation. -/
abbrev debounceOp (op : DebounceOp) : Debouncing (DebounceReply op) := Program.perform op

/-- Record an upload event: extend the quiet window, up to the longest wait after the
first event of the batch. -/
def debounceEvent (slug : Text) : Debouncing (Except Text Int) := do
  let now ← debounceOp .nowMs
  match ← debounceOp (.command (.setFirst slug now (maxWaitMs * 4))) with
  | .error error => pure (.error error)
  | .ok first =>
    let batchStart := first.getD now
    let fireAt := min (now + quietMs) (batchStart + maxWaitMs)
    match ← debounceOp (.command (.zadd slug fireAt)) with
    | .error error => pure (.error error)
    | .ok () => pure (.ok (fireAt - now))

/-- The job of a slug that fires. -/
def webhookJob (jobId slug : Text) (now : Int) : JobMessage :=
  ⟨jobId, slug, "pipelines/".toList ++ slug ++ "/".toList, none, false, "webhook".toList, now⟩

/-- Enqueue a job for each slug; one that fails is reported and left. -/
def fireAll : List Text → Debouncing Unit
  | [] => pure ()
  | slug :: rest => do
    let jobId ← debounceOp .newJobId
    let now ← debounceOp .nowMs
    let _ ← debounceOp (.command (.enqueue (webhookJob jobId slug now)))
    fireAll rest

/-- One pass of the scheduler loop. -/
def debounceScheduler : Debouncing Unit := do
  match ← debounceOp (.command .connect) with
  | .error _ => pure ()
  | .ok () =>
    let now ← debounceOp .nowMs
    match ← debounceOp (.command (.popDue now)) with
    | .error _ => pure ()
    | .ok slugs => fireAll slugs

/-! ## The system -/

/-- A handler of one event. -/
structure Webhook where
  slug : Text
  program : Debouncing (Except Text Int)

/-- What the log keeps of every upload recorded and every job enqueued. -/
inductive Trigger where
  | recorded (slug : Text)
  | enqueued (slug : Text)
  deriving DecidableEq, Repr

/-- The services with the uploads and schedulers at work, and the log. -/
structure Debouncer where
  services : Debounce
  webhooks : AList (fun _ : Nat => Webhook)
  schedulers : AList (fun _ : Nat => Debouncing Unit)
  log : List Trigger

/-- Nothing waits, and no one works. -/
def Debouncer.initial (redis : Redis) : Debouncer := ⟨⟨redis, ∅, ∅⟩, ∅, ∅, []⟩

/-- How the surroundings answer one operation. -/
inductive DebounceResponse where
  | fate (fate : Fate)
  | ms (now : Int)
  | id (text : Text)

/-- Perform an operation under a response. A response that does not fit the operation
performs nothing. -/
def debounceRespond (services : Debounce) :
    (op : DebounceOp) → DebounceResponse → Option (DebounceReply op × Debounce)
  | .command command, .fate fate =>
    some (command.reply services fate, if fate.applied then command.apply services else services)
  | .nowMs, .ms now => some (now, services)
  | .newJobId, .id text => some (text, services)
  | _, _ => none

/-- An event whose handler returns successfully is recorded. -/
def Webhook.recorded (webhook : Webhook) : Debouncing (Except Text Int) → List Trigger
  | .done (.ok _) => [.recorded webhook.slug]
  | _ => []

/-- Handlers that have returned are gone. -/
def keepWebhook (webhooks : AList (fun _ : Nat => Webhook)) (id : Nat) (webhook : Webhook) :
    AList (fun _ : Nat => Webhook) :=
  match webhook.program with
  | .done _ => webhooks.erase id
  | .call _ _ => webhooks.insert id webhook

/-- A scheduler that has ended its pass is idle. -/
def keepScheduler (schedulers : AList (fun _ : Nat => Debouncing Unit)) (id : Nat)
    (program : Debouncing Unit) : AList (fun _ : Nat => Debouncing Unit) :=
  match program with
  | .done _ => schedulers.erase id
  | .call _ _ => schedulers.insert id program

/-- The job enqueued by an operation under a response. -/
def enqueuedBy : DebounceOp → DebounceResponse → List Trigger
  | .command (.enqueue msg), .fate fate => if fate.applied then [.enqueued msg.pipeline] else []
  | _, _ => []

/-- Uploads and ticks begin, take their steps and may stop anywhere. -/
inductive DebounceAction where
  | upload (id : Nat) (slug : Text)
  | answerUpload (id : Nat) (response : DebounceResponse)
  | stopUpload (id : Nat)
  | tick (id : Nat)
  | answerTick (id : Nat) (response : DebounceResponse)
  | stopTick (id : Nat)
  | expireFirst (slug : Text)

/-- One action, if it is possible here. -/
def Debouncer.step (debouncer : Debouncer) : DebounceAction → Option Debouncer
  | .upload id slug =>
    match debouncer.webhooks.lookup id with
    | none =>
      some { debouncer with
        webhooks := debouncer.webhooks.insert id ⟨slug, debounceEvent slug⟩ }
    | some _ => none
  | .answerUpload id response =>
    match debouncer.webhooks.lookup id with
    | some webhook =>
      match webhook.program with
      | .call op next =>
        match debounceRespond debouncer.services op response with
        | some (reply, services) =>
          some { debouncer with
            services := services
            webhooks := keepWebhook debouncer.webhooks id ⟨webhook.slug, next reply⟩
            log := webhook.recorded (next reply) ++ debouncer.log }
        | none => none
      | .done _ => none
    | none => none
  | .stopUpload id => some { debouncer with webhooks := debouncer.webhooks.erase id }
  | .tick id =>
    match debouncer.schedulers.lookup id with
    | none =>
      some { debouncer with schedulers := debouncer.schedulers.insert id debounceScheduler }
    | some _ => none
  | .answerTick id response =>
    match debouncer.schedulers.lookup id with
    | some (.call op next) =>
      match debounceRespond debouncer.services op response with
      | some (reply, services) =>
        some { debouncer with
          services := services
          schedulers := keepScheduler debouncer.schedulers id (next reply)
          log := enqueuedBy op response ++ debouncer.log }
      | none => none
    | some (.done _) => none
    | none => none
  | .stopTick id => some { debouncer with schedulers := debouncer.schedulers.erase id }
  | .expireFirst slug =>
    some { debouncer with services :=
      { debouncer.services with first := debouncer.services.first.erase slug } }

end KaretWorker
