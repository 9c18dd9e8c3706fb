import KaretWorker.Job
import KaretWorker.PipelinePrefix
import KaretWorker.Redis

/-!
# Handling claimed stream entries

The part of `src/queue.rs` that claims, executes, finishes and defers jobs, and the
sweep over live hashes. A handler issues one command after another, reads the clock,
and runs the executor between starting it and awaiting its outcome; the heartbeat
task lives from the start until it is aborted.

The two clock readings, the scan of the live keys and the outcome of the executor are
answered by the surroundings. Notifications, log lines and the in-flight counter have
no bearing on what a handler does and are left out.
-/
namespace KaretWorker

open Texts Interaction

/-- Tunables of the queue. -/
structure QueueSettings where
  maxAttempts : Nat
  lockTtlMs : Nat
  heartbeatMs : Nat
  reclaimIdleMs : Nat
  liveTerminalTtlS : Nat
  deriving DecidableEq, Repr

/-- The settings that `QueueSettings` has by default. -/
def QueueSettings.default : QueueSettings := ⟨3, 90000, 30000, 120000, 24 * 60 * 60⟩

/-- One operation a handler or a sweep waits for. -/
inductive Op where
  | command (command : Command)
  | nowIso
  | nowMs
  | scanLive
  | startJob (pipeline fence : Text)
  | awaitJob
  | abortHeartbeat
  deriving DecidableEq, Repr

/-- What a handler is told by each operation. -/
abbrev OpReply : Op → Type
  | .command command => Except Text (Value command)
  | .nowIso => Text
  | .nowMs => Int
  | .scanLive => Except Text (List Text)
  | .startJob _ _ => Unit
  | .awaitJob => Except JobError JobOutcome
  | .abortHeartbeat => Unit

/-- What a handler or a sweep still has to do. -/
abbrev Handling (α : Type) : Type := Program Op OpReply α

/-- Wait for one operation. -/
abbrev await (op : Op) : Handling (OpReply op) := Program.perform op

/-- Issue one command. -/
abbrev issue (command : Command) : Handling (Except Text (Value command)) :=
  await (.command command)

/-- The time as it is written into records. -/
abbrev nowIso : Handling Text := await .nowIso

/-- The time in milliseconds. -/
abbrev nowMs : Handling Int := await .nowMs

/-- The keys of the live hashes. -/
abbrev scanLive : Handling (Except Text (List Text)) := await .scanLive

/-- Retry backoff: 30 s doubled with each attempt, capped at 10 minutes. -/
def backoffMs (attempts : Nat) : Int := min (30000 * 2 ^ min (attempts - 1) 6) 600000

/-! ## Locks -/

/-- Lock value of an attempt of a job. -/
def fence (jobId : Text) (attempt : Nat) : Text := jobId ++ ':' :: decimal attempt

/-- `SET NX PX`: whether the lock is now ours. -/
def tryLock (pipeline fence : Text) (ttlMs : Nat) : Handling (Except Text Bool) :=
  issue (.setLock pipeline fence ttlMs)

/-- Deletes the lock if it still holds our fence. -/
def releaseLock (pipeline fence : Text) : Handling (Except Text Unit) :=
  issue (.releaseLock pipeline fence)

/-- Different attempts, of one job or of two, have different fences. -/
theorem fence_injective {jobId jobId' : Text} {attempt attempt' : Nat}
    (same : fence jobId attempt = fence jobId' attempt') : jobId = jobId' ∧ attempt = attempt' := by
  have reversed := congrArg List.reverse same
  simp only [fence, List.reverse_append, List.reverse_cons, List.append_assoc,
    List.singleton_append] at reversed
  have absent : ∀ number, ':' ∉ (decimal number).reverse := fun number member =>
    not_mem_decimal (by decide) number (List.mem_reverse.mp member)
  obtain ⟨digits, ids⟩ := join_injective (absent attempt) (absent attempt') reversed
  exact ⟨List.reverse_injective ids, decimal_injective (List.reverse_injective digits)⟩

/-! ## Terminal records -/

/-- Terminal fields for both the row and the live hash. -/
structure Terminal where
  status : Status
  error : Option Text
  errors : List Text
  partitionsWritten : Option Nat
  filesProcessed : Option Nat
  rowsDeduped : Option Nat

/-- A failure before or instead of a run. -/
def Terminal.failure (error : Text) : Terminal := ⟨.failed, some error, [], none, none, none⟩

/-- A note in parentheses after a message, or on its own. -/
def withNote (error : Option Text) (note : Text) : Text :=
  match error with
  | some prior => prior ++ " (".toList ++ note ++ ")".toList
  | none => note

/-- The one message of a row: the failures of single mappings collapse into it. -/
def Terminal.message (terminal : Terminal) : Option Text :=
  if terminal.errors.isEmpty then terminal.error
  else some (withNote terminal.error ("; ".toList.intercalate terminal.errors))

/-- The cast of a size to a signed 32-bit integer. -/
def asI32 (size : Nat) : Int := (size + 2 ^ 31) % 2 ^ 32 - 2 ^ 31

/-- The terminal state as it is written to the job's row. -/
def Terminal.outcome (terminal : Terminal) : JobOutcomeRow where
  status := terminal.status
  error := terminal.message
  filesProcessed := terminal.filesProcessed.map asI32
  partitionsWritten := terminal.partitionsWritten.map asI32
  rowsDeduped := (terminal.rowsDeduped.filter (0 < ·)).map asI32

/-- Write the terminal row, update the live hash, release the lock, and ack the
stream entry, in that order, unless the lock is held under another fence. -/
def finishJob (settings : QueueSettings) (msg : JobMessage) (entry : Nat) (attempts : Nat)
    (terminal : Terminal) : Handling (Except Text Unit) := do
  match ← issue (.getLock msg.pipeline) with
  | .error error => pure (.error ("fence check failed: ".toList ++ error))
  | .ok holder =>
    if holder.any (fun held => held ≠ fence msg.jobId attempts) then
      pure (.ok ())
    else do
      let completedAt ← nowIso
      let written ← issue (.markFinished msg.jobId terminal.outcome)
      let error := match written with
        | .ok () => terminal.message
        | .error missed => some (withNote terminal.message
            ("terminal row write failed for ".toList ++ msg.jobId ++ ": ".toList ++ missed))
      match ← issue (.finishLive msg.jobId terminal.status completedAt error
          terminal.partitionsWritten settings.liveTerminalTtlS) with
      | .error error => pure (.error ("live terminal update failed: ".toList ++ error))
      | .ok () =>
        match ← releaseLock msg.pipeline (fence msg.jobId attempts) with
        | .error error => pure (.error ("lock release failed: ".toList ++ error))
        | .ok () => do
          let _ ← issue (.xack entry)
          pure (.ok ())

/-- Defer a message: schedule a re-enqueue on the delayed set and ack the current
delivery. -/
def defer (msg : JobMessage) (entry : Nat) (fireAtMs : Int) : Handling (Except Text Unit) :=
  issue (.deferEntry msg fireAtMs entry)

/-! ## Handlers -/

/-- The attempt number read from the reply to the increment. A failed increment, or
a reply outside the unsigned 32-bit integers, counts as the first attempt. -/
def attemptsFrom : Except Text Int → Nat
  | .ok count => if 0 ≤ count ∧ count < 2 ^ 32 then count.toNat else 1
  | .error _ => 1

/-- The guard against redelivery saw a terminal status. -/
def seenTerminal : Except Text (Option Status) → Bool
  | .ok (some status) => status.terminal
  | _ => false

/-- The text an error of a run is shown as. -/
def JobError.display : JobError → Text
  | .configRead error => "config read failed: ".toList ++ error
  | .configParse error => "config parse failed: ".toList ++ error
  | .configInvalid errors => "config invalid: ".toList ++ errors
  | .noFiles => "no CSV files found to process".toList
  | .dimension error => "dimension error: ".toList ++ error
  | .cancelled => "cancelled: lock lost to a newer attempt".toList

/-- The terminal fields of a run that returned: completed is reserved for clean
runs. -/
def JobOutcome.terminal (outcome : JobOutcome) : Terminal where
  status := if outcome.errors.isEmpty then .completed else .failed
  error := match outcome.errors with
    | [] => none
    | first :: _ => some (decimal outcome.partitionsWritten ++ " partitions written, ".toList ++
        decimal outcome.errors.length ++ " error(s): ".toList ++ first)
  errors := outcome.errors
  partitionsWritten := some outcome.partitionsWritten
  filesProcessed := some outcome.filesProcessed
  rowsDeduped := some outcome.rowsDeduped

/-- What a handler does with the outcome of its run. -/
def handleOutcome (settings : QueueSettings) (entry : Nat) (msg : JobMessage) (attempts : Nat) :
    Except JobError JobOutcome → Handling (Except Text Unit)
  | .ok outcome => finishJob settings msg entry attempts outcome.terminal
  -- An empty lake prefix completes with zero counts.
  | .error .noFiles =>
    finishJob settings msg entry attempts
      ⟨.completed, some "no CSV files found to process".toList, [], some 0, some 0, none⟩
  -- Possibly transient; the lock is released before the attempts are looked at.
  | .error (.configRead error) => do
    let released ← releaseLock msg.pipeline (fence msg.jobId attempts)
    let handled ←
      if settings.maxAttempts ≤ attempts then
        finishJob settings msg entry attempts (.failure error)
      else do
        let _ ← issue (.hset msg.jobId (.status .queued))
        let now ← nowMs
        let deferred ← defer msg entry (now + backoffMs attempts)
        pure (deferred.mapError (fun error => "defer failed: ".toList ++ error))
    pure (match released with
      | .ok () => handled
      | .error error => .error ("lock release failed: ".toList ++ error))
  -- The new owner of the lock owns the record and the entry.
  | .error .cancelled => pure (.ok ())
  | .error (.configParse error) =>
    finishJob settings msg entry attempts (.failure (JobError.configParse error).display)
  | .error (.configInvalid errors) =>
    finishJob settings msg entry attempts (.failure (JobError.configInvalid errors).display)
  | .error (.dimension error) =>
    finishJob settings msg entry attempts (.failure (JobError.dimension error).display)

/-- Run a job whose lock was taken. -/
def runLocked (settings : QueueSettings) (worker : Text) (entry : Nat) (msg : JobMessage)
    (attempts : Nat) : Handling Unit := do
  let startedAt ← nowIso
  let _ ← issue (.hset msg.jobId (.status .running))
  let _ ← issue (.hset msg.jobId (.worker worker))
  let _ ← issue (.hset msg.jobId (.startedAt startedAt))
  let _ ← issue (.markRunning msg.jobId worker)
  let _ ← await (.startJob msg.pipeline (fence msg.jobId attempts))
  let outcome ← await .awaitJob
  let _ ← await .abortHeartbeat
  let _ ← handleOutcome settings entry msg attempts outcome
  pure ()

/-- Claim an attempt of a job, and run it if the lock is free. -/
def claimAttempt (settings : QueueSettings) (worker : Text) (entry : Nat) (msg : JobMessage) :
    Handling Unit := do
  let attempts := attemptsFrom (← issue (.hincrAttempts msg.jobId 1))
  if settings.maxAttempts < attempts then do
    let _ ← finishJob settings msg entry attempts (.failure ("gave up after ".toList ++
      decimal (attempts - 1) ++
      " attempts (worker crashes or repeated transient failures)".toList))
    pure ()
  else
    match ← tryLock msg.pipeline (fence msg.jobId attempts) settings.lockTtlMs with
    | .ok true => runLocked settings worker entry msg attempts
    | .ok false => do
      -- Not this job's fault: the attempt is given back.
      let _ ← issue (.hincrAttempts msg.jobId (-1))
      let now ← nowMs
      let _ ← defer msg entry (now + 30000)
      pure ()
    | .error _ => pure ()

/-- Handle one claimed stream entry end to end. -/
def handleClaimed (settings : QueueSettings) (worker : Text) (entry : Nat) (payload : Payload) :
    Handling Unit := do
  match ← issue .connect with
  | .error _ => pure ()
  | .ok () =>
    match payload with
    | .malformed _ => do
      let _ ← issue (.xack entry)
      pure ()
    | .message msg =>
      match validatePipelinePrefix msg.pipelinePrefix with
      | .error reason => do
        let _ ← finishJob settings msg entry 1
          (.failure ("invalid pipeline_prefix: ".toList ++ reason))
        pure ()
      | .ok () => do
        let status ← issue (.hgetStatus msg.jobId)
        if seenTerminal status then do
          let _ ← issue (.xack entry)
          pure ()
        else claimAttempt settings worker entry msg

/-! ## The sweep -/

/-- Grace before a live hash without a stream entry counts as orphaned. -/
def orphanGraceMs : Int := 10 * 60 * 1000

/-- The job ids of the stream's messages; none if some payload is malformed. -/
def attributedIds : List Payload → Option (List Text)
  | [] => some []
  | .message msg :: rest => (attributedIds rest).map (fun ids => msg.jobId :: ids)
  | .malformed _ :: _ => none

/-- The lead of the keys of live hashes. -/
def liveLead : Text := "karet:jobs:live:".toList

/-- Mark the live hashes among the given ones that are neither terminal nor recent
and have no stream entry. A job's id is its key without the lead, however often that
is repeated. -/
def sweepKeys (settings : QueueSettings) (streamIds : List Text) (cutoff : Int) :
    List Text → Handling (Except Text Unit)
  | [] => pure (.ok ())
  | jobId :: rest =>
    if streamIds.contains (trimStart liveLead jobId.length jobId) then
      sweepKeys settings streamIds cutoff rest
    else do
      match ← issue (.hgetStatus jobId) with
      | .error error => pure (.error error)
      | .ok status =>
        match ← issue (.hgetEnqueuedAt jobId) with
        | .error error => pure (.error error)
        | .ok none => sweepKeys settings streamIds cutoff rest
        | .ok (some enqueuedAt) =>
          if (status = some .queued ∨ status = some .running) ∧ enqueuedAt ≤ cutoff then do
            let finishedAt ← nowIso
            match ← issue (.abandonLive jobId
                "queue entry lost (stream trimmed); re-run the job".toList finishedAt
                settings.liveTerminalTtlS) with
            | .error error => pure (.error error)
            | .ok () => sweepKeys settings streamIds cutoff rest
          else sweepKeys settings streamIds cutoff rest

/-- Mark non-terminal live hashes whose stream entry no longer exists as
abandoned. -/
def sweepOrphanedLiveHashes (settings : QueueSettings) : Handling (Except Text Unit) := do
  match ← issue .xrange with
  | .error error => pure (.error error)
  | .ok payloads =>
    match attributedIds payloads with
    | none => pure (.ok ())
    | some streamIds =>
      match ← scanLive with
      | .error error => pure (.error error)
      | .ok liveIds => do
        let now ← nowMs
        sweepKeys settings streamIds (now - orphanGraceMs) liveIds

end KaretWorker
