import KaretWorker.Queue

/-!
# The stages of a handler

A handler is in one of few stages: before the look at its job, between the look and
the lock, in possession of the lock, giving its attempt back, or finishing its job.
`Step` says which operations occur in each stage, on which job, entry and lock, and
where each reply leads. The clock and the end of the heartbeat leave the stage alone.

`handleClaimed_keeps` shows that the program of every handler keeps to these stages,
so that whatever is proved of them holds of the handlers of a queue.
-/
namespace KaretWorker

open Texts Interaction

/-- Who finishes a job: a delivery whose prefix was rejected, or an attempt. -/
inductive Closer where
  | rejected
  | attempt (number : Nat)
  deriving DecidableEq, Repr

/-- The attempt number in the fence of a closer. -/
def Closer.number : Closer → Nat
  | .rejected => 1
  | .attempt number => number

/-- Where a handler is in its work on an entry, with what it has learned so far. -/
inductive Stage where
  | arriving
  | guarding
  | dismissing
  | counting
  | locking (attempt : Nat)
  | yielding (attempt : Nat)
  | deferring (attempt : Nat)
  | preparing (attempt : Nat)
  | executing (attempt : Nat)
  | returning (attempt : Nat)
  | requeueing (attempt : Nat)
  | checking (closer : Closer) (status : Status)
  | recording (closer : Closer) (status : Status)
  | publishing (closer : Closer) (status : Status)
  | releasing (closer : Closer)
  | acking (closer : Closer)
  | over
  deriving DecidableEq, Repr

/-- The operation neither issues a command nor bears on the stage. -/
def Op.idle : Op → Bool
  | .nowIso | .nowMs | .abortHeartbeat => true
  | _ => false

/-- What a handler sets up once it holds the lock. -/
def Op.prepares (msg : JobMessage) : Op → Bool
  | .command (.hset jobId (.status .running)) => jobId = msg.jobId
  | .command (.hset jobId (.worker _)) => jobId = msg.jobId
  | .command (.hset jobId (.startedAt _)) => jobId = msg.jobId
  | .command (.markRunning jobId _) => jobId = msg.jobId
  | _ => false

/-- Where the outcome of a run leads. -/
def afterRun (attempt : Nat) : Except JobError JobOutcome → Stage
  | .ok outcome => .checking (.attempt attempt) outcome.terminal.status
  | .error .noFiles => .checking (.attempt attempt) .completed
  | .error (.configRead _) => .returning attempt
  | .error .cancelled => .over
  | .error (.configParse _) => .checking (.attempt attempt) .failed
  | .error (.configInvalid _) => .checking (.attempt attempt) .failed
  | .error (.dimension _) => .checking (.attempt attempt) .failed

/-- A handler may go on to finish its job: the lock is free or its own. -/
def Clear (msg : JobMessage) (closer : Closer) (holder : Option Text) : Prop :=
  ∀ held, holder = some held → held = fence msg.jobId closer.number

/-- One operation of a handler of a message, and the stage its reply leads to. -/
inductive Step (settings : QueueSettings) (msg : JobMessage) (entry : Nat) :
    Stage → (op : Op) → OpReply op → Stage → Prop
  | idle (stage : Stage) (op : Op) (reply : OpReply op) (isIdle : op.idle = true) :
      Step settings msg entry stage op reply stage
  | unconnected (error : Text) :
      Step settings msg entry .arriving (.command .connect) (.error error) .over
  | rejected (invalid : (validatePipelinePrefix msg.pipelinePrefix).toOption = none) :
      Step settings msg entry .arriving (.command .connect) (.ok ()) (.checking .rejected .failed)
  | accepted (valid : validatePipelinePrefix msg.pipelinePrefix = .ok ()) :
      Step settings msg entry .arriving (.command .connect) (.ok ()) .guarding
  | seen (reply : Except Text (Option Status)) (terminal : seenTerminal reply = true) :
      Step settings msg entry .guarding (.command (.hgetStatus msg.jobId)) reply .dismissing
  | unseen (reply : Except Text (Option Status)) (unsettled : seenTerminal reply = false) :
      Step settings msg entry .guarding (.command (.hgetStatus msg.jobId)) reply .counting
  | dismissed (reply : Except Text Unit) :
      Step settings msg entry .dismissing (.command (.xack entry)) reply .over
  | gaveUp (reply : Except Text Int) (exceeds : settings.maxAttempts < attemptsFrom reply) :
      Step settings msg entry .counting (.command (.hincrAttempts msg.jobId 1)) reply
        (.checking (.attempt (attemptsFrom reply)) .failed)
  | counted (reply : Except Text Int) (within : attemptsFrom reply ≤ settings.maxAttempts) :
      Step settings msg entry .counting (.command (.hincrAttempts msg.jobId 1)) reply
        (.locking (attemptsFrom reply))
  | unlocked (attempt : Nat) (error : Text) :
      Step settings msg entry (.locking attempt)
        (.command (.setLock msg.pipeline (fence msg.jobId attempt) settings.lockTtlMs))
        (.error error) .over
  | busy (attempt : Nat) :
      Step settings msg entry (.locking attempt)
        (.command (.setLock msg.pipeline (fence msg.jobId attempt) settings.lockTtlMs))
        (.ok false) (.yielding attempt)
  | locked (attempt : Nat) :
      Step settings msg entry (.locking attempt)
        (.command (.setLock msg.pipeline (fence msg.jobId attempt) settings.lockTtlMs))
        (.ok true) (.preparing attempt)
  | yielded (attempt : Nat) (reply : Except Text Int) :
      Step settings msg entry (.yielding attempt) (.command (.hincrAttempts msg.jobId (-1))) reply
        (.deferring attempt)
  | deferred (attempt : Nat) (fireAt : Int) (reply : Except Text Unit) :
      Step settings msg entry (.deferring attempt) (.command (.deferEntry msg fireAt entry)) reply
        .over
  | prepared (attempt : Nat) (op : Op) (reply : OpReply op) (prepares : op.prepares msg = true) :
      Step settings msg entry (.preparing attempt) op reply (.preparing attempt)
  | begun (attempt : Nat) (reply : Unit) :
      Step settings msg entry (.preparing attempt)
        (.startJob msg.pipeline (fence msg.jobId attempt)) reply (.executing attempt)
  | ended (attempt : Nat) (outcome : Except JobError JobOutcome) :
      Step settings msg entry (.executing attempt) .awaitJob outcome (afterRun attempt outcome)
  | exhausted (attempt : Nat) (reply : Except Text Unit) (last : settings.maxAttempts ≤ attempt) :
      Step settings msg entry (.returning attempt)
        (.command (.releaseLock msg.pipeline (fence msg.jobId attempt))) reply
        (.checking (.attempt attempt) .failed)
  | returned (attempt : Nat) (reply : Except Text Unit) (left : attempt < settings.maxAttempts) :
      Step settings msg entry (.returning attempt)
        (.command (.releaseLock msg.pipeline (fence msg.jobId attempt))) reply
        (.requeueing attempt)
  | requeued (attempt : Nat) (reply : Except Text Unit) :
      Step settings msg entry (.requeueing attempt)
        (.command (.hset msg.jobId (.status .queued))) reply (.deferring attempt)
  | unchecked (closer : Closer) (status : Status) (error : Text) :
      Step settings msg entry (.checking closer status) (.command (.getLock msg.pipeline))
        (.error error) .over
  | withheld (closer : Closer) (status : Status) (holder : Option Text)
      (blocked : ¬ Clear msg closer holder) :
      Step settings msg entry (.checking closer status) (.command (.getLock msg.pipeline))
        (.ok holder) .over
  | cleared (closer : Closer) (status : Status) (holder : Option Text)
      (clear : Clear msg closer holder) :
      Step settings msg entry (.checking closer status) (.command (.getLock msg.pipeline))
        (.ok holder) (.recording closer status)
  | recorded (closer : Closer) (status : Status) (outcome : JobOutcomeRow)
      (reply : Except Text Unit) :
      Step settings msg entry (.recording closer status)
        (.command (.markFinished msg.jobId outcome)) reply (.publishing closer status)
  | unpublished (closer : Closer) (status : Status) (finishedAt : Text) (message : Option Text)
      (partitions : Option Nat) (ttlS : Nat) (error : Text) :
      Step settings msg entry (.publishing closer status)
        (.command (.finishLive msg.jobId status finishedAt message partitions ttlS))
        (.error error) .over
  | published (closer : Closer) (status : Status) (finishedAt : Text) (message : Option Text)
      (partitions : Option Nat) (ttlS : Nat) :
      Step settings msg entry (.publishing closer status)
        (.command (.finishLive msg.jobId status finishedAt message partitions ttlS))
        (.ok ()) (.releasing closer)
  | unreleased (closer : Closer) (error : Text) :
      Step settings msg entry (.releasing closer)
        (.command (.releaseLock msg.pipeline (fence msg.jobId closer.number))) (.error error) .over
  | released (closer : Closer) :
      Step settings msg entry (.releasing closer)
        (.command (.releaseLock msg.pipeline (fence msg.jobId closer.number))) (.ok ())
        (.acking closer)
  | acked (closer : Closer) (reply : Except Text Unit) :
      Step settings msg entry (.acking closer) (.command (.xack entry)) reply .over

/-- The program keeps to the stages of a handler of the message. -/
def HandlerKeeps (settings : QueueSettings) (msg : JobMessage) (entry : Nat) {α : Type}
    (post : α → Stage → Prop) (program : Handling α) (stage : Stage) : Prop :=
  Program.Follows (fun _ _ => True) (Step settings msg entry) post program stage

/-! ## Every handler keeps to the stages -/

section Keeps

variable {settings : QueueSettings} {msg : JobMessage} {entry : Nat}

/-- An idle operation before the rest. -/
theorem idle_keeps {α : Type} {post : α → Stage → Prop} {op : Op} (isIdle : op.idle = true)
    {rest : OpReply op → Handling α} {stage : Stage}
    (keeps : ∀ reply, HandlerKeeps settings msg entry post (rest reply) stage) :
    HandlerKeeps settings msg entry post (.call op rest) stage :=
  fun reply _ => ⟨stage, .idle stage op reply isIdle, keeps reply⟩

/-- Finishing a job starts with the check of the fence. -/
theorem finishJob_keeps (closer : Closer) (terminal : Terminal) :
    HandlerKeeps settings msg entry (fun _ stage => stage = .over)
      (finishJob settings msg entry closer.number terminal) (.checking closer terminal.status) := by
  simp only [finishJob, issue, nowIso, await, releaseLock, Program.perform_bind]
  rintro (error | holder) _
  · exact ⟨_, .unchecked closer _ error, rfl⟩
  by_cases clear : Clear msg closer holder
  · refine ⟨_, .cleared closer _ holder clear, ?_⟩
    have notBlocked : ¬ (holder.any fun held => held ≠ fence msg.jobId closer.number) = true := by
      cases holder with
      | none => simp
      | some held => simpa using clear held rfl
    simp only [notBlocked]
    refine idle_keeps (by rfl) (fun completedAt => ?_)
    intro written _
    refine ⟨_, .recorded closer _ _ written, ?_⟩
    rintro (error | ⟨⟩) _
    · exact ⟨_, .unpublished closer _ _ _ _ _ error, rfl⟩
    refine ⟨_, .published closer _ _ _ _ _, ?_⟩
    rintro (error | ⟨⟩) _
    · exact ⟨_, .unreleased closer error, rfl⟩
    refine ⟨_, .released closer, ?_⟩
    intro reply _
    exact ⟨_, .acked closer reply, rfl⟩
  · refine ⟨_, .withheld closer _ holder clear, ?_⟩
    have blocked : (holder.any fun held => held ≠ fence msg.jobId closer.number) = true := by
      cases holder with
      | none => exact absurd (fun _ impossible => nomatch impossible) clear
      | some held =>
        have different : held ≠ fence msg.jobId closer.number := fun same =>
          clear (fun other isHeld => (Option.some.inj isHeld) ▸ same)
        simpa using different
    simp only [blocked, ↓reduceIte]
    rfl

/-- Deferring a message ends its handling. -/
theorem defer_keeps (attempt : Nat) (fireAt : Int) :
    HandlerKeeps settings msg entry (fun _ stage => stage = .over) (defer msg entry fireAt)
      (.deferring attempt) :=
  fun reply _ => ⟨_, .deferred attempt fireAt reply, rfl⟩

/-- What follows the run keeps to the protocol, whatever the run returned. -/
theorem handleOutcome_keeps (attempt : Nat) (outcome : Except JobError JobOutcome) :
    HandlerKeeps settings msg entry (fun _ stage => stage = .over)
      (handleOutcome settings entry msg attempt outcome) (afterRun attempt outcome) := by
  rcases outcome with (error | error | errors | _ | error | _) | outcome
  · simp only [handleOutcome, issue, nowMs, await, releaseLock, Program.perform_bind]
    intro released _
    by_cases last : settings.maxAttempts ≤ attempt
    · refine ⟨_, .exhausted attempt released last, ?_⟩
      simp only [last, ↓reduceIte]
      exact Program.follows_bind (Program.follows_mono
        (finishJob_keeps (.attempt attempt) (.failure error)) (fun _ _ isOver => isOver))
    · refine ⟨_, .returned attempt released (by omega), ?_⟩
      simp only [last, ↓reduceIte]
      intro queued _
      refine ⟨_, .requeued attempt queued, ?_⟩
      refine idle_keeps (by rfl) (fun now => ?_)
      refine Program.follows_bind (Program.follows_bind (Program.follows_mono
        (defer_keeps attempt _) ?_))
      exact fun _ _ isOver => isOver
  · exact finishJob_keeps (.attempt attempt) _
  · exact finishJob_keeps (.attempt attempt) _
  · exact finishJob_keeps (.attempt attempt) _
  · exact finishJob_keeps (.attempt attempt) _
  · rfl
  · exact finishJob_keeps (.attempt attempt) _

/-- The run under the lock keeps to the protocol. -/
theorem runLocked_keeps (worker : Text) (attempt : Nat) :
    HandlerKeeps settings msg entry (fun _ stage => stage = .over)
      (runLocked settings worker entry msg attempt) (.preparing attempt) := by
  simp only [runLocked, issue, nowIso, await, Program.perform_bind]
  refine idle_keeps (by rfl) (fun startedAt => ?_)
  intro reply _
  refine ⟨_, .prepared attempt _ reply (by simp [Op.prepares]), ?_⟩
  intro reply _
  refine ⟨_, .prepared attempt _ reply (by simp [Op.prepares]), ?_⟩
  intro reply _
  refine ⟨_, .prepared attempt _ reply (by simp [Op.prepares]), ?_⟩
  intro reply _
  refine ⟨_, .prepared attempt _ reply (by simp [Op.prepares]), ?_⟩
  intro reply _
  refine ⟨_, .begun attempt reply, ?_⟩
  intro outcome _
  refine ⟨_, .ended attempt outcome, ?_⟩
  refine idle_keeps (by rfl) (fun _ => ?_)
  exact Program.follows_bind (Program.follows_mono (handleOutcome_keeps attempt outcome)
    (fun _ _ isOver => isOver))

/-- Counting the attempt and taking the lock keep to the protocol. -/
theorem claimAttempt_keeps (worker : Text) :
    HandlerKeeps settings msg entry (fun _ stage => stage = .over)
    (claimAttempt settings worker entry msg)
      .counting := by
  simp only [claimAttempt, issue, nowMs, await, tryLock, Program.perform_bind]
  intro reply _
  by_cases exceeds : settings.maxAttempts < attemptsFrom reply
  · refine ⟨_, .gaveUp reply exceeds, ?_⟩
    simp only [exceeds, ↓reduceIte]
    exact Program.follows_bind (Program.follows_mono
      (finishJob_keeps (.attempt (attemptsFrom reply)) _) (fun _ _ isOver => isOver))
  · refine ⟨_, .counted reply (by omega), ?_⟩
    simp only [exceeds, ↓reduceIte]
    rintro (error | _ | _) _
    · exact ⟨_, .unlocked _ error, rfl⟩
    · refine ⟨_, .busy _, ?_⟩
      intro reply _
      refine ⟨_, .yielded _ reply, ?_⟩
      refine idle_keeps (by rfl) (fun now => ?_)
      exact Program.follows_bind (Program.follows_mono (defer_keeps _ _) (fun _ _ isOver => isOver))
    · exact ⟨_, .locked _, runLocked_keeps worker _⟩

/-- Every handler of a message keeps to the stages from its arrival on, to the end. -/
theorem handleClaimed_keeps (worker : Text) :
    HandlerKeeps settings msg entry (fun _ stage => stage = .over)
      (handleClaimed settings worker entry (.message msg)) .arriving := by
  simp only [handleClaimed, issue, await, Program.perform_bind]
  rintro (error | ⟨⟩) _
  · exact ⟨_, .unconnected error, rfl⟩
  cases validated : validatePipelinePrefix msg.pipelinePrefix with
  | error reason =>
    refine ⟨_, .rejected (by rw [validated]; rfl), ?_⟩
    exact Program.follows_bind (Program.follows_mono (finishJob_keeps .rejected (.failure _))
      (fun _ _ isOver => isOver))
  | ok _ =>
    refine ⟨_, .accepted validated, ?_⟩
    intro status _
    cases seen : seenTerminal status with
    | true =>
      refine ⟨_, .seen status seen, ?_⟩
      simp only [seen, ↓reduceIte]
      exact fun reply _ => ⟨_, .dismissed reply, rfl⟩
    | false =>
      refine ⟨_, .unseen status seen, ?_⟩
      simp only [seen, Bool.false_eq_true, ↓reduceIte]
      exact claimAttempt_keeps worker

end Keeps

/-- A handler of a malformed payload only acknowledges it. -/
theorem handleClaimed_malformed (settings : QueueSettings) (worker : Text) (entry : Nat)
    (text : Text) :
    (handleClaimed settings worker entry (.malformed text)).Calls
      (fun op => op = .command .connect ∨ op = .command (.xack entry)) := by
  refine ⟨Or.inl rfl, ?_⟩
  rintro (error | ⟨⟩)
  · trivial
  · exact ⟨Or.inr rfl, fun _ => trivial⟩

/-! ## Sweeps -/

/-- One operation of a sweep, and the job it holds before and after. Only a held job
is marked as abandoned. -/
inductive SweepStep : Option Text → (op : Op) → OpReply op → Option Text → Prop
  | looked (held : Option Text) (jobId : Text) (reply : Except Text (Option Status)) :
      SweepStep held (.command (.hgetStatus jobId)) reply (heldAfter jobId reply)
  | abandoned (jobId error finishedAt : Text) (ttlS : Nat) (reply : Except Text Unit) :
      SweepStep (some jobId) (.command (.abandonLive jobId error finishedAt ttlS)) reply none
  | dated (held : Option Text) (jobId : Text) (reply : Except Text (Option Int)) :
      SweepStep held (.command (.hgetEnqueuedAt jobId)) reply held
  | ranged (held : Option Text) (reply : Except Text (List Payload)) :
      SweepStep held (.command .xrange) reply held
  | scanned (held : Option Text) (reply : Except Text (List Text)) :
      SweepStep held .scanLive reply held
  | idle (held : Option Text) (op : Op) (reply : OpReply op) (isIdle : op.idle = true) :
      SweepStep held op reply held

/-- The program keeps to the steps of a sweep. -/
def SweepKeeps (program : Handling (Except Text Unit)) (held : Option Text) : Prop :=
  Program.Follows (fun _ _ => True) SweepStep (fun _ _ => True) program held

/-- A sweep keeps to its protocol over the rest of the keys. -/
theorem sweepKeys_keeps (settings : QueueSettings) (streamIds : List Text) (cutoff : Int)
    (liveIds : List Text) (held : Option Text) :
    SweepKeeps (sweepKeys settings streamIds cutoff liveIds) held := by
  induction liveIds generalizing held with
  | nil => trivial
  | cons jobId rest inductionHypothesis =>
    simp only [sweepKeys, issue, nowIso, await, Program.perform_bind]
    split
    · exact inductionHypothesis held
    rintro (error | status) _
    · exact ⟨_, .looked held jobId _, trivial⟩
    refine ⟨_, .looked held jobId _, ?_⟩
    rintro (error | _ | enqueuedAt) _
    · exact ⟨_, .dated _ jobId _, trivial⟩
    · exact ⟨_, .dated _ jobId _, inductionHypothesis _⟩
    refine ⟨_, .dated _ jobId _, ?_⟩
    by_cases orphaned : (status = some .queued ∨ status = some .running) ∧ enqueuedAt ≤ cutoff
    · have holds : heldAfter jobId (.ok status) = some jobId := by
        rcases orphaned.1 with rfl | rfl <;> rfl
      simp only [orphaned, and_self, ↓reduceIte, holds]
      intro finishedAt _
      refine ⟨_, .idle _ .nowIso finishedAt rfl, ?_⟩
      rintro (error | ⟨⟩) _
      · exact ⟨_, .abandoned jobId _ _ _ _, trivial⟩
      · exact ⟨_, .abandoned jobId _ _ _ _, inductionHypothesis _⟩
    · simp only [orphaned, ↓reduceIte]
      exact inductionHypothesis _

/-- A sweep of orphaned hashes keeps to its protocol. -/
theorem sweep_keeps (settings : QueueSettings) :
    SweepKeeps (sweepOrphanedLiveHashes settings) none := by
  simp only [sweepOrphanedLiveHashes, issue, nowMs, await, scanLive, Program.perform_bind]
  rintro (error | payloads) _
  · exact ⟨_, .ranged none _, trivial⟩
  refine ⟨_, .ranged none _, ?_⟩
  simp only
  split
  · trivial
  rintro (error | liveIds) _
  · exact ⟨_, .scanned none _, trivial⟩
  refine ⟨_, .scanned none _, ?_⟩
  intro now _
  exact ⟨_, .idle none .nowMs now rfl, sweepKeys_keeps settings _ _ liveIds none⟩

end KaretWorker
