import KaretWorker.AtLeastOnce
import KaretWorker.FenceCheck

/-!
# Terminal states

A job whose live status is terminal should keep it as long as its hash exists, and no
run of it should start. The status is written from five places without a look at it:
when a run starts, when it is put back for a retry, when a job is finished, by the
sweep, and when a job is enqueued. A handler looks at the status once, when it arrives,
a sweep before it marks a job.

So a terminal status stays exactly as long as no one is under way who looked earlier:
`terminal_absorbing` says so of runs in which a status becomes terminal only when no
handler past its look, and no sweep, will still write another one. `rerun_completed` is a
run without that: a job that is completed is set to running and run again.
-/
namespace KaretWorker

open Texts Interaction Indexing

/-! ## Who may still write -/

/-- The operation writes no status of the job but the given one, and starts no run. -/
def Op.Keeps (jobId : Text) (status : Status) : Op → Prop
  | .command issued => ∀ written, issued.writesStatus = some (jobId, written) → written = status
  | .startJob _ _ => False
  | .nowIso | .nowMs | .scanLive | .awaitJob | .abortHeartbeat => True

/-- The operation marks the job as abandoned. -/
def Op.marks (jobId : Text) : Op → Bool
  | .command (.abandonLive marked _ _ _) => marked = jobId
  | _ => false

/-- The operation looks at a status. -/
def Op.looks : Op → Bool
  | .command (.hgetStatus _) => true
  | _ => false

/-- Before it looks at another status, the program may mark the job. -/
def Marks (jobId : Text) {α : Type} : Handling α → Prop
  | .done _ => False
  | .call op next => op.marks jobId = true ∨ (op.looks = false ∧ ∃ reply, Marks jobId (next reply))

/-- Apart from the author, no handler past its look at the job will start it or write
another status than the given one, nor will a sweep that has looked. -/
structure Queue.Quiet (queue : Queue) (author : Option Nat) (jobId : Text) (status : Status) :
    Prop where
  handlers : ∀ id handler, queue.handlers.lookup id = some handler → some id ≠ author →
    handler.jobId? = some jobId → handler.admitted = true →
    handler.program.Calls (Op.Keeps jobId status)
  sweeps : ∀ id sweep, queue.sweeps.lookup id = some sweep → Marks jobId sweep.program →
    status = .abandoned

/-- The steps under which terminal states absorb.

A settled job is not enqueued again, and the look at it is served. A rejected delivery
does not pass its check when the job was settled otherwise than as failed. A status
becomes terminal only when no one else is under way to write another one. -/
def Queue.Absorbs (queue : Queue) : QueueAction → Prop
  | .enqueue msg => ¬ queue.services.redis.Settled msg.jobId
  | .answer id (.fate fate) =>
    (∀ jobId, queue.pending id = some (.command (.hgetStatus jobId)) →
      queue.services.redis.Settled jobId → fate = .served) ∧
    (∀ handler msg, queue.handlers.lookup id = some handler → handler.payload = .message msg →
      handler.admitted = false → queue.pending id = some (.command (.getLock msg.pipeline)) →
      fate = .served → Clear msg .rejected (queue.services.redis.locks.lookup msg.pipeline) →
      ∀ status, queue.services.redis.status msg.jobId = some status → status.terminal = true →
        status = .failed) ∧
    ∀ command jobId status, queue.pending id = some (.command command) →
      command.writesStatus = some (jobId, status) → status.terminal = true → fate.applied = true →
      queue.Quiet (some id) jobId status
  | .answerSweep id (.fate fate) =>
    ∀ command jobId status, queue.sweepPending id = some (.command command) →
      command.writesStatus = some (jobId, status) → fate.applied = true →
      queue.Quiet none jobId status
  | _ => True

/-! ## What handlers and sweeps write -/

section Writers

variable {settings : QueueSettings} {msg : JobMessage} {entry : Nat} {stage stage' : Stage}

/-- A handler writes the status of its own job only, and only past its look. A terminal
status is the last one it writes. -/
theorem Step.writes {command : Command} {reply : Except Text (Value command)}
    (step : Step settings msg entry stage (.command command) reply stage') {jobId : Text}
    {status : Status} (writes : command.writesStatus = some (jobId, status)) :
    jobId = msg.jobId ∧ stage.admitted = true ∧
      (status.terminal = true → stage'.closing = true ∨ stage' = .over) := by
  cases step with
  | idle stage op reply isIdle => exact nomatch isIdle
  | prepared attempt op reply prepares =>
    cases command with
    | hset written field =>
      cases field with
      | status written =>
        obtain ⟨rfl, rfl⟩ := Prod.mk.inj (Option.some.inj writes)
        cases written with
        | running =>
          exact ⟨of_decide_eq_true prepares, rfl, fun impossible => nomatch impossible⟩
        | queued | completed | failed | abandoned => exact nomatch prepares
      | worker | startedAt => exact nomatch writes
    | finishLive | abandonLive => exact nomatch prepares
    | connect | hgetStatus | hgetEnqueuedAt | hincrAttempts | setLock | getLock | releaseLock
    | renewLock | deferEntry | xack | xrange | markRunning | markFinished => exact nomatch writes
  | requeued =>
    obtain ⟨rfl, rfl⟩ := Prod.mk.inj (Option.some.inj writes)
    exact ⟨rfl, rfl, fun impossible => nomatch impossible⟩
  | unpublished closer =>
    obtain ⟨rfl, rfl⟩ := Prod.mk.inj (Option.some.inj writes)
    exact ⟨rfl, by cases closer <;> rfl, fun _ => Or.inr rfl⟩
  | published closer =>
    obtain ⟨rfl, rfl⟩ := Prod.mk.inj (Option.some.inj writes)
    exact ⟨rfl, by cases closer <;> rfl, fun _ => Or.inl rfl⟩
  | unconnected | rejected | accepted | seen | unseen | dismissed | gaveUp | counted
  | unlocked | busy
  | locked | yielded | deferred | exhausted | returned | unchecked | withheld | cleared | recorded
  | unreleased | released | acked => exact nomatch writes

/-- A handler at the stage writes no status but the given one any more. -/
def Stage.WritesOnly (status : Status) : Stage → Prop
  | .recording _ written | .publishing _ written => written = status
  | .dismissing | .releasing _ | .acking _ | .over => True
  | _ => False

/-- At such a stage it keeps to that, whatever the replies. -/
theorem writesOnly_calls {status : Status} {program : Handling Unit} (jobId : Text)
    (keeps : HandlerKeeps settings msg entry (fun _ stage => stage = .over) program stage)
    (only : stage.WritesOnly status) : program.Calls (Op.Keeps jobId status) := by
  refine keeps_calls (Stage.WritesOnly status) ?_ keeps only
  intro stage op reply stage' only step
  cases step with
  | idle stage op reply isIdle =>
    cases op with
    | nowIso | nowMs | abortHeartbeat => exact ⟨trivial, only⟩
    | command | scanLive | startJob | awaitJob => exact nomatch isIdle
  | dismissed | unreleased | released | acked =>
    exact ⟨fun _ impossible => (nomatch impossible), trivial⟩
  | recorded => exact ⟨fun _ impossible => (nomatch impossible), only⟩
  | unpublished | published =>
    refine ⟨fun written writes => ?_, trivial⟩
    rw [← (Prod.mk.inj (Option.some.inj writes)).2]
    exact only
  | unconnected | rejected | accepted | seen | unseen | gaveUp | counted | unlocked | busy
  | locked | yielded | deferred | prepared | begun | ended | exhausted | returned | requeued
  | unchecked | withheld | cleared => exact only.elim

/-- A rejected delivery finishes its job as failed. -/
def Stage.FailsRejected : Stage → Prop
  | .checking .rejected status | .recording .rejected status | .publishing .rejected status =>
    status = .failed
  | _ => True

/-- A rejected delivery still fails its job after its next step. -/
theorem Step.failsRejected {op : Op} {reply : OpReply op}
    (step : Step settings msg entry stage op reply stage') (fails : stage.FailsRejected) :
    stage'.FailsRejected := by
  cases step with
  | idle => exact fails
  | cleared closer | recorded closer =>
    cases closer with
    | rejected => exact fails
    | attempt => trivial
  | rejected => rfl
  | ended attempt outcome =>
    rcases outcome with (error | error | errors | _ | error | _) | outcome <;> trivial
  | unconnected | accepted | seen | unseen | dismissed | gaveUp | counted | unlocked | busy
  | locked | yielded | deferred | prepared | begun | exhausted | returned | requeued
  | unchecked | withheld | unpublished | published | unreleased | released | acked => trivial

/-- What a sweep marks it has looked at. -/
theorem marks_held {program : Handling (Except Text Unit)} {held : Option Text} {jobId : Text}
    (keeps : SweepKeeps program held) (marks : Marks jobId program) : held = some jobId := by
  induction program generalizing held with
  | done value => exact marks.elim
  | call op next inductionHypothesis =>
    rcases marks with marksNow | ⟨notLook, reply, marksLater⟩
    · obtain ⟨held', step, _⟩ := keeps op.someReply trivial
      generalize op.someReply = reply at step
      cases step with
      | abandoned marked =>
        rw [of_decide_eq_true marksNow]
      | looked | dated | ranged | scanned => exact nomatch marksNow
      | idle held op reply isIdle =>
        cases op with
        | nowIso | nowMs | abortHeartbeat => exact nomatch marksNow
        | command | scanLive | startJob | awaitJob => exact nomatch isIdle
    · obtain ⟨held', step, further⟩ := keeps reply trivial
      have isHeld := inductionHypothesis reply further marksLater
      cases step with
      | looked => exact nomatch notLook
      | abandoned => exact nomatch isHeld
      | dated | ranged | scanned | idle => exact isHeld

/-- A mark is the only status a sweep writes. -/
theorem SweepStep.writes {held held' : Option Text} {command : Command}
    {reply : Except Text (Value command)} {jobId : Text} {status : Status}
    (step : SweepStep held (.command command) reply held')
    (writes : command.writesStatus = some (jobId, status)) :
    status = .abandoned ∧ (Op.command command).marks jobId = true := by
  cases command with
  | abandonLive marked error finishedAt ttlS =>
    obtain ⟨rfl, rfl⟩ := Prod.mk.inj (Option.some.inj writes)
    exact ⟨rfl, decide_eq_true rfl⟩
  | hset | finishLive =>
    cases step with
    | idle held op reply isIdle => cases isIdle
  | connect | hgetStatus | hgetEnqueuedAt | hincrAttempts | setLock | getLock | releaseLock
  | renewLock | deferEntry | xack | xrange | markRunning | markFinished => cases writes

end Writers

/-! ## What a step does to a status -/

/-- A handler or a sweep is answered a command that writes the status. -/
inductive Queue.Writes (queue : Queue) (jobId : Text) (status : Status) : QueueAction → Prop
  | handler (id : Nat) (fate : Fate) (command : Command)
      (isPending : queue.pending id = some (.command command)) (applied : fate.applied = true)
      (writes : command.writesStatus = some (jobId, status)) :
      Queue.Writes queue jobId status (.answer id (.fate fate))
  | sweep (id : Nat) (fate : Fate) (command : Command)
      (isPending : queue.sweepPending id = some (.command command)) (applied : fate.applied = true)
      (writes : command.writesStatus = some (jobId, status)) :
      Queue.Writes queue jobId status (.answerSweep id (.fate fate))

section Successor

variable {settings : QueueSettings} {queue after : Queue} {stages stages' : Nat → Stage}
  {action : QueueAction}

/-- The status of a job changes when it is enqueued, when its hash expires, or when
somebody writes it. -/
theorem Successor.status_change (successor : Successor settings queue stages action after stages')
    (jobId : Text) :
    after.services.redis.status jobId = queue.services.redis.status jobId ∨
      (∃ msg, action = .enqueue msg ∧ msg.jobId = jobId ∧
        after.services.redis.status jobId = some .queued) ∨
      (action = .expireLive jobId ∧ after.services.redis.status jobId = none) ∨
      ∃ status, queue.Writes jobId status action ∧
        after.services.redis.status jobId = some status := by
  cases successor with
  | enqueued msg =>
    by_cases own : jobId = msg.jobId
    · subst own
      exact Or.inr (Or.inl ⟨msg, rfl, rfl, congrArg LiveHash.status (hash_setHash_self _ _ _)⟩)
    · exact Or.inl (congrArg LiveHash.status (hash_setHash_ne _ own))
  | outside action redis happens =>
    cases happens with
    | poisoned | trimmed | lockExpired => exact Or.inl rfl
    | progressed => exact Or.inl (status_setHash (fun _ => rfl) jobId)
    | moved now due isDue =>
      refine Or.inl ?_
      simp only [Queue.withRedis, Redis.status, Redis.hash, live_moveOne]
    | liveExpired expired =>
      by_cases same : jobId = expired
      · subst same
        refine Or.inr (Or.inr (Or.inl ⟨rfl, ?_⟩))
        simp [Queue.withRedis, Redis.status, Redis.hash, LiveHash.empty]
      · refine Or.inl ?_
        simp only [Queue.withRedis, Redis.status, Redis.hash, AList.lookup_erase_ne same]
  | arrived action id worker entry payload redis isNew handed =>
    cases handed with
    | delivered | reclaimed => exact Or.inl rfl
  | stepped id handler msg op next response reply services stage' runs handlerAt isCall permits
      responded =>
    rcases status_respond responded jobId with same | ⟨command, fate, status, rfl, rfl, applied,
      writes, isStatus⟩
    · exact Or.inl same
    · exact Or.inr (Or.inr (Or.inr ⟨status,
        .handler id fate command (pending_call runs isCall) applied writes, isStatus⟩))
  | strayed id handler command next fate runs stray isCall =>
    rcases status_respond (respond_fate _ command fate) jobId with same | ⟨issued, given, status,
      isIssued, isGiven, applied, writes, isStatus⟩
    · exact Or.inl same
    · obtain rfl := Op.command.inj isIssued
      obtain rfl := Response.fate.inj isGiven
      exact Or.inr (Or.inr (Or.inr ⟨status,
        .handler id fate command (pending_call runs isCall) applied writes, isStatus⟩))
  | cancelled | renewed | crashed | sweeping | stopped => exact Or.inl rfl
  | swept id sweep op next response reply services runs isCall responded =>
    rcases status_respond responded jobId with same | ⟨command, fate, status, rfl, rfl, applied,
      writes, isStatus⟩
    · exact Or.inl same
    · refine Or.inr (Or.inr (Or.inr ⟨status, .sweep id fate command ?_ applied writes, isStatus⟩))
      simp only [Queue.sweepPending, runs, isCall]

/-- Whoever writes a status was in the way of the status before. -/
theorem Queue.Quiet.written (tracked : Tracked settings queue stages) {jobId : Text}
    {status written : Status} (quiet : queue.Quiet none jobId status)
    (writes : queue.Writes jobId written action) : written = status := by
  cases writes with
  | handler id fate command isPending applied writes =>
    obtain ⟨handler, runs⟩ := runs_of_pending isPending
    obtain ⟨next, isCall⟩ := call_of_pending runs isPending
    rcases tracked.handlers id handler runs with ⟨msg, handlerAt⟩ | stray
    · obtain ⟨stage', step, _⟩ := handlerAt.advance isCall (.ok command.someValue)
      obtain ⟨isJob, admitted, _⟩ := step.writes writes
      have goesOn : stages id ≠ .over := by
        intro isOver
        rw [isOver] at admitted
        cases admitted
      have calls := quiet.handlers id handler runs (fun impossible => by cases impossible)
        (by rw [handlerAt.isJob, isJob]) (by rw [handlerAt.looked goesOn, admitted])
      rw [isCall] at calls
      exact calls.1 written writes
    · rcases (stray.advance isCall (.ok command.someValue)).1 with same | same
      · rw [Op.command.inj same] at writes
        cases writes
      · rw [Op.command.inj same] at writes
        cases writes
  | sweep id fate command isPending applied writes =>
    obtain ⟨sweep, next, runs, isCall⟩ := call_of_sweepPending isPending
    obtain ⟨step, _⟩ := (tracked.sweeps id sweep runs).advance isCall (.ok command.someValue)
    generalize sweep.held = held at step
    generalize (sweep.advance (.command command) (.ok command.someValue)
      (next (.ok command.someValue))).held = held' at step
    obtain ⟨isAbandoned, marks⟩ := step.writes writes
    rw [isAbandoned]
    exact (quiet.sweeps id sweep runs (by rw [isCall]; exact Or.inl marks)).symm

end Successor

/-! ## Terminal states absorb -/

/-- Nobody is under way to write over a terminal status, and rejections fail their
job. -/
structure Absorbed (settings : QueueSettings) (queue : Queue) (stages : Nat → Stage) : Prop where
  quiet : ∀ jobId status, queue.services.redis.status jobId = some status →
    status.terminal = true → queue.Quiet none jobId status
  rejects : ∀ id handler msg, queue.handlers.lookup id = some handler →
    HandlerAt settings handler msg (stages id) → (stages id).FailsRejected

/-- A handler gets past the look at its job when it sees it unsettled, or as a rejection
that passes its check. -/
theorem Step.admits {settings : QueueSettings} {msg : JobMessage} {entry : Nat}
    {stage stage' : Stage} {op : Op} {reply : OpReply op} {services services' : Services}
    {response : Response} (step : Step settings msg entry stage op reply stage')
    (responded : respond services op response = some (reply, services'))
    (before : stage.admitted = false) (after : stage'.admitted = true) :
    (∃ fate, op = .command (.hgetStatus msg.jobId) ∧ response = .fate fate ∧
      (services.redis.Settled msg.jobId → fate ≠ .served)) ∨
    ∃ status, op = .command (.getLock msg.pipeline) ∧ response = .fate .served ∧
      Clear msg .rejected (services.redis.locks.lookup msg.pipeline) ∧
      stage = .checking .rejected status ∧ stage' = .recording .rejected status := by
  cases step with
  | unseen reply unsettled =>
    obtain ⟨fate, rfl, isReply, _⟩ := respond_command responded
    refine Or.inl ⟨fate, rfl, rfl, ?_⟩
    rintro ⟨status, isStatus, terminal⟩ rfl
    have isSeen : reply = .ok (some status) := isReply.trans (congrArg Except.ok isStatus)
    rw [isSeen] at unsettled
    exact absurd (unsettled.symm.trans terminal) (by decide)
  | cleared closer status holder clear =>
    cases closer with
    | rejected =>
      obtain ⟨fate, rfl, isReply, _⟩ := respond_command responded
      obtain ⟨rfl, isHolder⟩ := reply_ok isReply.symm
      rw [isHolder] at clear
      exact Or.inr ⟨status, rfl, rfl, clear, rfl, rfl⟩
    | attempt => cases before
  | idle =>
    rw [before] at after
    cases after
  | ended | gaveUp | counted | unlocked | busy | locked | yielded | deferred | prepared | begun
  | exhausted | returned | requeued => cases before
  | recorded closer | unpublished closer | published closer | unreleased closer | released closer
  | acked closer => cases closer <;> cases before
  | unconnected | rejected | accepted | seen | dismissed | unchecked | withheld => cases after

/-- What a sweep holds after a look is not settled. -/
theorem looks_open {services services' : Services} {op : Op} {reply : OpReply op}
    {response : Response} {sweep : Sweep} {rest : Handling (Except Text Unit)} {jobId : Text}
    (looks : op.looks = true) (responded : respond services op response = some (reply, services'))
    (holds : (sweep.advance op reply rest).held = some jobId) :
    ¬ services.redis.Settled jobId := by
  rintro ⟨status, isStatus, terminal⟩
  unfold Op.looks at looks
  split at looks
  · next looked =>
    obtain ⟨fate, rfl, isReply, _⟩ := respond_command responded
    rcases reply with error | _ | found
    · cases holds
    · cases holds
    · obtain ⟨_, isFound⟩ := reply_ok isReply.symm
      simp only [Sweep.advance, heldAfter, Option.ite_none_left_eq_some] at holds
      obtain ⟨notTerminal, isLooked⟩ := holds
      obtain rfl := Option.some.inj isLooked
      have same : some found = some status := isFound.trans isStatus
      exact notTerminal ((Option.some.inj same) ▸ terminal)
  · cases looks

section Absorbed

variable {settings : QueueSettings} {queue after : Queue} {stages stages' : Nat → Stage}
  {action : QueueAction} {jobId : Text} {status : Status}

/-- No handler gets in the way of a terminal status that a step leaves alone. -/
theorem quiet_handlers (tracked : Tracked settings queue stages)
    (absorbed : Absorbed settings queue stages) (absorbs : queue.Absorbs action)
    (successor : Successor settings queue stages action after stages')
    (isStatus : queue.services.redis.status jobId = some status) (terminal : status.terminal = true)
    (id : Nat) (handler : Handler) (runs : after.handlers.lookup id = some handler)
    (isJob : handler.jobId? = some jobId) (admitted : handler.admitted = true) :
    handler.program.Calls (Op.Keeps jobId status) := by
  have quiet := absorbed.quiet jobId status isStatus terminal
  rcases (successor.tracked tracked).handlers id handler runs with ⟨msg, handlerAt⟩ | stray
  · have sameJob : msg.jobId = jobId := Option.some.inj (handlerAt.isJob.symm.trans isJob)
    refine successor.each tracked
      (fun _ handler msg _ => msg.jobId = jobId → handler.admitted = true →
        handler.program.Calls (Op.Keeps jobId status))
      (fun _ handler msg _ => msg.jobId = jobId → handler.admitted = true →
        handler.program.Calls (Op.Keeps jobId status))
      ?_ ?_ ?_ ?_ ?_ id handler msg runs handlerAt sameJob admitted
    · intro id handler msg runs handlerAt sameJob
      exact quiet.handlers id handler runs (fun impossible => by cases impossible)
        (handlerAt.isJob.trans (congrArg some sameJob))
    · exact fun _ _ _ _ _ _ _ calls => calls
    · intro id worker entry msg redis _ _ impossible
      cases impossible
    · intro id handler msg op next response reply stage' stepped calls sameJob admitted
      obtain rfl := stepped.isAction
      have isNext := (advance_payload handler op reply (next reply)).2.2
      have keeps := stepped.handlerAt'.keeps
      rw [isNext] at keeps ⊢
      by_cases isOver : stage' = .over
      · subst isOver
        exact writesOnly_calls jobId keeps trivial
      cases before : handler.admitted with
      | true =>
        have calls := calls sameJob before
        rw [stepped.isCall] at calls
        exact calls.2 reply
      | false =>
        have wentOn : stages id ≠ .over := by
          intro wasOver
          have step := stepped.step
          rw [wasOver] at step
          exact isOver step.over.2
        have notYet : (stages id).admitted = false := by
          rw [← stepped.handlerAt.looked wentOn, before]
        have gotPast : stage'.admitted = true := by
          rw [← stepped.handlerAt'.looked isOver, admitted]
        have pending := pending_call stepped.runs stepped.isCall
        rcases stepped.step.admits stepped.responded notYet gotPast with
          ⟨fate, rfl, rfl, unserved⟩ | ⟨written, rfl, rfl, clear, atCheck, atRecord⟩
        · have settled : queue.services.redis.Settled msg.jobId :=
            ⟨status, sameJob ▸ isStatus, terminal⟩
          exact absurd (absorbs.1 msg.jobId pending settled) (unserved settled)
        · have isFailed : status = .failed :=
            absorbs.2.1 handler msg stepped.runs stepped.handlerAt.isMessage before pending
              rfl clear
              status (sameJob ▸ isStatus) terminal
          have fails := absorbed.rejects id handler msg stepped.runs stepped.handlerAt
          rw [atCheck] at fails
          rw [atRecord] at keeps
          exact writesOnly_calls jobId keeps (fails.trans isFailed.symm)
    · exact fun _ _ _ _ calls => calls
  · obtain ⟨text, isMalformed⟩ := stray.isMalformed
    rw [Handler.jobId?, isMalformed] at isJob
    cases isJob

/-- No sweep gets in the way of a terminal status. -/
theorem quiet_sweeps (tracked : Tracked settings queue stages)
    (absorbed : Absorbed settings queue stages)
    (successor : Successor settings queue stages action after stages')
    (isStatus : queue.services.redis.status jobId = some status) (terminal : status.terminal = true)
    (id : Nat) (sweep : Sweep) (runs : after.sweeps.lookup id = some sweep)
    (marks : Marks jobId sweep.program) : status = .abandoned := by
  have quiet := absorbed.quiet jobId status isStatus terminal
  cases successor with
  | enqueued | outside | arrived | stepped | strayed | cancelled | renewed | crashed =>
    exact quiet.sweeps id sweep runs marks
  | sweeping started isNew =>
    rcases lookup_of_insert runs with ⟨rfl, rfl⟩ | ⟨_, runs⟩
    · cases marks_held (sweep_keeps settings) marks
    · exact quiet.sweeps id sweep runs marks
  | swept swept found op next response reply services foundRuns isCall responded step =>
    rcases lookup_keepSweeping runs with ⟨rfl, rfl⟩ | ⟨_, runs⟩
    · have keeps := ((tracked.sweeps id found foundRuns).advance isCall reply).2
      have holds := marks_held keeps marks
      have isNext : (found.advance op reply (next reply)).program = next reply := by
        unfold Sweep.advance
        split <;> rfl
      rw [isNext] at marks
      cases looks : op.looks with
      | true => exact absurd ⟨status, isStatus, terminal⟩ (looks_open looks responded holds)
      | false =>
        refine quiet.sweeps id found foundRuns ?_
        rw [isCall]
        exact Or.inr ⟨looks, reply, marks⟩
    · exact quiet.sweeps id sweep runs marks
  | stopped => exact quiet.sweeps id sweep (lookup_of_erase runs).2 marks

/-- Whoever writes a terminal status leaves nobody under way to write another one. -/
theorem quiet_written (absorbs : queue.Absorbs action)
    (successor : Successor settings queue stages action after stages')
    (writes : queue.Writes jobId status action) (terminal : status.terminal = true) :
    after.Quiet none jobId status := by
  cases writes with
  | handler id fate command isPending applied writes =>
    have quiet := absorbs.2.2 command jobId status isPending writes terminal applied
    cases successor with
    | outside _ _ happens => cases happens
    | arrived _ _ _ _ _ _ _ handed => cases handed
    | stepped id handler msg op next response reply services stage' runs handlerAt isCall permits
        responded step handlerAt' =>
      obtain rfl := Option.some.inj ((pending_call runs isCall).symm.trans isPending)
      obtain ⟨_, _, closes⟩ := step.writes writes
      refine ⟨fun other found foundRuns _ isJob admitted => ?_, quiet.sweeps⟩
      rcases lookup_keepRunning foundRuns with ⟨rfl, rfl⟩ | ⟨different, foundRuns⟩
      · refine writesOnly_calls jobId handlerAt'.keeps ?_
        rcases closes terminal with closing | isOver
        · cases stage' with
          | dismissing | releasing | acking => trivial
          | _ => cases closing
        · rw [isOver]
          trivial
      · exact quiet.handlers other found foundRuns (fun same => different (Option.some.inj same))
          isJob admitted
    | strayed id handler issued next fate runs stray isCall harmless stray' =>
      obtain rfl := Op.command.inj
        (Option.some.inj ((pending_call runs isCall).symm.trans isPending))
      rcases harmless with rfl | rfl <;> cases writes
  | sweep id fate command isPending applied writes =>
    have quiet := absorbs command jobId status isPending writes applied
    cases successor with
    | outside _ _ happens => cases happens
    | arrived _ _ _ _ _ _ _ handed => cases handed
    | swept id sweep op next response reply services runs isCall responded step =>
      obtain ⟨found, _, foundRuns, foundCall⟩ := call_of_sweepPending isPending
      obtain rfl := Option.some.inj (runs.symm.trans foundRuns)
      obtain ⟨rfl, _⟩ := Program.call.inj (isCall.symm.trans foundCall)
      refine ⟨quiet.handlers, fun other found foundRuns marks => ?_⟩
      rcases lookup_keepSweeping foundRuns with ⟨rfl, rfl⟩ | ⟨_, foundRuns⟩
      · exact (step.writes writes).1
      · exact quiet.sweeps other found foundRuns marks

/-- One step leaves settled jobs as they are. -/
theorem absorbed_successor (tracked : Tracked settings queue stages)
    (absorbed : Absorbed settings queue stages) (absorbs : queue.Absorbs action)
    (successor : Successor settings queue stages action after stages') :
    Absorbed settings after stages' where
  quiet jobId status isStatus terminal := by
    rcases successor.status_change jobId with same | ⟨_, _, _, isQueued⟩ | ⟨_, isNone⟩ |
      ⟨written, writes, isWritten⟩
    · rw [same] at isStatus
      exact ⟨fun id handler runs _ => quiet_handlers tracked absorbed absorbs successor isStatus
        terminal id handler runs, quiet_sweeps tracked absorbed successor isStatus terminal⟩
    · obtain rfl := Option.some.inj (isQueued.symm.trans isStatus)
      cases terminal
    · cases isNone.symm.trans isStatus
    · obtain rfl := Option.some.inj (isWritten.symm.trans isStatus)
      exact quiet_written absorbs successor writes terminal
  rejects := by
    refine successor.each tracked (fun _ _ _ stage => stage.FailsRejected)
      (fun _ _ _ stage => stage.FailsRejected) absorbed.rejects ?_ ?_ ?_ ?_
    · exact fun _ _ _ _ _ _ _ fails => fails
    · exact fun _ _ _ _ _ _ => trivial
    · exact fun _ _ _ _ _ _ _ _ stepped fails => stepped.step.failsRejected fails
    · exact fun _ _ _ _ fails => fails

/-- While nobody is in the way of its status, no run of the job starts. -/
theorem executions_quiet (successor : Successor settings queue stages action after stages')
    (quiet : queue.Quiet none jobId status) :
    executions jobId after.log = executions jobId queue.log := by
  cases successor with
  | stepped id handler msg op next response reply services stage' runs handlerAt isCall permits
      responded step handlerAt' =>
    by_cases starts : ∃ pipeline fence, op = .startJob pipeline fence
    · obtain ⟨pipeline, fence, rfl⟩ := starts
      have goesOn : stages id ≠ .over ∧ (stages id).admitted = true := by
        generalize stages id = stage at step
        cases step with
        | begun => exact ⟨fun impossible => (by cases impossible), rfl⟩
        | idle stage op reply isIdle => cases isIdle
        | prepared attempt op reply prepares => cases prepares
      have otherJob : msg.jobId ≠ jobId := by
        intro sameJob
        have calls := quiet.handlers id handler runs (fun impossible => by cases impossible)
          (handlerAt.isJob.trans (congrArg some sameJob))
          (by rw [handlerAt.looked goesOn.1, goesOn.2])
        rw [isCall] at calls
        exact calls.1
      simp [executions, deeds, otherJob]
    · exact executions_deeds (fun pipeline fence same => starts ⟨pipeline, fence, same⟩)
        jobId id msg.jobId handler.attempt queue.log
  | enqueued | outside | arrived | strayed | cancelled | renewed | crashed | sweeping | swept
  | stopped => rfl

/-- One step leaves a terminal status alone while its hash exists, and starts no run of
its job. -/
theorem absorbed_keeps (tracked : Tracked settings queue stages)
    (absorbed : Absorbed settings queue stages) (absorbs : queue.Absorbs action)
    (stays : action ≠ .expireLive jobId)
    (successor : Successor settings queue stages action after stages')
    (isStatus : queue.services.redis.status jobId = some status)
    (terminal : status.terminal = true) :
    after.services.redis.status jobId = some status ∧
      executions jobId after.log = executions jobId queue.log := by
  have quiet := absorbed.quiet jobId status isStatus terminal
  refine ⟨?_, executions_quiet successor quiet⟩
  rcases successor.status_change jobId with same | ⟨msg, rfl, rfl, _⟩ | ⟨isExpired, _⟩ |
    ⟨written, writes, isWritten⟩
  · exact same.trans isStatus
  · exact absurd ⟨status, isStatus, terminal⟩ absorbs
  · exact absurd isExpired stays
  · rw [isWritten, quiet.written tracked writes]

/-- In every run that absorbs, a terminal status stays as long as its hash exists, and no
run of its job starts. -/
theorem terminal_absorbing {rows : AList (fun _ : Text => JobRow)} {later : Queue}
    (reached : Runs.Reaches (Queue.step settings) Queue.Absorbs (Queue.initial rows) queue)
    (isStatus : queue.services.redis.status jobId = some status) (terminal : status.terminal = true)
    (continued : Runs.Reaches (Queue.step settings)
      (fun queue action => queue.Absorbs action ∧ action ≠ .expireLive jobId) queue later) :
    later.services.redis.status jobId = some status ∧
      executions jobId later.log = executions jobId queue.log := by
  have start : Absorbed settings (Queue.initial rows) (fun _ => .over) := by
    refine ⟨?_, ?_⟩
    · intro jobId status impossible
      cases impossible
    · intro id handler msg impossible
      cases impossible
  obtain ⟨stages, tracked, absorbed⟩ := reaches_tracked (Absorbed settings) (initial_tracked rows)
    start (fun _ _ _ _ _ tracked absorbed absorbs successor =>
      absorbed_successor tracked absorbed absorbs successor) reached
  let inv (later : Queue) (stages : Nat → Stage) : Prop := Absorbed settings later stages ∧
    later.services.redis.status jobId = some status ∧
      executions jobId later.log = executions jobId queue.log
  have kept : ∀ before stages action next stages', Tracked settings before stages →
      inv before stages → before.Absorbs action ∧ action ≠ .expireLive jobId →
      Successor settings before stages action next stages' → inv next stages' := by
    rintro before stages action next stages' tracked ⟨absorbed, isStatus, sameRuns⟩
      ⟨absorbs, stays⟩ successor
    obtain ⟨isStatus', sameRuns'⟩ :=
      absorbed_keeps tracked absorbed absorbs stays successor isStatus terminal
    exact ⟨absorbed_successor tracked absorbed absorbs successor, isStatus',
      sameRuns'.trans sameRuns⟩
  obtain ⟨_, _, _, keeps⟩ := reaches_tracked inv tracked ⟨absorbed, isStatus, rfl⟩ kept continued
  exact keeps

end Absorbed

/-! ## A second delivery of a completed job -/

/-- A second delivery looks at the job before the first one completes it. -/
def overtaken : List QueueAction :=
  [.enqueue smallJob, .deliver 0 "w".toList, .reclaim 1 "w".toList 0] ++ replies 1 (serve 2) ++
    replies 0 (toLock ++ toRun ++ toLook ++ toFinish ++ serve 2)

/-- It is counted, takes the lock that is free again, and runs the job. -/
def rerun : List QueueAction := replies 1 (serve 2 ++ toRun)

/-- A live hash expires. -/
def QueueAction.expires : QueueAction → Bool
  | .expireLive _ => true
  | _ => false

/-- No other action is that expiry. -/
theorem QueueAction.ne_expireLive {action : QueueAction} (stays : action.expires = false)
    (jobId : Text) : action ≠ .expireLive jobId := by
  rintro rfl
  cases stays

/-- Without the rule, a completed job is set to running and run again. -/
theorem rerun_completed : ∃ queue later : Queue,
    Runs.Reaches (Queue.step .default) (fun _ _ => True) (Queue.initial ∅) queue ∧
      Runs.Reaches (Queue.step .default) (fun _ action => action ≠ .expireLive smallJob.jobId)
        queue later ∧
      queue.services.redis.status smallJob.jobId = some .completed ∧
      later.services.redis.status smallJob.jobId = some .running ∧
      executions smallJob.jobId queue.log < executions smallJob.jobId later.log := by
  obtain ⟨queue, reached, isCompleted, runsAgain⟩ := Runs.reaches_of_check (Queue.step .default)
    (fun _ _ => True) (Queue.initial ∅) overtaken
    (fun queue => queue.services.redis.status smallJob.jobId = some .completed ∧
      (Runs.follow (Queue.step .default) (fun _ action => action.expires = false) queue rerun).any
        (fun later => later.services.redis.status smallJob.jobId = some .running ∧
          executions smallJob.jobId queue.log < executions smallJob.jobId later.log) = true)
    (by decide +kernel)
  obtain ⟨later, continued, isRunning, more⟩ := Runs.reaches_of_check _ _ queue rerun _ runsAgain
  exact ⟨queue, later, reached,
    continued.mono (fun _ _ stays => QueueAction.ne_expireLive stays smallJob.jobId), isCompleted,
    isRunning, more⟩

/-- The handler is past the look at its job when it reads the lock. -/
def Queue.looked (queue : Queue) (id : Nat) : Bool :=
  match queue.handlers.lookup id, queue.pending id with
  | some handler, some (.command (.getLock _)) => handler.admitted
  | _, _ => true

/-- Handlers act one at a time, their commands are served, and no sweep goes on. -/
def Queue.Alone (queue : Queue) : QueueAction → Prop
  | .enqueue msg => queue.services.redis.status msg.jobId = none
  | .answer id (.fate fate) => fate = .served ∧ queue.handlers.keys = [id] ∧
      queue.sweeps.keys = [] ∧ queue.looked id = true
  | .answerSweep _ _ => False
  | _ => True

instance (queue : Queue) : DecidablePred queue.Alone
  | .enqueue msg => inferInstanceAs (Decidable (queue.services.redis.status msg.jobId = none))
  | .answer id (.fate fate) => inferInstanceAs (Decidable (fate = .served ∧
      queue.handlers.keys = [id] ∧ queue.sweeps.keys = [] ∧ queue.looked id = true))
  | .answerSweep _ _ => isFalse id
  | .answer _ (.iso _) | .answer _ (.ms _) | .answer _ (.keys _) | .answer _ (.outcome _)
  | .answer _ .done | .poison _ | .deliver _ _ | .reclaim _ _ _ | .beat _ _ | .progress _ | .crash _
  | .move _ _ | .trim | .expireLock _ | .expireLive _ | .sweep _ | .stopSweep _ => isTrue trivial

/-- Whoever acts alone has nobody in the way. -/
theorem alone_absorbs {queue : Queue} {action : QueueAction} (alone : queue.Alone action) :
    queue.Absorbs action := by
  cases action with
  | enqueue msg =>
    rintro ⟨status, isStatus, _⟩
    rw [show queue.services.redis.status msg.jobId = none from alone] at isStatus
    cases isStatus
  | answer id response =>
    cases response with
    | fate fate =>
      obtain ⟨isServed, only, noSweep, looked⟩ := alone
      refine ⟨fun _ _ _ => isServed, ?_, ?_⟩
      · intro handler msg runs _ notLooked pending
        simp [Queue.looked, runs, pending, notLooked] at looked
      · intro command jobId status _ _ _ _
        constructor
        · intro other handler runs different
          have member : other ∈ queue.handlers := AList.lookup_isSome.mp (by rw [runs]; rfl)
          rw [AList.mem_keys, only, List.mem_singleton] at member
          exact absurd (congrArg some member) different
        · intro other sweep runs
          have member : other ∈ queue.sweeps := AList.lookup_isSome.mp (by rw [runs]; rfl)
          rw [AList.mem_keys, noSweep] at member
          cases member
    | iso | ms | keys | outcome | done => trivial
  | answerSweep => exact alone.elim
  | poison | deliver | reclaim | beat | progress | crash | move | trim | expireLock | expireLive
  | sweep | stopSweep => trivial

/-- The status stays where a handler stops before it acknowledges and its entry is
delivered again. -/
theorem terminal_absorbing_redelivered : ∃ queue later : Queue,
    (queue.services.redis.pending = [0] ∧ later.services.redis.pending = []) ∧
      later.services.redis.status smallJob.jobId = some .completed ∧
      executions smallJob.jobId later.log = executions smallJob.jobId queue.log := by
  obtain ⟨queue, reached, ⟨isCompleted, isPending⟩, goesOn⟩ := Runs.reaches_of_check
    (Queue.step .default) Queue.Alone (Queue.initial ∅)
    ([.enqueue smallJob, .deliver 0 "w".toList] ++
      replies 0 (toLock ++ toRun ++ toLook ++ toFinish))
    (fun queue => (queue.services.redis.status smallJob.jobId = some .completed ∧
        queue.services.redis.pending = [0]) ∧
      (Runs.follow (Queue.step .default)
        (fun queue action => queue.Alone action ∧ action.expires = false) queue
        ([.crash 0, .reclaim 1 "w".toList 0] ++ replies 1 (serve 3))).any
        (fun later => later.services.redis.pending = []) = true)
    (by decide +kernel)
  obtain ⟨later, continued, isAcked⟩ := Runs.reaches_of_check _ _ queue _ _ goesOn
  refine ⟨queue, later, ⟨isPending, isAcked⟩, ?_⟩
  exact terminal_absorbing (reached.mono (fun _ _ => alone_absorbs)) isCompleted rfl
    (continued.mono (fun _ _ admits =>
      ⟨alone_absorbs admits.1, QueueAction.ne_expireLive admits.2 smallJob.jobId⟩))

end KaretWorker
