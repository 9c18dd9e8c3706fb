import KaretWorker.Fences

/-!
# The check before a job is finished

Before a handler finishes its job it reads the lock, and withholds everything if the
lock is held under a fence other than its own. In every queue reached, a lock is held
under the fence of some attempt of some job. The check is meant for an attempt that a
newer one of the same job has superseded, and `withheld_iff` says when it hits only
such attempts: when no other job and no older attempt holds the lock.

Other jobs of a pipeline do hold its lock while a job is rejected or given up, since
neither takes the lock first. `rejection_withheld` is a run in which a job is rejected
while another one runs: nothing is written, and its handler is gone.
-/
namespace KaretWorker

open Texts Interaction Indexing

/-- The attempt number a handler finishes its job with; a rejected delivery uses one. -/
def Handler.number (handler : Handler) : Nat := handler.attempt.getD 1

/-- Once the check of the lock is answered with the holder, the handler issues no
command any more. -/
def Withholds (next : Except Text (Option Text) → Handling Unit) (holder : Option Text) : Prop :=
  (next (.ok holder)).Calls (fun op => op.idle = true)

/-- The lock is held by an attempt of the job newer than the given one. -/
def Superseded (jobId : Text) (number : Nat) (holder : Option Text) : Prop :=
  ∃ newer, number < newer ∧ holder = some (fence jobId newer)

/-- Neither another job nor an older attempt of the job holds the lock. -/
def Unobstructed (jobId : Text) (number : Nat) (holder : Option Text) : Prop :=
  ∀ other attempt, holder = some (fence other attempt) → other = jobId ∧ number ≤ attempt

/-- Some value a served command may return. -/
def Command.someValue : (command : Command) → Value command
  | .hgetStatus _ => none
  | .hgetEnqueuedAt _ => none
  | .hincrAttempts _ _ => (0 : Int)
  | .setLock _ _ _ => true
  | .getLock _ => none
  | .renewLock _ _ _ => true
  | .xrange => []
  | .connect => ()
  | .hset _ _ => ()
  | .releaseLock _ _ => ()
  | .finishLive _ _ _ _ _ _ => ()
  | .abandonLive _ _ _ _ => ()
  | .deferEntry _ _ _ => ()
  | .xack _ => ()
  | .markRunning _ _ => ()
  | .markFinished _ _ => ()

/-- Some reply to an operation that is served. -/
def Op.someReply : (op : Op) → OpReply op
  | .command issued => .ok issued.someValue
  | .nowIso => []
  | .nowMs => (0 : Int)
  | .scanLive => .ok []
  | .startJob _ _ => ()
  | .awaitJob => .error .noFiles
  | .abortHeartbeat => ()

/-! ## What the check decides -/

section Stages

variable {settings : QueueSettings} {msg : JobMessage} {entry : Nat} {stage stage' : Stage}

/-- After its end a handler does nothing but idle operations. -/
theorem Step.over {op : Op} {reply : OpReply op}
    (step : Step settings msg entry .over op reply stage') : op.idle = true ∧ stage' = .over := by
  cases step with
  | idle stage op reply isIdle => exact ⟨isIdle, rfl⟩

/-- Idle operations leave the stage alone. -/
theorem Step.stays {op : Op} {reply : OpReply op} (isIdle : op.idle = true)
    (step : Step settings msg entry stage op reply stage') : stage' = stage := by
  cases step with
  | idle => rfl
  | prepared attempt op reply prepares =>
    cases op with
    | nowIso | nowMs | abortHeartbeat => rfl
    | command | scanLive | startJob | awaitJob => exact nomatch isIdle
  | unconnected | rejected | accepted | seen | unseen | dismissed | gaveUp | counted
  | unlocked | busy
  | locked | yielded | deferred | begun | ended | exhausted | returned | requeued | unchecked
  | withheld | cleared | recorded | unpublished | published | unreleased | released | acked =>
    exact nomatch isIdle

/-- Operations that a handler at a good stage may take, and good stages after them, bound
what its program calls. -/
theorem keeps_calls {post : Unit → Stage → Prop} {allowed : Op → Prop} (good : Stage → Prop)
    (always : ∀ stage op reply stage', good stage → Step settings msg entry stage op reply stage' →
      allowed op ∧ good stage')
    {program : Handling Unit} {stage : Stage}
    (keeps : HandlerKeeps settings msg entry post program stage)
    (isGood : good stage) : program.Calls allowed :=
  Program.calls_of_follows good (fun op => ⟨op.someReply⟩) (fun _ _ => trivial) always keeps isGood

/-- A handler whose stage is over issues no command. -/
theorem over_calls {program : Handling Unit}
    (keeps : HandlerKeeps settings msg entry (fun _ stage => stage = .over) program .over) :
    program.Calls (fun op => op.idle = true) := by
  refine keeps_calls (fun stage => stage = .over) ?_ keeps rfl
  rintro stage op reply stage' rfl step
  exact step.over

/-- A handler whose stage is not over issues one. -/
theorem calls_over {program : Handling Unit} {stage : Stage}
    (keeps : HandlerKeeps settings msg entry (fun _ stage => stage = .over) program stage)
    (calls : program.Calls (fun op => op.idle = true)) : stage = .over := by
  induction program with
  | done value => exact keeps
  | call op next inductionHypothesis =>
    obtain ⟨stage', step, further⟩ := keeps op.someReply trivial
    obtain rfl := step.stays calls.1
    exact inductionHypothesis op.someReply further (calls.2 op.someReply)

/-- The lock is read only for the check before a job is finished. -/
theorem Step.checks {pipeline : Text} {reply : Except Text (Option Text)}
    (step : Step settings msg entry stage (.command (.getLock pipeline)) reply stage') :
    pipeline = msg.pipeline ∧ ∃ closer status, stage = .checking closer status ∧
      ∀ holder, reply = .ok holder → (stage' = .over ↔ ¬ Clear msg closer holder) := by
  cases step with
  | unchecked closer status error =>
    exact ⟨rfl, closer, status, rfl, fun holder impossible => nomatch impossible⟩
  | withheld closer status held blocked =>
    refine ⟨rfl, closer, status, rfl, ?_⟩
    rintro holder same
    obtain rfl := Except.ok.inj same
    exact ⟨fun _ => blocked, fun _ => rfl⟩
  | cleared closer status held clear =>
    refine ⟨rfl, closer, status, rfl, ?_⟩
    rintro holder same
    obtain rfl := Except.ok.inj same
    exact ⟨fun impossible => (nomatch impossible), fun blocked => absurd clear blocked⟩
  | idle stage op reply isIdle => exact nomatch isIdle
  | prepared attempt op reply prepares => exact nomatch prepares

/-- A handler withholds what it would write if and only if the lock is held under
another fence. -/
theorem withholds_iff {handler : Handler} {pipeline : Text}
    {next : Except Text (Option Text) → Handling Unit}
    (handlerAt : HandlerAt settings handler msg stage)
    (isCheck : handler.program = .call (.command (.getLock pipeline)) next) (holder : Option Text) :
    pipeline = msg.pipeline ∧ (Withholds next holder ↔
      ∃ held, holder = some held ∧ held ≠ fence msg.jobId handler.number) := by
  have keeps := handlerAt.keeps
  rw [isCheck] at keeps
  obtain ⟨stage', step, further⟩ := keeps (.ok holder) trivial
  obtain ⟨isPipeline, closer, status, atCheck, decides⟩ := step.checks
  have isNumber : handler.number = closer.number := by
    rw [Handler.number,
      handlerAt.numbered (by rw [atCheck]; exact fun impossible => nomatch impossible),
      atCheck]
    cases closer <;> rfl
  refine ⟨isPipeline, ?_⟩
  have isOver : Withholds next holder ↔ stage' = .over := by
    constructor
    · exact fun calls => calls_over further calls
    · intro isOver
      rw [isOver] at further
      exact over_calls further
  rw [isOver, decides holder rfl, isNumber, Clear]
  push Not
  exact Iff.rfl

end Stages

/-! ## Who holds a lock -/

/-- Every lock is held under the fence of an attempt. -/
def LocksFenced (redis : Redis) : Prop :=
  ∀ pipeline held, redis.locks.lookup pipeline = some held → ∃ jobId attempt, held = fence jobId attempt

/-- A command leaves a lock alone, removes it, or takes it with its fence. -/
theorem locks_apply {services : Services} {command : Command} {pipeline held : Text}
    (holds : (command.apply services).redis.locks.lookup pipeline = some held) :
    services.redis.locks.lookup pipeline = some held ∨
      ∃ ttlMs, command = .setLock pipeline held ttlMs := by
  cases command with
  | setLock locked stored ttlMs =>
    simp only [Command.apply, Command.applyRedis] at holds
    split at holds
    · rcases lookup_of_insert holds with ⟨rfl, rfl⟩ | ⟨_, before⟩
      · exact Or.inr ⟨ttlMs, rfl⟩
      · exact Or.inl before
    · exact Or.inl holds
  | releaseLock released stored =>
    simp only [Command.apply, Command.applyRedis] at holds
    split at holds
    · exact Or.inl (lookup_of_erase holds).2
    · exact Or.inl holds
  | hset | hincrAttempts | finishLive | abandonLive | connect | hgetStatus | hgetEnqueuedAt
  | getLock
  | renewLock | deferEntry | xack | xrange | markRunning | markFinished => exact Or.inl holds

/-- Locks stay fenced where one is deleted. -/
theorem locksFenced_erase {redis : Redis} (fenced : LocksFenced redis) (pipeline : Text) :
    LocksFenced { redis with locks := redis.locks.erase pipeline } :=
  fun other held holds => fenced other held (lookup_of_erase holds).2

/-- Moving due jobs touches no lock. -/
theorem locks_moveOne (redis : Redis) (due : List JobMessage) :
    (due.foldl Redis.moveOne redis).locks = redis.locks := by
  induction due generalizing redis with
  | nil => rfl
  | cons msg rest inductionHypothesis =>
    rw [List.foldl_cons, inductionHypothesis]
    rfl

/-- A sweep takes no lock. -/
theorem SweepStep.untried {held held' : Option Text} {op : Op} {reply : OpReply op}
    (step : SweepStep held op reply held') (pipeline stored : Text) (ttlMs : Nat) :
    op ≠ .command (.setLock pipeline stored ttlMs) := by
  rintro rfl
  cases step with
  | idle held op reply isIdle => exact nomatch isIdle

section Locks

variable {settings : QueueSettings} {queue after : Queue} {stages stages' : Nat → Stage}

/-- A command leaves locks fenced if it takes one only under a fence. -/
theorem locksFenced_execute {services : Services} {command : Command} {fate : Fate}
    (fenced : LocksFenced services.redis)
    (tries : ∀ pipeline held ttlMs, command = .setLock pipeline held ttlMs →
      ∃ jobId attempt, held = fence jobId attempt) :
    LocksFenced (command.execute services fate).redis := by
  cases applied : fate.applied with
  | false =>
    rw [execute_unapplied applied]
    exact fenced
  | true =>
    rw [execute_applied applied]
    intro pipeline held holds
    rcases locks_apply holds with before | ⟨ttlMs, isTry⟩
    · exact fenced pipeline held before
    · exact tries pipeline held ttlMs isTry

/-- A response keeps the locks fenced if whoever sets one sets a fence. -/
theorem locksFenced_respond {services services' : Services} {op : Op} {response : Response}
    {reply : OpReply op} (fenced : LocksFenced services.redis)
    (responded : respond services op response = some (reply, services'))
    (tries : ∀ pipeline held ttlMs, op = .command (.setLock pipeline held ttlMs) →
      ∃ jobId attempt, held = fence jobId attempt) : LocksFenced services'.redis := by
  by_cases isCommand : ∃ command, op = .command command
  · obtain ⟨command, rfl⟩ := isCommand
    obtain ⟨fate, _, _, rfl⟩ := respond_command responded
    exact locksFenced_execute fenced (fun pipeline held ttlMs isTry =>
      tries pipeline held ttlMs (congrArg Op.command isTry))
  · rw [(respond_other (fun command same => isCommand ⟨command, same⟩) responded).1]
    exact fenced

/-- Locks stay fenced over every step of the queue. -/
theorem locksFenced_successor {action : QueueAction} (fenced : LocksFenced queue.services.redis)
    (successor : Successor settings queue stages action after stages') :
    LocksFenced after.services.redis := by
  cases successor with
  | enqueued => exact fenced
  | outside action redis happens =>
    cases happens with
    | poisoned | progressed | trimmed | liveExpired => exact fenced
    | moved now due isDue =>
      intro pipeline held holds
      rw [Queue.withRedis, locks_moveOne] at holds
      exact fenced pipeline held holds
    | lockExpired pipeline => exact locksFenced_erase fenced pipeline
  | arrived action id worker entry payload redis isNew handed =>
    cases handed with
    | delivered | reclaimed => exact fenced
  | stepped id handler msg op next response reply services stage' runs handlerAt isCall permits
      responded step handlerAt' =>
    refine locksFenced_respond fenced responded ?_
    rintro pipeline held ttlMs rfl
    obtain ⟨attempt, _, isFence⟩ := step.tries_lock
    exact ⟨_, attempt, isFence⟩
  | strayed id handler command next fate runs stray isCall harmless stray' =>
    refine locksFenced_execute fenced ?_
    rintro pipeline held ttlMs rfl
    rcases harmless with impossible | impossible
    · exact nomatch impossible
    · exact nomatch impossible
  | cancelled | renewed | crashed | sweeping | stopped => exact fenced
  | swept id sweep op next response reply services runs isCall responded step =>
    refine locksFenced_respond fenced responded ?_
    exact fun pipeline held ttlMs isTry => absurd isTry (step.untried pipeline held ttlMs)

/-- In every queue reached, a handler withholds what it would write only from a
superseded attempt, if and only if neither another job nor an older attempt holds the
lock it checks. -/
theorem withheld_iff {rows : AList (fun _ : Text => JobRow)} {rule : Queue → QueueAction → Prop}
    (reached : Runs.Reaches (Queue.step settings) rule (Queue.initial rows) queue)
    {id : Nat} {handler : Handler} {msg : JobMessage} {pipeline : Text}
    {next : Except Text (Option Text) → Handling Unit}
    (runs : queue.handlers.lookup id = some handler) (isMessage : handler.payload = .message msg)
    (isCheck : handler.program = .call (.command (.getLock pipeline)) next) :
    (Withholds next (queue.services.redis.locks.lookup pipeline) →
        Superseded msg.jobId handler.number (queue.services.redis.locks.lookup pipeline)) ↔
      Unobstructed msg.jobId handler.number (queue.services.redis.locks.lookup msg.pipeline) := by
  obtain ⟨stages, tracked, fenced⟩ := reaches_tracked
    (fun queue _ => LocksFenced queue.services.redis) (initial_tracked rows)
    (fun _ _ impossible => nomatch impossible)
    (fun _ _ _ _ _ _ fenced _ successor => locksFenced_successor fenced successor) reached
  have handlerAt : HandlerAt settings handler msg (stages id) := by
    rcases tracked.handlers id handler runs with ⟨other, handlerAt⟩ | stray
    · obtain rfl := Payload.message.inj (handlerAt.isMessage.symm.trans isMessage)
      exact handlerAt
    · obtain ⟨text, isMalformed⟩ := stray.isMalformed
      exact nomatch isMalformed.symm.trans isMessage
  obtain ⟨rfl, withholds⟩ := withholds_iff handlerAt isCheck
    (queue.services.redis.locks.lookup pipeline)
  rw [withholds]
  constructor
  · intro spares other attempt isHeld
    by_cases own : fence other attempt = fence msg.jobId handler.number
    · obtain ⟨rfl, rfl⟩ := fence_injective own
      exact ⟨rfl, le_refl _⟩
    · obtain ⟨newer, isNewer, isHeld'⟩ := spares ⟨_, isHeld, own⟩
      obtain ⟨rfl, rfl⟩ := fence_injective (Option.some.inj (isHeld.symm.trans isHeld'))
      exact ⟨rfl, by omega⟩
  · rintro unobstructed ⟨held, isHeld, notOwn⟩
    obtain ⟨other, attempt, rfl⟩ := fenced _ held isHeld
    obtain ⟨rfl, notOlder⟩ := unobstructed other attempt isHeld
    have different : attempt ≠ handler.number := by
      rintro rfl
      exact notOwn rfl
    exact ⟨attempt, by omega, isHeld⟩

end Locks

/-! ## A rejection while another job runs -/

/-- A message with a prefix that is rejected. -/
def badJob : JobMessage :=
  ⟨"c".toList, "p".toList, "/p".toList, none, false, "manual".toList, 2⟩

/-- The next job is rejected and has connected. -/
def rejecting : List QueueAction := [.enqueue badJob, .deliver 1 "w".toList] ++ replies 1 (serve 1)

/-- A job runs when the next one of its pipeline is rejected. -/
def rejectingMeanwhile : List QueueAction :=
  [.enqueue smallJob, .deliver 0 "w".toList] ++ replies 0 (toLock ++ toRun) ++ rejecting

/-- The handler is about to check the lock before it finishes the job. -/
def Queue.ChecksFor (queue : Queue) (id : Nat) (msg : JobMessage) : Prop :=
  (queue.handlers.lookup id).map Handler.payload = some (.message msg) ∧
    queue.pending id = some (.command (.getLock msg.pipeline))

instance (queue : Queue) (id : Nat) (msg : JobMessage) : Decidable (queue.ChecksFor id msg) :=
  inferInstanceAs (Decidable (_ ∧ _))

/-- A handler that checks a lock waits for the answer to a `GET` of it. -/
theorem Queue.ChecksFor.handler {queue : Queue} {id : Nat} {msg : JobMessage}
    (checks : queue.ChecksFor id msg) :
    ∃ handler next, queue.handlers.lookup id = some handler ∧ handler.payload = .message msg ∧
      handler.program = .call (.command (.getLock msg.pipeline)) next := by
  obtain ⟨handler, runs, isMessage⟩ := Option.map_eq_some_iff.mp checks.1
  obtain ⟨next, isCall⟩ := call_of_pending runs checks.2
  exact ⟨handler, next, runs, isMessage, isCall⟩

/-- Where no other job runs, a rejection withholds only from superseded attempts. -/
theorem withheld_iff_alone : ∃ (queue : Queue) (handler : Handler)
    (next : Except Text (Option Text) → Handling Unit),
    handler.program = .call (.command (.getLock badJob.pipeline)) next ∧
      ((Withholds next (queue.services.redis.locks.lookup badJob.pipeline) →
          Superseded badJob.jobId handler.number
            (queue.services.redis.locks.lookup badJob.pipeline)) ↔
        Unobstructed badJob.jobId handler.number
          (queue.services.redis.locks.lookup badJob.pipeline)) := by
  obtain ⟨queue, reached, checks⟩ := Runs.reaches_of_check (Queue.step .default) (fun _ _ => True)
    (Queue.initial ∅) rejecting (fun queue => queue.ChecksFor 1 badJob) (by decide +kernel)
  obtain ⟨handler, next, runs, isMessage, isCheck⟩ := checks.handler
  exact ⟨queue, handler, next, isCheck, withheld_iff reached runs isMessage isCheck⟩

/-- Where another job runs, it withholds although no attempt of its job was
superseded. -/
theorem rejection_withheld : ∃ (queue : Queue) (handler : Handler)
    (next : Except Text (Option Text) → Handling Unit),
    Runs.Reaches (Queue.step .default) (fun _ _ => True) (Queue.initial ∅) queue ∧
      queue.handlers.lookup 1 = some handler ∧ handler.payload = .message badJob ∧
      handler.program = .call (.command (.getLock badJob.pipeline)) next ∧
      Withholds next (queue.services.redis.locks.lookup badJob.pipeline) ∧
      ¬ Superseded badJob.jobId handler.number
        (queue.services.redis.locks.lookup badJob.pipeline) := by
  obtain ⟨queue, reached, checks, isHeld⟩ := Runs.reaches_of_check (Queue.step .default)
    (fun _ _ => True) (Queue.initial ∅) rejectingMeanwhile
    (fun queue => queue.ChecksFor 1 badJob ∧ queue.services.redis.locks.lookup badJob.pipeline =
      some (fence smallJob.jobId 1)) (by decide +kernel)
  obtain ⟨handler, next, runs, isMessage, isCheck⟩ := checks.handler
  have different : ∀ number, fence smallJob.jobId 1 ≠ fence badJob.jobId number :=
    fun number same => absurd (fence_injective same).1 (by decide)
  refine ⟨queue, handler, next, reached, runs, isMessage, isCheck, ?_, ?_⟩
  · obtain ⟨stages, tracked, _⟩ := reaches_tracked (fun _ _ => True) (initial_tracked ∅) trivial
      (fun _ _ _ _ _ _ _ _ _ => trivial) reached
    rcases tracked.handlers 1 handler runs with ⟨msg, handlerAt⟩ | stray
    · obtain rfl := Payload.message.inj (handlerAt.isMessage.symm.trans isMessage)
      exact (withholds_iff handlerAt isCheck _).2.mpr ⟨_, isHeld, different _⟩
    · obtain ⟨text, isMalformed⟩ := stray.isMalformed
      exact nomatch isMalformed.symm.trans isMessage
  · rintro ⟨newer, _, isHeld'⟩
    exact different newer (Option.some.inj (isHeld.symm.trans isHeld'))

end KaretWorker
