import KaretWorker.HandlerProtocol
import KaretWorker.Library.Index

/-!
# What a step of the queue does

Every running handler is at a stage its program keeps to. `step_successor` says once and
for all what one step of the queue can do: something outside the handlers happens to
Redis, a handler arrives, takes a step of its stage, or stops, or a sweep goes on. The
invariants of later modules are case analyses of `Successor`.

Beside it stand the few facts about single commands that they need: which commands
change the status, the attempt counter or the deliveries, and how.
-/
namespace KaretWorker

open Texts Interaction Indexing

/-! ## Answers -/

/-- A command is answered by its fate. -/
theorem respond_command {services services' : Services} {command : Command} {response : Response}
    {reply : Except Text (Value command)}
    (responded : respond services (.command command) response = some (reply, services')) :
    ∃ fate, response = .fate fate ∧ reply = command.reply services fate ∧
      services' = command.execute services fate := by
  cases response <;>
    simp only [respond, Option.some.injEq, Prod.mk.injEq, reduceCtorEq] at responded
  case fate fate => exact ⟨fate, rfl, responded.1.symm, responded.2.symm⟩

/-- Only commands change the services, settle a job, or do more than start it. -/
theorem respond_other {services services' : Services} {op : Op} {response : Response}
    {reply : OpReply op} (notCommand : ∀ command, op ≠ .command command)
    (responded : respond services op response = some (reply, services')) :
    services' = services ∧ settledBy op response = [] ∧
      (deeds services op response = [] ∨ ∃ pipeline fence, op = .startJob pipeline fence) := by
  cases op with
  | command command => exact absurd rfl (notCommand command)
  | startJob pipeline fence =>
    cases response <;>
      simp only [respond, Option.some.injEq, Prod.mk.injEq, reduceCtorEq] at responded
    exact ⟨responded.2.symm, rfl, Or.inr ⟨pipeline, fence, rfl⟩⟩
  | nowIso | nowMs | scanLive | awaitJob | abortHeartbeat =>
    cases response <;>
      simp only [respond, Option.some.injEq, Prod.mk.injEq, reduceCtorEq] at responded
    exact ⟨responded.2.symm, rfl, Or.inl rfl⟩

/-- A command that was not applied changes nothing. -/
theorem execute_unapplied {services : Services} {command : Command} {fate : Fate}
    (unapplied : fate.applied = false) : command.execute services fate = services := by
  simp [Command.execute, unapplied]

/-- A command that takes effect does so, whatever the caller is told. -/
theorem execute_applied {services : Services} {command : Command} {fate : Fate}
    (applied : fate.applied = true) : command.execute services fate = command.apply services := by
  simp [Command.execute, applied]

/-- A reply without an error is the value of a served command. -/
theorem reply_ok {services : Services} {command : Command} {fate : Fate} {value : Value command}
    (replied : command.reply services fate = .ok value) :
    fate = .served ∧ value = command.value services := by
  cases fate with
  | served => exact ⟨rfl, (Except.ok.inj replied).symm⟩
  | refused error => exact nomatch replied
  | lost error => exact nomatch replied

/-- The deed ends a job or acknowledges its entry. -/
def Deed.final : Deed → Bool
  | .wroteRow | .wroteLive _ | .acked => true
  | .acquired _ | .started => false

/-- The operation ends a job or acknowledges an entry. -/
def Op.final : Op → Bool
  | .command (.markFinished _ _) => true
  | .command (.finishLive _ _ _ _ _ _) => true
  | .command (.xack _) => true
  | .command (.deferEntry _ _ _) => true
  | _ => false

/-- A deed is final with its operation, the start of a run, or takes a lock that was
free. -/
theorem deeds_cases {services : Services} {op : Op} {response : Response} {deed : Deed}
    (member : deed ∈ deeds services op response) :
    (op.final = true ∧ deed.final = true) ∨
      (∃ pipeline fence, op = .startJob pipeline fence ∧ deed = .started) ∨
      ∃ pipeline held ttlMs fate, op = .command (.setLock pipeline held ttlMs) ∧
        response = .fate fate ∧ fate.applied = true ∧
        services.redis.locks.lookup pipeline = none ∧ deed = .acquired held := by
  cases op with
  | command command =>
    cases response with
    | fate fate =>
      simp only [deeds] at member
      split at member
      · next applied =>
        split at member
        · next pipeline held ttlMs =>
          split at member
          · next free =>
            exact Or.inr (Or.inr ⟨pipeline, held, ttlMs, fate, rfl, rfl, applied,
              Option.isNone_iff_eq_none.mp free, List.mem_singleton.mp member⟩)
          · exact absurd member List.not_mem_nil
        · exact Or.inl ⟨rfl, by rw [List.mem_singleton.mp member]; rfl⟩
        · exact Or.inl ⟨rfl, by rw [List.mem_singleton.mp member]; rfl⟩
        · exact Or.inl ⟨rfl, by rw [List.mem_singleton.mp member]; rfl⟩
        · exact Or.inl ⟨rfl, by rw [List.mem_singleton.mp member]; rfl⟩
        · exact absurd member List.not_mem_nil
      · exact absurd member List.not_mem_nil
    | iso | ms | keys | outcome | done => exact absurd member List.not_mem_nil
  | startJob pipeline fence =>
    exact Or.inr (Or.inl ⟨pipeline, fence, rfl, List.mem_singleton.mp member⟩)
  | nowIso | nowMs | scanLive | awaitJob | abortHeartbeat =>
    exact absurd member List.not_mem_nil

/-! ## Live hashes -/

section LiveHashes

variable {redis : Redis} {jobId other : Text}

/-- The hash that was changed. -/
@[simp] theorem hash_setHash_self (redis : Redis) (jobId : Text) (change : LiveHash → LiveHash) :
    (redis.setHash jobId change).hash jobId = change (redis.hash jobId) := by
  simp [Redis.hash, Redis.setHash]

/-- All other hashes are left alone. -/
theorem hash_setHash_ne (change : LiveHash → LiveHash) (different : other ≠ jobId) :
    (redis.setHash jobId change).hash other = redis.hash other := by
  simp [Redis.hash, Redis.setHash, AList.lookup_insert_ne different]

/-- A change that leaves a part of the hash alone leaves it alone in every hash. -/
theorem hash_setHash_part {β : Type} (part : LiveHash → β) (change : LiveHash → LiveHash)
    (leaves : ∀ hash, part (change hash) = part hash) (other : Text) :
    part ((redis.setHash jobId change).hash other) = part (redis.hash other) := by
  by_cases same : other = jobId
  · subst same
    rw [hash_setHash_self, leaves]
  · rw [hash_setHash_ne change same]

/-- A change that leaves the attempts leaves them of every job. -/
theorem attempts_setHash {change : LiveHash → LiveHash}
    (leaves : ∀ hash, (change hash).attempts = hash.attempts) (other : Text) :
    (redis.setHash jobId change).attempts other = redis.attempts other :=
  congrArg (·.getD 0) (hash_setHash_part LiveHash.attempts change leaves other)

/-- A change that leaves the status leaves it of every job. -/
theorem status_setHash {change : LiveHash → LiveHash}
    (leaves : ∀ hash, (change hash).status = hash.status) (other : Text) :
    (redis.setHash jobId change).status other = redis.status other :=
  hash_setHash_part LiveHash.status change leaves other

/-- A new entry changes no status. -/
@[simp] theorem status_append (payload : Payload) (jobId : Text) :
    (redis.append payload).status jobId = redis.status jobId := rfl

/-- A new entry changes no attempts. -/
@[simp] theorem attempts_append (payload : Payload) (jobId : Text) :
    (redis.append payload).attempts jobId = redis.attempts jobId := rfl

/-- The mover leaves the live hashes alone. -/
theorem live_moveOne (due : List JobMessage) :
    (due.foldl Redis.moveOne redis).live = redis.live := by
  induction due generalizing redis with
  | nil => rfl
  | cons msg rest inductionHypothesis =>
    rw [List.foldl_cons, inductionHypothesis]
    rfl

/-- Only an increment changes the attempt counter. -/
theorem attempts_apply (services : Services) (command : Command) (jobId : Text) :
    (command.apply services).redis.attempts jobId =
      match command with
      | .hincrAttempts counted increment =>
        if jobId = counted then services.redis.attempts jobId + increment
        else services.redis.attempts jobId
      | _ => services.redis.attempts jobId := by
  cases command with
  | hincrAttempts counted increment =>
    simp only [Command.apply, Command.applyRedis, Redis.attempts]
    split
    · next same =>
      subst same
      simp
    · next different => rw [hash_setHash_ne _ different]
  | hset counted field =>
    apply attempts_setHash
    intro hash
    cases field <;> rfl
  | finishLive | abandonLive =>
    apply attempts_setHash
    intro hash
    rfl
  | setLock | releaseLock =>
    simp only [Command.apply, Command.applyRedis]
    split <;> rfl
  | connect | hgetStatus | hgetEnqueuedAt | getLock | renewLock | deferEntry | xack | xrange
  | markRunning | markFinished => rfl

/-- An increment counts where it is applied. -/
theorem attempts_increment (services : Services) (counted : Text) (increment : Int) (fate : Fate)
    (jobId : Text) :
    ((Command.hincrAttempts counted increment).execute services fate).redis.attempts jobId =
      if fate.applied = true ∧ jobId = counted then services.redis.attempts jobId + increment
      else services.redis.attempts jobId := by
  cases applied : fate.applied with
  | false => simp [execute_unapplied applied]
  | true =>
    rw [execute_applied applied, attempts_apply]
    simp

/-- Which commands write a status. -/
def Command.writesStatus : Command → Option (Text × Status)
  | .hset jobId (.status status) => some (jobId, status)
  | .finishLive jobId status _ _ _ _ => some (jobId, status)
  | .abandonLive jobId _ _ _ => some (jobId, .abandoned)
  | _ => none

/-- A command that writes no status of a job leaves it alone. -/
theorem status_apply_other {services : Services} {command : Command} {jobId : Text}
    (unwritten : ∀ status, command.writesStatus ≠ some (jobId, status)) :
    (command.apply services).redis.status jobId = services.redis.status jobId := by
  have apart : ∀ {written status}, command.writesStatus = some (written, status) →
      jobId ≠ written := by
    rintro written status writes rfl
    exact unwritten status writes
  cases command with
  | hset written field =>
    cases field with
    | status status =>
      exact congrArg LiveHash.status (hash_setHash_ne _ (apart rfl))
    | worker | startedAt =>
      apply status_setHash
      intro hash
      rfl
  | finishLive | abandonLive => exact congrArg LiveHash.status (hash_setHash_ne _ (apart rfl))
  | hincrAttempts =>
    apply status_setHash
    intro hash
    rfl
  | setLock | releaseLock =>
    simp only [Command.apply, Command.applyRedis]
    split <;> rfl
  | connect | hgetStatus | hgetEnqueuedAt | getLock | renewLock | deferEntry | xack | xrange
  | markRunning | markFinished => rfl

/-- A command that writes a status of a job sets it. -/
theorem status_apply_self {services : Services} {command : Command} {jobId : Text} {status : Status}
    (writes : command.writesStatus = some (jobId, status)) :
    (command.apply services).redis.status jobId = some status := by
  cases command with
  | hset written field =>
    cases field with
    | status written =>
      obtain ⟨rfl, rfl⟩ := Prod.mk.inj (Option.some.inj writes)
      exact congrArg LiveHash.status (hash_setHash_self _ _ _)
    | worker | startedAt => exact nomatch writes
  | finishLive | abandonLive =>
    obtain ⟨rfl, rfl⟩ := Prod.mk.inj (Option.some.inj writes)
    exact congrArg LiveHash.status (hash_setHash_self _ _ _)
  | connect | hgetStatus | hgetEnqueuedAt | hincrAttempts | setLock | getLock | releaseLock
  | renewLock | deferEntry | xack | xrange | markRunning | markFinished => exact nomatch writes

end LiveHashes

/-! ## Handlers at their stages -/

/-- The message's prefix has the accepted shape. -/
def JobMessage.Valid (msg : JobMessage) : Prop := validatePipelinePrefix msg.pipelinePrefix = .ok ()

/-- An attempt finishes only valid messages, a rejection only invalid ones. -/
def Closer.Sound (msg : JobMessage) : Closer → Prop
  | .rejected => ¬ msg.Valid
  | .attempt _ => msg.Valid

/-- What is known of a message and the attempt at each stage. -/
def Stage.Sound (settings : QueueSettings) (msg : JobMessage) : Stage → Prop
  | .arriving | .over => True
  | .guarding | .dismissing | .counting => msg.Valid
  | .locking attempt | .yielding attempt | .deferring attempt | .preparing attempt
  | .executing attempt | .returning attempt | .requeueing attempt =>
    msg.Valid ∧ attempt ≤ settings.maxAttempts
  | .checking closer status | .recording closer status | .publishing closer status =>
    closer.Sound msg ∧ status.terminal = true
  | .releasing closer | .acking closer => closer.Sound msg

/-- The number of an attempt that closes. -/
def Closer.attempt? : Closer → Option Nat
  | .rejected => none
  | .attempt number => some number

/-- The attempt a handler at the stage was numbered as. -/
def Stage.attempt? : Stage → Option Nat
  | .arriving | .guarding | .dismissing | .counting | .over => none
  | .locking attempt | .yielding attempt | .deferring attempt | .preparing attempt
  | .executing attempt | .returning attempt | .requeueing attempt => some attempt
  | .checking closer _ | .recording closer _ | .publishing closer _ | .releasing closer
  | .acking closer => closer.attempt?

/-- A handler at the stage is past the look at its job. -/
def Stage.admitted : Stage → Bool
  | .arriving | .guarding | .dismissing | .over => false
  | .checking .rejected _ => false
  | _ => true

section Stages

variable {settings : QueueSettings} {msg : JobMessage} {entry : Nat} {stage stage' : Stage}
  {op : Op}
  {reply : OpReply op}

/-- The status a run ends with is terminal. -/
theorem terminal_status (outcome : JobOutcome) : outcome.terminal.status.terminal = true := by
  simp only [JobOutcome.terminal]
  split <;> rfl

/-- The stage after a run suits the message and the bound. -/
theorem afterRun_sound {attempt : Nat} (valid : msg.Valid) (within : attempt ≤ settings.maxAttempts)
    (outcome : Except JobError JobOutcome) : (afterRun attempt outcome).Sound settings msg := by
  rcases outcome with (error | error | errors | _ | error | _) | outcome
  · exact ⟨valid, within⟩
  · exact ⟨valid, rfl⟩
  · exact ⟨valid, rfl⟩
  · exact ⟨valid, rfl⟩
  · exact ⟨valid, rfl⟩
  · trivial
  · exact ⟨valid, terminal_status outcome⟩

/-- What is known at a stage is known after each of its steps. -/
theorem Step.sound (step : Step settings msg entry stage op reply stage')
    (sound : stage.Sound settings msg) : stage'.Sound settings msg := by
  cases step with
  | idle | prepared | begun | cleared | recorded | yielded | busy | locked => exact sound
  | unconnected | dismissed | unlocked | deferred | unchecked | withheld | unpublished | unreleased
  | acked => trivial
  | accepted valid => exact valid
  | rejected invalid =>
    refine ⟨?_, rfl⟩
    intro valid
    rw [JobMessage.Valid] at valid
    rw [valid] at invalid
    exact nomatch invalid
  | seen | unseen => exact sound
  | gaveUp => exact ⟨sound, rfl⟩
  | counted reply within => exact ⟨sound, within⟩
  | ended attempt outcome => exact afterRun_sound sound.1 sound.2 outcome
  | exhausted => exact ⟨sound.1, rfl⟩
  | returned | requeued => exact sound
  | published => exact sound.1
  | released => exact sound

end Stages

/-- A running handler of a message is at the stage. -/
structure HandlerAt (settings : QueueSettings) (handler : Handler) (msg : JobMessage)
    (stage : Stage) : Prop where
  isMessage : handler.payload = .message msg
  keeps : HandlerKeeps settings msg handler.entry (fun _ stage => stage = .over) handler.program
    stage
  sound : stage.Sound settings msg
  numbered : stage ≠ .over → handler.attempt = stage.attempt?
  looked : stage ≠ .over → handler.admitted = stage.admitted
  renews : ∀ lock, handler.lock = some lock → ∃ attempt, handler.attempt = some attempt ∧
    lock = (msg.pipeline, fence msg.jobId attempt)

/-- A running handler of a malformed payload. -/
structure Stray (handler : Handler) : Prop where
  isMalformed : ∃ text, handler.payload = .malformed text
  unnumbered : handler.attempt = none
  acks : handler.program.Calls
    (fun op => op = .command .connect ∨ op = .command (.xack handler.entry))

section HandlerAt

variable {settings : QueueSettings} {handler : Handler} {msg : JobMessage} {stage stage' : Stage}
  {op : Op}

/-- A handler that was just given a message has arrived. -/
theorem fresh_at (settings : QueueSettings) (worker : Text) (entry : Nat) (msg : JobMessage) :
    HandlerAt settings (.fresh settings worker entry (.message msg)) msg .arriving where
  isMessage := rfl
  keeps := handleClaimed_keeps worker
  sound := trivial
  numbered := fun _ => rfl
  looked := fun _ => rfl
  renews := fun _ impossible => nomatch impossible

/-- A new handler of a malformed payload only acknowledges it. -/
theorem fresh_stray (settings : QueueSettings) (worker : Text) (entry : Nat) (text : Text) :
    Stray (.fresh settings worker entry (.malformed text)) where
  isMalformed := ⟨text, rfl⟩
  unnumbered := rfl
  acks := handleClaimed_malformed settings worker entry text

/-- What the history of a handler keeps of an operation. -/
theorem advance_payload (handler : Handler) (op : Op) (reply : OpReply op) (rest : Handling Unit) :
    (handler.advance op reply rest).payload = handler.payload ∧
      (handler.advance op reply rest).entry = handler.entry ∧
      (handler.advance op reply rest).program = rest := by
  unfold Handler.advance
  split <;> exact ⟨rfl, rfl, rfl⟩

/-- Idle operations leave the history of a handler alone. -/
theorem advance_idle {reply : OpReply op} {rest : Handling Unit} (isIdle : op.idle = true) :
    (handler.advance op reply rest).attempt = handler.attempt ∧
      (handler.advance op reply rest).admitted = handler.admitted := by
  cases op with
  | nowIso | nowMs | abortHeartbeat => exact ⟨rfl, rfl⟩
  | command | scanLive | startJob | awaitJob => exact nomatch isIdle

/-- The preparations of a run leave the attempt and what was admitted. -/
theorem advance_prepares {reply : OpReply op} {rest : Handling Unit}
    (prepares : op.prepares msg = true) :
    (handler.advance op reply rest).attempt = handler.attempt ∧
      (handler.advance op reply rest).admitted = handler.admitted := by
  unfold Op.prepares at prepares
  split at prepares
  · exact ⟨rfl, rfl⟩
  · exact ⟨rfl, rfl⟩
  · exact ⟨rfl, rfl⟩
  · exact ⟨rfl, rfl⟩
  · exact nomatch prepares

/-- What the outcome of a run leaves is the attempt's, past the look, or over. -/
theorem afterRun_history {attempt : Nat} (outcome : Except JobError JobOutcome)
    (goesOn : afterRun attempt outcome ≠ .over) :
    (afterRun attempt outcome).attempt? = some attempt ∧
      (afterRun attempt outcome).admitted = true := by
  rcases outcome with (error | error | errors | _ | error | _) | outcome
  · exact ⟨rfl, rfl⟩
  · exact ⟨rfl, rfl⟩
  · exact ⟨rfl, rfl⟩
  · exact ⟨rfl, rfl⟩
  · exact ⟨rfl, rfl⟩
  · exact absurd rfl goesOn
  · exact ⟨rfl, rfl⟩

/-- The history follows the stages. -/
theorem Step.history {entry : Nat} {reply : OpReply op} (rest : Handling Unit)
    (step : Step settings msg entry stage op reply stage')
    (before : stage ≠ .over →
      handler.attempt = stage.attempt? ∧ handler.admitted = stage.admitted)
    (goesOn : stage' ≠ .over) :
    (handler.advance op reply rest).attempt = stage'.attempt? ∧
      (handler.advance op reply rest).admitted = stage'.admitted := by
  cases step with
  | idle stage op reply isIdle =>
    rw [(advance_idle isIdle).1, (advance_idle isIdle).2]
    exact before goesOn
  | prepared attempt op reply prepares =>
    rw [(advance_prepares prepares).1, (advance_prepares prepares).2]
    exact before goesOn
  | unconnected | dismissed | unlocked | deferred | unchecked | withheld | unpublished | unreleased
  | acked => exact absurd rfl goesOn
  | rejected | accepted | busy | locked | yielded | begun | exhausted | returned | requeued
  | recorded | published | released => exact before (fun impossible => nomatch impossible)
  | seen reply terminal =>
    obtain ⟨numbered, _⟩ := before (fun impossible => nomatch impossible)
    exact ⟨numbered, by simp [Handler.advance, terminal, Stage.admitted]⟩
  | unseen reply unsettled =>
    obtain ⟨numbered, _⟩ := before (fun impossible => nomatch impossible)
    exact ⟨numbered, by simp [Handler.advance, unsettled, Stage.admitted]⟩
  | gaveUp | counted =>
    obtain ⟨_, looked⟩ := before (fun impossible => nomatch impossible)
    exact ⟨rfl, looked⟩
  | ended attempt outcome =>
    obtain ⟨numbered, looked⟩ := before (fun impossible => nomatch impossible)
    obtain ⟨numbered', looked'⟩ := afterRun_history outcome goesOn
    rw [numbered', looked']
    exact ⟨numbered, looked⟩
  | cleared closer =>
    obtain ⟨numbered, _⟩ := before (fun impossible => nomatch impossible)
    exact ⟨numbered, rfl⟩

/-- A lock to renew is the one of the attempt. -/
theorem Step.renews {entry : Nat} {reply : OpReply op} (rest : Handling Unit)
    (step : Step settings msg entry stage op reply stage')
    (before : stage ≠ .over → handler.attempt = stage.attempt?)
    (renews : ∀ lock, handler.lock = some lock → ∃ attempt, handler.attempt = some attempt ∧
      lock = (msg.pipeline, fence msg.jobId attempt))
    (lock : Text × Text) (holds : (handler.advance op reply rest).lock = some lock) :
    ∃ attempt, (handler.advance op reply rest).attempt = some attempt ∧
      lock = (msg.pipeline, fence msg.jobId attempt) := by
  cases step with
  | idle stage op reply isIdle =>
    cases op with
    | nowIso | nowMs => exact renews lock holds
    | abortHeartbeat => exact nomatch holds
    | command | scanLive | startJob | awaitJob => exact nomatch isIdle
  | prepared attempt op reply prepares =>
    unfold Op.prepares at prepares
    split at prepares
    · exact renews lock holds
    · exact renews lock holds
    · exact renews lock holds
    · exact renews lock holds
    · exact nomatch prepares
  | begun attempt =>
    obtain rfl := Option.some.inj holds
    exact ⟨attempt, before (fun impossible => nomatch impossible), rfl⟩
  | gaveUp | counted =>
    -- A handler that counts has no attempt yet, so it has no lock either.
    obtain ⟨attempt, numbered, _⟩ := renews lock holds
    exact nomatch numbered.symm.trans (before (fun impossible => nomatch impossible))
  | unconnected | rejected | accepted | seen | unseen | dismissed | unlocked | busy | locked
  | yielded | deferred | ended | exhausted | returned | requeued | unchecked | withheld | cleared
  | recorded | unpublished | published | unreleased | released | acked => exact renews lock holds

/-- A handler at a stage takes a step of that stage, whatever the reply to its
operation, and is at the stage the step leads to. -/
theorem HandlerAt.advance (handlerAt : HandlerAt settings handler msg stage)
    {next : OpReply op → Handling Unit} (isCall : handler.program = .call op next)
    (reply : OpReply op) :
    ∃ stage', Step settings msg handler.entry stage op reply stage' ∧
      HandlerAt settings (handler.advance op reply (next reply)) msg stage' := by
  have keeps := handlerAt.keeps
  rw [isCall] at keeps
  obtain ⟨stage', step, further⟩ := keeps reply trivial
  obtain ⟨samePayload, sameEntry, isNext⟩ := advance_payload handler op reply (next reply)
  have history := step.history (next reply)
    (fun goesOn => ⟨handlerAt.numbered goesOn, handlerAt.looked goesOn⟩)
  refine ⟨stage', step, ?_, ?_, step.sound handlerAt.sound, fun goesOn => (history goesOn).1,
    fun goesOn => (history goesOn).2, step.renews (next reply) handlerAt.numbered handlerAt.renews⟩
  · rw [samePayload, handlerAt.isMessage]
  · rw [sameEntry, isNext]
    exact further

/-- A stray handler goes on as one. -/
theorem Stray.advance (stray : Stray handler) {next : OpReply op → Handling Unit}
    (isCall : handler.program = .call op next) (reply : OpReply op) :
    (op = .command .connect ∨ op = .command (.xack handler.entry)) ∧
      Stray (handler.advance op reply (next reply)) := by
  have acks := stray.acks
  rw [isCall] at acks
  obtain ⟨samePayload, sameEntry, isNext⟩ := advance_payload handler op reply (next reply)
  refine ⟨acks.1, ?_, ?_, ?_⟩
  · rw [samePayload]
    exact stray.isMalformed
  · rcases acks.1 with rfl | rfl <;> exact stray.unnumbered
  · rw [sameEntry, isNext]
    exact acks.2 reply

end HandlerAt

/-! ## Steps of the queue -/

/-- Every running handler is at its stage, or stray, and every sweep keeps to its
steps. -/
structure Tracked (settings : QueueSettings) (queue : Queue) (stages : Nat → Stage) : Prop where
  handlers : ∀ id handler, queue.handlers.lookup id = some handler →
    (∃ msg, HandlerAt settings handler msg (stages id)) ∨ Stray handler
  sweeps : ∀ id sweep, queue.sweeps.lookup id = some sweep → SweepKeeps sweep.program sweep.held

/-- What happens to Redis outside of handlers and sweeps. -/
inductive Outside (redis : Redis) : QueueAction → Redis → Prop
  | poisoned (text : Text) : Outside redis (.poison text) (redis.append (.malformed text))
  | progressed (id : Nat) (jobId : Text) :
      Outside redis (.progress id) (redis.setHash jobId (fun hash => hash))
  | moved (now : Int) (due : List JobMessage) (isDue : Due redis.delayed now due) :
      Outside redis (.move now due) (due.foldl Redis.moveOne redis)
  | trimmed : Outside redis .trim { redis with entries := redis.entries.tail }
  | lockExpired (pipeline : Text) :
      Outside redis (.expireLock pipeline) { redis with locks := redis.locks.erase pipeline }
  | liveExpired (jobId : Text) :
      Outside redis (.expireLive jobId) { redis with live := redis.live.erase jobId }

/-- An entry and what Redis is like once it was delivered or reclaimed. -/
inductive Handed (redis : Redis) (id : Nat) (worker : Text) : QueueAction → Nat → Payload → Redis → Prop
  | delivered (entry : Nat) (payload : Payload)
      (isNext : redis.nextUnread = some (entry, payload)) :
      Handed redis id worker (.deliver id worker) entry payload
        { redis with unread := entry + 1, pending := entry :: redis.pending }
  | reclaimed (entry : Nat) (payload : Payload) (isThere : redis.payloadAt entry = some payload)
      (isPending : entry ∈ redis.pending) :
      Handed redis id worker (.reclaim id worker entry) entry payload redis

/-- What one step does to a queue whose handlers are at the given stages. -/
inductive Successor (settings : QueueSettings) (queue : Queue) (stages : Nat → Stage) :
    QueueAction → Queue → (Nat → Stage) → Prop
  | enqueued (msg : JobMessage) :
      Successor settings queue stages (.enqueue msg)
        { queue.withRedis (queue.services.redis.enqueue msg) with
          enqueued := msg :: queue.enqueued } stages
  | outside (action : QueueAction) (redis : Redis) (happens : Outside queue.services.redis action redis) :
      Successor settings queue stages action (queue.withRedis redis) stages
  | arrived (action : QueueAction) (id : Nat) (worker : Text) (entry : Nat) (payload : Payload)
      (redis : Redis) (isNew : queue.handlers.lookup id = none)
      (handed : Handed queue.services.redis id worker action entry payload redis) :
      Successor settings queue stages action
        ((queue.withRedis redis).claim settings id worker entry payload)
        (Function.update stages id .arriving)
  | stepped (id : Nat) (handler : Handler) (msg : JobMessage) (op : Op)
      (next : OpReply op → Handling Unit) (response : Response) (reply : OpReply op)
      (services : Services) (stage' : Stage) (runs : queue.handlers.lookup id = some handler)
      (handlerAt : HandlerAt settings handler msg (stages id)) (isCall : handler.program = .call op next)
      (permits : handler.permits response = true)
      (responded : respond queue.services op response = some (reply, services))
      (step : Step settings msg handler.entry (stages id) op reply stage')
      (handlerAt' : HandlerAt settings (handler.advance op reply (next reply)) msg stage') :
      Successor settings queue stages (.answer id response)
        { queue with
          services := services
          handlers := keepRunning queue.handlers id (handler.advance op reply (next reply))
          settled := settledBy op response ++ queue.settled
          log := (deeds queue.services op response).map
            (fun deed => ⟨id, msg.jobId, handler.attempt, deed⟩) ++ queue.log }
        (Function.update stages id stage')
  | strayed (id : Nat) (handler : Handler) (command : Command)
      (next : Except Text (Value command) → Handling Unit) (fate : Fate)
      (runs : queue.handlers.lookup id = some handler) (stray : Stray handler)
      (isCall : handler.program = .call (.command command) next)
      (harmless : command = .connect ∨ command = .xack handler.entry)
      (stray' : Stray (handler.advance (.command command) (command.reply queue.services fate)
        (next (command.reply queue.services fate)))) :
      Successor settings queue stages (.answer id (.fate fate))
        { queue with
          services := command.execute queue.services fate
          handlers := keepRunning queue.handlers id (handler.advance (.command command)
            (command.reply queue.services fate) (next (command.reply queue.services fate))) }
        stages
  | cancelled (id : Nat) (handler : Handler) (fate : Fate)
      (runs : queue.handlers.lookup id = some handler) :
      Successor settings queue stages (.beat id fate)
        { queue with handlers := queue.handlers.insert id { handler with cancelled := true } } stages
  | renewed (id : Nat) (fate : Fate) : Successor settings queue stages (.beat id fate) queue stages
  | crashed (id : Nat) :
      Successor settings queue stages (.crash id)
        { queue with handlers := queue.handlers.erase id } stages
  | sweeping (id : Nat) (isNew : queue.sweeps.lookup id = none) :
      Successor settings queue stages (.sweep id)
        { queue with
          sweeps := queue.sweeps.insert id ⟨sweepOrphanedLiveHashes settings, none⟩ } stages
  | swept (id : Nat) (sweep : Sweep) (op : Op) (next : OpReply op → Handling (Except Text Unit))
      (response : Response) (reply : OpReply op) (services : Services)
      (runs : queue.sweeps.lookup id = some sweep) (isCall : sweep.program = .call op next)
      (responded : respond queue.services op response = some (reply, services))
      (step : SweepStep sweep.held op reply (sweep.advance op reply (next reply)).held) :
      Successor settings queue stages (.answerSweep id response)
        { queue with
          services := services
          sweeps := keepSweeping queue.sweeps id (sweep.advance op reply (next reply))
          settled := settledBy op response ++ queue.settled } stages
  | stopped (id : Nat) :
      Successor settings queue stages (.stopSweep id)
        { queue with sweeps := queue.sweeps.erase id } stages

section Successor

variable {settings : QueueSettings} {queue after : Queue} {stages : Nat → Stage}

/-- Whoever runs after a handler took a step is that handler or ran before. -/
theorem lookup_keepRunning {handlers : AList (fun _ : Nat => Handler)} {id other : Nat}
    {handler found : Handler} (runs : (keepRunning handlers id handler).lookup other = some found) :
    (other = id ∧ found = handler) ∨ (other ≠ id ∧ handlers.lookup other = some found) := by
  unfold keepRunning at runs
  split at runs
  · exact Or.inr (lookup_of_erase runs)
  · exact lookup_of_insert runs

/-- A sweep that is found is the one that took its step, or another one as it was. -/
theorem lookup_keepSweeping {sweeps : AList (fun _ : Nat => Sweep)} {id other : Nat}
    {sweep found : Sweep} (runs : (keepSweeping sweeps id sweep).lookup other = some found) :
    (other = id ∧ found = sweep) ∨ (other ≠ id ∧ sweeps.lookup other = some found) := by
  unfold keepSweeping at runs
  split at runs
  · exact Or.inr (lookup_of_erase runs)
  · exact lookup_of_insert runs

/-- A sweep takes one of its steps, whatever the reply to its operation. -/
theorem SweepKeeps.advance {sweep : Sweep} {op : Op}
    {next : OpReply op → Handling (Except Text Unit)}
    (keeps : SweepKeeps sweep.program sweep.held) (isCall : sweep.program = .call op next)
    (reply : OpReply op) :
    SweepStep sweep.held op reply (sweep.advance op reply (next reply)).held ∧
      SweepKeeps (sweep.advance op reply (next reply)).program
        (sweep.advance op reply (next reply)).held := by
  obtain ⟨program, held⟩ := sweep
  simp only at keeps isCall
  subst isCall
  obtain ⟨held', step, further⟩ := keeps reply trivial
  have isNext : (Sweep.advance ⟨.call op next, held⟩ op reply (next reply)).program =
    next reply := by
    unfold Sweep.advance
    split <;> rfl
  have isHeld : (Sweep.advance ⟨.call op next, held⟩ op reply (next reply)).held = held' := by
    cases step with
    | looked | abandoned | dated | ranged | scanned => rfl
    | idle held op reply isIdle =>
      cases op with
      | nowIso | nowMs | abortHeartbeat => rfl
      | command | scanLive | startJob | awaitJob => exact nomatch isIdle
  rw [isNext, isHeld]
  exact ⟨step, further⟩

/-- The handlers and sweeps of a successor are tracked again. -/
theorem Successor.tracked {action : QueueAction} {stages' : Nat → Stage}
    (successor : Successor settings queue stages action after stages')
    (tracked : Tracked settings queue stages) : Tracked settings after stages' := by
  have elsewhere : ∀ {id other : Nat} {stage : Stage} {handler : Handler}, other ≠ id →
      queue.handlers.lookup other = some handler →
      (∃ msg, HandlerAt settings handler msg (Function.update stages id stage other)) ∨
        Stray handler := by
    intro id other stage handler different runs
    rw [Function.update_of_ne different]
    exact tracked.handlers other handler runs
  cases successor with
  | enqueued | outside | renewed => exact ⟨tracked.handlers, tracked.sweeps⟩
  | arrived _ id worker entry payload redis isNew handed =>
    refine ⟨fun other handler runs => ?_, tracked.sweeps⟩
    rcases lookup_of_insert runs with ⟨rfl, rfl⟩ | ⟨different, runs⟩
    · rw [Function.update_self]
      cases payload with
      | message msg => exact Or.inl ⟨msg, fresh_at settings worker entry msg⟩
      | malformed text => exact Or.inr (fresh_stray settings worker entry text)
    · exact elsewhere different runs
  | stepped id handler msg op next response reply services stage' runs handlerAt isCall permits
      responded step handlerAt' =>
    refine ⟨fun other found runs => ?_, tracked.sweeps⟩
    rcases lookup_keepRunning runs with ⟨rfl, rfl⟩ | ⟨different, runs⟩
    · rw [Function.update_self]
      exact Or.inl ⟨msg, handlerAt'⟩
    · exact elsewhere different runs
  | strayed id handler command next fate runs stray isCall harmless stray' =>
    refine ⟨fun other found runs => ?_, tracked.sweeps⟩
    rcases lookup_keepRunning runs with ⟨rfl, rfl⟩ | ⟨different, runs⟩
    · exact Or.inr stray'
    · exact tracked.handlers other found runs
  | cancelled id handler fate runs =>
    refine ⟨fun other found foundRuns => ?_, tracked.sweeps⟩
    rcases lookup_of_insert foundRuns with ⟨rfl, rfl⟩ | ⟨_, foundRuns⟩
    · rcases tracked.handlers _ handler runs with ⟨msg, handlerAt⟩ | stray
      · exact Or.inl ⟨msg, ⟨handlerAt.isMessage, handlerAt.keeps, handlerAt.sound,
          handlerAt.numbered, handlerAt.looked, handlerAt.renews⟩⟩
      · exact Or.inr ⟨stray.isMalformed, stray.unnumbered, stray.acks⟩
    · exact tracked.handlers other found foundRuns
  | crashed id =>
    exact ⟨fun other found runs => tracked.handlers other found (lookup_of_erase runs).2,
      tracked.sweeps⟩
  | sweeping id isNew =>
    refine ⟨tracked.handlers, fun other found runs => ?_⟩
    rcases lookup_of_insert runs with ⟨rfl, rfl⟩ | ⟨_, runs⟩
    · exact sweep_keeps settings
    · exact tracked.sweeps other found runs
  | swept id sweep op next response reply services runs isCall responded step =>
    refine ⟨tracked.handlers, fun other found foundRuns => ?_⟩
    rcases lookup_keepSweeping foundRuns with ⟨rfl, rfl⟩ | ⟨_, foundRuns⟩
    · exact ((tracked.sweeps _ sweep runs).advance isCall reply).2
    · exact tracked.sweeps other found foundRuns
  | stopped id =>
    exact ⟨tracked.handlers,
      fun other found runs => tracked.sweeps other found (lookup_of_erase runs).2⟩

/-- Every step of a queue with its handlers at their stages is one of the listed
ones. -/
theorem step_successor (tracked : Tracked settings queue stages) {action : QueueAction}
    (stepped : queue.step settings action = some after) :
    ∃ stages', Successor settings queue stages action after stages' := by
  cases action with
  | enqueue msg =>
    obtain rfl := Option.some.inj stepped
    exact ⟨stages, .enqueued msg⟩
  | poison text =>
    obtain rfl := Option.some.inj stepped
    exact ⟨stages, .outside _ _ (.poisoned text)⟩
  | deliver id worker =>
    simp only [Queue.step] at stepped
    split at stepped
    · next entry payload isNew isNext =>
      obtain rfl := Option.some.inj stepped
      exact ⟨_, .arrived _ id worker entry payload _ isNew (.delivered entry payload isNext)⟩
    · exact nomatch stepped
  | reclaim id worker entry =>
    simp only [Queue.step] at stepped
    split at stepped
    · next payload isNew isThere =>
      split at stepped
      · next isPending =>
        obtain rfl := Option.some.inj stepped
        exact ⟨_, .arrived _ id worker entry payload _ isNew
          (.reclaimed entry payload isThere isPending)⟩
      · exact nomatch stepped
    · exact nomatch stepped
  | answer id response =>
    simp only [Queue.step] at stepped
    split at stepped
    · next handler runs =>
      split at stepped
      · next op next isCall =>
        split at stepped
        · next reply services responded =>
          split at stepped
          · next permits =>
            obtain rfl := Option.some.inj stepped
            rcases tracked.handlers id handler runs with ⟨msg, handlerAt⟩ | stray
            · obtain ⟨stage', step, handlerAt'⟩ := handlerAt.advance isCall reply
              simp only [Handler.happenings, handlerAt.isMessage]
              exact ⟨_, .stepped id handler msg op next response reply services stage' runs
                handlerAt
                isCall permits responded step handlerAt'⟩
            · obtain ⟨isAck, stray'⟩ := stray.advance isCall reply
              have isCommand : ∃ command, op = .command command ∧
                  (command = .connect ∨ command = .xack handler.entry) := by
                rcases isAck with rfl | rfl
                · exact ⟨_, rfl, Or.inl rfl⟩
                · exact ⟨_, rfl, Or.inr rfl⟩
              obtain ⟨command, rfl, harmless⟩ := isCommand
              obtain ⟨fate, rfl, rfl, rfl⟩ := respond_command responded
              have unsettled : settledBy (.command command) (.fate fate) = [] := by
                rcases harmless with rfl | rfl <;> simp [settledBy, Command.settles]
              obtain ⟨text, isMalformed⟩ := stray.isMalformed
              simp only [Handler.happenings, isMalformed, unsettled, List.nil_append]
              exact ⟨stages,
                .strayed id handler command next fate runs stray isCall harmless stray'⟩
          · exact nomatch stepped
        · exact nomatch stepped
      · exact nomatch stepped
    · exact nomatch stepped
  | beat id fate =>
    simp only [Queue.step] at stepped
    split at stepped
    · next handler runs =>
      split at stepped
      · exact nomatch stepped
      · obtain ⟨lock, _, same⟩ := Option.map_eq_some_iff.mp stepped
        subst same
        unfold Queue.beat
        split
        · exact ⟨stages, .cancelled id handler fate runs⟩
        · exact ⟨stages, .renewed id fate⟩
        · exact ⟨stages, .renewed id fate⟩
    · exact nomatch stepped
  | progress id =>
    simp only [Queue.step] at stepped
    split at stepped
    · split at stepped
      · next msg _ _ _ =>
        obtain rfl := Option.some.inj stepped
        exact ⟨stages, .outside _ _ (.progressed id msg.jobId)⟩
      · exact nomatch stepped
    · exact nomatch stepped
  | crash id =>
    obtain rfl := Option.some.inj stepped
    exact ⟨stages, .crashed id⟩
  | move now due =>
    simp only [Queue.step] at stepped
    split at stepped
    · next isDue =>
      obtain rfl := Option.some.inj stepped
      exact ⟨stages, .outside _ _ (.moved now due isDue)⟩
    · exact nomatch stepped
  | trim =>
    obtain rfl := Option.some.inj stepped
    exact ⟨stages, .outside _ _ .trimmed⟩
  | expireLock pipeline =>
    obtain rfl := Option.some.inj stepped
    exact ⟨stages, .outside _ _ (.lockExpired pipeline)⟩
  | expireLive jobId =>
    obtain rfl := Option.some.inj stepped
    exact ⟨stages, .outside _ _ (.liveExpired jobId)⟩
  | sweep id =>
    simp only [Queue.step] at stepped
    split at stepped
    · next isNew =>
      obtain rfl := Option.some.inj stepped
      exact ⟨stages, .sweeping id isNew⟩
    · exact nomatch stepped
  | answerSweep id response =>
    simp only [Queue.step] at stepped
    split at stepped
    · next sweep runs =>
      split at stepped
      · next op next isCall =>
        split at stepped
        · next reply services responded =>
          obtain rfl := Option.some.inj stepped
          exact ⟨stages, .swept id sweep op next response reply services runs isCall responded
            ((tracked.sweeps id sweep runs).advance isCall reply).1⟩
        · exact nomatch stepped
      · exact nomatch stepped
    · exact nomatch stepped
  | stopSweep id =>
    obtain rfl := Option.some.inj stepped
    exact ⟨stages, .stopped id⟩

/-- The initial queue has no handlers. -/
theorem initial_tracked (rows : AList (fun _ : Text => JobRow)) :
    Tracked settings (Queue.initial rows) (fun _ => .over) :=
  ⟨fun _ _ impossible => (nomatch impossible), fun _ _ impossible => (nomatch impossible)⟩

/-- An invariant of queues and stages that every successor keeps holds, at some
stages, in every queue a run reaches. -/
theorem reaches_tracked {rule : Queue → QueueAction → Prop} (inv : Queue → (Nat → Stage) → Prop)
    {start : Queue} {startStages : Nat → Stage} (isTracked : Tracked settings start startStages)
    (initially : inv start startStages)
    (kept : ∀ before stages action next stages', Tracked settings before stages →
      inv before stages → rule before action →
      Successor settings before stages action next stages' → inv next stages')
    (reached : Runs.Reaches (Queue.step settings) rule start queue) :
    ∃ stages, Tracked settings queue stages ∧ inv queue stages := by
  apply reached.invariant (fun queue => ∃ stages, Tracked settings queue stages ∧ inv queue stages)
    ⟨startStages, isTracked, initially⟩
  rintro before action next ⟨stages, tracked, holds⟩ admits stepped
  obtain ⟨stages', successor⟩ := step_successor tracked stepped
  exact ⟨stages', successor.tracked tracked, kept before stages action next stages' tracked holds
    admits successor⟩

/-- A handler of a message took a step of its stage. -/
structure Stepped (settings : QueueSettings) (queue : Queue) (stages : Nat → Stage)
    (action : QueueAction) (after : Queue) (id : Nat) (handler : Handler) (msg : JobMessage) (op : Op)
    (next : OpReply op → Handling Unit) (response : Response) (reply : OpReply op)
    (stage' : Stage) : Prop where
  isAction : action = .answer id response
  runs : queue.handlers.lookup id = some handler
  handlerAt : HandlerAt settings handler msg (stages id)
  isCall : handler.program = .call op next
  responded : respond queue.services op response = some (reply, after.services)
  step : Step settings msg handler.entry (stages id) op reply stage'
  handlerAt' : HandlerAt settings (handler.advance op reply (next reply)) msg stage'
  isAfter : after.handlers = keepRunning queue.handlers id (handler.advance op reply (next reply))
  isLog : after.log = (deeds queue.services op response).map
    (fun deed => ⟨id, msg.jobId, handler.attempt, deed⟩) ++ queue.log

/-- What holds of every running handler of a message holds of them after a step, if it
is kept where a handler is left alone, and holds of one that arrives or goes on. -/
theorem Successor.each {action : QueueAction} {stages' : Nat → Stage}
    (successor : Successor settings queue stages action after stages')
    (tracked : Tracked settings queue stages)
    (property property' : Nat → Handler → JobMessage → Stage → Prop)
    (holds : ∀ id handler msg, queue.handlers.lookup id = some handler →
      HandlerAt settings handler msg (stages id) → property id handler msg (stages id))
    (kept : ∀ id handler msg stage, queue.handlers.lookup id = some handler →
      HandlerAt settings handler msg stage → stages id = stage → property id handler msg stage →
      property' id handler msg stage)
    (arrives : ∀ id worker entry msg redis,
      Handed queue.services.redis id worker action entry (.message msg) redis →
      property' id (.fresh settings worker entry (.message msg)) msg .arriving)
    (steps : ∀ id handler msg op next response reply stage',
      Stepped settings queue stages action after id handler msg op next response reply stage' →
      property id handler msg (stages id) →
      property' id (handler.advance op reply (next reply)) msg stage')
    (cancels : ∀ id handler msg stage, property' id handler msg stage →
      property' id { handler with cancelled := true } msg stage)
    (id : Nat) (handler : Handler) (msg : JobMessage)
    (runs : after.handlers.lookup id = some handler)
    (handlerAt : HandlerAt settings handler msg (stages' id)) :
    property' id handler msg (stages' id) := by
  have elsewhere : ∀ {other : Nat} {stage : Stage}, id ≠ other →
      HandlerAt settings handler msg (Function.update stages other stage id) →
      queue.handlers.lookup id = some handler →
      property' id handler msg (Function.update stages other stage id) := by
    intro other stage different handlerAt runs
    rw [Function.update_of_ne different] at handlerAt ⊢
    exact kept id handler msg _ runs handlerAt rfl (holds id handler msg runs handlerAt)
  have unmoved : queue.handlers.lookup id = some handler →
      HandlerAt settings handler msg (stages id) → property' id handler msg (stages id) :=
    fun runs handlerAt =>
      kept id handler msg _ runs handlerAt rfl (holds id handler msg runs handlerAt)
  cases successor with
  | enqueued | outside | renewed | sweeping | swept | stopped => exact unmoved runs handlerAt
  | arrived _ arriving worker entry payload redis isNew handed =>
    rcases lookup_of_insert runs with ⟨rfl, rfl⟩ | ⟨different, runs⟩
    · rw [Function.update_self] at handlerAt ⊢
      obtain rfl : payload = .message msg := handlerAt.isMessage
      exact arrives id worker entry msg redis handed
    · exact elsewhere different handlerAt runs
  | stepped stepping found msg' op next response reply services stage' foundRuns foundAt isCall
      permits responded step foundAt' =>
    rcases lookup_keepRunning runs with ⟨rfl, rfl⟩ | ⟨different, runs⟩
    · rw [Function.update_self] at handlerAt ⊢
      obtain rfl : msg' = msg :=
        Payload.message.inj (foundAt'.isMessage.symm.trans handlerAt.isMessage)
      exact steps id found msg' op next response reply stage'
        ⟨rfl, foundRuns, foundAt, isCall, responded, step, foundAt', rfl, rfl⟩
        (holds id found msg' foundRuns foundAt)
    · exact elsewhere different handlerAt runs
  | strayed straying found command next fate foundRuns stray isCall harmless stray' =>
    rcases lookup_keepRunning runs with ⟨rfl, rfl⟩ | ⟨different, runs⟩
    · obtain ⟨text, isMalformed⟩ := stray'.isMalformed
      exact nomatch isMalformed.symm.trans handlerAt.isMessage
    · exact unmoved runs handlerAt
  | cancelled cancelling found fate foundRuns =>
    rcases lookup_of_insert runs with ⟨rfl, rfl⟩ | ⟨_, runs⟩
    · have foundAt : HandlerAt settings found msg (stages id) := by
        rcases tracked.handlers id found foundRuns with ⟨msg', foundAt⟩ | stray
        · obtain rfl : msg' = msg :=
            Payload.message.inj (foundAt.isMessage.symm.trans handlerAt.isMessage)
          exact foundAt
        · obtain ⟨text, isMalformed⟩ := stray.isMalformed
          exact nomatch isMalformed.symm.trans handlerAt.isMessage
      exact cancels id found msg _ (kept id found msg _ foundRuns foundAt rfl
        (holds id found msg foundRuns foundAt))
    · exact unmoved runs handlerAt
  | crashed => exact unmoved (lookup_of_erase runs).2 handlerAt

end Successor

end KaretWorker
