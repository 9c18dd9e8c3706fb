import KaretWorker.Library.Tickets
import KaretWorker.QueueRuns
import Mathlib.Data.Finset.Filter

/-!
# The bound on attempts

The attempt number comes from a counter that each delivery raises before the lock and
that a delivery finding the lock busy lowers again. To the counter of one job, the
handlers between the count and the run are holders of tickets, and a run uses one. So
whatever handlers of the job interleave, are given back their attempt or crash, at
most `maxAttempts` runs are started, as long as the increments succeed and the live
hash stays.
-/
namespace KaretWorker

open Texts Interaction Tickets Indexing

/-- The operation a handler has reached. -/
def Queue.pending (queue : Queue) (id : Nat) : Option Op :=
  match queue.handlers.lookup id with
  | some handler =>
    match handler.program with
    | .call op _ => some op
    | .done _ => none
  | none => none

/-- A handler that waits at an operation has it pending. -/
theorem pending_call {queue : Queue} {id : Nat} {handler : Handler} {op : Op}
    {next : OpReply op → Handling Unit} (runs : queue.handlers.lookup id = some handler)
    (isCall : handler.program = .call op next) : op ∈ queue.pending id := by
  simp only [Queue.pending, runs, isCall, Option.mem_def]

/-- The job whose attempts an operation increments. -/
def Op.counted : Op → Option Text
  | .command (.hincrAttempts jobId 1) => some jobId
  | _ => none

/-- The response serves the command. -/
def Response.isServed : Response → Bool
  | .fate .served => true
  | _ => false

/-- A fate whose response serves is `served`. -/
theorem served_of_isServed {fate : Fate} (isServed : (Response.fate fate).isServed = true) :
    fate = .served := by
  cases fate with
  | served => rfl
  | refused | lost => exact nomatch isServed

/-- Increments of the attempt counter are served with an unsigned 32-bit integer, and
no live hash expires. -/
def Queue.Counts (queue : Queue) : QueueAction → Prop
  | .answer id response => ∀ op ∈ queue.pending id, ∀ jobId ∈ op.counted,
      response.isServed = true ∧ queue.services.redis.attempts jobId + 1 < 2 ^ 32
  | .expireLive _ => False
  | _ => True

instance (queue : Queue) : DecidablePred queue.Counts
  | .answer id _ => inferInstanceAs (Decidable (∀ op ∈ queue.pending id,
      ∀ jobId ∈ op.counted, _ ∧ _))
  | .expireLive _ => isFalse id
  | .enqueue _ | .poison _ | .deliver _ _ | .reclaim _ _ _ | .beat _ _ | .progress _ | .crash _
  | .move _ _ | .trim | .expireLock _ | .sweep _ | .answerSweep _ _ | .stopSweep _ => isTrue trivial

/-- The number of runs started for a job. -/
def executions (jobId : Text) (log : List Happening) : Nat :=
  log.countP (fun happening => happening.jobId = jobId ∧ happening.deed = .started)

/-- The job a handler works on. -/
def Handler.jobId? (handler : Handler) : Option Text :=
  match handler.payload with
  | .message msg => some msg.jobId
  | .malformed _ => none

/-- A handler of a message works on that message's job. -/
theorem HandlerAt.isJob {settings : QueueSettings} {handler : Handler} {msg : JobMessage}
    {stage : Stage} (handlerAt : HandlerAt settings handler msg stage) :
    handler.jobId? = some msg.jobId := by
  rw [Handler.jobId?, handlerAt.isMessage]

/-- A handler at the stage was counted and may still start a run. -/
def Stage.mayStart : Stage → Bool
  | .locking _ | .yielding _ | .preparing _ => true
  | _ => false

/-- The handlers of a job that were counted and may still start a run. -/
def Queue.holders (queue : Queue) (stages : Nat → Stage) (jobId : Text) : Finset Nat :=
  queue.handlers.keys.toFinset.filter (fun id =>
    ((queue.handlers.lookup id).bind Handler.jobId?) = some jobId ∧ (stages id).mayStart = true)

/-- The attempts of one job as tickets. -/
def Queue.budget (queue : Queue) (stages : Nat → Stage) (jobId : Text) : Budget Nat :=
  ⟨queue.services.redis.attempts jobId, executions jobId queue.log, queue.holders stages jobId⟩

section Holders

variable {settings : QueueSettings} {queue : Queue} {stages : Nat → Stage} {jobId : Text}

/-- The holders are the handlers of the job that may still start it. -/
theorem mem_holders {id : Nat} : id ∈ queue.holders stages jobId ↔
    ∃ handler, queue.handlers.lookup id = some handler ∧ handler.jobId? = some jobId ∧
      (stages id).mayStart = true := by
  simp only [Queue.holders, Finset.mem_filter, List.mem_toFinset, ← AList.mem_keys,
    ← AList.lookup_isSome]
  constructor
  · rintro ⟨_, isJob, may⟩
    obtain ⟨handler, runs, isJob⟩ := Option.bind_eq_some_iff.mp isJob
    exact ⟨handler, runs, isJob, may⟩
  · rintro ⟨handler, runs, isJob, may⟩
    rw [runs]
    exact ⟨rfl, isJob, may⟩

/-- If whoever runs for the job and may start did so before, there are no new
holders. -/
theorem holders_subset {queue' : Queue} {stages' : Nat → Stage}
    (before : ∀ id handler, queue'.handlers.lookup id = some handler →
      (stages' id).mayStart = true → ∃ handler', queue.handlers.lookup id = some handler' ∧
        handler'.jobId? = handler.jobId? ∧ (stages id).mayStart = true) :
    queue'.holders stages' jobId ⊆ queue.holders stages jobId := by
  intro id member
  obtain ⟨handler, runs, isJob, may⟩ := mem_holders.mp member
  obtain ⟨handler', runs', sameJob, may'⟩ := before id handler runs may
  exact mem_holders.mpr ⟨handler', runs', sameJob.trans isJob, may'⟩

/-- After a handler took a step, it is a holder only if it may start a run, and the
others are holders only if they were. -/
theorem mem_holders_stepped {queue' : Queue} {id other : Nat} {handler handler' : Handler}
    {stage' : Stage} (samePayload : handler'.payload = handler.payload)
    (isAfter : queue'.handlers = keepRunning queue.handlers id handler')
    (member : other ∈ queue'.holders (Function.update stages id stage') jobId) :
    (other = id ∧ handler.jobId? = some jobId ∧ stage'.mayStart = true) ∨
      (other ≠ id ∧ other ∈ queue.holders stages jobId) := by
  obtain ⟨found, runs, isJob, may⟩ := mem_holders.mp member
  rw [isAfter] at runs
  rcases lookup_keepRunning runs with ⟨rfl, rfl⟩ | ⟨different, runs⟩
  · rw [Function.update_self] at may
    simp only [Handler.jobId?, samePayload] at isJob
    exact Or.inl ⟨rfl, isJob, may⟩
  · rw [Function.update_of_ne different] at may
    exact Or.inr ⟨different, mem_holders.mpr ⟨found, runs, isJob, may⟩⟩

end Holders

/-! ## What a handler's step does to the count -/

/-- A step of a handler counts an attempt, gives one back, starts a run, or does none
of these, and then no handler that could not start a run can do so after it. -/
inductive Accounts (settings : QueueSettings) (msg : JobMessage) : Stage → Op → Stage → Prop
  | count (stage' : Stage) :
      Accounts settings msg .counting (.command (.hincrAttempts msg.jobId 1)) stage'
  | giveBack (attempt : Nat) :
      Accounts settings msg (.yielding attempt) (.command (.hincrAttempts msg.jobId (-1)))
        (.deferring attempt)
  | start (attempt : Nat) (pipeline fence : Text) :
      Accounts settings msg (.preparing attempt) (.startJob pipeline fence) (.executing attempt)
  | none (stage : Stage) (op : Op) (stage' : Stage)
      (uncounted : ∀ jobId increment, op ≠ .command (.hincrAttempts jobId increment))
      (unstarted : ∀ pipeline fence, op ≠ .startJob pipeline fence)
      (fewer : stage'.mayStart = true → stage.mayStart = true) : Accounts settings msg stage op stage'

/-- What each step of a handler does to the account of its job's starts. -/
theorem Step.accounts {settings : QueueSettings} {msg : JobMessage} {entry : Nat}
    {stage stage' : Stage} {op : Op} {reply : OpReply op}
    (step : Step settings msg entry stage op reply stage') :
    Accounts settings msg stage op stage' := by
  cases step with
  | gaveUp => exact .count _
  | counted => exact .count _
  | yielded attempt => exact .giveBack attempt
  | begun attempt => exact .start attempt _ _
  | idle stage op reply isIdle =>
    refine .none _ _ _ ?_ ?_ id
    · rintro jobId increment rfl
      exact nomatch isIdle
    · rintro pipeline fence rfl
      exact nomatch isIdle
  | prepared attempt op reply prepares =>
    refine .none _ _ _ ?_ ?_ id
    · rintro jobId increment rfl
      exact nomatch prepares
    · rintro pipeline fence rfl
      exact nomatch prepares
  | ended attempt outcome =>
    refine .none _ _ _ (fun _ _ impossible => nomatch impossible)
      (fun _ _ impossible => nomatch impossible) ?_
    rcases outcome with (error | error | errors | _ | error | _) | outcome <;>
      exact fun impossible => nomatch impossible
  | busy | locked =>
    exact .none _ _ _ (fun _ _ impossible => nomatch impossible)
      (fun _ _ impossible => nomatch impossible) (fun _ => rfl)
  | unconnected | rejected | accepted | seen | unseen | dismissed | unlocked | deferred | exhausted
  | returned | requeued | unchecked | withheld | cleared | recorded | unpublished | published
  | unreleased | released | acked =>
    exact .none _ _ _ (fun _ _ impossible => nomatch impossible)
      (fun _ _ impossible => nomatch impossible) (fun impossible => nomatch impossible)

/-- Only the start of a run is logged as one. -/
theorem executions_deeds {services : Services} {op : Op} {response : Response}
    (unstarted : ∀ pipeline fence, op ≠ .startJob pipeline fence) (jobId : Text) (id : Nat)
    (worked : Text) (attempt : Option Nat) (log : List Happening) :
    executions jobId ((deeds services op response).map
      (fun deed => ⟨id, worked, attempt, deed⟩) ++ log) = executions jobId log := by
  have none : ∀ deed ∈ deeds services op response, deed ≠ .started := by
    rintro deed member rfl
    rcases deeds_cases member with ⟨_, isFinal⟩ | ⟨pipeline, fence, isStart, _⟩ |
      ⟨_, _, _, _, _, _, _, _, isTaken⟩
    · cases isFinal
    · exact unstarted pipeline fence isStart
    · cases isTaken
  simp only [executions, List.countP_append, List.countP_map]
  have zero : (deeds services op response).countP
      ((fun happening : Happening => decide (happening.jobId = jobId ∧ happening.deed = .started)) ∘
        fun deed => ⟨id, worked, attempt, deed⟩) = 0 := by
    rw [List.countP_eq_zero]
    intro deed member
    simp [none deed member]
  rw [zero, Nat.zero_add]

/-- An operation that is no increment leaves the counters alone. -/
theorem attempts_respond {services services' : Services} {op : Op} {response : Response}
    {reply : OpReply op} (responded : respond services op response = some (reply, services'))
    (uncounted : ∀ jobId increment, op ≠ .command (.hincrAttempts jobId increment)) (jobId : Text) :
    services'.redis.attempts jobId = services.redis.attempts jobId := by
  cases op with
  | command command =>
    obtain ⟨fate, _, _, rfl⟩ := respond_command responded
    cases applied : fate.applied with
    | false => rw [execute_unapplied applied]
    | true =>
      rw [execute_applied applied, attempts_apply]
      cases command with
      | hincrAttempts counted increment => exact absurd rfl (uncounted counted increment)
      | connect | hgetStatus | hgetEnqueuedAt | hset | setLock | getLock | releaseLock | renewLock
      | finishLive | abandonLive | deferEntry | xack | xrange | markRunning | markFinished => rfl
  | nowIso | nowMs | scanLive | startJob | awaitJob | abortHeartbeat =>
    refine congrArg (fun services : Services => services.redis.attempts jobId)
      (respond_other ?_ responded).1
    exact fun _ impossible => nomatch impossible

/-- Neither connecting nor acknowledging counts an attempt. -/
theorem attempts_harmless {services : Services} {command : Command} {fate : Fate} {entry : Nat}
    (harmless : command = .connect ∨ command = .xack entry) (jobId : Text) :
    (command.execute services fate).redis.attempts jobId = services.redis.attempts jobId := by
  have uncounted : ∀ counted increment,
      Op.command command ≠ .command (.hincrAttempts counted increment) := by
    rcases harmless with rfl | rfl <;> exact fun _ _ impossible => nomatch impossible
  have responded : respond services (.command command) (.fate fate) =
      some (command.reply services fate, command.execute services fate) := rfl
  exact attempts_respond responded uncounted jobId

/-! ## The tickets of a job over steps of the queue -/

section Budget

variable {settings : QueueSettings} {queue after : Queue} {stages stages' : Nat → Stage}
  {jobId : Text}

/-- With the same counter and the same runs, holders may only have dropped out. -/
theorem budget_drop (sameCounter : after.services.redis.attempts jobId =
      queue.services.redis.attempts jobId)
    (sameRuns : executions jobId after.log = executions jobId queue.log)
    (fewer : after.holders stages' jobId ⊆ queue.holders stages jobId) :
    Relation.ReflTransGen (Budget.Moves settings.maxAttempts) (queue.budget stages jobId)
      (after.budget stages' jobId) := by
  rw [Queue.budget, Queue.budget, sameCounter, sameRuns]
  exact .single (.drop _ _ fewer)

/-- What happens outside of handlers leaves the counters alone, unless a live hash
expires. -/
theorem attempts_outside {redis redis' : Redis} {action : QueueAction}
    (happens : Outside redis action redis') (stays : ∀ jobId, action ≠ .expireLive jobId) :
    redis'.attempts jobId = redis.attempts jobId := by
  cases happens with
  | poisoned => rfl
  | progressed => exact attempts_setHash (fun _ => rfl) jobId
  | moved now due isDue => simp only [Redis.attempts, Redis.hash, live_moveOne]
  | trimmed => rfl
  | lockExpired => rfl
  | liveExpired expired => exact absurd rfl (stays expired)

/-- Enqueueing counts no attempt. -/
theorem attempts_enqueue (redis : Redis) (msg : JobMessage) (jobId : Text) :
    (redis.enqueue msg).attempts jobId = redis.attempts jobId := by
  rw [Redis.enqueue, attempts_setHash, attempts_append]
  intro hash
  rfl

/-- A sweep counts no attempts. -/
theorem SweepStep.uncounted {held held' : Option Text} {op : Op} {reply : OpReply op}
    (step : SweepStep held op reply held') (jobId : Text) (increment : Int) :
    op ≠ .command (.hincrAttempts jobId increment) := by
  rintro rfl
  cases step with
  | idle held op reply isIdle => exact nomatch isIdle

/-- The number read from a served increment of a counter that is not negative. -/
theorem attemptsFrom_served {count : Int} (notNegative : 0 ≤ count) (below : count < 2 ^ 32) :
    (attemptsFrom (.ok count) : Int) = count := by
  simp only [attemptsFrom, notNegative, below, and_self, ↓reduceIte]
  omega

/-- A handler that was counted goes on only within the bound. -/
theorem Step.within {msg : JobMessage} {entry : Nat} {stage stage' : Stage}
    {reply : Except Text Int}
    (step : Step settings msg entry stage (.command (.hincrAttempts msg.jobId 1)) reply stage')
    (may : stage'.mayStart = true) : attemptsFrom reply ≤ settings.maxAttempts := by
  cases step with
  | gaveUp => exact nomatch may
  | counted reply within => exact within
  | idle stage op reply isIdle => exact nomatch isIdle
  | prepared attempt op reply prepares => exact nomatch prepares

/-- The tickets over a step of a handler that accounts for an attempt. -/
theorem budget_stepped {id : Nat} {handler handler' : Handler} {msg : JobMessage} {op : Op}
    {response : Response} {reply : OpReply op} {stage stage' : Stage}
    (runs : queue.handlers.lookup id = some handler) (isMessage : handler.payload = .message msg)
    (atStage : stages id = stage) (samePayload : handler'.payload = handler.payload)
    (isAfter : after.handlers = keepRunning queue.handlers id handler')
    (isLog : after.log = (deeds queue.services op response).map
      (fun deed => ⟨id, msg.jobId, handler.attempt, deed⟩) ++ queue.log)
    (responded : respond queue.services op response = some (reply, after.services))
    (numbered : op = .command (.hincrAttempts msg.jobId 1) → stage'.mayStart = true →
      queue.services.redis.attempts msg.jobId + 1 ≤ settings.maxAttempts)
    (counts : op = .command (.hincrAttempts msg.jobId 1) → response.isServed = true)
    (accounts : Accounts settings msg stage op stage') :
    Relation.ReflTransGen (Budget.Moves settings.maxAttempts) (queue.budget stages jobId)
      (after.budget (Function.update stages id stage') jobId) := by
  have isJob : handler.jobId? = some msg.jobId := by rw [Handler.jobId?, isMessage]
  -- Who holds a ticket afterwards, by what the handler may still do.
  have members : ∀ other ∈ after.holders (Function.update stages id stage') jobId,
      (other = id ∧ jobId = msg.jobId ∧ stage'.mayStart = true) ∨
        (other ≠ id ∧ other ∈ queue.holders stages jobId) := by
    intro other member
    rcases mem_holders_stepped samePayload isAfter member with ⟨same, worked, may⟩ | was
    · rw [isJob] at worked
      exact Or.inl ⟨same, (Option.some.inj worked).symm, may⟩
    · exact Or.inr was
  have erased : stage'.mayStart = false →
      after.holders (Function.update stages id stage') jobId ⊆
        (queue.holders stages jobId).erase id := by
    intro stays other member
    rcases members other member with ⟨_, _, may⟩ | ⟨different, was⟩
    · exact nomatch stays.symm.trans may
    · exact Finset.mem_erase.mpr ⟨different, was⟩
  have fewer : (jobId ≠ msg.jobId ∨ stage'.mayStart = false) →
      after.holders (Function.update stages id stage') jobId ⊆ queue.holders stages jobId := by
    intro outside other member
    rcases members other member with ⟨_, same, may⟩ | ⟨_, was⟩
    · rcases outside with different | stays
      · exact absurd same different
      · exact nomatch stays.symm.trans may
    · exact was
  cases accounts with
  | count stage' =>
    obtain ⟨fate, rfl, _, isServices⟩ := respond_command responded
    obtain rfl := served_of_isServed (counts rfl)
    have sameRuns : executions jobId after.log = executions jobId queue.log := by
      rw [isLog]
      exact executions_deeds (by rintro _ _ ⟨⟩) jobId id _ _ _
    have counter := attempts_increment queue.services msg.jobId 1 .served jobId
    rw [← isServices] at counter
    by_cases own : jobId = msg.jobId
    · rw [if_pos ⟨rfl, own⟩] at counter
      rw [Queue.budget, Queue.budget, counter, sameRuns]
      cases may : stage'.mayStart with
      | true =>
        have within := numbered rfl may
        rw [← own] at within
        refine (Relation.ReflTransGen.single (.draw _ id within)).tail (.drop _ _ ?_)
        intro other member
        rcases members other member with ⟨rfl, _, _⟩ | ⟨_, was⟩
        · exact Finset.mem_insert_self _ _
        · exact Finset.mem_insert_of_mem was
      | false => exact (Relation.ReflTransGen.single (.raise _)).tail (.drop _ _ (fewer (Or.inr may)))
    · rw [if_neg (fun both => own both.2)] at counter
      exact budget_drop counter sameRuns (fewer (Or.inl own))
  | giveBack attempt =>
    obtain ⟨fate, rfl, _, isServices⟩ := respond_command responded
    have sameRuns : executions jobId after.log = executions jobId queue.log := by
      rw [isLog]
      exact executions_deeds (by rintro _ _ ⟨⟩) jobId id _ _ _
    have counter := attempts_increment queue.services msg.jobId (-1) fate jobId
    rw [← isServices] at counter
    by_cases counts : fate.applied = true ∧ jobId = msg.jobId
    · have own := counts.2
      rw [if_pos counts] at counter
      have holds : id ∈ queue.holders stages jobId :=
        mem_holders.mpr ⟨handler, runs, by rw [isJob, own], by rw [atStage]; rfl⟩
      rw [Queue.budget, Queue.budget, counter, sameRuns]
      exact (Relation.ReflTransGen.single (.giveBack _ id holds)).tail (.drop _ _ (erased rfl))
    · rw [if_neg counts] at counter
      exact budget_drop counter sameRuns (fewer (Or.inr rfl))
  | start attempt pipeline fence =>
    have sameCounter := attempts_respond responded (fun _ _ impossible => nomatch impossible) jobId
    by_cases own : jobId = msg.jobId
    · have holds : id ∈ queue.holders stages jobId :=
        mem_holders.mpr ⟨handler, runs, by rw [isJob, own], by rw [atStage]; rfl⟩
      have oneMore : executions jobId after.log = executions jobId queue.log + 1 := by
        rw [isLog]
        simp [executions, deeds, own]
      rw [Queue.budget, Queue.budget, sameCounter, oneMore]
      exact (Relation.ReflTransGen.single (.use _ id holds)).tail (.drop _ _ (erased rfl))
    · refine budget_drop sameCounter ?_ (fewer (Or.inl own))
      rw [isLog]
      simp [executions, deeds, Ne.symm own]
  | none stage op stage' uncounted unstarted wasHolder =>
    refine budget_drop (attempts_respond responded uncounted jobId) ?_ ?_
    · rw [isLog]
      exact executions_deeds unstarted jobId id _ _ _
    · intro other member
      rcases members other member with ⟨rfl, rfl, may⟩ | ⟨_, was⟩
      · exact mem_holders.mpr ⟨handler, runs, isJob, by rw [atStage]; exact wasHolder may⟩
      · exact was

/-- The tickets of a job stay sound over every step that counts. -/
theorem budget_successor {action : QueueAction}
    (sound : ∀ jobId, (queue.budget stages jobId).Sound settings.maxAttempts)
    (counts : queue.Counts action)
    (successor : Successor settings queue stages action after stages') (jobId : Text) :
    (after.budget stages' jobId).Sound settings.maxAttempts := by
  refine (sound jobId).moves ?_
  cases successor with
  | enqueued msg =>
    exact budget_drop (attempts_enqueue _ msg jobId) rfl (Finset.Subset.refl _)
  | outside action redis happens =>
    refine budget_drop (attempts_outside happens ?_) rfl (Finset.Subset.refl _)
    rintro expired rfl
    exact counts
  | arrived action id worker entry payload redis isNew handed =>
    refine budget_drop (by cases handed <;> rfl) rfl (holders_subset ?_)
    intro other found runs may
    rcases lookup_of_insert runs with ⟨rfl, rfl⟩ | ⟨different, runs⟩
    · rw [Function.update_self] at may
      exact nomatch may
    · rw [Function.update_of_ne different] at may
      exact ⟨found, runs, rfl, may⟩
  | stepped id handler msg op next response reply services stage' runs handlerAt isCall permits
      responded step handlerAt' =>
    refine budget_stepped runs handlerAt.isMessage rfl (advance_payload _ _ _ _).1 rfl rfl responded
      ?_ ?_ step.accounts
    · rintro rfl may
      obtain ⟨isServed, below⟩ := counts _ (pending_call runs isCall) msg.jobId rfl
      obtain ⟨fate, rfl, rfl, _⟩ := respond_command responded
      obtain rfl := served_of_isServed isServed
      have counted := (sound msg.jobId).counted
      simp only [Queue.budget] at counted
      have number := attemptsFrom_served (by omega) below
      have within := step.within may
      simp only [Command.reply, Command.value] at within
      omega
    · rintro rfl
      exact (counts _ (pending_call runs isCall) msg.jobId rfl).1
  | strayed id handler command next fate runs stray isCall harmless stray' =>
    refine budget_drop ?_ rfl (holders_subset ?_)
    · exact attempts_harmless harmless jobId
    · intro other found foundRuns may
      rcases lookup_keepRunning foundRuns with ⟨rfl, rfl⟩ | ⟨_, foundRuns⟩
      · exact ⟨handler, runs, by simp only [Handler.jobId?, (advance_payload _ _ _ _).1], may⟩
      · exact ⟨found, foundRuns, rfl, may⟩
  | cancelled id handler fate runs =>
    refine budget_drop rfl rfl (holders_subset ?_)
    intro other found foundRuns may
    rcases lookup_of_insert foundRuns with ⟨rfl, rfl⟩ | ⟨_, foundRuns⟩
    · exact ⟨handler, runs, rfl, may⟩
    · exact ⟨found, foundRuns, rfl, may⟩
  | renewed | sweeping | stopped => exact budget_drop rfl rfl (Finset.Subset.refl _)
  | crashed id =>
    refine budget_drop rfl rfl (holders_subset ?_)
    exact fun other found runs may => ⟨found, (lookup_of_erase runs).2, rfl, may⟩
  | swept id sweep op next response reply services runs isCall responded step =>
    exact budget_drop (attempts_respond responded step.uncounted jobId) rfl (Finset.Subset.refl _)

/-- No job is started more often than the bound allows, in any queue reached by steps
in which increments are served and live hashes stay. -/
theorem attempt_bound {rows : AList (fun _ : Text => JobRow)}
    (reached : Runs.Reaches (Queue.step settings) Queue.Counts (Queue.initial rows) queue)
    (jobId : Text) : executions jobId queue.log ≤ settings.maxAttempts := by
  obtain ⟨stages, _, sound⟩ := reaches_tracked
    (fun queue stages => ∀ jobId, (queue.budget stages jobId).Sound settings.maxAttempts)
    (initial_tracked rows) (fun jobId => ⟨le_refl 0, Nat.zero_le _⟩)
    (fun _ _ _ _ _ _ sound counts successor jobId => budget_successor sound counts successor jobId)
    reached
  have bounded := (sound jobId).bounded
  simp only [Queue.budget] at bounded
  omega

end Budget

/-! ## Two deliveries of one job -/

/-- A job to run on. -/
def smallJob : JobMessage :=
  ⟨"a".toList, "p".toList, "p/".toList, none, false, "manual".toList, 0⟩

/-- Another job of the same pipeline. -/
def otherJob : JobMessage :=
  ⟨"b".toList, "p".toList, "p/".toList, none, false, "manual".toList, 1⟩

/-- Answer the operations of a handler one after another. -/
def replies (id : Nat) (responses : List Response) : List QueueAction := responses.map (.answer id)

/-- Served commands. -/
def serve (count : Nat) : List Response := List.replicate count (.fate .served)

/-- From its arrival a handler connects, looks at its job, is counted and tries the
lock. -/
def toLock : List Response := serve 4

/-- With the lock a handler notes the time, sets four fields and starts its run. -/
def toRun : List Response := [.iso "t".toList] ++ serve 4 ++ [.done]

/-- A run that publishes one table, up to the look at the lock. -/
def toLook : List Response := [.outcome (.ok ⟨1, 1, 0, []⟩), .done] ++ serve 1

/-- From there to the terminal status of the job. -/
def toFinish : List Response := [.iso "t".toList] ++ serve 2

/-- A delivery runs while another one of the same entry finds the lock busy and gives
its attempt back. -/
def sharing : List QueueAction :=
  [.enqueue smallJob, .deliver 0 "w".toList] ++ replies 0 (toLock ++ toRun) ++
    [.reclaim 1 "w".toList 0] ++ replies 1 (toLock ++ serve 1)

/-- The bound holds where one run was started and the counter is back at one. -/
theorem attempt_bound_sharing : ∃ queue : Queue,
    (executions smallJob.jobId queue.log = 1 ∧ queue.services.redis.attempts smallJob.jobId = 1) ∧
      executions smallJob.jobId queue.log ≤ QueueSettings.default.maxAttempts := by
  obtain ⟨queue, reached, ran⟩ := Runs.reaches_of_check (Queue.step .default) Queue.Counts
    (Queue.initial ∅) sharing
    (fun queue => executions smallJob.jobId queue.log = 1 ∧
      queue.services.redis.attempts smallJob.jobId = 1) (by decide +kernel)
  exact ⟨queue, ran, attempt_bound reached smallJob.jobId⟩

end KaretWorker
