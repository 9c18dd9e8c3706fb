import KaretWorker.Deliveries
import KaretWorker.FenceCheck

/-!
# One run at a time

The lock of a pipeline is there so that no two of its jobs run at once. It expires some time
after it was taken or renewed, and a run does not stop by itself when that happens: its heartbeat
renews the lock, and a run whose heartbeat finds the lock gone is cancelled.

Here the queue has a clock, and each lock the time at which it expires. As long as every lock
under which a handler prepares or runs its job is renewed in time, numbers do not come back, and
no two jobs share an id, at most one handler runs a job of a pipeline at any time, the lock is
held under its fence, and no run is cancelled (`runs_exclusive`).
-/
namespace KaretWorker

open Texts Interaction Indexing

/-! ## The queue with a clock -/

/-- The queue and the time, when the lock of each pipeline expires, and the lock each handler has
taken for a run that is not over. -/
structure TimedQueue where
  queue : Queue
  now : Nat
  expiry : AList (fun _ : Text => Nat)
  held : AList (fun _ : Nat => Text × Text)

/-- A queue with rows and nothing else, at time zero. -/
def TimedQueue.initial (rows : AList (fun _ : Text => JobRow)) : TimedQueue := ⟨Queue.initial rows, 0, ∅, ∅⟩

/-- An action of the queue, or time that passes. -/
inductive TimedAction where
  | act (action : QueueAction)
  | elapse (ms : Nat)

/-- The pipeline whose lock is set to expire by an action, and the time it has. -/
def Queue.leases (settings : QueueSettings) (queue : Queue) : QueueAction → Option (Text × Nat)
  | .answer id (.fate fate) =>
    match queue.pending id with
    | some (.command (.setLock pipeline _ ttlMs)) =>
      if fate.applied && (queue.services.redis.locks.lookup pipeline).isNone then some (pipeline, ttlMs)
      else none
    | _ => none
  | .beat id fate =>
    match (queue.handlers.lookup id).bind Handler.lock with
    | some (pipeline, fence) =>
      if fate.applied && queue.services.redis.locks.lookup pipeline = some fence then
        some (pipeline, settings.lockTtlMs)
      else none
    | none => none
  | _ => none

/-- A handler has a lock once its request is served, until its run is over or it crashes. -/
def TimedQueue.holding (timed : TimedQueue) : QueueAction → AList (fun _ : Nat => Text × Text)
  | .answer id response =>
    match timed.queue.pending id, response with
    | some (.command (.setLock pipeline fence _)), .fate .served =>
      if (timed.queue.services.redis.locks.lookup pipeline).isNone then
        timed.held.insert id (pipeline, fence)
      else timed.held
    | some .awaitJob, _ => timed.held.erase id
    | _, _ => timed.held
  | .crash id => timed.held.erase id
  | _ => timed.held

/-- A lock expires only when its time has come. -/
def TimedQueue.Allows (timed : TimedQueue) : QueueAction → Prop
  | .expireLock pipeline => ∀ expiry ∈ timed.expiry.lookup pipeline, expiry ≤ timed.now
  | _ => True

instance (timed : TimedQueue) : DecidablePred timed.Allows
  | .expireLock pipeline =>
    inferInstanceAs (Decidable (∀ expiry ∈ timed.expiry.lookup pipeline, expiry ≤ timed.now))
  | .enqueue _ | .poison _ | .deliver _ _ | .reclaim _ _ _ | .answer _ _ | .beat _ _ | .progress _
  | .crash _ | .move _ _ | .trim | .expireLive _ | .sweep _ | .answerSweep _ _ | .stopSweep _ =>
    isTrue trivial

/-- An action takes no time; a lock expires when its time is up and not before. -/
def TimedQueue.step (settings : QueueSettings) (timed : TimedQueue) : TimedAction → Option TimedQueue
  | .act action =>
    if timed.Allows action then
      (timed.queue.step settings action).map (fun after =>
        { timed with
          queue := after
          expiry := match timed.queue.leases settings action with
            | some (pipeline, ttlMs) => timed.expiry.insert pipeline (timed.now + ttlMs)
            | none => timed.expiry
          held := timed.holding action })
    else none
  | .elapse ms => some { timed with now := timed.now + ms }

/-- A new job has an id of its own. -/
def Queue.Distinct (queue : Queue) : QueueAction → Prop
  | .enqueue msg => ∀ other ∈ queue.enqueued, other.jobId = msg.jobId → other = msg
  | _ => True

instance (queue : Queue) : DecidablePred queue.Distinct
  | .enqueue msg =>
    inferInstanceAs (Decidable (∀ other ∈ queue.enqueued, other.jobId = msg.jobId → other = msg))
  | .poison _ | .deliver _ _ | .reclaim _ _ _ | .answer _ _ | .beat _ _ | .progress _ | .crash _
  | .move _ _ | .trim | .expireLock _ | .expireLive _ | .sweep _ | .answerSweep _ _
  | .stopSweep _ =>
    isTrue trivial

/-- No lock that is held comes to its time, and neither numbers nor ids come back. -/
def TimedQueue.Punctual (timed : TimedQueue) : TimedAction → Prop
  | .act action => timed.queue.Numbers action ∧ timed.queue.Distinct action
  | .elapse ms => ∀ holder ∈ timed.held.entries, ∀ expiry ∈ timed.expiry.lookup holder.2.1,
      timed.now + ms < expiry

instance (timed : TimedQueue) : DecidablePred timed.Punctual
  | .act action =>
      inferInstanceAs (Decidable (timed.queue.Numbers action ∧ timed.queue.Distinct action))
  | .elapse ms => inferInstanceAs (Decidable (∀ holder ∈ timed.held.entries,
      ∀ expiry ∈ timed.expiry.lookup holder.2.1, timed.now + ms < expiry))

/-! ## Where messages come from -/

/-- Whatever message is anywhere was enqueued, and its id is its own. -/
structure Queue.Enlisted (queue : Queue) : Prop where
  entries : ∀ entry msg, (entry, Payload.message msg) ∈ queue.services.redis.entries → msg ∈ queue.enqueued
  delayed : ∀ msg ∈ queue.services.redis.delayed, msg ∈ queue.enqueued
  handlers : ∀ id handler msg, queue.handlers.lookup id = some handler →
    handler.payload = .message msg → msg ∈ queue.enqueued
  distinct : ∀ msg ∈ queue.enqueued, ∀ other ∈ queue.enqueued, other.jobId = msg.jobId → other = msg

section Enlisted

variable {settings : QueueSettings} {queue after : Queue} {stages stages' : Nat → Stage}

/-- A handler defers only its own message. -/
theorem Step.defers {msg deferred : JobMessage} {entry other : Nat} {fireAt : Int}
    {stage stage' : Stage} {reply : Except Text Unit}
    (step : Step settings msg entry stage (.command (.deferEntry deferred fireAt other)) reply
      stage') :
    deferred = msg := by
  cases step with
  | deferred => rfl
  | idle stage op reply isIdle => exact nomatch isIdle
  | prepared attempt op reply prepares => exact nomatch prepares

/-- A sweep defers nothing. -/
theorem SweepStep.undeferred {held held' : Option Text} {op : Op} {reply : OpReply op}
    (step : SweepStep held op reply held') (msg : JobMessage) (fireAt : Int) (entry : Nat) :
    op ≠ .command (.deferEntry msg fireAt entry) := by
  rintro rfl
  cases step with
  | idle _ _ _ isIdle => exact nomatch isIdle

/-- What an operation that defers only known messages does to the stream and the delayed set. -/
theorem enlisted_respond {services services' : Services} {op : Op} {response : Response}
    {reply : OpReply op} {enqueued : List JobMessage}
    (responded : respond services op response = some (reply, services'))
    (known : ∀ msg fireAt entry, op = .command (.deferEntry msg fireAt entry) → msg ∈ enqueued)
    (entries : ∀ entry msg, (entry, Payload.message msg) ∈ services.redis.entries → msg ∈ enqueued)
    (delayed : ∀ msg ∈ services.redis.delayed, msg ∈ enqueued) :
    (∀ entry msg, (entry, Payload.message msg) ∈ services'.redis.entries → msg ∈ enqueued) ∧
      ∀ msg ∈ services'.redis.delayed, msg ∈ enqueued := by
  constructor
  · rw [(stream_respond responded).1]
    exact entries
  · rcases respond_deliveries responded with same | ⟨entry, _, isAfter⟩ |
      ⟨msg, fireAt, entry, isOp, isAfter⟩
    · rw [same.delayed]
      exact delayed
    · rw [isAfter]
      exact delayed
    · rw [isAfter]
      intro other member
      rcases (AList.mem_insert _).mp member with rfl | before
      · exact known other fireAt entry isOp
      · exact delayed other before

/-- What the mover takes from the delayed set to the stream was known. -/
theorem enlisted_moved {enqueued : List JobMessage} (due : List JobMessage) {redis : Redis}
    (known : ∀ msg ∈ due, msg ∈ enqueued)
    (entries : ∀ entry msg, (entry, Payload.message msg) ∈ redis.entries → msg ∈ enqueued)
    (delayed : ∀ msg ∈ redis.delayed, msg ∈ enqueued) :
    (∀ entry msg, (entry, Payload.message msg) ∈ (due.foldl Redis.moveOne redis).entries →
      msg ∈ enqueued) ∧
      ∀ msg ∈ (due.foldl Redis.moveOne redis).delayed, msg ∈ enqueued := by
  induction due generalizing redis with
  | nil => exact ⟨entries, delayed⟩
  | cons taken rest inductionHypothesis =>
    rw [List.forall_mem_cons] at known
    refine inductionHypothesis known.2 (fun entry msg member => ?_) (fun msg member => ?_)
    · rcases List.mem_append.mp member with before | last
      · exact entries entry msg before
      · obtain ⟨_, same⟩ := Prod.mk.inj (List.mem_singleton.mp last)
        rw [Payload.message.inj same]
        exact known.1
    · exact delayed msg (AList.mem_erase.mp member).2

/-- An entry that is handed out was in the stream. -/
theorem Handed.mem {redis redis' : Redis} {id entry : Nat} {worker : Text} {action : QueueAction}
    {payload : Payload} (handed : Handed redis id worker action entry payload redis') :
    (entry, payload) ∈ redis.entries ∧ redis'.entries = redis.entries ∧
    redis'.delayed = redis.delayed := by
  cases handed with
  | delivered _ _ isNext => exact ⟨List.mem_of_find?_eq_some isNext, rfl, rfl⟩
  | reclaimed _ _ isThere => exact ⟨payloadAt_mem isThere, rfl, rfl⟩

/-- A step keeps it, if a new job has an id of its own. -/
theorem enlisted_successor {action : QueueAction} (enlisted : queue.Enlisted)
    (isDistinct : queue.Distinct action)
    (successor : Successor settings queue stages action after stages') : after.Enlisted := by
  obtain ⟨entries, delayed, handlers, distinct⟩ := enlisted
  -- A handler that goes on has the message it was given.
  have advanced : ∀ {id : Nat} {found : Handler} {op : Op} {reply : OpReply op}
    {rest : Handling Unit},
      queue.handlers.lookup id = some found → ∀ other handler msg,
        (keepRunning queue.handlers id (found.advance op reply rest)).lookup other = some handler →
        handler.payload = .message msg → msg ∈ queue.enqueued := by
    intro id found op reply rest foundRuns other handler msg runs isMessage
    rcases lookup_keepRunning runs with ⟨_, rfl⟩ | ⟨_, before⟩
    · rw [(advance_payload found op reply rest).1] at isMessage
      exact handlers id found msg foundRuns isMessage
    · exact handlers other handler msg before isMessage
  cases successor with
  | enqueued msg =>
    refine ⟨fun entry other member => ?_,
      fun other member => List.mem_cons_of_mem _ (delayed other member),
      fun id handler other runs isMessage => List.mem_cons_of_mem _
        (handlers id handler other runs isMessage), ?_⟩
    · rcases List.mem_append.mp member with before | last
      · exact List.mem_cons_of_mem _ (entries entry other before)
      · obtain ⟨_, same⟩ := Prod.mk.inj (List.mem_singleton.mp last)
        exact List.mem_cons.mpr (Or.inl (Payload.message.inj same))
    · refine List.forall_mem_cons.mpr ⟨List.forall_mem_cons.mpr ⟨fun _ => rfl, isDistinct⟩, ?_⟩
      intro known isKnown
      refine List.forall_mem_cons.mpr ⟨fun same => ?_, distinct known isKnown⟩
      exact (isDistinct known isKnown same.symm).symm
  | outside action redis happens =>
    cases happens with
    | poisoned text =>
      refine ⟨fun entry msg member => ?_, delayed, handlers, distinct⟩
      rcases List.mem_append.mp member with before | last
      · exact entries entry msg before
      · exact nomatch List.mem_singleton.mp last
    | progressed | lockExpired | liveExpired => exact ⟨entries, delayed, handlers, distinct⟩
    | moved now due isDue =>
      have known : ∀ msg ∈ due, msg ∈ queue.enqueued := by
        intro msg isTaken
        obtain ⟨fireAt, isDelayed, _⟩ := isDue.scheduled msg isTaken
        exact delayed msg
          (AList.lookup_isSome.mp (Option.isSome_iff_exists.mpr ⟨fireAt, isDelayed⟩))
      obtain ⟨entries, delayed⟩ := enlisted_moved due known entries delayed
      exact ⟨entries, delayed, handlers, distinct⟩
    | trimmed =>
      exact ⟨fun entry msg member => entries entry msg (List.mem_of_mem_tail member), delayed,
        handlers, distinct⟩
  | arrived action id worker entry payload redis isNew handed =>
    obtain ⟨isEntry, sameEntries, sameDelayed⟩ := handed.mem
    refine ⟨?_, ?_, fun other handler msg runs isMessage => ?_, distinct⟩
    · show ∀ entry msg, (entry, Payload.message msg) ∈ redis.entries → msg ∈ queue.enqueued
      rw [sameEntries]
      exact entries
    · show ∀ msg ∈ redis.delayed, msg ∈ queue.enqueued
      rw [sameDelayed]
      exact delayed
    · rcases lookup_of_insert runs with ⟨_, rfl⟩ | ⟨_, before⟩
      · obtain rfl : payload = .message msg := isMessage
        exact entries entry msg isEntry
      · exact handlers other handler msg before isMessage
  | stepped id handler msg op next response reply services stage' runs handlerAt isCall permits
      responded step handlerAt' =>
    obtain ⟨entries, delayed⟩ := enlisted_respond responded (fun deferred fireAt entry isOp => by
      subst isOp
      rw [step.defers]
      exact handlers id handler msg runs handlerAt.isMessage) entries delayed
    exact ⟨entries, delayed, advanced runs, distinct⟩
  | strayed id handler command next fate runs stray isCall harmless stray' =>
    obtain ⟨entries, delayed⟩ :=
      enlisted_respond (respond_fate _ command fate) (fun deferred fireAt entry isOp => by
      rcases harmless with rfl | rfl
      · exact nomatch isOp
      · exact nomatch isOp) entries delayed
    exact ⟨entries, delayed, advanced runs, distinct⟩
  | cancelled id found fate foundRuns =>
    refine ⟨entries, delayed, fun other handler msg runs isMessage => ?_, distinct⟩
    rcases lookup_of_insert runs with ⟨_, rfl⟩ | ⟨_, before⟩
    · exact handlers id found msg foundRuns isMessage
    · exact handlers other handler msg before isMessage
  | crashed id =>
    exact ⟨entries, delayed,
      fun other handler msg runs => handlers other handler msg (lookup_of_erase runs).2,
      distinct⟩
  | swept id sweep op next response reply services runs isCall responded step =>
    obtain ⟨entries, delayed⟩ := enlisted_respond responded (fun deferred fireAt entry isOp =>
      absurd isOp (step.undeferred deferred fireAt entry)) entries delayed
    exact ⟨entries, delayed, handlers, distinct⟩
  | renewed | sweeping | stopped => exact ⟨entries, delayed, handlers, distinct⟩

end Enlisted

/-! ## Stages around a run -/

/-- The attempt for which a handler at the stage needs the lock. -/
def Stage.grips : Stage → Option Nat
  | .preparing attempt | .executing attempt => some attempt
  | _ => none

/-- A handler at the stage has not started its run. -/
def Stage.early : Stage → Bool
  | .arriving | .guarding | .counting | .locking _ | .preparing _ => true
  | _ => false

/-- Operations that take, release or no longer need a lock. -/
def Op.bearsOnLock : Op → Bool
  | .command (.setLock _ _ _) | .command (.releaseLock _ _) | .awaitJob => true
  | _ => false

section Stages

variable {settings : QueueSettings} {msg : JobMessage} {entry : Nat} {stage stage' : Stage}

/-- A handler needs the lock as before, or has just taken it. -/
theorem Step.grips {op : Op} {reply : OpReply op} {attempt : Nat}
    (step : Step settings msg entry stage op reply stage') (grips : stage'.grips = some attempt) :
    (stage.grips = some attempt ∧ op.bearsOnLock = false) ∨
    (stage = .locking attempt ∧
      op = .command (.setLock msg.pipeline (fence msg.jobId attempt) settings.lockTtlMs) ∧
      HEq reply (Except.ok true : Except Text Bool)) := by
  cases step with
  | idle stage op reply isIdle =>
    refine Or.inl ⟨grips, ?_⟩
    cases op with
    | nowIso | nowMs | abortHeartbeat => rfl
    | command | scanLive | startJob | awaitJob => exact nomatch isIdle
  | prepared number op reply prepares =>
    refine Or.inl ⟨grips, ?_⟩
    unfold Op.prepares at prepares
    split at prepares
    · rfl
    · rfl
    · rfl
    · rfl
    · exact nomatch prepares
  | begun number reply =>
    obtain rfl := Option.some.inj grips
    exact Or.inl ⟨rfl, rfl⟩
  | locked number =>
    obtain rfl := Option.some.inj grips
    exact Or.inr ⟨rfl, rfl, HEq.rfl⟩
  | ended number outcome => rcases outcome with (_ | _ | _ | _ | _ | _) | _ <;> exact nomatch grips
  | _ => exact nomatch grips

/-- Before its run a handler comes only from before its run. -/
theorem Step.early {op : Op} {reply : OpReply op}
    (step : Step settings msg entry stage op reply stage') (early : stage'.early = true) :
    stage.early = true ∧ ∀ pipeline fence, op ≠ .startJob pipeline fence := by
  cases step with
  | idle stage op reply isIdle =>
    refine ⟨early, ?_⟩
    rintro _ _ rfl
    exact nomatch isIdle
  | prepared number op reply prepares =>
    refine ⟨rfl, ?_⟩
    rintro _ _ rfl
    exact nomatch prepares
  | accepted | unseen | counted | locked => exact ⟨rfl, fun _ _ impossible => nomatch impossible⟩
  | ended number outcome => rcases outcome with (_ | _ | _ | _ | _ | _) | _ <;> exact nomatch early
  | _ => exact nomatch early

/-- A lock is released under the number of an attempt that owns it, or by a rejected delivery. -/
theorem Step.releases_as {pipeline held : Text} {reply : Except Text Unit}
    (step : Step settings msg entry stage (.command (.releaseLock pipeline held)) reply stage') :
    stage.grips = none ∧ ∃ number, held = fence msg.jobId number ∧
      (stage.owns = some number ∨ stage = .releasing .rejected) := by
  cases step with
  | exhausted attempt | returned attempt => exact ⟨rfl, attempt, rfl, Or.inl rfl⟩
  | unreleased closer | released closer =>
    refine ⟨rfl, closer.number, rfl, ?_⟩
    cases closer with
    | rejected => exact Or.inr rfl
    | attempt number => exact Or.inl rfl
  | idle stage op reply isIdle => exact nomatch isIdle
  | prepared attempt op reply prepares => exact nomatch prepares

/-- A lock is taken for the time of the settings. -/
theorem Step.locks_for {pipeline held : Text} {ttlMs : Nat} {reply : Except Text Bool}
    (step : Step settings msg entry stage (.command (.setLock pipeline held ttlMs)) reply stage') :
    ttlMs = settings.lockTtlMs := by
  cases step with
  | unlocked | busy | locked => rfl
  | idle stage op reply isIdle => exact nomatch isIdle
  | prepared attempt op reply prepares => exact nomatch prepares

/-- Only a handler in its run waits for its outcome. -/
theorem Step.awaits {reply : Except JobError JobOutcome}
    (step : Step settings msg entry stage .awaitJob reply stage') :
    ∃ attempt, stage = .executing attempt := by
  cases step with
  | ended attempt => exact ⟨attempt, rfl⟩
  | idle stage op reply isIdle => exact nomatch isIdle
  | prepared attempt op reply prepares => exact nomatch prepares

/-- No operation cancels its handler. -/
theorem cancelled_advance (handler : Handler) (op : Op) (reply : OpReply op)
    (rest : Handling Unit) :
    (handler.advance op reply rest).cancelled = handler.cancelled := by
  unfold Handler.advance
  split <;> rfl

end Stages

/-! ## Where a handler comes from -/

section Origins

variable {settings : QueueSettings} {queue after : Queue} {stages stages' : Nat → Stage}

/-- A handler of a message was left alone by a step, is new, took the step, or was cancelled. -/
inductive Origin (settings : QueueSettings) (queue : Queue) (stages : Nat → Stage) (action : QueueAction)
    (after : Queue) (stages' : Nat → Stage) (id : Nat) (handler : Handler) (msg : JobMessage) : Prop
  | unmoved (runs : queue.handlers.lookup id = some handler) (same : stages' id = stages id)
      (unanswered : ∀ response, action ≠ .answer id response) (alive : action ≠ .crash id)
  | arrived (worker : Text) (entry : Nat) (same : stages' id = .arriving)
      (isNew : handler = .fresh settings worker entry (.message msg))
  | stepped (found : Handler) (op : Op) (next : OpReply op → Handling Unit) (response : Response)
      (reply : OpReply op) (stage' : Stage) (same : stages' id = stage')
      (isNext : handler = found.advance op reply (next reply))
      (stepped : Stepped settings queue stages action after id found msg op next response reply stage')
  | cancelled (found : Handler) (fate : Fate) (isBeat : action = .beat id fate)
      (runs : queue.handlers.lookup id = some found) (same : stages' id = stages id)

/-- A handler after a step is a new one, or the same as before but for its own step. -/
theorem Successor.origin {action : QueueAction}
    (successor : Successor settings queue stages action after stages') {id : Nat}
    {handler : Handler} {msg : JobMessage} (runs : after.handlers.lookup id = some handler)
    (handlerAt : HandlerAt settings handler msg (stages' id)) :
    Origin settings queue stages action after stages' id handler msg := by
  cases successor with
  | enqueued => exact .unmoved runs rfl (fun _ impossible => nomatch impossible) (fun impossible => nomatch impossible)
  | outside action redis happens =>
    refine .unmoved runs rfl ?_ ?_
    · rintro response rfl
      exact nomatch happens
    · rintro rfl
      exact nomatch happens
  | arrived action arriving worker entry payload redis isNew handed =>
    rcases lookup_of_insert runs with ⟨rfl, rfl⟩ | ⟨different, before⟩
    · obtain rfl : payload = .message msg := handlerAt.isMessage
      exact .arrived worker entry (Function.update_self _ _ _) rfl
    · refine .unmoved before (Function.update_of_ne different _ _) ?_ ?_
      · rintro response rfl
        exact nomatch handed
      · rintro rfl
        exact nomatch handed
  | stepped stepping found msg' op next response reply services stage' foundRuns foundAt
      isCall permits
      responded step foundAt' =>
    rcases lookup_keepRunning runs with ⟨rfl, rfl⟩ | ⟨different, before⟩
    · obtain rfl : msg' = msg := by
        rw [Function.update_self] at handlerAt
        exact Payload.message.inj (foundAt'.isMessage.symm.trans handlerAt.isMessage)
      exact .stepped found op next response reply stage' (Function.update_self _ _ _) rfl
        ⟨rfl, foundRuns, foundAt, isCall, responded, step, foundAt', rfl, rfl⟩
    · refine .unmoved before (Function.update_of_ne different _ _) ?_
        (fun impossible => nomatch impossible)
      rintro _ ⟨⟩
      exact different rfl
  | strayed straying found command next fate foundRuns stray isCall harmless stray' =>
    rcases lookup_keepRunning runs with ⟨rfl, rfl⟩ | ⟨different, before⟩
    · obtain ⟨text, isMalformed⟩ := stray'.isMalformed
      exact nomatch isMalformed.symm.trans handlerAt.isMessage
    · refine .unmoved before rfl ?_ (fun impossible => nomatch impossible)
      rintro _ ⟨⟩
      exact different rfl
  | cancelled cancelling found fate foundRuns =>
    rcases lookup_of_insert runs with ⟨rfl, rfl⟩ | ⟨_, before⟩
    · exact .cancelled found fate rfl foundRuns rfl
    · exact .unmoved before rfl (fun _ impossible => nomatch impossible)
        (fun impossible => nomatch impossible)
  | renewed | sweeping | swept | stopped =>
    exact .unmoved runs rfl (fun _ impossible => nomatch impossible)
      (fun impossible => nomatch impossible)
  | crashed crashing =>
    obtain ⟨different, before⟩ := lookup_of_erase runs
    refine .unmoved before rfl (fun _ impossible => nomatch impossible) ?_
    rintro ⟨⟩
    exact different rfl

/-- A beat leaves the queue alone, or cancels a handler whose lock is not its own any more. -/
theorem step_beat {id : Nat} {fate : Fate}
    (stepped : queue.step settings (.beat id fate) = some after) :
    after = queue ∨ ∃ handler lock, queue.handlers.lookup id = some handler ∧
    handler.lock = some lock ∧
      queue.services.redis.locks.lookup lock.1 ≠ some lock.2 ∧
      after = { queue with handlers := queue.handlers.insert id { handler with cancelled := true } } := by
  simp only [Queue.step] at stepped
  split at stepped
  · next handler runs =>
    split at stepped
    · cases stepped
    · obtain ⟨lock, isLock, rfl⟩ := Option.map_eq_some_iff.mp stepped
      unfold Queue.beat
      split
      · next lost =>
        obtain ⟨_, isValue⟩ := reply_ok lost
        exact Or.inr ⟨handler, lock, runs, isLock, of_decide_eq_false isValue.symm, rfl⟩
      · exact Or.inl rfl
      · exact Or.inl rfl
  · cases stepped

end Origins

/-! ## Locks that stay -/

/-- The operation releases the lock. -/
def Op.Releases (pipeline held : Text) (op : Op) : Prop := op = .command (.releaseLock pipeline held)

section Locks

variable {settings : QueueSettings} {queue after : Queue} {stages stages' : Nat → Stage}

/-- A lock that is held stays unless it is released. -/
theorem locks_respond {services services' : Services} {op : Op} {response : Response}
    {reply : OpReply op}
    {pipeline held : Text} (responded : respond services op response = some (reply, services'))
    (isHeld : services.redis.locks.lookup pipeline = some held)
    (unreleased : ¬ op.Releases pipeline held) :
    services'.redis.locks.lookup pipeline = some held := by
  by_cases isCommand : ∃ command, op = .command command
  · obtain ⟨command, rfl⟩ := isCommand
    obtain ⟨fate, _, _, rfl⟩ := respond_command responded
    cases applied : fate.applied with
    | false =>
      rw [execute_unapplied applied]
      exact isHeld
    | true =>
      rw [execute_applied applied]
      cases command with
      | setLock other fence ttlMs =>
        simp only [Command.apply, Command.applyRedis]
        split
        · next free =>
          have different : pipeline ≠ other := by
            rintro rfl
            rw [isHeld] at free
            cases free
          exact (AList.lookup_insert_ne different).trans isHeld
        · exact isHeld
      | releaseLock other fence =>
        simp only [Command.apply, Command.applyRedis]
        split
        · next own =>
          have different : pipeline ≠ other := by
            rintro rfl
            obtain rfl := Option.some.inj (isHeld.symm.trans own)
            exact unreleased rfl
          exact (AList.lookup_erase_ne different).trans isHeld
        · exact isHeld
      | connect | hgetStatus | hgetEnqueuedAt | hincrAttempts | hset | getLock | renewLock
      | finishLive
      | abandonLive | deferEntry | xack | xrange | markRunning | markFinished => exact isHeld
  · rw [(respond_other (fun command same => isCommand ⟨command, same⟩) responded).1]
    exact isHeld

/-- A sweep releases no lock. -/
theorem SweepStep.unreleased {held held' : Option Text} {op : Op} {reply : OpReply op}
    (step : SweepStep held op reply held') (pipeline fence : Text) :
    ¬ op.Releases pipeline fence := by
  rintro rfl
  cases step with
  | idle _ _ _ isIdle => exact nomatch isIdle

/-- A lock that is held stays over a step that neither releases it nor is its expiry. -/
theorem locks_successor {action : QueueAction} {pipeline held : Text}
    (successor : Successor settings queue stages action after stages')
    (isHeld : queue.services.redis.locks.lookup pipeline = some held)
    (unexpired : action ≠ .expireLock pipeline)
    (unreleased : ∀ id handler msg op next response reply stage',
      Stepped settings queue stages action after id handler msg op next response reply stage' →
      ¬ op.Releases pipeline held) :
    after.services.redis.locks.lookup pipeline = some held := by
  cases successor with
  | enqueued | renewed | cancelled | crashed | sweeping | stopped => exact isHeld
  | outside action redis happens =>
    cases happens with
    | poisoned | progressed | trimmed | liveExpired => exact isHeld
    | moved now due isDue =>
      rw [Queue.withRedis, locks_moveOne]
      exact isHeld
    | lockExpired other =>
      have different : pipeline ≠ other := by
        rintro rfl
        exact unexpired rfl
      exact (AList.lookup_erase_ne different).trans isHeld
  | arrived action id worker entry payload redis isNew handed =>
    cases handed with
    | delivered | reclaimed => exact isHeld
  | stepped id handler msg op next response reply services stage' runs handlerAt isCall permits
      responded step handlerAt' =>
    exact locks_respond responded isHeld
      (unreleased id handler msg op next response reply stage'
        ⟨rfl, runs, handlerAt, isCall, responded, step, handlerAt', rfl, rfl⟩)
  | strayed id handler command next fate runs stray isCall harmless stray' =>
    refine locks_respond (respond_fate _ command fate) isHeld ?_
    rcases harmless with rfl | rfl
    · intro impossible
      cases impossible
    · intro impossible
      cases impossible
  | swept id sweep op next response reply services runs isCall responded step =>
    exact locks_respond responded isHeld (step.unreleased pipeline held)

/-- Who holds a fence for its run, releases or owns it alone. -/
theorem held_alone {id other attempt number : Nat} {handler handler' : Handler}
    {msg msg' : JobMessage}
    (numbered : Numbered settings queue stages) (runs : queue.handlers.lookup id = some handler)
    (handlerAt : HandlerAt settings handler msg (stages id))
    (owns : (stages id).owns = some attempt)
    (within : attempt ≤ settings.maxAttempts) (runs' : queue.handlers.lookup other = some handler')
    (handlerAt' : HandlerAt settings handler' msg' (stages other))
    (owns' : (stages other).owns = some number)
    (same : fence msg.jobId attempt = fence msg'.jobId number) : other = id := by
  obtain ⟨sameJob, rfl⟩ := fence_injective same
  have used : ∀ {job : Text} {acquirer : Nat}, queue.Acquired settings job acquirer attempt →
      (Int.ofNat attempt, acquirer) ∈ numbersUsed job queue.log :=
    fun acquired => acquired.resolve_right (Nat.not_lt.mpr within)
  have own := used ((numbered.owned id handler msg runs handlerAt).staged attempt owns)
  have others := used ((numbered.owned other handler' msg' runs' handlerAt').staged attempt owns')
  rw [← sameJob] at others
  exact congrArg Prod.snd
    (List.inj_on_of_nodup_map (numbered.sound msg.jobId).usedOnce others own rfl)

/-- Who holds the lock during its run has taken it. -/
theorem owns_of_grips {stage : Stage} {attempt : Nat} (grips : stage.grips = some attempt) :
    stage.owns = some attempt := by
  cases stage with
  | preparing | executing => exact grips
  | _ => exact nomatch grips

/-- A handler that needs its lock has a valid message and an attempt within the bound. -/
theorem grips_sound {stage : Stage} {msg : JobMessage} {attempt : Nat}
    (sound : stage.Sound settings msg)
    (grips : stage.grips = some attempt) : msg.Valid ∧ attempt ≤ settings.maxAttempts := by
  cases stage with
  | preparing | executing =>
    obtain rfl := Option.some.inj grips
    exact sound
  | _ => exact nomatch grips

/-- No other handler releases the lock of one that needs it. -/
theorem unreleased_stepped {action : QueueAction} {id attempt other : Nat}
    {handler handler' : Handler}
    {msg msg' : JobMessage} {op : Op} {next : OpReply op → Handling Unit} {response : Response}
    {reply : OpReply op} {stage' : Stage} (numbered : Numbered settings queue stages)
    (enlisted : queue.Enlisted) (runs : queue.handlers.lookup id = some handler)
    (handlerAt : HandlerAt settings handler msg (stages id))
    (grips : (stages id).grips = some attempt)
    (stepped : Stepped settings queue stages action after other handler' msg' op next response reply
      stage') :
    ¬ op.Releases msg.pipeline (fence msg.jobId attempt) := by
  rintro rfl
  obtain ⟨valid, within⟩ := grips_sound handlerAt.sound grips
  obtain ⟨loose, number, isFence, owns | rejected⟩ := stepped.step.releases_as
  · obtain rfl := held_alone numbered runs handlerAt (owns_of_grips grips) within stepped.runs
      stepped.handlerAt owns isFence
    rw [loose] at grips
    exact nomatch grips
  · have invalid : ¬ msg'.Valid := by
      have sound := stepped.handlerAt.sound
      rw [rejected] at sound
      exact sound
    have isMessage := enlisted.handlers id handler msg runs handlerAt.isMessage
    have isMessage' :=
      enlisted.handlers other handler' msg' stepped.runs stepped.handlerAt.isMessage
    rw [enlisted.distinct msg isMessage msg' isMessage' (fence_injective isFence).1.symm] at invalid
    exact invalid valid

end Locks

/-! ## Runs under their locks -/

/-- A handler has the lock of its pipeline under the fence of its attempt, in time, and is not
cancelled. -/
structure TimedQueue.Grip (timed : TimedQueue) (id : Nat) (handler : Handler) (msg : JobMessage)
    (attempt : Nat) : Prop where
  isHeld : timed.held.lookup id = some (msg.pipeline, fence msg.jobId attempt)
  locked : timed.queue.services.redis.locks.lookup msg.pipeline = some (fence msg.jobId attempt)
  lasts : ∃ expiry, timed.expiry.lookup msg.pipeline = some expiry ∧ timed.now < expiry
  uncancelled : handler.cancelled = false

/-- What holds throughout a punctual run. -/
structure TimedQueue.Guarded (settings : QueueSettings) (timed : TimedQueue) (stages : Nat → Stage) :
    Prop where
  tracked : Tracked settings timed.queue stages
  numbered : Numbered settings timed.queue stages
  enlisted : timed.queue.Enlisted
  early : ∀ id handler msg, timed.queue.handlers.lookup id = some handler →
    HandlerAt settings handler msg (stages id) → (stages id).early = true →
      handler.lock = none ∧ handler.cancelled = false
  grips : ∀ id handler msg attempt, timed.queue.handlers.lookup id = some handler →
    HandlerAt settings handler msg (stages id) → (stages id).grips = some attempt →
      timed.Grip id handler msg attempt

section Guarded

variable {settings : QueueSettings} {timed : TimedQueue} {after : Queue}
  {stages stages' : Nat → Stage}

/-- Whoever takes a lock asks for the time of the settings. -/
theorem leases_ttl {queue : Queue} (tracked : Tracked settings queue stages) {action : QueueAction}
    {pipeline : Text} {ttlMs : Nat}
    (leased : queue.leases settings action = some (pipeline, ttlMs)) :
    ttlMs = settings.lockTtlMs := by
  unfold Queue.leases at leased
  split at leased
  · next id fate =>
    split at leased
    · next other stored asked isPending =>
      split at leased
      · obtain ⟨rfl, rfl⟩ := Prod.mk.inj (Option.some.inj leased)
        obtain ⟨handler, runs⟩ := runs_of_pending isPending
        obtain ⟨next, isCall⟩ := call_of_pending runs isPending
        rcases tracked.handlers id handler runs with ⟨msg, handlerAt⟩ | stray
        · obtain ⟨stage', step, _⟩ := handlerAt.advance isCall (.ok true)
          exact step.locks_for
        · rcases (stray.advance isCall (.ok true)).1 with impossible | impossible
          · cases impossible
          · cases impossible
      · cases leased
    · cases leased
  · split at leased
    · split at leased
      · exact (Prod.mk.inj (Option.some.inj leased)).2.symm
      · cases leased
    · cases leased
  · cases leased

/-- The time of a lock only gets later. -/
theorem lasts_leased (positive : 0 < settings.lockTtlMs)
    (tracked : Tracked settings timed.queue stages) {action : QueueAction} {pipeline : Text}
    (lasts : ∃ expiry, timed.expiry.lookup pipeline = some expiry ∧ timed.now < expiry) :
    ∃ expiry, (match timed.queue.leases settings action with
      | some (other, ttlMs) => timed.expiry.insert other (timed.now + ttlMs)
      | none => timed.expiry).lookup pipeline = some expiry ∧ timed.now < expiry := by
  split
  · next other ttlMs leased =>
    by_cases same : pipeline = other
    · subst same
      rw [leases_ttl tracked leased]
      exact ⟨_, AList.lookup_insert _, Nat.lt_add_of_pos_right positive⟩
    · rw [AList.lookup_insert_ne same]
      exact lasts
  · exact lasts

/-- Whoever neither answers nor crashes keeps what it has. -/
theorem holding_other {action : QueueAction} {id : Nat}
    (unanswered : ∀ response, action ≠ .answer id response)
    (alive : action ≠ .crash id) : (timed.holding action).lookup id = timed.held.lookup id := by
  unfold TimedQueue.holding
  split
  · next other response =>
    have different : id ≠ other := by
      rintro rfl
      exact unanswered response rfl
    split
    · split
      · exact AList.lookup_insert_ne different
      · rfl
    · exact AList.lookup_erase_ne different
    · rfl
  · next other =>
    have different : id ≠ other := by
      rintro rfl
      exact alive rfl
    exact AList.lookup_erase_ne different
  · rfl

/-- Other operations leave it alone. -/
theorem holding_quiet {id : Nat} {response : Response} {op : Op}
    (isPending : timed.queue.pending id = some op)
    (quiet : op.bearsOnLock = false) : timed.holding (.answer id response) = timed.held := by
  simp only [TimedQueue.holding, isPending]
  split
  · next isLock =>
    rw [Option.some.inj isLock] at quiet
    exact nomatch quiet
  · next isWait =>
    rw [Option.some.inj isWait] at quiet
    exact nomatch quiet
  · rfl

variable {action : QueueAction}

/-- The queue after an action, with its times and locks. -/
def TimedQueue.moved (settings : QueueSettings) (timed : TimedQueue) (action : QueueAction) (after : Queue) :
    TimedQueue :=
  { timed with
    queue := after
    expiry := match timed.queue.leases settings action with
      | some (pipeline, ttlMs) => timed.expiry.insert pipeline (timed.now + ttlMs)
      | none => timed.expiry
    held := timed.holding action }

/-- A grip stays over a step if the handler keeps its lock and is not cancelled. -/
theorem TimedQueue.Guarded.stays (guarded : timed.Guarded settings stages)
    (positive : 0 < settings.lockTtlMs) (allows : timed.Allows action)
    (successor : Successor settings timed.queue stages action after stages')
    {id attempt : Nat} {found handler : Handler} {msg : JobMessage}
    (runs : timed.queue.handlers.lookup id = some found)
    (handlerAt : HandlerAt settings found msg (stages id))
    (isGrip : (stages id).grips = some attempt)
    (keeps : (timed.holding action).lookup id = timed.held.lookup id)
    (same : handler.cancelled = found.cancelled) :
    (timed.moved settings action after).Grip id handler msg attempt := by
  have grip := guarded.grips id found msg attempt runs handlerAt isGrip
  refine ⟨keeps.trans grip.isHeld, ?_, lasts_leased positive guarded.tracked grip.lasts,
    same.trans grip.uncancelled⟩
  refine locks_successor successor grip.locked ?_
    (fun other handler' msg' op next response reply stage' stepped =>
    unreleased_stepped guarded.numbered guarded.enlisted runs handlerAt isGrip stepped)
  rintro rfl
  obtain ⟨expiry, isExpiry, later⟩ := grip.lasts
  exact absurd (allows expiry isExpiry) (Nat.not_le.mpr later)

/-- A handler takes a free lock. -/
theorem TimedQueue.Guarded.takes (guarded : timed.Guarded settings stages)
    (positive : 0 < settings.lockTtlMs) {id attempt : Nat} {found : Handler} {msg : JobMessage}
    {next : Except Text Bool → Handling Unit}
    {response : Response} {stage' : Stage} (atLock : stages id = .locking attempt)
    (stepped : Stepped settings timed.queue stages action after id found msg
      (.command (.setLock msg.pipeline (fence msg.jobId attempt) settings.lockTtlMs)) next response
        (.ok true) stage') :
    (timed.moved settings action after).Grip id
      (found.advance (.command (.setLock msg.pipeline (fence msg.jobId attempt) settings.lockTtlMs))
        (.ok true)
        (next (.ok true))) msg attempt := by
  obtain ⟨fate, rfl, isReply, isAfter⟩ := respond_command stepped.responded
  obtain ⟨rfl, isFree⟩ := reply_ok isReply.symm
  obtain rfl := stepped.isAction
  have free : (timed.queue.services.redis.locks.lookup msg.pipeline).isNone = true := isFree.symm
  have isPending : timed.queue.pending id =
      some (.command (.setLock msg.pipeline (fence msg.jobId attempt) settings.lockTtlMs)) :=
    pending_call stepped.runs stepped.isCall
  have isEarly : (stages id).early = true := by
    rw [atLock]
    rfl
  refine ⟨?_, ?_, ?_, ?_⟩
  · simp only [TimedQueue.moved, TimedQueue.holding, isPending, free, ↓reduceIte]
    exact AList.lookup_insert _
  · rw [TimedQueue.moved, isAfter, execute_applied rfl]
    simp only [Command.apply, Command.applyRedis, free, ↓reduceIte]
    exact AList.lookup_insert _
  · refine ⟨timed.now + settings.lockTtlMs, ?_, Nat.lt_add_of_pos_right positive⟩
    simp only [TimedQueue.moved, Queue.leases, isPending, free, Fate.applied, Bool.and_self,
      ↓reduceIte]
    exact AList.lookup_insert _
  · rw [cancelled_advance]
    exact (guarded.early id found msg stepped.runs stepped.handlerAt isEarly).2

/-- A beat keeps what a handler at its stage is known for. -/
theorem handlerAt_uncancelled {handler : Handler} {msg : JobMessage} {stage : Stage}
    (handlerAt : HandlerAt settings { handler with cancelled := true } msg stage) :
    HandlerAt settings handler msg stage :=
  ⟨handlerAt.isMessage, handlerAt.keeps, handlerAt.sound, handlerAt.numbered, handlerAt.looked,
    handlerAt.renews⟩

/-- The heartbeat of a handler that has its lock does not find it lost. -/
theorem TimedQueue.Grip.beats {id attempt : Nat} {handler : Handler} {msg : JobMessage}
    (grip : timed.Grip id handler msg attempt) {stage : Stage}
    (handlerAt : HandlerAt settings handler msg stage)
    (isGrip : stage.grips = some attempt) {lock : Text × Text} (isLock : handler.lock = some lock) :
    timed.queue.services.redis.locks.lookup lock.1 = some lock.2 := by
  obtain ⟨number, isNumber, rfl⟩ := handlerAt.renews lock isLock
  have isAttempt : stage.attempt? = some attempt ∧ stage ≠ .over := by
    cases stage with
    | preparing | executing => exact ⟨isGrip, fun impossible => nomatch impossible⟩
    | _ => exact nomatch isGrip
  rw [handlerAt.numbered isAttempt.2, isAttempt.1] at isNumber
  obtain rfl := Option.some.inj isNumber
  exact grip.locked

/-- Handlers before their run have nothing to renew. -/
theorem TimedQueue.Guarded.early_step (guarded : timed.Guarded settings stages)
    (stepped : timed.queue.step settings action = some after)
    (successor : Successor settings timed.queue stages action after stages')
    {id : Nat} {handler : Handler} {msg : JobMessage}
    (runs : after.handlers.lookup id = some handler)
    (handlerAt : HandlerAt settings handler msg (stages' id))
    (isEarly : (stages' id).early = true) :
    handler.lock = none ∧ handler.cancelled = false := by
  cases successor.origin runs handlerAt with
  | unmoved before same unanswered alive =>
    rw [same] at handlerAt isEarly
    exact guarded.early id handler msg before handlerAt isEarly
  | arrived worker entry same isNew =>
    subst isNew
    exact ⟨rfl, rfl⟩
  | stepped found op next response reply stage' same isNext taken =>
    rw [same] at isEarly
    obtain ⟨wasEarly, unstarted⟩ := taken.step.early isEarly
    obtain ⟨unlocked, uncancelled⟩ := guarded.early id found msg taken.runs taken.handlerAt wasEarly
    subst isNext
    refine ⟨?_, (cancelled_advance _ _ _ _).trans uncancelled⟩
    cases holds : (found.advance op reply (next reply)).lock with
    | none => rfl
    | some lock =>
      rcases lock_of_advance holds with before | starts
      · rw [unlocked] at before
        exact nomatch before
      · exact absurd starts (unstarted _ _)
  | cancelled found fate isBeat before same =>
    subst isBeat
    rw [same] at handlerAt isEarly
    rcases step_beat stepped with rfl | ⟨beaten, lock, beatenRuns, isLock, lost, rfl⟩
    · exact guarded.early id handler msg runs handlerAt isEarly
    · rcases lookup_of_insert runs with ⟨_, rfl⟩ | ⟨different, _⟩
      · have unlocked :=
          (guarded.early id beaten msg beatenRuns (handlerAt_uncancelled handlerAt) isEarly).1
        rw [isLock] at unlocked
        exact nomatch unlocked
      · exact absurd rfl different

/-- Handlers that prepare or run their jobs keep their grips. -/
theorem TimedQueue.Guarded.grips_step (guarded : timed.Guarded settings stages)
    (positive : 0 < settings.lockTtlMs) (allows : timed.Allows action)
    (stepped : timed.queue.step settings action = some after)
    (successor : Successor settings timed.queue stages action after stages')
    {id attempt : Nat} {handler : Handler} {msg : JobMessage}
    (runs : after.handlers.lookup id = some handler)
    (handlerAt : HandlerAt settings handler msg (stages' id))
    (isGrip : (stages' id).grips = some attempt) :
    (timed.moved settings action after).Grip id handler msg attempt := by
  cases successor.origin runs handlerAt with
  | unmoved before same unanswered alive =>
    rw [same] at handlerAt isGrip
    exact guarded.stays positive allows successor before handlerAt isGrip
      (holding_other unanswered alive) rfl
  | arrived worker entry same isNew =>
    rw [same] at isGrip
    exact nomatch isGrip
  | stepped found op next response reply stage' same isNext taken =>
    rw [same] at isGrip
    subst isNext
    rcases taken.step.grips isGrip with ⟨wasGrip, quiet⟩ | ⟨atLock, rfl, isTrue⟩
    · refine guarded.stays positive allows successor taken.runs taken.handlerAt wasGrip ?_
        (cancelled_advance _ _ _ _)
      rw [taken.isAction, holding_quiet (pending_call taken.runs taken.isCall) quiet]
    · obtain rfl := eq_of_heq isTrue
      exact guarded.takes positive atLock taken
  | cancelled found fate isBeat before same =>
    subst isBeat
    rw [same] at handlerAt isGrip
    have keeps : (timed.holding (.beat id fate)).lookup id = timed.held.lookup id :=
      holding_other (fun _ impossible => nomatch impossible) (fun impossible => nomatch impossible)
    rcases step_beat stepped with same | ⟨beaten, lock, beatenRuns, isLock, lost, isAfter⟩
    · rw [same] at runs
      exact guarded.stays positive allows successor runs handlerAt isGrip keeps rfl
    · rw [isAfter] at runs
      rcases lookup_of_insert runs with ⟨_, rfl⟩ | ⟨different, _⟩
      · have beatenAt := handlerAt_uncancelled handlerAt
        have grip := guarded.grips id beaten msg attempt beatenRuns beatenAt isGrip
        exact absurd (grip.beats beatenAt isGrip isLock) lost
      · exact absurd rfl different

/-- Time that passes in time leaves grips alone. -/
theorem TimedQueue.Guarded.elapse (guarded : timed.Guarded settings stages) {ms : Nat}
    (punctual : timed.Punctual (.elapse ms)) :
    TimedQueue.Guarded settings { timed with now := timed.now + ms } stages := by
  refine ⟨guarded.tracked, guarded.numbered, guarded.enlisted, guarded.early, ?_⟩
  intro id handler msg attempt runs handlerAt isGrip
  obtain ⟨isHeld, locked, ⟨expiry, isExpiry, _⟩, uncancelled⟩ :=
    guarded.grips id handler msg attempt runs handlerAt isGrip
  exact ⟨isHeld, locked, ⟨expiry, isExpiry,
    punctual ⟨id, _⟩ (AList.mem_lookup_iff.mp isHeld) expiry isExpiry⟩, uncancelled⟩

/-- An action of the queue takes it to a successor and keeps what holds of a punctual run. -/
theorem TimedQueue.Guarded.act (guarded : timed.Guarded settings stages)
    (positive : 0 < settings.lockTtlMs)
    {timed' : TimedQueue} (stepped : timed.step settings (.act action) = some timed')
    (numbers : timed.queue.Numbers action) (isDistinct : timed.queue.Distinct action) :
    ∃ stages', Successor settings timed.queue stages action timed'.queue stages' ∧
      timed'.Guarded settings stages' := by
  simp only [TimedQueue.step] at stepped
  split at stepped
  · next allows =>
    obtain ⟨after, isAfter, rfl⟩ := Option.map_eq_some_iff.mp stepped
    obtain ⟨stages', successor⟩ := step_successor guarded.tracked isAfter
    refine ⟨stages', successor, successor.tracked guarded.tracked,
      numbered_successor guarded.tracked guarded.numbered numbers successor,
      enlisted_successor guarded.enlisted isDistinct successor, ?_, ?_⟩
    · exact fun id handler msg runs handlerAt isEarly =>
        guarded.early_step isAfter successor runs handlerAt isEarly
    · exact fun id handler msg attempt runs handlerAt isGrip =>
        guarded.grips_step positive allows isAfter successor runs handlerAt isGrip
  · cases stepped

/-- One step keeps what holds of a punctual run. -/
theorem TimedQueue.Guarded.step (guarded : timed.Guarded settings stages)
    (positive : 0 < settings.lockTtlMs)
    {action : TimedAction} {timed' : TimedQueue} (punctual : timed.Punctual action)
    (stepped : timed.step settings action = some timed') :
    ∃ stages', timed'.Guarded settings stages' := by
  cases action with
  | elapse ms =>
    obtain rfl := Option.some.inj stepped
    exact ⟨stages, guarded.elapse punctual⟩
  | act action =>
    obtain ⟨stages', _, guarded'⟩ := guarded.act positive stepped punctual.1 punctual.2
    exact ⟨stages', guarded'⟩

/-- A handler that waits for its run is in it. -/
theorem TimedQueue.Guarded.executes (guarded : timed.Guarded settings stages) {id : Nat}
    {handler : Handler} {msg : JobMessage} (runs : timed.queue.handlers.lookup id = some handler)
    (isMessage : handler.payload = .message msg)
    (awaits : timed.queue.pending id = some .awaitJob) :
    HandlerAt settings handler msg (stages id) ∧ ∃ attempt, stages id = .executing attempt := by
  obtain ⟨next, isCall⟩ := call_of_pending runs awaits
  rcases guarded.tracked.handlers id handler runs with ⟨found, handlerAt⟩ | stray
  · obtain rfl := Payload.message.inj (handlerAt.isMessage.symm.trans isMessage)
    obtain ⟨stage', step, _⟩ := handlerAt.advance isCall (.error .noFiles)
    exact ⟨handlerAt, step.awaits⟩
  · obtain ⟨text, isMalformed⟩ := stray.isMalformed
    exact nomatch isMalformed.symm.trans isMessage

/-- Before anything is enqueued. -/
theorem initial_guarded (settings : QueueSettings) (rows : AList (fun _ : Text => JobRow)) :
    (TimedQueue.initial rows).Guarded settings (fun _ => .over) where
  tracked := initial_tracked rows
  numbered := by
    have nobody : ∀ jobId id number,
        (Queue.initial rows).triedAs (fun _ => .over) jobId id ≠ some number := by
      intro jobId id number holds
      obtain ⟨_, _, impossible, _⟩ := triedAs_iff.mp holds
      exact nomatch impossible
    refine ⟨fun jobId => ⟨?_, fun _ impossible => (nomatch impossible), ?_, ?_, List.nodup_nil⟩,
      fun _ impossible => (nomatch impossible), fun _ _ _ impossible => nomatch impossible⟩
    · exact fun id number holds => absurd holds (nobody jobId id number)
    · exact fun id _ number holds => absurd holds (nobody jobId id number)
    · exact fun id number holds => absurd holds (nobody jobId id number)
  enlisted := ⟨fun _ _ impossible => (nomatch impossible), fun msg impossible => by
    simp [TimedQueue.initial, Queue.initial, Redis.empty] at impossible,
      fun _ _ _ impossible => (nomatch impossible),
    fun _ impossible => (nomatch impossible)⟩
  early := fun _ _ _ impossible => nomatch impossible
  grips := fun _ _ _ _ impossible => nomatch impossible

end Guarded

/-- While locks are renewed in time, no two handlers run jobs of one pipeline, a run has the lock of
its pipeline under the fence of its attempt, and its heartbeat does not cancel it. -/
theorem runs_exclusive {settings : QueueSettings} (positive : 0 < settings.lockTtlMs)
    {rows : AList (fun _ : Text => JobRow)} {timed : TimedQueue}
    (reached : Runs.Reaches (TimedQueue.step settings) TimedQueue.Punctual (TimedQueue.initial rows) timed)
    {id : Nat} {handler : Handler} {msg : JobMessage} (runs : timed.queue.handlers.lookup id = some handler)
    (isMessage : handler.payload = .message msg) (awaits : timed.queue.pending id = some .awaitJob) :
    (∃ attempt, handler.attempt = some attempt ∧
      timed.queue.services.redis.locks.lookup msg.pipeline = some (fence msg.jobId attempt)) ∧
    handler.cancelled = false ∧
    ∀ other handler' msg', timed.queue.handlers.lookup other = some handler' →
      handler'.payload = .message msg' → timed.queue.pending other = some .awaitJob →
      msg'.pipeline = msg.pipeline → other = id := by
  obtain ⟨stages, guarded⟩ :=
    reached.invariant (fun timed => ∃ stages, timed.Guarded settings stages)
    ⟨_, initial_guarded settings rows⟩ (fun before action after holds punctual stepped => by
      obtain ⟨stages, guarded⟩ := holds
      exact guarded.step positive punctual stepped)
  have gripsAt : ∀ {number : Nat} {stage : Stage}, stage = .executing number →
    stage.grips = some number := by
    rintro number _ rfl
    rfl
  obtain ⟨handlerAt, attempt, inRun⟩ := guarded.executes runs isMessage awaits
  have grip := guarded.grips id handler msg attempt runs handlerAt (gripsAt inRun)
  refine ⟨⟨attempt, ?_, grip.locked⟩, grip.uncancelled, ?_⟩
  · rw [handlerAt.numbered (by rw [inRun]; exact fun impossible => nomatch impossible), inRun]
    rfl
  · intro other handler' msg' runs' isMessage' awaits' samePipeline
    obtain ⟨handlerAt', attempt', inRun'⟩ := guarded.executes runs' isMessage' awaits'
    have grip' := guarded.grips other handler' msg' attempt' runs' handlerAt' (gripsAt inRun')
    have locked' := grip'.locked
    rw [samePipeline, grip.locked] at locked'
    exact held_alone guarded.numbered runs handlerAt (owns_of_grips (gripsAt inRun))
      (grips_sound handlerAt.sound (gripsAt inRun)).2 runs' handlerAt'
        (owns_of_grips (gripsAt inRun'))
      (Option.some.inj locked')

/-- A run outlasts the time of its lock, which is renewed, and another job finds the lock busy. -/
def renewing : List TimedAction :=
  List.map .act ([.enqueue smallJob, .enqueue otherJob, .deliver 0 "w".toList] ++ replies 0 (toLock ++ toRun)) ++
    [.elapse 60000, .act (.beat 0 .served), .elapse 60000] ++
    List.map .act ([.deliver 1 "w".toList] ++ replies 1 (toLock ++ serve 1))

/-- At 120 seconds a run goes on whose lock was taken at zero and renewed since; no other run of the
pipeline does. -/
theorem runs_exclusive_renewed : ∃ timed : TimedQueue, timed.now = 120000 ∧
    timed.queue.services.redis.locks.lookup smallJob.pipeline = some (fence smallJob.jobId 1) ∧
    ∀ other handler' msg', timed.queue.handlers.lookup other = some handler' →
      handler'.payload = .message msg' → timed.queue.pending other = some .awaitJob →
      msg'.pipeline = smallJob.pipeline → other = 0 := by
  obtain ⟨timed, reached, time, awaits, isSmall, isFirst⟩ :=
    Runs.reaches_of_check (TimedQueue.step .default)
    TimedQueue.Punctual (TimedQueue.initial ∅) renewing
    (fun timed => timed.now = 120000 ∧ timed.queue.pending 0 = some .awaitJob ∧
      (timed.queue.handlers.lookup 0).map Handler.payload = some (.message smallJob) ∧
      timed.queue.attemptOf 0 = some 1) (by decide +kernel)
  obtain ⟨handler, runs, isMessage⟩ := Option.map_eq_some_iff.mp isSmall
  obtain ⟨⟨attempt, isAttempt, locked⟩, _, alone⟩ :=
    runs_exclusive (by decide) reached runs isMessage awaits
  simp only [Queue.attemptOf, runs, Option.bind_some, isAttempt] at isFirst
  rw [Option.some.inj isFirst] at locked
  exact ⟨timed, time, locked, alone⟩

end KaretWorker
