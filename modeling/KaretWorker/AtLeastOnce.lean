import KaretWorker.AttemptBound
import KaretWorker.Deliveries

/-!
# No job is lost

Every exit of a handler either leaves its entry pending or takes it off the list, and
then the job is settled or its message is on the delayed set again. `no_job_lost` says
so of every queue that is reached while the stream is trimmed of acknowledged entries
only: handlers may stop anywhere, every command may fail or fail to report back, and
entries may be reclaimed at any time.

The invariant carries what a handler may rely on when it acknowledges: its entry still
has its message, and past the guard or the terminal update its job is settled.
-/
namespace KaretWorker

open Texts Interaction Indexing

/-- The stream is trimmed only of an entry that was delivered and acknowledged. -/
def Queue.TrimsAcked (queue : Queue) : QueueAction → Prop
  | .trim => ∀ entry ∈ queue.services.redis.entries.head?,
      entry.1 < queue.services.redis.unread ∧ entry.1 ∉ queue.services.redis.pending
  | _ => True

instance (queue : Queue) : DecidablePred queue.TrimsAcked
  | .trim => inferInstanceAs (Decidable (∀ entry ∈ queue.services.redis.entries.head?, _ ∧ _))
  | .enqueue _ | .poison _ | .deliver _ _ | .reclaim _ _ _ | .answer _ _ | .beat _ _ | .progress _
  | .crash _ | .move _ _ | .expireLock _ | .expireLive _ | .sweep _ | .answerSweep _ _
  | .stopSweep _ => isTrue trivial

/-- A handler at the stage acknowledges its entry for good. -/
def Stage.closing : Stage → Bool
  | .dismissing | .releasing _ | .acking _ => true
  | _ => false

/-! ## What a handler does before it acknowledges -/

section Steps

variable {settings : QueueSettings} {msg : JobMessage} {entry : Nat} {stage stage' : Stage}
  {op : Op}
  {reply : OpReply op}

/-- Before a handler acknowledges for good, it saw its job settled or settled it. -/
theorem Step.closes {services services' : Services} {response : Response}
    (step : Step settings msg entry stage op reply stage')
    (responded : respond services op response = some (reply, services'))
    (sound : stage.Sound settings msg) (closing : stage'.closing = true) :
    stage.closing = true ∨ services.redis.Settled msg.jobId ∨
      msg.jobId ∈ settledBy op response := by
  cases step with
  | idle | released => exact Or.inl closing
  | seen reply terminal =>
    obtain ⟨fate, rfl, isReply, _⟩ := respond_command responded
    refine Or.inr (Or.inl ?_)
    rcases reply with error | _ | status
    · cases terminal
    · cases terminal
    · obtain ⟨_, isValue⟩ := reply_ok isReply.symm
      exact ⟨status, isValue.symm, terminal⟩
  | published closer status finishedAt message partitions ttlS =>
    obtain ⟨fate, rfl, isReply, _⟩ := respond_command responded
    obtain ⟨rfl, _⟩ := reply_ok isReply.symm
    refine Or.inr (Or.inr ?_)
    simp [settledBy, Fate.applied, Command.settles, sound.2]
  | ended attempt outcome =>
    rcases outcome with (error | error | errors | _ | error | _) | outcome <;>
      cases closing
  | unconnected | rejected | accepted | unseen | dismissed | gaveUp | counted | unlocked | busy
  | locked | yielded | deferred | prepared | begun | exhausted | returned | requeued | unchecked
  | withheld | cleared | recorded | unpublished | unreleased | acked => cases closing

/-- A handler acknowledges its own entry, when it closes or with a deferral of its
message. -/
theorem Step.acks {command : Command} {reply : Except Text (Value command)}
    (step : Step settings msg entry stage (.command command) reply stage') {acked : Nat}
    (acks : command.acks = some acked) :
    acked = entry ∧ ((stage.closing = true ∧ command = .xack entry) ∨
      ∃ fireAt, command = .deferEntry msg fireAt entry) := by
  cases step with
  | dismissed | acked => exact ⟨(Option.some.inj acks).symm, Or.inl ⟨rfl, rfl⟩⟩
  | deferred attempt fireAt => exact ⟨(Option.some.inj acks).symm, Or.inr ⟨fireAt, rfl⟩⟩
  | idle stage op reply isIdle => exact nomatch isIdle
  | prepared attempt op reply prepares =>
    cases command with
    | xack | deferEntry => exact nomatch prepares
    | connect | hgetStatus | hgetEnqueuedAt | hincrAttempts | hset | setLock | getLock | releaseLock
    | renewLock | finishLive | abandonLive | xrange | markRunning | markFinished =>
      exact nomatch acks
  | unconnected | rejected | accepted | seen | unseen | gaveUp | counted | unlocked | busy | locked
  | yielded | exhausted | returned | requeued | unchecked | withheld | cleared | recorded
  | unpublished | published | unreleased | released => exact nomatch acks

end Steps

/-- A sweep acknowledges nothing. -/
theorem SweepStep.unacking {held held' : Option Text} {command : Command}
    {reply : Except Text (Value command)}
    (step : SweepStep held (.command command) reply held') : command.acks = none := by
  cases step with
  | looked | abandoned | dated | ranged => rfl
  | idle held op reply isIdle => exact nomatch isIdle

/-! ## What a handler was given -/

/-- The handler's entry was delivered, and if it is still in the stream it has the
handler's payload. -/
def Redis.Gave (redis : Redis) (handler : Handler) : Prop :=
  handler.entry < redis.unread ∧
    ∀ payload, (handler.entry, payload) ∈ redis.entries → payload = handler.payload

section Gave

variable {redis redis' : Redis} {handler : Handler}

/-- A stream that kept at most its entries, and the group's position in it. -/
theorem Redis.Gave.fewer (gave : redis.Gave handler) (fewer : redis'.entries ⊆ redis.entries)
    (unread : redis'.unread = redis.unread) : redis'.Gave handler :=
  ⟨by rw [unread]; exact gave.1, fun payload member => gave.2 payload (fewer member)⟩

/-- A new entry leaves a handler the entry it was given. -/
theorem Redis.Gave.append (gave : redis.Gave handler) (ordered : redis.Ordered)
    (payload : Payload) :
    (redis.append payload).Gave handler := by
  refine ⟨gave.1, fun found member => ?_⟩
  rcases List.mem_append.mp member with before | isLast
  · exact gave.2 found before
  · have isNew : handler.entry = redis.nextEntry :=
      congrArg Prod.fst (List.mem_singleton.mp isLast)
    have earlier := gave.1
    have reached := ordered.reached
    omega

/-- Moving due jobs leaves a handler the entry it was given. -/
theorem Redis.Gave.moved (gave : redis.Gave handler) (ordered : redis.Ordered)
    (due : List JobMessage) : (due.foldl Redis.moveOne redis).Gave handler := by
  induction due generalizing redis with
  | nil => exact gave
  | cons taken rest inductionHypothesis =>
    have still : Redis.Gave { redis with delayed := redis.delayed.erase taken } handler := gave
    exact inductionHypothesis (still.append (ordered.taken taken) _)
      ((ordered.taken taken).append (.message taken))

/-- Giving out a further entry leaves a handler the one it was given. -/
theorem Redis.Gave.deliver (gave : redis.Gave handler) (ordered : redis.Ordered) {entry : Nat}
    {payload : Payload} (isNext : redis.nextUnread = some (entry, payload)) :
    (redis.deliver entry).Gave handler := by
  obtain ⟨_, unread, _⟩ := nextUnread_least ordered isNext
  have earlier := gave.1
  refine ⟨?_, gave.2⟩
  show handler.entry < entry + 1
  omega

/-- A new handler was given its entry. -/
theorem gave_handed (ordered : redis.Ordered) {settings : QueueSettings} {action : QueueAction}
    {id entry : Nat} {worker : Text} {payload : Payload}
    (handed : Handed redis id worker action entry payload redis') :
    redis'.Gave (.fresh settings worker entry payload) := by
  cases handed with
  | delivered entry payload isNext =>
    obtain ⟨member, _, _⟩ := nextUnread_least ordered isNext
    exact ⟨Nat.lt_succ_self _, fun found isEntry => ordered.unique isEntry member⟩
  | reclaimed entry payload isThere isPending =>
    exact ⟨ordered.delivered entry isPending,
      fun found isEntry => ordered.unique isEntry (payloadAt_mem isThere)⟩

end Gave

/-! ## The invariant -/

/-- Handlers have what they were given, whoever closes has a settled job, and no message
is lost. -/
structure Conserved (settings : QueueSettings) (queue : Queue) (stages : Nat → Stage) : Prop where
  ordered : queue.services.redis.Ordered
  settled : ∀ jobId, queue.services.redis.Settled jobId → jobId ∈ queue.settled
  given : ∀ id handler, queue.handlers.lookup id = some handler → queue.services.redis.Gave handler
  closing : ∀ id handler msg, queue.handlers.lookup id = some handler →
    HandlerAt settings handler msg (stages id) → (stages id).closing = true →
    msg.jobId ∈ queue.settled
  kept : ∀ msg ∈ queue.enqueued, msg.jobId ∈ queue.settled ∨ queue.services.redis.Deliverable msg

section Conserved

variable {settings : QueueSettings} {queue after : Queue} {stages stages' : Nat → Stage}
  {action : QueueAction}

/-- The settled jobs stay in the history. -/
theorem Successor.settled_grows (successor : Successor settings queue stages action after stages') :
    ∃ more, after.settled = more ++ queue.settled := by
  cases successor with
  | stepped _ _ _ op _ response | swept _ _ op _ response =>
    exact ⟨settledBy op response, rfl⟩
  | enqueued | outside | arrived | strayed | cancelled | renewed | crashed | sweeping | stopped =>
    exact ⟨[], rfl⟩

/-- A job the history gains is settled at that moment. -/
theorem Successor.settled_gains (successor : Successor settings queue stages action after stages')
    {jobId : Text} (member : jobId ∈ after.settled) :
    jobId ∈ queue.settled ∨ after.services.redis.Settled jobId := by
  cases successor with
  | stepped id handler msg op next response reply services stage' runs handlerAt isCall permits
      responded =>
    rcases List.mem_append.mp member with gained | before
    · exact Or.inr (settledBy_settled responded gained)
    · exact Or.inl before
  | swept id sweep op next response reply services runs isCall responded =>
    rcases List.mem_append.mp member with gained | before
    · exact Or.inr (settledBy_settled responded gained)
    · exact Or.inl before
  | enqueued | outside | arrived | strayed | cancelled | renewed | crashed | sweeping | stopped =>
    exact Or.inl member

/-- Outside of handlers nothing settles a job. -/
theorem settled_outside {redis redis' : Redis} {jobId : Text}
    (happens : Outside redis action redis')
    (settled : redis'.Settled jobId) : redis.Settled jobId := by
  obtain ⟨status, isStatus, terminal⟩ := settled
  refine ⟨status, ?_, terminal⟩
  cases happens with
  | poisoned | trimmed | lockExpired => exact isStatus
  | progressed id written =>
    rw [status_setHash (fun _ => rfl)] at isStatus
    exact isStatus
  | moved now due isDue =>
    simpa only [Redis.status, Redis.hash, live_moveOne] using isStatus
  | liveExpired expired =>
    by_cases same : jobId = expired
    · subst same
      simp [Redis.status, Redis.hash, LiveHash.empty] at isStatus
    · simpa only [Redis.status, Redis.hash, AList.lookup_erase_ne same] using isStatus

/-- A new job settles nothing: it is queued. -/
theorem settled_enqueue {redis : Redis} {msg : JobMessage} {jobId : Text}
    (settled : (redis.enqueue msg).Settled jobId) : redis.Settled jobId := by
  obtain ⟨status, isStatus, terminal⟩ := settled
  by_cases same : jobId = msg.jobId
  · subst same
    rw [Redis.enqueue, Redis.status, hash_setHash_self] at isStatus
    obtain rfl := Option.some.inj isStatus
    cases terminal
  · rw [Redis.enqueue, Redis.status, hash_setHash_ne _ same] at isStatus
    exact ⟨status, isStatus, terminal⟩

/-- Every settled job is in the history after a step. -/
theorem settled_successor (conserved : Conserved settings queue stages)
    (successor : Successor settings queue stages action after stages') (jobId : Text)
    (settled : after.services.redis.Settled jobId) : jobId ∈ after.settled := by
  cases successor with
  | enqueued msg => exact conserved.settled jobId (settled_enqueue settled)
  | outside action redis happens => exact conserved.settled jobId (settled_outside happens settled)
  | arrived action id worker entry payload redis isNew handed =>
    cases handed with
    | delivered | reclaimed => exact conserved.settled jobId settled
  | stepped id handler msg op next response reply services stage' runs handlerAt isCall permits
      responded step handlerAt' =>
    rcases settled_respond step.isOpen responded settled with before | gained
    · exact List.mem_append_right _ (conserved.settled jobId before)
    · exact List.mem_append_left _ gained
  | strayed id handler command next fate runs stray isCall harmless stray' =>
    have isOpen : (Op.command command).Open := by
      rcases harmless with rfl | rfl <;> exact fun _ _ impossible => nomatch impossible
    rcases settled_respond isOpen (respond_fate _ command fate) settled with before | gained
    · exact conserved.settled jobId before
    · rcases harmless with rfl | rfl <;> simp [settledBy, Command.settles] at gained
  | cancelled | renewed | crashed | sweeping | stopped => exact conserved.settled jobId settled
  | swept id sweep op next response reply services runs isCall responded step =>
    rcases settled_respond step.isOpen responded settled with before | gained
    · exact List.mem_append_right _ (conserved.settled jobId before)
    · exact List.mem_append_left _ gained

/-- The stream stays ordered. -/
theorem ordered_successor (ordered : queue.services.redis.Ordered)
    (successor : Successor settings queue stages action after stages') :
    after.services.redis.Ordered := by
  have untouched : ∀ {redis : Redis}, SameDeliveries queue.services.redis redis → redis.Ordered :=
    fun same => same.ordered ordered
  cases successor with
  | enqueued msg => exact (enqueue_deliveries _ msg).ordered (ordered.append (.message msg))
  | outside action redis happens =>
    cases happens with
    | poisoned text => exact ordered.append (.malformed text)
    | progressed | lockExpired | liveExpired => exact untouched ⟨rfl, rfl, rfl, rfl, rfl⟩
    | moved now due isDue => exact ordered.moved due
    | trimmed => exact ordered.tail
  | arrived action id worker entry payload redis isNew handed =>
    cases handed with
    | delivered entry payload isNext => exact ordered.deliver isNext
    | reclaimed => exact ordered
  | stepped id handler msg op next response reply services stage' runs handlerAt isCall permits
      responded => exact ordered_respond ordered responded
  | strayed id handler command next fate =>
    exact ordered_respond ordered (respond_fate _ command fate)
  | swept id sweep op next response reply services runs isCall responded =>
    exact ordered_respond ordered responded
  | cancelled | renewed | crashed | sweeping | stopped => exact ordered

/-- Handlers still have what they were given. -/
theorem given_successor (conserved : Conserved settings queue stages)
    (successor : Successor settings queue stages action after stages') (id : Nat)
    (handler : Handler)
    (runs : after.handlers.lookup id = some handler) : after.services.redis.Gave handler := by
  have ordered := conserved.ordered
  -- A handler that goes on keeps its entry and its payload.
  have answered : ∀ {other : Nat} {found : Handler} {op : Op} {reply : OpReply op}
      {rest : Handling Unit} {response : Response} {services : Services},
      queue.handlers.lookup other = some found →
      respond queue.services op response = some (reply, services) →
      (keepRunning queue.handlers other (found.advance op reply rest)).lookup id = some handler →
      services.redis.Gave handler := by
    intro other found op reply rest response services foundRuns responded runs
    obtain ⟨entries, unread⟩ := stream_respond responded
    have fewer : services.redis.entries ⊆ queue.services.redis.entries := by
      rw [entries]
      exact List.Subset.refl _
    rcases lookup_keepRunning runs with ⟨rfl, rfl⟩ | ⟨_, runs⟩
    · obtain ⟨samePayload, sameEntry, _⟩ := advance_payload found op reply rest
      have gave := (conserved.given _ found foundRuns).fewer fewer unread
      rwa [Redis.Gave, ← samePayload, ← sameEntry] at gave
    · exact (conserved.given id handler runs).fewer fewer unread
  cases successor with
  | enqueued msg =>
    exact ((conserved.given id handler runs).append ordered (.message msg)).fewer
      (List.Subset.refl _) rfl
  | outside action redis happens =>
    have gave := conserved.given id handler runs
    cases happens with
    | poisoned text => exact gave.append ordered (.malformed text)
    | progressed | lockExpired | liveExpired => exact gave
    | moved now due isDue => exact gave.moved ordered due
    | trimmed => exact gave.fewer (List.tail_subset _) rfl
  | arrived action arriving worker entry payload redis isNew handed =>
    rcases lookup_of_insert runs with ⟨_, rfl⟩ | ⟨_, runs⟩
    · exact gave_handed ordered handed
    · have gave := conserved.given id handler runs
      cases handed with
      | delivered entry payload isNext => exact gave.deliver ordered isNext
      | reclaimed => exact gave
  | stepped stepping found msg op next response reply services stage' foundRuns handlerAt isCall
      permits responded => exact answered foundRuns responded runs
  | strayed straying found command next fate foundRuns =>
    exact answered foundRuns (respond_fate _ command fate) runs
  | cancelled cancelling found fate foundRuns =>
    rcases lookup_of_insert runs with ⟨rfl, rfl⟩ | ⟨_, runs⟩
    · exact conserved.given _ found foundRuns
    · exact conserved.given id handler runs
  | crashed crashing => exact conserved.given id handler (lookup_of_erase runs).2
  | swept sweeping sweep op next response reply services foundRuns isCall responded =>
    obtain ⟨entries, unread⟩ := stream_respond responded
    exact (conserved.given id handler runs).fewer (by rw [entries]; exact List.Subset.refl _) unread
  | renewed | sweeping | stopped => exact conserved.given id handler runs

/-- The history gains what the step of a handler settled. -/
theorem Stepped.isSettled {id : Nat} {handler : Handler} {msg : JobMessage} {op : Op}
    {next : OpReply op → Handling Unit} {response : Response} {reply : OpReply op} {stage' : Stage}
    (stepped : Stepped settings queue stages action after id handler msg op next response
      reply stage')
    (successor : Successor settings queue stages action after stages') :
    after.settled = settledBy op response ++ queue.settled := by
  obtain rfl := stepped.isAction
  cases successor with
  | outside action redis happens => exact nomatch happens
  | arrived action arriving worker entry payload redis isNew handed => exact nomatch handed
  | stepped id found msg' op' next' response reply' services stage'' runs handlerAt isCall =>
    obtain rfl := Option.some.inj (runs.symm.trans stepped.runs)
    obtain ⟨rfl, _⟩ := Program.call.inj (isCall.symm.trans stepped.isCall)
    rfl
  | strayed id found command next' fate runs stray =>
    obtain rfl := Option.some.inj (runs.symm.trans stepped.runs)
    obtain ⟨text, isMalformed⟩ := stray.isMalformed
    exact nomatch isMalformed.symm.trans stepped.handlerAt.isMessage

/-- Whoever closes after a step has a settled job. -/
theorem closing_successor (tracked : Tracked settings queue stages)
    (conserved : Conserved settings queue stages)
    (successor : Successor settings queue stages action after stages') (id : Nat)
    (handler : Handler) (msg : JobMessage) (runs : after.handlers.lookup id = some handler)
    (handlerAt : HandlerAt settings handler msg (stages' id))
    (closing : (stages' id).closing = true) : msg.jobId ∈ after.settled := by
  obtain ⟨more, isSettled⟩ := successor.settled_grows
  have grows : ∀ {jobId}, jobId ∈ queue.settled → jobId ∈ after.settled := by
    intro jobId member
    rw [isSettled]
    exact List.mem_append_right _ member
  revert closing
  refine successor.each tracked
    (fun _ _ msg stage => stage.closing = true → msg.jobId ∈ queue.settled)
    (fun _ _ msg stage => stage.closing = true → msg.jobId ∈ after.settled)
    conserved.closing ?_ ?_ ?_ ?_ id handler msg runs handlerAt
  · exact fun id handler msg stage _ _ _ settled closing => grows (settled closing)
  · exact fun id worker entry msg redis _ impossible => nomatch impossible
  · intro id handler msg op next response reply stage' stepped settled closing
    rcases stepped.step.closes stepped.responded stepped.handlerAt.sound closing with
      before | seen | settles
    · exact grows (settled before)
    · exact grows (conserved.settled _ seen)
    · rw [stepped.isSettled successor]
      exact List.mem_append_left _ settles
  · exact fun _ _ _ _ settled => settled

/-- No message is lost in a step that trims acknowledged entries only. -/
theorem kept_successor (conserved : Conserved settings queue stages)
    (trims : queue.TrimsAcked action)
    (successor : Successor settings queue stages action after stages') :
    ∀ msg ∈ after.enqueued,
      msg.jobId ∈ after.settled ∨ after.services.redis.Deliverable msg := by
  have ordered := conserved.ordered
  intro msg member
  cases successor with
  | enqueued added =>
    rcases List.mem_cons.mp member with rfl | before
    · exact Or.inr ((enqueue_deliveries _ msg).deliverable (ordered.deliverable_append msg))
    · refine (conserved.kept msg before).imp_right (fun deliverable => ?_)
      exact (enqueue_deliveries _ added).deliverable (deliverable.append _)
  | outside action redis happens =>
    refine (conserved.kept msg member).imp_right (fun deliverable => ?_)
    cases happens with
    | poisoned text => exact deliverable.append _
    | progressed | lockExpired | liveExpired => exact deliverable
    | moved now due isDue => exact deliverable.moved ordered due
    | trimmed => exact deliverable.tail trims
  | arrived action id worker entry payload redis isNew handed =>
    refine (conserved.kept msg member).imp_right (fun deliverable => ?_)
    cases handed with
    | delivered entry payload isNext => exact deliverable.deliver ordered isNext
    | reclaimed => exact deliverable
  | stepped id handler own op next response reply services stage' runs handlerAt isCall permits
      responded step handlerAt' =>
    -- An entry that still has a message has the handler's own.
    have owns : ∀ other, (handler.entry, Payload.message other) ∈ queue.services.redis.entries →
        other = own := by
      intro other isEntry
      have given := (conserved.given id handler runs).2 _ isEntry
      exact Payload.message.inj (given.trans handlerAt.isMessage)
    rcases conserved.kept msg member with settled | deliverable
    · exact Or.inl (List.mem_append_right _ settled)
    rcases respond_deliveries responded with same | ⟨entry, rfl, isAfter⟩ |
      ⟨deferred, fireAt, entry, rfl, isAfter⟩
    · exact Or.inr (same.deliverable deliverable)
    · obtain ⟨rfl, ⟨closing, _⟩ | ⟨_, impossible⟩⟩ := step.acks rfl
      · by_cases isOwn : (handler.entry, Payload.message msg) ∈ queue.services.redis.entries
        · obtain rfl := owns msg isOwn
          exact Or.inl
            (List.mem_append_right _ (conserved.closing id handler msg runs handlerAt closing))
        · refine Or.inr ?_
          simp only [isAfter]
          exact deliverable.ack isOwn
      · exact nomatch impossible
    · obtain ⟨rfl, ⟨_, impossible⟩ | ⟨_, isOwn⟩⟩ := step.acks rfl
      · exact nomatch impossible
      · obtain ⟨rfl, _, _⟩ := Command.deferEntry.inj isOwn
        refine Or.inr ?_
        simp only [isAfter]
        exact deliverable.defer owns fireAt
  | strayed id handler command next fate runs stray isCall harmless stray' =>
    rcases conserved.kept msg member with settled | deliverable
    · exact Or.inl settled
    refine Or.inr ?_
    rcases execute_deliveries queue.services command fate with same | ⟨entry, rfl, isAfter⟩ |
      ⟨deferred, fireAt, entry, rfl, isAfter⟩
    · exact same.deliverable deliverable
    · have isEntry : entry = handler.entry := by
        rcases harmless with impossible | same
        · exact nomatch impossible
        · exact Command.xack.inj same
      simp only [isAfter]
      apply deliverable.ack
      intro isThere
      rw [isEntry] at isThere
      obtain ⟨text, isMalformed⟩ := stray.isMalformed
      exact nomatch ((conserved.given id handler runs).2 _ isThere).trans isMalformed
    · rcases harmless with impossible | impossible <;> exact nomatch impossible
  | cancelled | renewed | crashed | sweeping | stopped => exact conserved.kept msg member
  | swept id sweep op next response reply services runs isCall responded step =>
    rcases conserved.kept msg member with settled | deliverable
    · exact Or.inl (List.mem_append_right _ settled)
    rcases respond_deliveries responded with same | ⟨entry, rfl, _⟩ | ⟨_, _, entry, rfl, _⟩
    · exact Or.inr (same.deliverable deliverable)
    · exact nomatch step.unacking
    · exact nomatch step.unacking

/-- One step conserves every job, where trimming spares what is not acknowledged. -/
theorem conserved_successor (tracked : Tracked settings queue stages)
    (conserved : Conserved settings queue stages) (trims : queue.TrimsAcked action)
    (successor : Successor settings queue stages action after stages') :
    Conserved settings after stages' where
  ordered := ordered_successor conserved.ordered successor
  settled := settled_successor conserved successor
  given := given_successor conserved successor
  closing := closing_successor tracked conserved successor
  kept := kept_successor conserved trims successor

/-- In every queue reached, a message that was enqueued can still be delivered, or its
job's live status was terminal at some earlier time. -/
theorem no_job_lost {rows : AList (fun _ : Text => JobRow)}
    (reached : Runs.Reaches (Queue.step settings) Queue.TrimsAcked (Queue.initial rows) queue)
    {msg : JobMessage} (enqueued : msg ∈ queue.enqueued) :
    (∃ earlier, Runs.Reaches (Queue.step settings) Queue.TrimsAcked (Queue.initial rows) earlier ∧
        earlier.services.redis.Settled msg.jobId ∧
        Runs.Reaches (Queue.step settings) Queue.TrimsAcked earlier queue) ∨
      queue.services.redis.Deliverable msg := by
  have start : Conserved settings (Queue.initial rows) (fun _ => .over) := by
    refine ⟨⟨.nil, ?_, le_refl 0, ?_⟩, ?_, ?_, ?_, ?_⟩
    · exact fun _ impossible => nomatch impossible
    · exact fun _ impossible => nomatch impossible
    · rintro jobId ⟨status, impossible, _⟩
      exact nomatch impossible
    · exact fun _ _ impossible => nomatch impossible
    · exact fun _ _ _ impossible => nomatch impossible
    · exact fun _ impossible => nomatch impossible
  obtain ⟨stages, _, conserved⟩ := reaches_tracked (Conserved settings) (initial_tracked rows) start
    (fun _ _ _ _ _ tracked conserved trims successor =>
      conserved_successor tracked conserved trims successor) reached
  refine (conserved.kept msg enqueued).imp_left (fun settled => ?_)
  refine reached.earlier (fun queue => msg.jobId ∈ queue.settled)
    (fun queue => queue.services.redis.Settled msg.jobId) (fun impossible => nomatch impossible) ?_
    settled
  intro before action after toBefore stepped recorded
  obtain ⟨stages, tracked, _⟩ := reaches_tracked (fun _ _ => True) (initial_tracked rows) trivial
    (fun _ _ _ _ _ _ _ _ _ => trivial) toBefore
  obtain ⟨stages', successor⟩ := step_successor tracked stepped
  exact successor.settled_gains recorded

end Conserved

/-! ## A job that waits for its retry -/

/-- A run whose config cannot be read is put back for a retry. -/
def toRetry : List Response :=
  [.outcome (.error (.configRead "timeout".toList)), .done] ++ serve 2 ++ [.ms 0] ++ serve 1

/-- A job waits for its retry when its entry, acknowledged by then, is trimmed. -/
def retried : List QueueAction :=
  [.enqueue smallJob, .deliver 0 "w".toList] ++ replies 0 (toLock ++ toRun ++ toRetry) ++ [.trim]

/-- The message is not lost where the stream is empty and no handler is left. -/
theorem no_job_lost_retried : ∃ queue : Queue,
    (queue.services.redis.entries = [] ∧ queue.handlers.keys = []) ∧
      ((∃ earlier,
          Runs.Reaches (Queue.step .default) Queue.TrimsAcked (Queue.initial ∅) earlier ∧
            earlier.services.redis.Settled smallJob.jobId ∧
            Runs.Reaches (Queue.step .default) Queue.TrimsAcked earlier queue) ∨
        queue.services.redis.Deliverable smallJob) := by
  obtain ⟨queue, reached, ran⟩ := Runs.reaches_of_check (Queue.step .default) Queue.TrimsAcked
    (Queue.initial ∅) retried
    (fun queue => smallJob ∈ queue.enqueued ∧ queue.services.redis.entries = [] ∧
      queue.handlers.keys = []) (by decide +kernel)
  exact ⟨queue, ran.2, no_job_lost reached ran.1⟩

end KaretWorker
