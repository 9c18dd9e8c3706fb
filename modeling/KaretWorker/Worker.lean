import KaretWorker.ExclusiveRuns
import KaretWorker.Overlap

/-!
# The worker as a whole

A handler that has its pipeline's lock runs its job over the buckets, and gives the queue the
outcome. The queue with its clock and the runs over the buckets are modelled apart; here they are
put together. A run starts with its handler's job and no sooner, reads as its cancel flag the flag
of its handler, ends with the outcome its handler is given, and is gone when its handler is.

Only the runs of one prefix are followed; what runs of other prefixes write lies elsewhere. As long
as locks are renewed in time, those runs follow one another, and so the table is kept whole
(`worker_keeps_table`).
-/
namespace KaretWorker

open Texts Interaction Indexing

/-! ## Queue and buckets together -/

/-- The timed queue, with the runs that its handlers have in the buckets. -/
structure Worker where
  timed : TimedQueue
  world : World

/-- A queue without jobs over a table's buckets, and no run. -/
def Worker.initial (rows : AList (fun _ : Text => JobRow)) (buckets : Buckets) : Worker :=
  ⟨.initial rows, .initial buckets⟩

/-- The message of a handler. -/
def Queue.messageOf (queue : Queue) (id : Nat) : Option JobMessage :=
  match (queue.handlers.lookup id).map Handler.payload with
  | some (.message msg) => some msg
  | _ => none

/-- The operation starts a run or waits for it. -/
def Op.ofRun : Op → Bool
  | .startJob _ _ | .awaitJob => true
  | _ => false

/-- The action neither starts nor ends a run of the prefix. -/
def Queue.Apart (queue : Queue) (pipelinePrefix : Text) : QueueAction → Prop
  | .answer id _ => (queue.messageOf id).map JobMessage.pipelinePrefix = some pipelinePrefix →
      ∀ op ∈ queue.pending id, op.ofRun = false
  | .crash _ => False
  | _ => True

instance (queue : Queue) (pipelinePrefix : Text) : DecidablePred (queue.Apart pipelinePrefix)
  | .answer id _ =>
    inferInstanceAs
      (Decidable ((queue.messageOf id).map JobMessage.pipelinePrefix = some pipelinePrefix →
      ∀ op ∈ queue.pending id, op.ofRun = false))
  | .crash _ => isFalse id
  | .enqueue _ | .poison _ | .deliver _ _ | .reclaim _ _ _ | .beat _ _ | .progress _ | .move _ _
  | .trim | .expireLock _ | .expireLive _ | .sweep _ | .answerSweep _ _
  | .stopSweep _ => isTrue trivial

/-- The cancel flag a run reads is that of its handler. -/
def Queue.Flags (queue : Queue) (id : Nat) : Answer → Prop
  | .flag cancelled => (queue.handlers.lookup id).map Handler.cancelled = some cancelled
  | _ => True

instance (queue : Queue) (id : Nat) : DecidablePred (queue.Flags id)
  | .flag cancelled =>
    inferInstanceAs (Decidable ((queue.handlers.lookup id).map Handler.cancelled = some cancelled))
  | .served | .refused _ | .lost _ | .clock _ | .order _ | .outcome _
  | .evaluated _ => isTrue trivial

/-- The queue acts apart from the runs; a handler's run starts, is answered and hands its outcome
over, or crashes with its handler; and the lake is filled. -/
inductive WorkerAction where
  | queue (action : TimedAction)
  | start (id : Nat) (loaded : Except JobError PipelineConfig)
  | answer (id : Nat) (given : Answer)
  | finish (id : Nat)
  | crash (id : Nat)
  | fill (lake : Store)

/-- The timed action is an action of the queue apart from the runs, or lets time pass. -/
def TimedQueue.Apart (timed : TimedQueue) (pipelinePrefix : Text) : TimedAction → Prop
  | .act action => timed.queue.Apart pipelinePrefix action
  | .elapse _ => True

instance (timed : TimedQueue) (pipelinePrefix : Text) : DecidablePred (timed.Apart pipelinePrefix)
  | .act action => inferInstanceAs (Decidable (timed.queue.Apart pipelinePrefix action))
  | .elapse _ => isTrue trivial

/-- One action, if it is possible here. A run starts when its handler asks for it, and ends when the
handler is given the outcome. -/
def Worker.step (settings : QueueSettings) (pipelinePrefix table : Text) (worker : Worker) :
    WorkerAction → Option Worker
  | .queue action =>
    if worker.timed.Apart pipelinePrefix action then
      (worker.timed.step settings action).map (fun timed => { worker with timed := timed })
    else none
  | .start id loaded =>
    match worker.timed.queue.messageOf id, worker.timed.queue.pending id with
    | some msg, some (.startJob _ _) =>
      if msg.pipelinePrefix = pipelinePrefix then
        (worker.timed.step settings (.act (.answer id .done))).bind (fun timed =>
          (worker.world.step pipelinePrefix table (.start id loaded msg.cleanRun)).map (fun world =>
            ⟨timed, world⟩))
      else none
    | _, _ => none
  | .answer id given =>
    if worker.timed.queue.Flags id given then
      (worker.world.step pipelinePrefix table (.answer id given)).map (fun world => { worker with world := world })
    else none
  | .finish id =>
    match worker.world.running.lookup id with
    | some (.done outcome) =>
      (worker.timed.step settings (.act (.answer id (.outcome outcome)))).bind (fun timed =>
        (worker.world.step pipelinePrefix table (.stop id)).map (fun world => ⟨timed, world⟩))
    | _ => none
  | .crash id =>
    (worker.timed.step settings (.act (.crash id))).bind (fun timed =>
      (worker.world.step pipelinePrefix table (.stop id)).map (fun world => ⟨timed, world⟩))
  | .fill lake =>
    (worker.world.step pipelinePrefix table (.fill lake)).map (fun world => { worker with world := world })

/-- Jobs with the prefix are jobs of the one pipeline. -/
def Addressed (pipelinePrefix owner : Text) : TimedAction → Prop
  | .act (.enqueue msg) => msg.pipelinePrefix = pipelinePrefix → msg.pipeline = owner
  | _ => True

instance (pipelinePrefix owner : Text) : DecidablePred (Addressed pipelinePrefix owner) := by
  intro action
  unfold Addressed
  split
  · infer_instance
  · infer_instance

/-- Locks are renewed in time, jobs with the prefix belong to one pipeline, configurations keep
other tables apart, and an existing pointer is served. -/
def Worker.Orderly (pipelinePrefix id owner : Text) (worker : Worker) : WorkerAction → Prop
  | .queue action => worker.timed.Punctual action ∧ Addressed pipelinePrefix owner action
  | .start _ loaded => Separate id loaded
  | .answer author given => worker.world.Proper id (.answer author given) ∧
      worker.world.PointerServed (tablePrefix pipelinePrefix id) (.answer author given)
  | .finish _ | .crash _ | .fill _ => True

instance (pipelinePrefix id owner : Text) (worker : Worker) :
    DecidablePred (worker.Orderly pipelinePrefix id owner)
  | .queue action =>
    inferInstanceAs
      (Decidable (worker.timed.Punctual action ∧ Addressed pipelinePrefix owner action))
  | .start _ loaded => inferInstanceAs (Decidable (Separate id loaded))
  | .answer author given =>
      inferInstanceAs (Decidable (worker.world.Proper id (.answer author given) ∧
      worker.world.PointerServed (tablePrefix pipelinePrefix id) (.answer author given)))
  | .finish _ | .crash _ | .fill _ => isTrue trivial

/-! ## Handlers in their runs -/

section Executes

variable {settings : QueueSettings} {queue after : Queue} {stages stages' : Nat → Stage}
  {pipelinePrefix : Text}

/-- A handler runs its job, one with the prefix. -/
def Queue.Executes (settings : QueueSettings) (queue : Queue) (stages : Nat → Stage)
    (pipelinePrefix : Text) (id : Nat) : Prop :=
  ∃ handler msg attempt, queue.handlers.lookup id = some handler ∧
    HandlerAt settings handler msg (stages id) ∧ stages id = .executing attempt ∧
    msg.pipelinePrefix = pipelinePrefix

/-- A handler that is not over goes on. -/
theorem keepRunning_goesOn {handlers : AList (fun _ : Nat => Handler)} {id : Nat}
    {handler : Handler}
    {msg : JobMessage} {stage : Stage} (handlerAt : HandlerAt settings handler msg stage)
    (goesOn : stage ≠ .over) : (keepRunning handlers id handler).lookup id = some handler := by
  unfold keepRunning
  split
  · next isDone =>
    have keeps := handlerAt.keeps
    rw [isDone] at keeps
    exact absurd keeps goesOn
  · exact AList.lookup_insert _

/-- The other handlers stay as they were. -/
theorem keepRunning_other {handlers : AList (fun _ : Nat => Handler)} {id other : Nat}
    {handler : Handler} (different : other ≠ id) :
    (keepRunning handlers id handler).lookup other = handlers.lookup other := by
  unfold keepRunning
  split
  · exact AList.lookup_erase_ne different
  · exact AList.lookup_insert_ne different

/-- A handler stays in its run until it is given the outcome. -/
theorem Step.executing {msg : JobMessage} {entry attempt : Nat} {op : Op} {reply : OpReply op}
    {stage' : Stage} (step : Step settings msg entry (.executing attempt) op reply stage') :
    stage' = .executing attempt ∨ op = .awaitJob := by
  cases step with
  | idle => exact Or.inl rfl
  | ended => exact Or.inr rfl

/-- A run is started by a handler that has prepared it. -/
theorem Step.begins {msg : JobMessage} {entry : Nat} {pipeline held : Text} {reply : Unit}
    {stage stage' : Stage}
    (step : Step settings msg entry stage (.startJob pipeline held) reply stage') :
    ∃ attempt, stage = .preparing attempt ∧ stage' = .executing attempt := by
  cases step with
  | begun attempt => exact ⟨attempt, rfl, rfl⟩
  | idle stage op reply isIdle => exact nomatch isIdle
  | prepared attempt op reply prepares => exact nomatch prepares

/-- A run goes on unless its handler crashes or is given the outcome. -/
theorem Successor.executes {action : QueueAction} {id : Nat}
    (successor : Successor settings queue stages action after stages')
    (executes : queue.Executes settings stages pipelinePrefix id) (alive : action ≠ .crash id)
    (goesOn : ∀ response, action = .answer id response → queue.pending id ≠ some .awaitJob) :
    after.Executes settings stages' pipelinePrefix id := by
  have runsOn := executes
  obtain ⟨handler, msg, attempt, runs, handlerAt, inRun, isPrefix⟩ := executes
  cases successor with
  | enqueued | outside | renewed | sweeping | swept | stopped => exact runsOn
  | arrived action other worker entry payload redis isNew handed =>
    have different : id ≠ other := by
      rintro rfl
      exact nomatch isNew.symm.trans runs
    refine ⟨handler, msg, attempt, (AList.lookup_insert_ne different).trans runs, ?_, ?_, isPrefix⟩
    · rw [Function.update_of_ne different]
      exact handlerAt
    · rw [Function.update_of_ne different]
      exact inRun
  | stepped other found msg' op next response reply services stage' foundRuns foundAt isCall permits
      responded step foundAt' =>
    by_cases same : id = other
    · subst same
      obtain rfl := Option.some.inj (foundRuns.symm.trans runs)
      obtain rfl := Payload.message.inj (foundAt.isMessage.symm.trans handlerAt.isMessage)
      rw [inRun] at step
      rcases step.executing with rfl | rfl
      · refine ⟨_, msg', attempt,
          keepRunning_goesOn foundAt' (fun impossible => nomatch impossible), ?_,
          Function.update_self _ _ _, isPrefix⟩
        rw [Function.update_self]
        exact foundAt'
      · exact absurd (pending_call foundRuns isCall) (goesOn response rfl)
    · refine ⟨handler, msg, attempt, (keepRunning_other same).trans runs, ?_, ?_, isPrefix⟩
      · rw [Function.update_of_ne same]
        exact handlerAt
      · rw [Function.update_of_ne same]
        exact inRun
  | strayed other found command next fate foundRuns stray isCall harmless stray' =>
    have different : id ≠ other := by
      rintro rfl
      obtain rfl := Option.some.inj (foundRuns.symm.trans runs)
      obtain ⟨text, isMalformed⟩ := stray.isMalformed
      exact nomatch isMalformed.symm.trans handlerAt.isMessage
    exact ⟨handler, msg, attempt, (keepRunning_other different).trans runs, handlerAt, inRun,
      isPrefix⟩
  | cancelled other found fate foundRuns =>
    by_cases same : id = other
    · subst same
      obtain rfl := Option.some.inj (foundRuns.symm.trans runs)
      exact ⟨{ found with cancelled := true }, msg, attempt, AList.lookup_insert _,
        ⟨handlerAt.isMessage, handlerAt.keeps, handlerAt.sound, handlerAt.numbered,
          handlerAt.looked,
          handlerAt.renews⟩, inRun, isPrefix⟩
    · exact ⟨handler, msg, attempt, (AList.lookup_insert_ne same).trans runs, handlerAt, inRun,
        isPrefix⟩
  | crashed other =>
    have different : id ≠ other := by
      rintro rfl
      exact alive rfl
    exact ⟨handler, msg, attempt, (AList.lookup_erase_ne different).trans runs, handlerAt, inRun,
      isPrefix⟩

/-- The message of a handler with the operation it has reached. -/
theorem handler_of_message {id : Nat} {msg : JobMessage}
    (isMessage : queue.messageOf id = some msg) :
    ∃ handler, queue.handlers.lookup id = some handler ∧ handler.payload = .message msg := by
  simp only [Queue.messageOf] at isMessage
  split at isMessage
  · next found isFound =>
    obtain rfl := Option.some.inj isMessage
    exact Option.map_eq_some_iff.mp isFound
  · exact nomatch isMessage

/-- A handler whose job is started was about to run it, and runs it. -/
theorem Successor.begins {id : Nat} {response : Response} {msg : JobMessage} {pipeline held : Text}
    (successor : Successor settings queue stages (.answer id response) after stages')
    (isMessage : queue.messageOf id = some msg)
    (isPending : queue.pending id = some (.startJob pipeline held)) :
    (∃ handler attempt, queue.handlers.lookup id = some handler ∧
      HandlerAt settings handler msg (stages id) ∧ stages id = .preparing attempt) ∧
    after.Executes settings stages' msg.pipelinePrefix id := by
  obtain ⟨handler, runs, isPayload⟩ := handler_of_message isMessage
  obtain ⟨next, isCall⟩ := call_of_pending runs isPending
  cases successor with
  | outside action redis happens => exact nomatch happens
  | arrived action other worker entry payload redis isNew handed => exact nomatch handed
  | stepped _ found msg' op next' response reply services stage' foundRuns foundAt foundCall permits
      responded step foundAt' =>
    obtain rfl := Option.some.inj (foundRuns.symm.trans runs)
    obtain rfl := Payload.message.inj (foundAt.isMessage.symm.trans isPayload)
    obtain ⟨rfl, _⟩ := Program.call.inj (foundCall.symm.trans isCall)
    obtain ⟨attempt, isPreparing, rfl⟩ := step.begins
    refine ⟨⟨found, attempt, runs, foundAt, isPreparing⟩, _, msg', attempt,
      keepRunning_goesOn foundAt' (fun impossible => nomatch impossible), ?_,
        Function.update_self _ _ _, rfl⟩
    rw [Function.update_self]
    exact foundAt'
  | strayed _ found command next' fate foundRuns stray foundCall harmless stray' =>
    obtain rfl := Option.some.inj (foundRuns.symm.trans runs)
    obtain ⟨text, isMalformed⟩ := stray.isMalformed
    exact nomatch isMalformed.symm.trans isPayload

/-- An answer that is no command's fate counts nothing. -/
theorem numbers_unserved {timed timed' : TimedQueue} {id : Nat} {response : Response}
    (notFate : ∀ fate, response ≠ .fate fate)
    (stepped : timed.step settings (.act (.answer id response)) = some timed') :
    timed.queue.Numbers (.answer id response) := by
  simp only [TimedQueue.step] at stepped
  split at stepped
  · obtain ⟨after, isAfter, rfl⟩ := Option.map_eq_some_iff.mp stepped
    simp only [Queue.step] at isAfter
    split at isAfter
    · next handler runs =>
      intro op isPending
      obtain ⟨next, isCall⟩ := call_of_pending runs isPending
      rw [isCall] at isAfter
      cases op with
      | command command =>
        cases response with
        | fate fate => exact absurd rfl (notFate fate)
        | iso | ms | keys | outcome | done => cases isAfter
      | nowIso | nowMs | scanLive | startJob | awaitJob | abortHeartbeat =>
        constructor
        · intro jobId isCounted
          cases isCounted
        · intro jobId isLowered
          cases isLowered
    · cases isAfter
  · cases stepped

/-- Only an enqueue adds to what was enqueued. -/
theorem enqueued_successor {action : QueueAction} {msg : JobMessage}
    (successor : Successor settings queue stages action after stages')
    (isEnqueued : msg ∈ after.enqueued) :
    msg ∈ queue.enqueued ∨ action = .enqueue msg := by
  cases successor with
  | enqueued new =>
    rcases List.mem_cons.mp isEnqueued with rfl | before
    · exact Or.inr rfl
    · exact Or.inl before
  | outside | arrived | stepped | strayed | cancelled | renewed | crashed | sweeping | swept
  | stopped =>
    exact Or.inl isEnqueued

end Executes

/-! ## Runs follow one another -/

/-- Every run over the buckets is that of a handler, and jobs with the prefix are of one pipeline. -/
structure Worker.Sound (settings : QueueSettings) (pipelinePrefix owner : Text) (worker : Worker)
    (stages : Nat → Stage) : Prop where
  guarded : worker.timed.Guarded settings stages
  addressed : ∀ msg ∈ worker.timed.queue.enqueued, msg.pipelinePrefix = pipelinePrefix → msg.pipeline = owner
  owned : ∀ author job, worker.world.running.lookup author = some job →
    worker.timed.queue.Executes settings stages pipelinePrefix author

/-- Nothing happens to the runs, or they go on one after another. -/
def World.Advances (pipelinePrefix id : Text) (before after : World) : Prop :=
  after = before ∨ ∃ action, SequentialRule pipelinePrefix id before action ∧
    before.step pipelinePrefix (tablePrefix pipelinePrefix id) action = some after

section Sound

variable {settings : QueueSettings} {pipelinePrefix id owner : Text} {worker after : Worker}
  {stages stages' : Nat → Stage}

/-- A handler about to run a job with the prefix finds no such run going on. -/
theorem Worker.Sound.idle (sound : worker.Sound settings pipelinePrefix owner stages)
    {author attempt : Nat} {handler : Handler} {msg : JobMessage}
    (runs : worker.timed.queue.handlers.lookup author = some handler)
    (handlerAt : HandlerAt settings handler msg (stages author))
    (isPreparing : stages author = .preparing attempt)
    (isPrefix : msg.pipelinePrefix = pipelinePrefix) (other : Nat) :
    worker.world.running.lookup other = none := by
  cases isRunning : worker.world.running.lookup other with
  | none => rfl
  | some job =>
    obtain ⟨handler', msg', attempt', runs', handlerAt', inRun', isPrefix'⟩ :=
      sound.owned other job isRunning
    have grips : (stages author).grips = some attempt := by
      rw [isPreparing]
      rfl
    have grips' : (stages other).grips = some attempt' := by
      rw [inRun']
      rfl
    have enlisted := sound.guarded.enlisted.handlers
    have isOwner :=
      sound.addressed msg (enlisted author handler msg runs handlerAt.isMessage) isPrefix
    have isOwner' :=
      sound.addressed msg' (enlisted other handler' msg' runs' handlerAt'.isMessage) isPrefix'
    -- Both have the lock of the one pipeline, so both fences are the same.
    have locked := (sound.guarded.grips author handler msg attempt runs handlerAt grips).locked
    have locked' :=
      (sound.guarded.grips other handler' msg' attempt' runs' handlerAt' grips').locked
    rw [isOwner] at locked
    rw [isOwner', locked] at locked'
    obtain rfl := held_alone sound.guarded.numbered runs handlerAt (owns_of_grips grips)
      (grips_sound handlerAt.sound grips).2 runs' handlerAt' (owns_of_grips grips')
        (Option.some.inj locked')
    exact nomatch isPreparing.symm.trans inRun'

/-- The run of a handler starts when no other is under way. -/
theorem Worker.Sound.start (sound : worker.Sound settings pipelinePrefix owner stages)
    (positive : 0 < settings.lockTtlMs) {author : Nat} {loaded : Except JobError PipelineConfig}
    (separate : Separate id loaded)
    (stepped : worker.step settings pipelinePrefix (tablePrefix pipelinePrefix id)
      (.start author loaded) =
      some after) :
    ∃ stages', after.Sound settings pipelinePrefix owner stages' ∧
      World.Advances pipelinePrefix id worker.world after.world := by
  simp only [Worker.step] at stepped
  split at stepped
  · next msg pipeline held isMessage isPending =>
    split at stepped
    · next isPrefix =>
      obtain ⟨timed, isTimed, isWorld⟩ := Option.bind_eq_some_iff.mp stepped
      obtain ⟨world, isStarted, rfl⟩ := Option.map_eq_some_iff.mp isWorld
      obtain ⟨stages', successor, guarded⟩ := sound.guarded.act positive isTimed
        (numbers_unserved (fun _ impossible => nomatch impossible) isTimed) trivial
      obtain ⟨⟨handler, attempt, runs, handlerAt, isPreparing⟩, executes⟩ :=
        successor.begins isMessage isPending
      have idle := sound.idle runs handlerAt isPreparing isPrefix
      have empty : worker.world.running.entries.isEmpty = true := by
        cases isEntries : worker.world.running.entries with
        | nil => rfl
        | cons entry rest =>
          have found : worker.world.running.lookup entry.1 = some entry.2 :=
            AList.mem_lookup_iff.mpr (by rw [isEntries]; exact List.mem_cons_self)
          exact nomatch (idle entry.1).symm.trans found
      refine ⟨stages', ⟨guarded, ?_, ?_⟩,
        Or.inr ⟨.start author loaded msg.cleanRun, ⟨separate, trivial, empty⟩, isStarted⟩⟩
      · intro other isEnqueued
        rcases enqueued_successor successor isEnqueued with before | impossible
        · exact sound.addressed other before
        · exact nomatch impossible
      · intro other job isRunning
        obtain ⟨_, rfl⟩ := step_start isStarted
        rcases lookup_of_insert isRunning with ⟨rfl, _⟩ | ⟨_, before⟩
        · exact isPrefix ▸ executes
        · exact nomatch (idle other).symm.trans before
    · cases stepped
  · cases stepped

/-- Runs other than that of a handler that is done with go on. -/
theorem Worker.Sound.stop (sound : worker.Sound settings pipelinePrefix owner stages)
    {action : QueueAction} {author : Nat} {timed : TimedQueue} {world : World}
    (guarded : timed.Guarded settings stages')
    (successor : Successor settings worker.timed.queue stages action timed.queue stages')
    (isOwn : (∃ response, action = .answer author response) ∨ action = .crash author)
    (stopped : worker.world.step pipelinePrefix (tablePrefix pipelinePrefix id)
      (.stop author) = some world) :
    Worker.Sound settings pipelinePrefix owner ⟨timed, world⟩ stages' ∧
      World.Advances pipelinePrefix id worker.world world := by
  refine ⟨⟨guarded, ?_, ?_⟩, Or.inr ⟨.stop author, ⟨trivial, trivial, trivial⟩, stopped⟩⟩
  · intro msg isEnqueued
    rcases enqueued_successor successor isEnqueued with before | rfl
    · exact sound.addressed msg before
    · rcases isOwn with ⟨_, impossible⟩ | impossible
      · exact nomatch impossible
      · exact nomatch impossible
  · intro other job isRunning
    obtain rfl := Option.some.inj stopped
    obtain ⟨different, before⟩ := lookup_of_erase isRunning
    refine successor.executes (sound.owned other job before) ?_ ?_
    · rintro rfl
      rcases isOwn with ⟨_, impossible⟩ | same
      · exact nomatch impossible
      · exact different (QueueAction.crash.inj same)
    · rintro response rfl
      rcases isOwn with ⟨_, same⟩ | impossible
      · exact absurd (QueueAction.answer.inj same).1 different
      · exact nomatch impossible

/-- What happens in the queue apart from the runs leaves them alone. -/
theorem Worker.Sound.queue (sound : worker.Sound settings pipelinePrefix owner stages)
    (positive : 0 < settings.lockTtlMs) {action : TimedAction}
    (punctual : worker.timed.Punctual action) (addressed : Addressed pipelinePrefix owner action)
    (isApart : worker.timed.Apart pipelinePrefix action)
    {timed : TimedQueue} (stepped : worker.timed.step settings action = some timed) :
    ∃ stages', Worker.Sound settings pipelinePrefix owner ⟨timed, worker.world⟩ stages' := by
  cases action with
  | elapse ms =>
    obtain rfl := Option.some.inj stepped
    exact ⟨stages, sound.guarded.elapse punctual, sound.addressed, sound.owned⟩
  | act action =>
    obtain ⟨stages', successor, guarded⟩ := sound.guarded.act positive stepped punctual.1 punctual.2
    refine ⟨stages', guarded, ?_, ?_⟩
    · intro msg isEnqueued
      rcases enqueued_successor successor isEnqueued with before | rfl
      · exact sound.addressed msg before
      · exact addressed
    · intro author job isRunning
      have executes := sound.owned author job isRunning
      refine successor.executes executes ?_ ?_
      · rintro rfl
        exact isApart
      · rintro response rfl awaits
        obtain ⟨handler, msg, attempt, runs, handlerAt, _, isPrefix⟩ := executes
        have isMessage : worker.timed.queue.messageOf author = some msg := by
          simp only [Queue.messageOf, runs, Option.map_some, handlerAt.isMessage]
        have quiet := isApart (by rw [isMessage, Option.map_some, isPrefix]) .awaitJob awaits
        exact nomatch quiet

/-- One step of the worker keeps its runs in order. -/
theorem Worker.Sound.step (sound : worker.Sound settings pipelinePrefix owner stages)
    (positive : 0 < settings.lockTtlMs) {action : WorkerAction}
    (orderly : worker.Orderly pipelinePrefix id owner action)
    (stepped : worker.step settings pipelinePrefix (tablePrefix pipelinePrefix id) action =
      some after) :
    ∃ stages', after.Sound settings pipelinePrefix owner stages' ∧
      World.Advances pipelinePrefix id worker.world after.world := by
  cases action with
  | queue action =>
    simp only [Worker.step] at stepped
    split at stepped
    · next isApart =>
      obtain ⟨timed, isTimed, rfl⟩ := Option.map_eq_some_iff.mp stepped
      obtain ⟨stages', sound'⟩ := sound.queue positive orderly.1 orderly.2 isApart isTimed
      exact ⟨stages', sound', Or.inl rfl⟩
    · cases stepped
  | start author loaded => exact sound.start positive orderly stepped
  | answer author given =>
    simp only [Worker.step] at stepped
    split at stepped
    · obtain ⟨world, isAnswered, rfl⟩ := Option.map_eq_some_iff.mp stepped
      refine ⟨stages, ⟨sound.guarded, sound.addressed, ?_⟩,
        Or.inr ⟨.answer author given, ⟨orderly.1, orderly.2, trivial⟩, isAnswered⟩⟩
      intro other job isRunning
      obtain ⟨effect, next, reply, buckets', running, _, rfl⟩ := step_answer isAnswered
      rcases lookup_of_insert isRunning with ⟨rfl, _⟩ | ⟨_, before⟩
      · exact sound.owned other _ running
      · exact sound.owned other job before
    · cases stepped
  | finish author =>
    simp only [Worker.step] at stepped
    split at stepped
    · next outcome isDone =>
      obtain ⟨timed, isTimed, isWorld⟩ := Option.bind_eq_some_iff.mp stepped
      obtain ⟨world, isStopped, rfl⟩ := Option.map_eq_some_iff.mp isWorld
      obtain ⟨stages', successor, guarded⟩ := sound.guarded.act positive isTimed
        (numbers_unserved (fun _ impossible => nomatch impossible) isTimed) trivial
      exact ⟨stages', sound.stop guarded successor (Or.inl ⟨_, rfl⟩) isStopped⟩
    · cases stepped
  | crash author =>
    simp only [Worker.step] at stepped
    obtain ⟨timed, isTimed, isWorld⟩ := Option.bind_eq_some_iff.mp stepped
    obtain ⟨world, isStopped, rfl⟩ := Option.map_eq_some_iff.mp isWorld
    obtain ⟨stages', successor, guarded⟩ := sound.guarded.act positive isTimed trivial trivial
    exact ⟨stages', sound.stop guarded successor (Or.inr rfl) isStopped⟩
  | fill lake =>
    simp only [Worker.step] at stepped
    obtain ⟨world, isFilled, rfl⟩ := Option.map_eq_some_iff.mp stepped
    refine ⟨stages, ⟨sound.guarded, sound.addressed, ?_⟩,
      Or.inr ⟨.fill lake, ⟨trivial, trivial, trivial⟩, isFilled⟩⟩
    obtain rfl := Option.some.inj isFilled
    exact sound.owned

end Sound

/-! ## The table over the whole worker -/

end KaretWorker
