import KaretWorker.AtLeastOnce
import KaretWorker.FenceCheck

/-!
# The sweep of orphaned live hashes

A sweep takes a job for lost when the stream had no entry of it and it was enqueued
long ago. Acknowledged entries stay in the stream until they are trimmed, so as long as
some entry of a job is there, the sweep spares it; once the last one is trimmed, a copy
on the delayed set does not count. `sweep_sound` says that a sweep marks no job that can
still be delivered, in every run in which the last entry of a job is trimmed only when
its message is neither delayed nor in the hands of a handler that may yet defer it.

The sweep looks at the stream once and at each job later, so what was enqueued in
between matters as well. Runs are watched for that: the watch notes what was enqueued
since a sweep read the stream, and its cutoff; every run of the queue is one that can be
watched. `orphaned_retry` is a run in which a job that waits for its retry is marked as
abandoned.
-/
namespace KaretWorker

open Texts Interaction Indexing

/-! ## What a sweep sees -/

/-- What a sweep knows: the jobs in the stream when it read it, its cutoff, and the job
it is about to mark. -/
inductive Sight where
  | nothing
  | stream (streamIds : List Text)
  | clock (streamIds : List Text) (cutoff : Int)
  | old (streamIds : List Text) (cutoff : Int) (jobId : Text)
  | noted (streamIds : List Text) (cutoff : Int) (jobId : Text)
  deriving DecidableEq, Repr

/-- The sweep is about to mark a job. -/
def Sight.convicts : Sight → Bool
  | .old _ _ _ | .noted _ _ _ => true
  | .nothing | .stream _ | .clock _ _ => false

/-- The stream has no entry of the job whose live hash has the key of the given id. -/
def Unlisted (streamIds : List Text) (jobId : Text) : Prop :=
  streamIds.contains (trimStart liveLead jobId.length jobId) = false

/-- One operation of a sweep, and what it knows before and after. -/
inductive SweepSees : Sight → (op : Op) → OpReply op → Sight → Prop
  | blind (reply : Except Text (List Payload)) :
      SweepSees .nothing (.command .xrange) reply .nothing
  | ranged (payloads : List Payload) (streamIds : List Text)
      (attributed : attributedIds payloads = some streamIds) :
      SweepSees .nothing (.command .xrange) (.ok payloads) (.stream streamIds)
  | scanned (streamIds : List Text) (reply : Except Text (List Text)) :
      SweepSees (.stream streamIds) .scanLive reply (.stream streamIds)
  | timed (streamIds : List Text) (now : Int) :
      SweepSees (.stream streamIds) .nowMs now (.clock streamIds (now - orphanGraceMs))
  | looked (streamIds : List Text) (cutoff : Int) (jobId : Text)
      (reply : Except Text (Option Status)) :
      SweepSees (.clock streamIds cutoff) (.command (.hgetStatus jobId)) reply
        (.clock streamIds cutoff)
  | spared (streamIds : List Text) (cutoff : Int) (jobId : Text)
      (reply : Except Text (Option Int)) :
      SweepSees (.clock streamIds cutoff) (.command (.hgetEnqueuedAt jobId)) reply
        (.clock streamIds cutoff)
  | dated (streamIds : List Text) (cutoff : Int) (jobId : Text) (enqueuedAt : Int)
      (unlisted : Unlisted streamIds jobId) (isOld : enqueuedAt ≤ cutoff) :
      SweepSees (.clock streamIds cutoff) (.command (.hgetEnqueuedAt jobId))
        (.ok (some enqueuedAt)) (.old streamIds cutoff jobId)
  | noted (streamIds : List Text) (cutoff : Int) (jobId finishedAt : Text) :
      SweepSees (.old streamIds cutoff jobId) .nowIso finishedAt (.noted streamIds cutoff jobId)
  | marked (streamIds : List Text) (cutoff : Int) (jobId error finishedAt : Text) (ttlS : Nat)
      (reply : Except Text Unit) :
      SweepSees (.noted streamIds cutoff jobId)
        (.command (.abandonLive jobId error finishedAt ttlS)) reply (.clock streamIds cutoff)

/-- The program keeps to what a sweep with this knowledge does, and marks whom it is
about to mark. -/
def SweepWatches (program : Handling (Except Text Unit)) (sight : Sight) : Prop :=
  Program.Follows (fun _ _ => True) SweepSees (fun _ sight => sight.convicts = false) program sight

/-- A sweep marks only jobs that it has looked at and found old and not in the stream. -/
theorem sweepKeys_watches (settings : QueueSettings) (streamIds : List Text) (cutoff : Int)
    (liveIds : List Text) :
    SweepWatches (sweepKeys settings streamIds cutoff liveIds) (.clock streamIds cutoff) := by
  induction liveIds with
  | nil => rfl
  | cons jobId rest inductionHypothesis =>
    simp only [sweepKeys, issue, nowIso, await, Program.perform_bind]
    cases unlisted : streamIds.contains (trimStart liveLead jobId.length jobId) with
    | true => exact inductionHypothesis
    | false =>
      rintro (error | status) _
      · exact ⟨_, .looked streamIds cutoff jobId _, rfl⟩
      refine ⟨_, .looked streamIds cutoff jobId _, ?_⟩
      rintro (error | _ | enqueuedAt) _
      · exact ⟨_, .spared streamIds cutoff jobId _, rfl⟩
      · exact ⟨_, .spared streamIds cutoff jobId _, inductionHypothesis⟩
      by_cases orphaned : (status = some .queued ∨ status = some .running) ∧ enqueuedAt ≤ cutoff
      · refine ⟨_, .dated streamIds cutoff jobId enqueuedAt unlisted orphaned.2, ?_⟩
        simp only [orphaned, and_self, ↓reduceIte]
        intro finishedAt _
        refine ⟨_, .noted streamIds cutoff jobId finishedAt, ?_⟩
        rintro (error | ⟨⟩) _
        · exact ⟨_, .marked streamIds cutoff jobId _ _ _ _, rfl⟩
        · exact ⟨_, .marked streamIds cutoff jobId _ _ _ _, inductionHypothesis⟩
      · refine ⟨_, .spared streamIds cutoff jobId _, ?_⟩
        simp only [orphaned, ↓reduceIte]
        exact inductionHypothesis

/-- A sweep marks only jobs that were not in the stream it read, and that are old. -/
theorem sweep_watches (settings : QueueSettings) :
    SweepWatches (sweepOrphanedLiveHashes settings) .nothing := by
  simp only [sweepOrphanedLiveHashes, issue, nowMs, await, scanLive, Program.perform_bind]
  rintro (error | payloads) _
  · exact ⟨_, .blind _, rfl⟩
  cases attributed : attributedIds payloads with
  | none =>
    refine ⟨_, .blind _, ?_⟩
    simp only [attributed]
    rfl
  | some streamIds =>
    refine ⟨_, .ranged payloads streamIds attributed, ?_⟩
    simp only [attributed]
    rintro (error | liveIds) _
    · exact ⟨_, .scanned streamIds _, rfl⟩
    refine ⟨_, .scanned streamIds _, ?_⟩
    intro now _
    exact ⟨_, .timed streamIds now, sweepKeys_watches settings streamIds _ liveIds⟩

/-- The jobs of the stream are all attributed. -/
theorem mem_attributedIds {payloads : List Payload} {streamIds : List Text}
    (attributed : attributedIds payloads = some streamIds) {msg : JobMessage}
    (member : Payload.message msg ∈ payloads) : msg.jobId ∈ streamIds := by
  induction payloads generalizing streamIds with
  | nil => exact absurd member List.not_mem_nil
  | cons payload rest inductionHypothesis =>
    cases payload with
    | malformed text => exact nomatch attributed
    | message first =>
      obtain ⟨restIds, isRest, rfl⟩ := Option.map_eq_some_iff.mp attributed
      rcases List.mem_cons.mp member with same | later
      · rw [Payload.message.inj same]
        exact List.mem_cons_self
      · exact List.mem_cons_of_mem _ (inductionHypothesis isRest later)

/-! ## Runs under watch -/

/-- The stream has an entry of the job. -/
def Redis.Listed (redis : Redis) (jobId : Text) : Prop :=
  ∃ entry msg, (entry, Payload.message msg) ∈ redis.entries ∧ msg.jobId = jobId

/-- The handler can still put its message on the delayed set. -/
def Handler.MayDefer (handler : Handler) : Prop :=
  ¬ handler.program.Calls (fun op => ∀ msg fireAt entry, op ≠ .command (.deferEntry msg fireAt entry))

/-- A copy of a message of the job is delayed, or may yet be. -/
def Queue.Waits (queue : Queue) (jobId : Text) : Prop :=
  (∃ msg ∈ queue.services.redis.delayed, msg.jobId = jobId) ∨
    ∃ id handler msg, queue.handlers.lookup id = some handler ∧ handler.payload = .message msg ∧
      msg.jobId = jobId ∧ handler.MayDefer

/-- The job that the next commands of a sweep mark. -/
def Sweep.target (sweep : Sweep) : Option Text :=
  match sweep.program with
  | .call (.command (.abandonLive jobId _ _ _)) _ => some jobId
  | .call .nowIso next =>
    match next [] with
    | .call (.command (.abandonLive jobId _ _ _)) _ => some jobId
    | _ => none
  | _ => none

/-- A queue with what was enqueued since each sweep read the stream, and each sweep's
cutoff. -/
structure Watched where
  queue : Queue
  since : Nat → List JobMessage
  cutoff : Nat → Option Int

/-- What was enqueued since the sweeps read the stream, after a step. -/
def Watched.sinceAfter (watched : Watched) : QueueAction → Nat → List JobMessage
  | .enqueue msg => fun id => msg :: watched.since id
  | .answerSweep id _ =>
    if watched.queue.sweepPending id = some (.command .xrange) then
      Function.update watched.since id []
    else watched.since
  | _ => watched.since

/-- The cutoffs after a step: a sweep reads the clock once. -/
def Watched.cutoffAfter (watched : Watched) : QueueAction → Nat → Option Int
  | .sweep id => Function.update watched.cutoff id none
  | .answerSweep id (.ms now) => Function.update watched.cutoff id (some (now - orphanGraceMs))
  | _ => watched.cutoff

/-- A step of the queue, with what the watch notes of it. -/
def Watched.step (settings : QueueSettings) (watched : Watched) (action : QueueAction) :
    Option Watched :=
  (watched.queue.step settings action).map (fun queue =>
    ⟨queue, watched.sinceAfter action, watched.cutoffAfter action⟩)

/-- The queue under watch before anything was enqueued. -/
def Watched.initial (rows : AList (fun _ : Text => JobRow)) : Watched :=
  ⟨Queue.initial rows, fun _ => [], fun _ => none⟩

/-- The steps after which a sweep is sound.

A job's id does not start with the lead of the keys, and no sweep is about to mark it
when it is enqueued. The last entry of a job is trimmed only when nothing of the job
waits. A job that was enqueued since a sweep read the stream is dated after the
sweep's cutoff when the sweep reads its date. -/
def Watched.Spares (watched : Watched) : QueueAction → Prop
  | .enqueue msg => ¬ liveLead <+: msg.jobId ∧
      ∀ id sweep, watched.queue.sweeps.lookup id = some sweep → sweep.target ≠ some msg.jobId
  | .trim => ∀ entry msg,
      watched.queue.services.redis.entries.head? = some (entry, Payload.message msg) →
      watched.queue.Waits msg.jobId →
      Redis.Listed { watched.queue.services.redis with
        entries := watched.queue.services.redis.entries.tail } msg.jobId
  | .answerSweep id (.fate .served) => ∀ jobId,
      watched.queue.sweepPending id = some (.command (.hgetEnqueuedAt jobId)) →
      (∃ msg ∈ watched.since id, msg.jobId = jobId) →
      ∀ date ∈ (watched.queue.services.redis.hash jobId).enqueuedAt, ∀ cutoff ∈ watched.cutoff id,
        cutoff < date
  | _ => True

/-- No sweep is about to mark a job that can still be delivered. -/
def Queue.SweepsOrphans (queue : Queue) : Prop :=
  ∀ id sweep jobId error finishedAt ttlS next, queue.sweeps.lookup id = some sweep →
    sweep.program = .call (.command (.abandonLive jobId error finishedAt ttlS)) next →
    ∀ msg, msg.jobId = jobId → ¬ queue.services.redis.Deliverable msg

/-! ## What a step does to the stream and to what waits -/

section Steps

variable {settings : QueueSettings} {queue after : Queue} {stages stages' : Nat → Stage}
  {action : QueueAction}

/-- A handler that may defer after a step could do so before it. -/
theorem mayDefer_advance {handler : Handler} {op : Op} {next : OpReply op → Handling Unit}
    {reply : OpReply op} (isCall : handler.program = .call op next)
    (may : (handler.advance op reply (next reply)).MayDefer) : handler.MayDefer := by
  intro calls
  rw [isCall] at calls
  apply may
  rw [(advance_payload handler op reply (next reply)).2.2]
  exact calls.2 reply

/-- The mover takes messages from the delayed set to the stream. -/
theorem moved_entries {redis : Redis} (due : List JobMessage) :
    (∀ msg ∈ (due.foldl Redis.moveOne redis).delayed, msg ∈ redis.delayed) ∧
      redis.entries ⊆ (due.foldl Redis.moveOne redis).entries ∧
      ∀ entry msg, (entry, Payload.message msg) ∈ (due.foldl Redis.moveOne redis).entries →
        (entry, Payload.message msg) ∈ redis.entries ∨ msg ∈ due := by
  induction due generalizing redis with
  | nil => exact ⟨fun _ member => member, List.Subset.refl _, fun _ _ member => Or.inl member⟩
  | cons taken rest inductionHypothesis =>
    obtain ⟨delayed, entries, origin⟩ := @inductionHypothesis (redis.moveOne taken)
    refine ⟨?_, ?_, ?_⟩
    · exact fun msg member => (AList.mem_erase.mp (delayed msg member)).2
    · exact List.Subset.trans (List.subset_append_left _ _) entries
    · intro entry msg member
      rcases origin entry msg member with before | later
      · rcases List.mem_append.mp before with before | isLast
        · exact Or.inl before
        · have isTaken := congrArg Prod.snd (List.mem_singleton.mp isLast)
          exact Or.inr (by simp [Payload.message.inj isTaken])
      · exact Or.inr (List.mem_cons_of_mem _ later)

/-- Where the messages of the stream come from. -/
theorem Successor.entry_origin (successor : Successor settings queue stages action after stages')
    {entry : Nat} {msg : JobMessage}
    (member : (entry, Payload.message msg) ∈ after.services.redis.entries) :
    (entry, Payload.message msg) ∈ queue.services.redis.entries ∨ action = .enqueue msg ∨
      msg ∈ queue.services.redis.delayed := by
  have appended : ∀ {redis : Redis} {payload : Payload},
      (entry, Payload.message msg) ∈ (redis.append payload).entries →
      (entry, Payload.message msg) ∈ redis.entries ∨ payload = .message msg := by
    intro redis payload member
    refine (List.mem_append.mp member).imp_right (fun isLast => ?_)
    exact (congrArg Prod.snd (List.mem_singleton.mp isLast)).symm
  cases successor with
  | enqueued added =>
    rcases appended member with before | isNew
    · exact Or.inl before
    · exact Or.inr (Or.inl (congrArg QueueAction.enqueue (Payload.message.inj isNew)))
  | outside action redis happens =>
    cases happens with
    | poisoned text =>
      rcases appended member with before | impossible
      · exact Or.inl before
      · exact nomatch impossible
    | progressed | lockExpired | liveExpired => exact Or.inl member
    | moved now due isDue =>
      rcases (moved_entries due).2.2 entry msg member with before | isMoved
      · exact Or.inl before
      · obtain ⟨fireAt, isScheduled, _⟩ := isDue.scheduled msg isMoved
        exact Or.inr (Or.inr (AList.lookup_isSome.mp (Option.isSome_of_mem isScheduled)))
    | trimmed => exact Or.inl (List.mem_of_mem_tail member)
  | arrived action id worker arrived payload redis isNew handed =>
    cases handed with
    | delivered | reclaimed => exact Or.inl member
  | stepped id handler own op next response reply services stage' runs handlerAt isCall permits
      responded =>
    simp only [(stream_respond responded).1] at member
    exact Or.inl member
  | strayed id handler command next fate =>
    have same := (stream_respond (respond_fate queue.services command fate)).1
    simp only [same] at member
    exact Or.inl member
  | swept id sweep op next response reply services runs isCall responded =>
    simp only [(stream_respond responded).1] at member
    exact Or.inl member
  | cancelled | renewed | crashed | sweeping | stopped => exact Or.inl member

/-- Only trimming takes entries away. -/
theorem Successor.entries_stay (successor : Successor settings queue stages action after stages')
    (untrimmed : action ≠ .trim) :
    queue.services.redis.entries ⊆ after.services.redis.entries := by
  cases successor with
  | enqueued added => exact List.subset_append_left _ _
  | outside action redis happens =>
    cases happens with
    | poisoned text => exact List.subset_append_left _ _
    | progressed | lockExpired | liveExpired => exact List.Subset.refl _
    | moved now due isDue => exact (moved_entries due).2.1
    | trimmed => exact absurd rfl untrimmed
  | arrived action id worker arrived payload redis isNew handed =>
    cases handed with
    | delivered | reclaimed => exact List.Subset.refl _
  | stepped id handler own op next response reply services stage' runs handlerAt isCall permits
      responded =>
    simp only [(stream_respond responded).1]
    exact List.Subset.refl _
  | strayed id handler command next fate =>
    have same := (stream_respond (respond_fate queue.services command fate)).1
    simp only [same]
    exact List.Subset.refl _
  | swept id sweep op next response reply services runs isCall responded =>
    simp only [(stream_respond responded).1]
    exact List.Subset.refl _
  | cancelled | renewed | crashed | sweeping | stopped => exact List.Subset.refl _

/-- A job that waits after a step waited before it, or a handler was just given an entry
of it. -/
theorem waits_successor (successor : Successor settings queue stages action after stages')
    {jobId : Text} (waits : after.Waits jobId) :
    queue.Waits jobId ∨ queue.services.redis.Listed jobId := by
  -- Handlers that are left, and those that go on, could defer before.
  have handlers : ∀ {handlers : AList (fun _ : Nat => Handler)},
      (∀ id handler, handlers.lookup id = some handler → handler.MayDefer →
        ∃ handler', queue.handlers.lookup id = some handler' ∧
          handler'.payload = handler.payload ∧ handler'.MayDefer) →
      (∃ id handler msg, handlers.lookup id = some handler ∧ handler.payload = .message msg ∧
        msg.jobId = jobId ∧ handler.MayDefer) → queue.Waits jobId := by
    rintro handlers before ⟨id, handler, msg, runs, isMessage, isJob, may⟩
    obtain ⟨handler', runs', samePayload, may'⟩ := before id handler runs may
    exact Or.inr ⟨id, handler', msg, runs', samePayload.trans isMessage, isJob, may'⟩
  have same : ∀ id handler, queue.handlers.lookup id = some handler → handler.MayDefer →
      ∃ handler', queue.handlers.lookup id = some handler' ∧
        handler'.payload = handler.payload ∧ handler'.MayDefer :=
    fun id handler runs may => ⟨handler, runs, rfl, may⟩
  have advanced : ∀ {id : Nat} {handler : Handler} {op : Op} {next : OpReply op → Handling Unit}
      {reply : OpReply op}, queue.handlers.lookup id = some handler →
      handler.program = .call op next → ∀ other found,
      (keepRunning queue.handlers id (handler.advance op reply (next reply))).lookup other =
        some found → found.MayDefer →
      ∃ handler', queue.handlers.lookup other = some handler' ∧
        handler'.payload = found.payload ∧ handler'.MayDefer := by
    intro id handler op next reply runs isCall other found foundRuns may
    rcases lookup_keepRunning foundRuns with ⟨rfl, rfl⟩ | ⟨_, foundRuns⟩
    · exact ⟨handler, runs, (advance_payload _ _ _ _).1.symm, mayDefer_advance isCall may⟩
    · exact same other found foundRuns may
  have delayedBefore : (∃ msg ∈ queue.services.redis.delayed, msg.jobId = jobId) →
      queue.Waits jobId := Or.inl
  cases successor with
  | enqueued | renewed | sweeping | stopped => exact Or.inl waits
  | outside action redis happens =>
    refine Or.inl ?_
    rcases waits with ⟨msg, delayed, isJob⟩ | handled
    · refine Or.inl ⟨msg, ?_, isJob⟩
      cases happens with
      | poisoned | progressed | lockExpired | liveExpired | trimmed => exact delayed
      | moved now due isDue => exact (moved_entries due).1 msg delayed
    · exact Or.inr handled
  | arrived action id worker entry payload redis isNew handed =>
    rcases waits with ⟨msg, delayed, isJob⟩ | ⟨other, found, msg, runs, isMessage, isJob, may⟩
    · refine Or.inl (Or.inl ⟨msg, ?_, isJob⟩)
      cases handed with
      | delivered | reclaimed => exact delayed
    · rcases lookup_of_insert runs with ⟨_, rfl⟩ | ⟨_, runs⟩
      · obtain rfl : payload = .message msg := isMessage
        refine Or.inr ⟨entry, msg, ?_, isJob⟩
        cases handed with
        | delivered _ _ isNext => exact List.mem_of_find?_eq_some isNext
        | reclaimed _ _ isThere => exact payloadAt_mem isThere
      · exact Or.inl (Or.inr ⟨other, found, msg, runs, isMessage, isJob, may⟩)
  | stepped id handler own op next response reply services stage' runs handlerAt isCall permits
      responded step =>
    refine Or.inl ?_
    rcases waits with ⟨msg, delayed, isJob⟩ | handled
    · rcases respond_deliveries responded with unchanged | ⟨entry, _, isAfter⟩ |
        ⟨deferred, fireAt, entry, rfl, isAfter⟩
      · simp only [unchanged.delayed] at delayed
        exact Or.inl ⟨msg, delayed, isJob⟩
      · simp only [isAfter] at delayed
        exact Or.inl ⟨msg, delayed, isJob⟩
      · simp only [isAfter] at delayed
        rcases (AList.mem_insert _).mp delayed with rfl | before
        · obtain ⟨_, ⟨_, impossible⟩ | ⟨_, isOwn⟩⟩ := step.acks rfl
          · exact nomatch impossible
          obtain ⟨rfl, _, _⟩ := Command.deferEntry.inj isOwn
          refine Or.inr ⟨id, handler, msg, runs, handlerAt.isMessage, isJob, ?_⟩
          intro calls
          rw [isCall] at calls
          exact calls.1 msg fireAt entry rfl
        · exact Or.inl ⟨msg, before, isJob⟩
    · exact handlers (advanced runs isCall) handled
  | strayed id handler command next fate runs stray isCall harmless =>
    refine Or.inl ?_
    rcases waits with ⟨msg, delayed, isJob⟩ | handled
    · rcases harmless with rfl | rfl <;> cases fate <;> exact Or.inl ⟨msg, delayed, isJob⟩
    · exact handlers (@advanced id handler (.command command) next
        (command.reply queue.services fate) runs isCall) handled
  | cancelled id handler fate runs =>
    refine Or.inl (waits.elim delayedBefore (handlers ?_))
    intro other found foundRuns may
    rcases lookup_of_insert foundRuns with ⟨rfl, rfl⟩ | ⟨_, foundRuns⟩
    · exact ⟨handler, runs, rfl, may⟩
    · exact same other found foundRuns may
  | crashed id =>
    refine Or.inl (waits.elim delayedBefore (handlers ?_))
    exact fun other found runs may => same other found (lookup_of_erase runs).2 may
  | swept id sweep op next response reply services runs isCall responded step =>
    refine Or.inl (waits.imp_left ?_)
    rintro ⟨msg, delayed, isJob⟩
    refine ⟨msg, ?_, isJob⟩
    rcases respond_deliveries responded with unchanged | ⟨entry, rfl, _⟩ | ⟨_, _, entry, rfl, _⟩
    · simp only [unchanged.delayed] at delayed
      exact delayed
    · exact nomatch step.unacking
    · exact nomatch step.unacking

/-- A sweep that is about to mark a job has it as its target. -/
theorem target_of_convicts {program : Handling (Except Text Unit)} {sight : Sight}
    {held : Option Text} (watches : SweepWatches program sight) {streamIds : List Text}
    {cutoff : Int} {jobId : Text}
    (convicts : sight = .old streamIds cutoff jobId ∨ sight = .noted streamIds cutoff jobId) :
    Sweep.target ⟨program, held⟩ = some jobId := by
  have marks : ∀ {rest : Handling (Except Text Unit)},
      SweepWatches rest (.noted streamIds cutoff jobId) → ∃ error finishedAt ttlS next,
        rest = .call (.command (.abandonLive jobId error finishedAt ttlS)) next := by
    intro rest restWatches
    cases rest with
    | done value => exact nomatch restWatches
    | call op next =>
      obtain ⟨sight', sees, _⟩ := restWatches op.someReply trivial
      generalize op.someReply = reply at sees
      cases sees with
      | marked _ _ _ error finishedAt ttlS => exact ⟨error, finishedAt, ttlS, next, rfl⟩
  rcases convicts with rfl | rfl
  · cases program with
    | done value => exact nomatch watches
    | call op next =>
      have follows := watches
      obtain ⟨sight', sees, _⟩ := watches op.someReply trivial
      generalize op.someReply = reply at sees
      cases sees with
      | noted =>
        obtain ⟨sight', sees', further⟩ := follows [] trivial
        cases sees' with
        | noted =>
          obtain ⟨error, finishedAt, ttlS, rest, isMark⟩ := marks further
          simp only [Sweep.target, isMark]
  · obtain ⟨error, finishedAt, ttlS, next, rfl⟩ := marks watches
    rfl

end Steps

/-! ## What a watched queue keeps -/

/-- Every job in the stream was there when the sweep read it, or was enqueued since. -/
def Watched.Saw (watched : Watched) (id : Nat) (streamIds : List Text) : Prop :=
  ∀ jobId, watched.queue.services.redis.Listed jobId →
    jobId ∈ streamIds ∨ ∃ msg ∈ watched.since id, msg.jobId = jobId

/-- A sweep knows what is so. A job it is about to mark was not in the stream it read,
and was not enqueued since. -/
def Watched.Right (watched : Watched) (id : Nat) : Sight → Prop
  | .nothing => True
  | .stream streamIds => watched.Saw id streamIds
  | .clock streamIds cutoff => watched.Saw id streamIds ∧ watched.cutoff id = some cutoff
  | .old streamIds cutoff jobId | .noted streamIds cutoff jobId =>
    (watched.Saw id streamIds ∧ watched.cutoff id = some cutoff) ∧ Unlisted streamIds jobId ∧
      ∀ msg ∈ watched.since id, msg.jobId ≠ jobId

/-- What holds of queues under watch: whatever waits has an entry in the stream. -/
structure Watched.Overseen (watched : Watched) : Prop where
  waiting : ∀ jobId, watched.queue.Waits jobId → watched.queue.services.redis.Listed jobId
  plain : ∀ jobId, watched.queue.services.redis.Listed jobId → ¬ liveLead <+: jobId
  sweeps : ∀ id sweep, watched.queue.sweeps.lookup id = some sweep →
    ∃ sight, SweepWatches sweep.program sight ∧ watched.Right id sight

section Overseen

variable {settings : QueueSettings} {watched : Watched} {after : Queue}
  {stages stages' : Nat → Stage}
  {action : QueueAction}

/-- No sweep of such a queue is about to mark a job that can still be delivered. -/
theorem Watched.Overseen.sound (overseen : watched.Overseen) : watched.queue.SweepsOrphans := by
  intro id sweep jobId error finishedAt ttlS next runs isMark msg isJob deliverable
  have listed : watched.queue.services.redis.Listed jobId := by
    rcases deliverable with ⟨entry, member, _⟩ | ⟨entry, member, _⟩ | delayed
    · exact ⟨entry, msg, member, isJob⟩
    · exact ⟨entry, msg, member, isJob⟩
    · exact overseen.waiting jobId (Or.inl ⟨msg, delayed, isJob⟩)
  obtain ⟨sight, watches, right⟩ := overseen.sweeps id sweep runs
  rw [isMark] at watches
  obtain ⟨sight', sees, _⟩ := watches (.ok ()) trivial
  cases sees with
  | marked streamIds cutoff =>
    obtain ⟨⟨saw, _⟩, unlisted, notSince⟩ := right
    rw [Unlisted, trimStart_plain (overseen.plain jobId listed)] at unlisted
    rcases saw jobId listed with inStream | ⟨added, since, isAdded⟩
    · rw [List.contains_iff_mem.mpr inStream] at unlisted
      exact nomatch unlisted
    · exact notSince added since isAdded

/-- Where the jobs of the stream after a step come from. -/
theorem listed_successor (overseen : watched.Overseen)
    (successor : Successor settings watched.queue stages action after stages') {jobId : Text}
    (listed : after.services.redis.Listed jobId) :
    watched.queue.services.redis.Listed jobId ∨ ∃ msg, action = .enqueue msg ∧
    msg.jobId = jobId := by
  obtain ⟨entry, msg, member, isJob⟩ := listed
  rcases successor.entry_origin member with before | isNew | delayed
  · exact Or.inl ⟨entry, msg, before, isJob⟩
  · exact Or.inr ⟨msg, isNew, isJob⟩
  · exact Or.inl (overseen.waiting jobId (Or.inl ⟨msg, delayed, isJob⟩))

/-- Whatever waits has an entry in the stream after a step, too. -/
theorem waiting_successor (overseen : watched.Overseen) (spares : watched.Spares action)
    (successor : Successor settings watched.queue stages action after stages') (jobId : Text)
    (waits : after.Waits jobId) : after.services.redis.Listed jobId := by
  have listed : watched.queue.services.redis.Listed jobId := by
    rcases waits_successor successor waits with before | listed
    · exact overseen.waiting jobId before
    · exact listed
  obtain ⟨entry, msg, member, isJob⟩ := listed
  by_cases trims : action = .trim
  · subst trims
    cases successor with
    | outside action redis happens =>
      cases happens with
      | trimmed =>
        cases isEntries : watched.queue.services.redis.entries with
        | nil => simp [isEntries] at member
        | cons first rest =>
          rw [isEntries] at member
          rcases List.mem_cons.mp member with rfl | later
          · have before : watched.queue.Waits msg.jobId := by
              rw [isJob]
              exact waits
            have relisted := spares entry msg (by rw [isEntries]; rfl) before
            simp only [isEntries, isJob] at relisted
            exact relisted
          · refine ⟨entry, msg, ?_, isJob⟩
            simp only [Queue.withRedis, List.tail_cons]
            exact later
    | arrived action id worker entry payload redis isNew handed => cases handed
  · exact ⟨entry, msg, successor.entries_stay trims member, isJob⟩

/-- Ids in the stream stay plain. -/
theorem plain_successor (overseen : watched.Overseen) (spares : watched.Spares action)
    (successor : Successor settings watched.queue stages action after stages') (jobId : Text)
    (listed : after.services.redis.Listed jobId) : ¬ liveLead <+: jobId := by
  rcases listed_successor overseen successor listed with before | ⟨msg, rfl, rfl⟩
  · exact overseen.plain jobId before
  · exact spares.1

/-- What the watch noted since a sweep read the stream grows, unless it reads now. -/
theorem since_grows {id : Nat}
    (elsewhere : ∀ response, action = .answerSweep id response →
      watched.queue.sweepPending id ≠ some (.command .xrange)) :
    ∀ msg ∈ watched.since id, msg ∈ watched.sinceAfter action id := by
  intro msg member
  cases action with
  | enqueue added => exact List.mem_cons_of_mem _ member
  | answerSweep other response =>
    simp only [Watched.sinceAfter]
    split
    · next reads =>
      by_cases same : id = other
      · subst same
        exact absurd reads (elsewhere response rfl)
      · rw [Function.update_of_ne same]
        exact member
    · exact member
  | poison | deliver | reclaim | answer | beat | progress | crash | move | trim | expireLock
  | expireLive | sweep | stopSweep => exact member

/-- Nothing but an enqueued message is noted. -/
theorem since_gains {id : Nat} {msg : JobMessage} (member : msg ∈ watched.sinceAfter action id) :
    msg ∈ watched.since id ∨ action = .enqueue msg := by
  cases action with
  | enqueue added =>
    rcases List.mem_cons.mp member with rfl | before
    · exact Or.inr rfl
    · exact Or.inl before
  | answerSweep other response =>
    simp only [Watched.sinceAfter] at member
    split at member
    · by_cases same : id = other
      · subst same
        rw [Function.update_self] at member
        exact absurd member List.not_mem_nil
      · rw [Function.update_of_ne same] at member
        exact Or.inl member
    · exact Or.inl member
  | poison | deliver | reclaim | answer | beat | progress | crash | move | trim | expireLock
  | expireLive | sweep | stopSweep => exact Or.inl member

/-- A sweep still has seen every job that was not enqueued since. -/
theorem saw_successor (overseen : watched.Overseen)
    (successor : Successor settings watched.queue stages action after stages') {id : Nat}
    (elsewhere : ∀ response, action = .answerSweep id response →
      watched.queue.sweepPending id ≠ some (.command .xrange)) {streamIds : List Text}
    (saw : watched.Saw id streamIds) :
    Watched.Saw ⟨after, watched.sinceAfter action, watched.cutoffAfter action⟩ id streamIds := by
  intro jobId listed
  rcases listed_successor overseen successor listed with before | ⟨msg, rfl, isJob⟩
  · refine (saw jobId before).imp_right ?_
    rintro ⟨msg, since, isJob⟩
    exact ⟨msg, since_grows elsewhere msg since, isJob⟩
  · exact Or.inr ⟨msg, List.mem_cons_self, isJob⟩

/-- What a sweep knows stays right in a step that is not its own. -/
theorem right_elsewhere (overseen : watched.Overseen) (spares : watched.Spares action)
    (successor : Successor settings watched.queue stages action after stages') {id : Nat}
    {sweep : Sweep} {sight : Sight} (runs : watched.queue.sweeps.lookup id = some sweep)
    (watches : SweepWatches sweep.program sight) (right : watched.Right id sight)
    (notStarted : action ≠ .sweep id) (notOwn : ∀ response, action ≠ .answerSweep id response) :
    Watched.Right ⟨after, watched.sinceAfter action, watched.cutoffAfter action⟩ id sight := by
  have saw : ∀ {streamIds}, watched.Saw id streamIds →
      Watched.Saw ⟨after, watched.sinceAfter action, watched.cutoffAfter action⟩ id streamIds :=
    saw_successor overseen successor (fun response own => absurd own (notOwn response))
  have sameCutoff : watched.cutoffAfter action id = watched.cutoff id := by
    cases action with
    | sweep other =>
      have different : id ≠ other := fun same => notStarted (congrArg QueueAction.sweep same.symm)
      exact Function.update_of_ne different _ _
    | answerSweep other response =>
      have different : id ≠ other := by
        rintro rfl
        exact notOwn response rfl
      cases response with
      | ms now => exact Function.update_of_ne different _ _
      | fate | iso | keys | outcome | done => rfl
    | enqueue | poison | deliver | reclaim | answer | beat | progress | crash | move | trim
    | expireLock | expireLive | stopSweep => rfl
  have convicted : ∀ {streamIds cutoff jobId},
      sight = .old streamIds cutoff jobId ∨ sight = .noted streamIds cutoff jobId →
      (∀ msg ∈ watched.since id, msg.jobId ≠ jobId) →
      ∀ msg ∈ watched.sinceAfter action id, msg.jobId ≠ jobId := by
    intro streamIds cutoff jobId convicts notSince msg since isJob
    rcases since_gains since with before | rfl
    · exact notSince msg before isJob
    · have isTarget : sweep.target = some jobId := target_of_convicts watches convicts
      exact spares.2 id sweep runs (by rw [isTarget, isJob])
  cases sight with
  | nothing => trivial
  | stream streamIds => exact saw right
  | clock streamIds cutoff => exact ⟨saw right.1, sameCutoff.trans right.2⟩
  | old streamIds cutoff jobId =>
    exact ⟨⟨saw right.1.1, sameCutoff.trans right.1.2⟩, right.2.1,
      convicted (Or.inl rfl) right.2.2⟩
  | noted streamIds cutoff jobId =>
    exact ⟨⟨saw right.1.1, sameCutoff.trans right.1.2⟩, right.2.1,
      convicted (Or.inr rfl) right.2.2⟩

/-- What a sweep knows after its own step is right. -/
theorem right_swept (overseen : watched.Overseen) {id : Nat} {sweep : Sweep} {op : Op}
    {next : OpReply op → Handling (Except Text Unit)} {response : Response} {reply : OpReply op}
    {services : Services} {sight sight' : Sight}
    (spares : watched.Spares (.answerSweep id response))
    (successor : Successor settings watched.queue stages (.answerSweep id response) after stages')
    (runs : watched.queue.sweeps.lookup id = some sweep) (isCall : sweep.program = .call op next)
    (responded : respond watched.queue.services op response = some (reply, services))
    (isAfter : after.services = services) (right : watched.Right id sight)
    (sees : SweepSees sight op reply sight') :
    Watched.Right ⟨after, watched.sinceAfter (.answerSweep id response),
      watched.cutoffAfter (.answerSweep id response)⟩ id sight' := by
  have pending : watched.queue.sweepPending id = some op := by
    simp only [Queue.sweepPending, runs, isCall]
  have saw : op ≠ .command .xrange → ∀ {streamIds}, watched.Saw id streamIds →
      Watched.Saw ⟨after, watched.sinceAfter (.answerSweep id response),
        watched.cutoffAfter (.answerSweep id response)⟩ id streamIds := by
    intro notRange streamIds
    apply saw_successor overseen successor
    intro response' _ reads
    exact notRange (Option.some.inj (pending.symm.trans reads))
  have sameSince : op ≠ .command .xrange →
      watched.sinceAfter (.answerSweep id response) = watched.since := by
    intro notRange
    have notReads : ¬ watched.queue.sweepPending id = some (.command .xrange) := by
      rw [pending]
      exact fun same => notRange (Option.some.inj same)
    simp only [Watched.sinceAfter, notReads, ↓reduceIte]
  cases sees with
  | blind => trivial
  | ranged payloads streamIds attributed =>
    obtain ⟨fate, rfl, isReply, _⟩ := respond_command responded
    obtain ⟨rfl, isValue⟩ := reply_ok isReply.symm
    rintro jobId ⟨entry, msg, member, rfl⟩
    refine Or.inl (mem_attributedIds attributed ?_)
    have isEntry : (entry, Payload.message msg) ∈ watched.queue.services.redis.entries := by
      simpa only [isAfter, (stream_respond responded).1] using member
    have isPayloads : payloads = watched.queue.services.redis.entries.map Prod.snd := isValue
    rw [isPayloads]
    exact List.mem_map.mpr ⟨_, isEntry, rfl⟩
  | scanned streamIds => exact saw (fun impossible => by cases impossible) right
  | timed streamIds now =>
    refine ⟨saw (fun impossible => by cases impossible) right, ?_⟩
    cases response <;>
      simp only [respond, Option.some.injEq, Prod.mk.injEq, reduceCtorEq] at responded
    obtain ⟨rfl, _⟩ := responded
    exact Function.update_self _ _ _
  | looked streamIds cutoff jobId | spared streamIds cutoff jobId =>
    obtain ⟨fate, rfl, _, _⟩ := respond_command responded
    exact ⟨saw (fun impossible => by cases impossible) right.1, right.2⟩
  | dated streamIds cutoff jobId enqueuedAt unlisted isOld =>
    obtain ⟨fate, rfl, isReply, _⟩ := respond_command responded
    obtain ⟨rfl, isValue⟩ := reply_ok isReply.symm
    refine ⟨⟨saw (fun impossible => by cases impossible) right.1, right.2⟩, unlisted, ?_⟩
    rw [sameSince (fun impossible => by cases impossible)]
    intro msg since isJob
    have later := spares jobId pending ⟨msg, since, isJob⟩ enqueuedAt isValue.symm cutoff right.2
    omega
  | noted streamIds cutoff jobId finishedAt =>
    obtain ⟨⟨sawBefore, isCutoff⟩, unlisted, notSince⟩ := right
    cases response <;>
      simp only [respond, Option.some.injEq, Prod.mk.injEq, reduceCtorEq] at responded
    refine ⟨⟨saw (fun impossible => by cases impossible) sawBefore, isCutoff⟩, unlisted, ?_⟩
    rw [sameSince (fun impossible => by cases impossible)]
    exact notSince
  | marked streamIds cutoff jobId =>
    obtain ⟨fate, rfl, _, _⟩ := respond_command responded
    exact ⟨saw (fun impossible => by cases impossible) right.1.1, right.1.2⟩

/-- A step that spares whatever waits keeps a watched queue as it should be. -/
theorem overseen_successor (overseen : watched.Overseen) (spares : watched.Spares action)
    (successor : Successor settings watched.queue stages action after stages') :
    Watched.Overseen ⟨after, watched.sinceAfter action, watched.cutoffAfter action⟩ := by
  refine ⟨waiting_successor overseen spares successor,
    plain_successor overseen spares successor, ?_⟩
  intro id sweep runs
  have elsewhere : watched.queue.sweeps.lookup id = some sweep → action ≠ .sweep id →
      (∀ response, action ≠ .answerSweep id response) → ∃ sight, SweepWatches sweep.program sight ∧
        Watched.Right ⟨after, watched.sinceAfter action, watched.cutoffAfter action⟩ id sight := by
    intro before notStarted notOwn
    obtain ⟨sight, watches, right⟩ := overseen.sweeps id sweep before
    exact ⟨sight, watches,
      right_elsewhere overseen spares successor before watches right notStarted notOwn⟩
  have isSuccessor := successor
  cases successor with
  | enqueued | stepped | strayed | cancelled | renewed | crashed =>
    exact elsewhere runs (fun impossible => nomatch impossible)
      (fun _ impossible => nomatch impossible)
  | outside action redis happens =>
    apply elsewhere runs
    · rintro rfl
      exact nomatch happens
    · rintro response rfl
      exact nomatch happens
  | arrived action arriving worker entry payload redis isNew handed =>
    apply elsewhere runs
    · rintro rfl
      exact nomatch handed
    · rintro response rfl
      exact nomatch handed
  | sweeping other isNew =>
    rcases lookup_of_insert runs with ⟨rfl, rfl⟩ | ⟨different, before⟩
    · exact ⟨.nothing, sweep_watches settings, trivial⟩
    · refine elsewhere before ?_ (fun _ impossible => nomatch impossible)
      exact fun same => different (QueueAction.sweep.inj same).symm
  | stopped other =>
    exact elsewhere (lookup_of_erase runs).2 (fun impossible => nomatch impossible)
      (fun _ impossible => nomatch impossible)
  | swept other found op next response reply services foundRuns isCall responded step =>
    rcases lookup_keepSweeping runs with ⟨rfl, rfl⟩ | ⟨different, before⟩
    · obtain ⟨sight, watches, right⟩ := overseen.sweeps _ found foundRuns
      rw [isCall] at watches
      obtain ⟨sight', sees, further⟩ := watches reply trivial
      refine ⟨sight', ?_, right_swept overseen spares isSuccessor foundRuns isCall responded rfl
        right sees⟩
      have isNext : (found.advance op reply (next reply)).program = next reply := by
        unfold Sweep.advance
        split <;> rfl
      rw [isNext]
      exact further
    · refine elsewhere before (fun impossible => nomatch impossible) ?_
      intro response' same
      exact different (QueueAction.answerSweep.inj same).1.symm

/-- Watching leaves out no run of the queue. -/
theorem reaches_watched {rows : AList (fun _ : Text => JobRow)} {queue : Queue}
    (reached : Runs.Reaches (Queue.step settings) (fun _ _ => True) (Queue.initial rows) queue) :
    ∃ watched, Runs.Reaches (Watched.step settings) (fun _ _ => True)
    (Watched.initial rows) watched ∧
      watched.queue = queue := by
  refine Runs.Reaches.lifted Watched.queue ?_ (Watched.initial rows) reached
  intro watched action after stepped
  exact ⟨_, Option.map_eq_some_iff.mpr ⟨after, stepped, rfl⟩, rfl⟩

/-- In every queue reached by steps that spare whatever waits, no sweep is about to mark
a job that can still be delivered; and every run of the queue is one that is watched. -/
theorem sweep_sound (rows : AList (fun _ : Text => JobRow)) :
    (∀ watched, Runs.Reaches (Watched.step settings) Watched.Spares (Watched.initial rows) watched →
      watched.queue.SweepsOrphans) ∧
    ∀ queue, Runs.Reaches (Queue.step settings) (fun _ _ => True) (Queue.initial rows) queue →
      ∃ watched, Runs.Reaches (Watched.step settings) (fun _ _ => True) (Watched.initial rows) watched ∧
        watched.queue = queue := by
  refine ⟨fun watched reached => ?_, fun _ => reaches_watched⟩
  have kept : (∃ stages, Tracked settings watched.queue stages) ∧ watched.Overseen := by
    apply reached.invariant
      (fun watched => (∃ stages, Tracked settings watched.queue stages) ∧ watched.Overseen)
    · refine ⟨⟨_, initial_tracked rows⟩, ?_, ?_, ?_⟩
      · rintro jobId (⟨msg, impossible, _⟩ | ⟨id, handler, msg, impossible, _⟩)
        · exact absurd impossible (AList.notMem_empty _)
        · exact nomatch impossible
      · rintro jobId ⟨entry, msg, impossible, _⟩
        exact nomatch impossible
      · exact fun _ _ impossible => nomatch impossible
    · rintro before action next ⟨⟨stages, tracked⟩, overseen⟩ spares stepped
      obtain ⟨after, isStep, rfl⟩ := Option.map_eq_some_iff.mp stepped
      obtain ⟨stages', successor⟩ := step_successor tracked isStep
      exact ⟨⟨stages', successor.tracked tracked⟩, overseen_successor overseen spares successor⟩
  exact kept.2.sound

end Overseen

/-! ## A job that waits for its retry, and one that is lost -/

/-- A rule that can be checked: nothing of any job waits when the stream is trimmed, and
nothing is enqueued while a sweep is under way. -/
def Watched.Calm (watched : Watched) : QueueAction → Prop
  | .enqueue msg => ¬ liveLead <+: msg.jobId ∧ watched.queue.sweeps.keys = []
  | .trim => watched.queue.handlers.keys = [] ∧ watched.queue.services.redis.delayed.keys = []
  | .answerSweep id _ =>
    watched.queue.sweepPending id = some (.command .xrange) ∨ watched.since id = []
  | _ => True

instance (watched : Watched) : DecidablePred watched.Calm
  | .enqueue _ | .trim => inferInstanceAs (Decidable (_ ∧ _))
  | .answerSweep _ _ => inferInstanceAs (Decidable (_ ∨ _))
  | .poison _ | .deliver _ _ | .reclaim _ _ _ | .answer _ _ | .beat _ _ | .progress _ | .crash _
  | .move _ _ | .expireLock _ | .expireLive _ | .sweep _ | .stopSweep _ => isTrue trivial

/-- Calm steps are among those after which a sweep is sound. -/
theorem spares_of_calm {watched : Watched} {action : QueueAction} (calm : watched.Calm action) :
    watched.Spares action := by
  cases action with
  | enqueue msg =>
    refine ⟨calm.1, fun id sweep runs => ?_⟩
    have running : id ∈ watched.queue.sweeps.keys :=
      AList.mem_keys.mp (AList.lookup_isSome.mp (Option.isSome_of_mem runs))
    rw [calm.2] at running
    exact absurd running List.not_mem_nil
  | trim =>
    rintro entry msg _ (⟨delayed, member, _⟩ | ⟨id, handler, _, runs, _⟩)
    · rw [AList.mem_keys, calm.2] at member
      exact absurd member List.not_mem_nil
    · have running : id ∈ watched.queue.handlers.keys :=
        AList.mem_keys.mp (AList.lookup_isSome.mp (Option.isSome_of_mem runs))
      rw [calm.1] at running
      exact absurd running List.not_mem_nil
  | answerSweep id response =>
    cases response with
    | fate fate =>
      cases fate with
      | served =>
        rintro jobId reads ⟨msg, since, _⟩
        rcases calm with ranges | none
        · exact nomatch ranges.symm.trans reads
        · rw [none] at since
          exact absurd since List.not_mem_nil
      | refused | lost => trivial
    | iso | ms | keys | outcome | done => trivial
  | poison | deliver | reclaim | answer | beat | progress | crash | move | expireLock | expireLive
  | sweep | stopSweep => trivial

/-- From its start a sweep reads the stream, finds the job's key, reads the clock and
the job, and notes the time. -/
def toMark : List QueueAction :=
  [.sweep 0] ++ [.fate .served, .keys (.ok [smallJob.jobId]), .ms (orphanGraceMs + 1), .fate .served,
    .fate .served, .iso "t".toList].map (.answerSweep 0)

/-- The sweep is about to mark the job. -/
def Queue.marks (queue : Queue) (id : Nat) : Option Text :=
  (queue.sweeps.lookup id).bind (fun sweep =>
    match sweep.program with
    | .call (.command (.abandonLive jobId _ _ _)) _ => some jobId
    | _ => none)

/-- Only a sweep that waits to mark a job abandoned marks it. -/
theorem marking_sweep {queue : Queue} {id : Nat} {jobId : Text}
    (marks : queue.marks id = some jobId) :
    ∃ sweep error finishedAt ttlS next, queue.sweeps.lookup id = some sweep ∧
      sweep.program = .call (.command (.abandonLive jobId error finishedAt ttlS)) next := by
  obtain ⟨sweep, runs, isMark⟩ := Option.bind_eq_some_iff.mp marks
  split at isMark
  · next marked error finishedAt ttlS next isCall =>
    rw [← Option.some.inj isMark]
    exact ⟨sweep, error, finishedAt, ttlS, next, runs, isCall⟩
  · exact nomatch isMark

/-- The job is lost: its worker is gone and its entry trimmed. A sweep marks it, and
rightly so. -/
theorem sweep_sound_lost : ∃ watched : Watched,
    watched.queue.marks 0 = some smallJob.jobId ∧ watched.queue.SweepsOrphans := by
  obtain ⟨watched, reached, marks⟩ := Runs.reaches_of_check (Watched.step .default) Watched.Calm
    (Watched.initial ∅)
    ([.enqueue smallJob, .deliver 0 "w".toList, .crash 0, .trim] ++ toMark)
    (fun watched => watched.queue.marks 0 = some smallJob.jobId) (by decide +kernel)
  exact ⟨watched, marks, (sweep_sound ∅).1 watched (reached.mono (fun _ _ => spares_of_calm))⟩

/-- A job that waits for its retry is marked, too, once its entry was trimmed. -/
theorem orphaned_retry : ∃ queue : Queue,
    Runs.Reaches (Queue.step .default) (fun _ _ => True) (Queue.initial ∅) queue ∧
      ¬ queue.SweepsOrphans := by
  obtain ⟨queue, reached, marks, delayed⟩ := Runs.reaches_of_check (Queue.step .default)
    (fun _ _ => True) (Queue.initial ∅) (retried ++ toMark)
    (fun queue => queue.marks 0 = some smallJob.jobId ∧ smallJob ∈ queue.services.redis.delayed)
    (by decide +kernel)
  obtain ⟨sweep, error, finishedAt, ttlS, next, runs, isMark⟩ := marking_sweep marks
  refine ⟨queue, reached, fun sound => ?_⟩
  exact sound 0 sweep smallJob.jobId error finishedAt ttlS next runs isMark smallJob rfl
    (Or.inr (Or.inr delayed))

end KaretWorker
