import KaretWorker.FenceCheck

/-!
# Stale attempts

Once a newer attempt of a job has taken the lock of its pipeline, an older one should
neither write the job's end nor acknowledge its entry. Before it finishes its job an
attempt reads the lock, and goes on if the lock is free or its own. What follows is
written without another look, and the lock may change hands meanwhile. An attempt that
finds the lock busy, or whose run could not read its configuration, acknowledges
without any look.

`stale_silent` says that stale attempts are silent in every run in which no newer
attempt takes the lock while an older one is past its look, and stale attempts come by
no new permission. `stale_writes` is a run without that: the lock expires just after the
look, the next attempt takes it, and the older one writes the job's row.
-/
namespace KaretWorker

open Texts Interaction Indexing

/-! ## Stale deeds -/

/-- The deed acquires a lock. -/
def Deed.acquires : Deed → Bool
  | .acquired _ => true
  | .wroteRow | .wroteLive _ | .acked | .started => false

/-- An attempt of the job newer than the given one took the lock. -/
def Happening.Outdates (happening : Happening) (jobId : Text) (attempt : Nat) : Prop :=
  happening.jobId = jobId ∧ happening.deed.acquires = true ∧
    ∃ newer ∈ happening.attempt, attempt < newer

instance (happening : Happening) (jobId : Text) (attempt : Nat) :
    Decidable (happening.Outdates jobId attempt) :=
  inferInstanceAs (Decidable (_ ∧ _ ∧ ∃ newer ∈ happening.attempt, attempt < newer))

/-- A newer attempt of the job has taken the lock before. -/
def Outdated (log : List Happening) (jobId : Text) (attempt : Nat) : Prop :=
  ∃ earlier ∈ log, earlier.Outdates jobId attempt

instance (log : List Happening) (jobId : Text) (attempt : Nat) :
    Decidable (Outdated log jobId attempt) :=
  inferInstanceAs (Decidable (∃ earlier ∈ log, _))

/-- After a newer attempt of a job has taken the lock, no older one writes the job's end
or acknowledges its entry. -/
def StaleSilent (log : List Happening) : Prop :=
  log.Pairwise (fun later earlier => later.deed.final = true →
    ∀ attempt ∈ later.attempt, ¬ earlier.Outdates later.jobId attempt)

instance : DecidablePred StaleSilent :=
  fun log => inferInstanceAs (Decidable (log.Pairwise _))

/-! ## Looks -/

/-- The reply to the operation decides whether an attempt goes on. -/
def Op.decides : Op → Bool
  | .command (.setLock _ _ _) => true
  | .command (.getLock _) => true
  | .awaitJob => true
  | _ => false

/-- Before another decision, the program may end its job or acknowledge its entry. -/
def Unchecked {α : Type} : Handling α → Prop
  | .done _ => False
  | .call op next => op.final = true ∨ (op.decides = false ∧ ∃ reply, Unchecked (next reply))

/-- An attempt at the stage has a decision before it. -/
def Stage.Calm (settings : QueueSettings) : Stage → Prop
  | .returning attempt => settings.maxAttempts ≤ attempt
  | .locking _ | .preparing _ | .executing _ | .checking _ _ | .over => True
  | _ => False

/-- The handler works on the message as the given attempt. -/
def Queue.Works (queue : Queue) (id : Nat) (msg : JobMessage) (attempt : Nat) : Prop :=
  ∃ handler, queue.handlers.lookup id = some handler ∧ handler.payload = .message msg ∧
    handler.attempt = some attempt

/-- The steps under which stale attempts are silent.

An attempt takes the lock only when every older attempt of its job in flight has a
decision before it. A stale attempt does not find the lock busy when it tries it, nor
free or its own when it looks at it, and its run does not fail to read the
configuration while it has attempts left. -/
def Queue.Silences (settings : QueueSettings) (queue : Queue) : QueueAction → Prop
  | .answer id (.fate fate) => ∀ msg attempt, queue.Works id msg attempt →
    (∀ held ttlMs, queue.pending id = some (.command (.setLock msg.pipeline held ttlMs)) →
      (queue.services.redis.locks.lookup msg.pipeline = none → fate.applied = true →
        ∀ other older number, queue.handlers.lookup other = some older →
          older.jobId? = some msg.jobId → older.attempt = some number → number < attempt →
          ¬ Unchecked older.program) ∧
      (queue.services.redis.locks.lookup msg.pipeline ≠ none → fate = .served →
        ¬ Outdated queue.log msg.jobId attempt)) ∧
    (queue.pending id = some (.command (.getLock msg.pipeline)) → fate = .served →
      Clear msg (.attempt attempt) (queue.services.redis.locks.lookup msg.pipeline) →
      ¬ Outdated queue.log msg.jobId attempt)
  | .answer id (.outcome (.error (.configRead _))) => ∀ msg attempt, queue.Works id msg attempt →
    queue.pending id = some .awaitJob → attempt < settings.maxAttempts →
    ¬ Outdated queue.log msg.jobId attempt
  | _ => True

/-! ## Attempts that have a decision before them -/

section Calm

variable {settings : QueueSettings} {msg : JobMessage} {entry : Nat} {stage stage' : Stage}
  {op : Op} {reply : OpReply op}

/-- A calm stage ends nothing, and stays calm up to its decision. -/
theorem Step.calm (step : Step settings msg entry stage op reply stage')
    (calm : stage.Calm settings) :
    op.final = false ∧ (op.decides = false → stage'.Calm settings) := by
  cases step with
  | idle stage op reply isIdle =>
    cases op with
    | nowIso | nowMs | abortHeartbeat => exact ⟨rfl, fun _ => calm⟩
    | command | scanLive | startJob | awaitJob => cases isIdle
  | prepared attempt op reply prepares =>
    refine ⟨?_, fun _ => trivial⟩
    unfold Op.prepares at prepares
    split at prepares
    · rfl
    · rfl
    · rfl
    · rfl
    · cases prepares
  | begun | exhausted => exact ⟨rfl, fun _ => trivial⟩
  | returned attempt reply left => exact absurd calm (Nat.not_le_of_lt left)
  | unlocked | busy | locked | ended | unchecked | withheld | cleared =>
    exact ⟨rfl, fun undecided => by cases undecided⟩
  | unconnected | rejected | accepted | seen | unseen | dismissed | gaveUp | counted | yielded
  | deferred | requeued | recorded | unpublished | published | unreleased | released | acked =>
    exact calm.elim

/-- At a calm stage a program ends nothing before its next decision. -/
theorem checked_of_calm {program : Handling Unit}
    (keeps : HandlerKeeps settings msg entry (fun _ stage => stage = .over) program stage)
    (calm : stage.Calm settings) : ¬ Unchecked program := by
  induction program generalizing stage with
  | done value => exact id
  | call op next inductionHypothesis =>
    rintro (isFinal | ⟨undecided, reply, later⟩)
    · obtain ⟨stage', step, _⟩ := keeps op.someReply trivial
      exact absurd (isFinal.symm.trans (step.calm calm).1) (by decide)
    · obtain ⟨stage', step, further⟩ := keeps reply trivial
      exact inductionHypothesis reply further ((step.calm calm).2 undecided) later

/-- An attempt becomes one by its count, and keeps its number. -/
theorem Step.numbers {handler : Handler} {rest : Handling Unit}
    (step : Step settings msg entry stage op reply stage') :
    (handler.advance op reply rest).attempt = handler.attempt ∨ stage'.Calm settings := by
  cases step with
  | gaveUp | counted => exact Or.inr trivial
  | idle stage op reply isIdle => exact Or.inl (advance_idle isIdle).1
  | prepared attempt op reply prepares => exact Or.inl (advance_prepares prepares).1
  | unconnected | rejected | accepted | seen | unseen | dismissed | unlocked | busy | locked
  | yielded | deferred | begun | ended | exhausted | returned | requeued | unchecked | withheld
  | cleared | recorded | unpublished | published | unreleased | released | acked =>
    exact Or.inl rfl

/-- An attempt tries the lock of its own pipeline. -/
theorem Step.tries_pipeline {pipeline stored : Text} {ttlMs : Nat} {reply : Except Text Bool}
    (step : Step settings msg entry stage (.command (.setLock pipeline stored ttlMs)) reply
      stage') :
    pipeline = msg.pipeline := by
  cases step with
  | unlocked | busy | locked => rfl
  | idle stage op reply isIdle => cases isIdle
  | prepared attempt op reply prepares => cases prepares

/-- A decision leads to a calm stage, or permits what follows: the lock is busy, it is
free or the attempt's own, or the run could not read its configuration. -/
theorem Step.decided {services services' : Services} {response : Response}
    (step : Step settings msg entry stage op reply stage')
    (responded : respond services op response = some (reply, services'))
    (decides : op.decides = true) (goesOn : ¬ stage'.Calm settings) :
    (∃ attempt, op = .command (.setLock msg.pipeline (fence msg.jobId attempt) settings.lockTtlMs) ∧
      response = .fate .served ∧ services.redis.locks.lookup msg.pipeline ≠ none) ∨
    (∃ closer status, stage = .checking closer status ∧ op = .command (.getLock msg.pipeline) ∧
      response = .fate .served ∧
      Clear msg closer (services.redis.locks.lookup msg.pipeline)) ∨
    ∃ attempt error, stage = .executing attempt ∧ op = .awaitJob ∧
      response = .outcome (.error (.configRead error)) ∧ attempt < settings.maxAttempts := by
  cases step with
  | busy attempt =>
    obtain ⟨fate, rfl, isReply, _⟩ := respond_command responded
    obtain ⟨rfl, isBusy⟩ := reply_ok isReply.symm
    refine Or.inl ⟨attempt, rfl, rfl, ?_⟩
    intro free
    simp [Command.value, free] at isBusy
  | cleared closer status holder clear =>
    obtain ⟨fate, rfl, isReply, _⟩ := respond_command responded
    obtain ⟨rfl, isHolder⟩ := reply_ok isReply.symm
    rw [isHolder] at clear
    exact Or.inr (Or.inl ⟨closer, status, rfl, rfl, rfl, clear⟩)
  | ended attempt outcome =>
    cases response with
    | outcome result =>
      simp only [respond, Option.some.injEq, Prod.mk.injEq] at responded
      obtain ⟨rfl, _⟩ := responded
      rcases result with (error | error | errors | _ | error | _) | result
      · exact Or.inr (Or.inr ⟨attempt, error, rfl, rfl, rfl, Nat.lt_of_not_le goesOn⟩)
      · exact absurd trivial goesOn
      · exact absurd trivial goesOn
      · exact absurd trivial goesOn
      · exact absurd trivial goesOn
      · exact absurd trivial goesOn
      · exact absurd trivial goesOn
    | fate | iso | ms | keys | done => cases responded
  | unlocked | locked | unchecked | withheld => exact absurd trivial goesOn
  | idle stage op reply isIdle =>
    cases op with
    | nowIso | nowMs | abortHeartbeat => cases decides
    | command | scanLive | startJob | awaitJob => cases isIdle
  | prepared => exact absurd trivial goesOn
  | unconnected | rejected | accepted | seen | unseen | dismissed | gaveUp | counted | yielded
  | deferred | begun | exhausted | returned | requeued | recorded | unpublished | published
  | unreleased | released | acked => cases decides

end Calm

/-! ## What a step logs -/

/-- The attempts that a deed makes stale are those older than its handler's. -/
theorem outdates_own {id : Nat} {jobId : Text} {attempt : Option Nat} {deed : Deed} {number : Nat}
    (isAttempt : number ∈ attempt) :
    ¬ (Happening.mk id jobId attempt deed).Outdates jobId number := by
  rintro ⟨_, _, newer, isNewer, less⟩
  obtain rfl := Option.some.inj (Option.mem_def.mp isAttempt ▸ isNewer)
  exact absurd less (lt_irrefl _)

/-! ## Stale attempts are silent -/

/-- Stale attempts have a decision before them, and none has done anything final. -/
structure Silenced (settings : QueueSettings) (queue : Queue) (stages : Nat → Stage) : Prop where
  checked : ∀ id handler msg, queue.handlers.lookup id = some handler →
    HandlerAt settings handler msg (stages id) → ∀ attempt ∈ handler.attempt,
    Outdated queue.log msg.jobId attempt → ¬ Unchecked handler.program
  silent : StaleSilent queue.log

section Silenced

variable {settings : QueueSettings} {queue after : Queue} {stages stages' : Nat → Stage}
  {action : QueueAction}

/-- An attempt becomes stale when a newer one takes the lock. -/
theorem Successor.outdated_gains (successor : Successor settings queue stages action after stages')
    {jobId : Text} {attempt : Nat} (outdated : Outdated after.log jobId attempt) :
    Outdated queue.log jobId attempt ∨
      ∃ id msg newer fate held ttlMs, action = .answer id (.fate fate) ∧
        queue.Works id msg newer ∧ msg.jobId = jobId ∧ attempt < newer ∧ fate.applied = true ∧
        queue.pending id = some (.command (.setLock msg.pipeline held ttlMs)) ∧
        queue.services.redis.locks.lookup msg.pipeline = none := by
  cases successor with
  | stepped id handler msg op next response reply services stage' runs handlerAt isCall permits
      responded step handlerAt' =>
    obtain ⟨earlier, member, outdates⟩ := outdated
    rcases List.mem_append.mp member with gained | before
    · obtain ⟨deed, isDeed, rfl⟩ := List.mem_map.mp gained
      obtain ⟨sameJob, acquires, newer, isNewer, less⟩ := outdates
      refine Or.inr ?_
      rcases deeds_cases isDeed with ⟨_, isFinal⟩ | ⟨_, _, _, rfl⟩ |
        ⟨pipeline, held, ttlMs, fate, rfl,
        rfl, applied, free, _⟩
      · cases deed with
        | acquired | started => cases isFinal
        | wroteRow | wroteLive | acked => cases acquires
      · cases acquires
      · obtain rfl := step.tries_pipeline
        exact ⟨id, msg, newer, fate, held, ttlMs, rfl,
          ⟨handler, runs, handlerAt.isMessage, isNewer⟩,
          sameJob, less, applied, pending_call runs isCall, free⟩
    · exact Or.inl ⟨earlier, before, outdates⟩
  | enqueued | outside | arrived | strayed | cancelled | renewed | crashed | sweeping | swept
  | stopped => exact Or.inl outdated

/-- A stale attempt that takes a step was stale before it. -/
theorem Stepped.outdated {id : Nat} {handler : Handler} {msg : JobMessage} {op : Op}
    {next : OpReply op → Handling Unit} {response : Response} {reply : OpReply op} {stage' : Stage}
    (stepped : Stepped settings queue stages action after id handler msg op next response
      reply stage')
    {attempt : Nat} (isAttempt : attempt ∈ handler.attempt)
    (outdated : Outdated after.log msg.jobId attempt) : Outdated queue.log msg.jobId attempt := by
  obtain ⟨earlier, member, outdates⟩ := outdated
  rw [stepped.isLog] at member
  rcases List.mem_append.mp member with gained | before
  · obtain ⟨deed, _, rfl⟩ := List.mem_map.mp gained
    exact absurd outdates (outdates_own isAttempt)
  · exact ⟨earlier, before, outdates⟩

/-- A decision under the rule leaves a stale attempt with the next one before it. -/
theorem Stepped.calm {id : Nat} {handler : Handler} {msg : JobMessage} {op : Op}
    {next : OpReply op → Handling Unit} {response : Response} {reply : OpReply op} {stage' : Stage}
    (stepped : Stepped settings queue stages action after id handler msg op next response
      reply stage')
    (silences : queue.Silences settings action) {attempt : Nat}
    (isAttempt : attempt ∈ handler.attempt)
    (outdated : Outdated queue.log msg.jobId attempt) (decides : op.decides = true) :
    stage'.Calm settings := by
  obtain rfl := stepped.isAction
  have works : queue.Works id msg attempt :=
    ⟨handler, stepped.runs, stepped.handlerAt.isMessage, isAttempt⟩
  have pending := pending_call stepped.runs stepped.isCall
  have numbered := stepped.handlerAt.numbered
  by_contra goesOn
  rcases stepped.step.decided stepped.responded decides goesOn with ⟨number, rfl, rfl, busy⟩ |
    ⟨closer, status, atCheck, rfl, rfl, clear⟩ | ⟨number, error, atRun, rfl, rfl, left⟩
  · exact ((silences msg attempt works).1 _ _ pending).2 busy rfl outdated
  · rw [atCheck] at numbered
    have isNumber := numbered (fun impossible => by cases impossible)
    cases closer with
    | rejected => cases isNumber.symm.trans isAttempt
    | attempt number =>
      obtain rfl := Option.some.inj (isNumber.symm.trans isAttempt)
      exact (silences msg _ works).2 pending rfl clear outdated
  · rw [atRun] at numbered
    have isNumber := numbered (fun impossible => by cases impossible)
    obtain rfl := Option.some.inj (isNumber.symm.trans isAttempt)
    exact silences msg _ works pending left outdated

/-- Stale attempts still have a decision before them after a step. -/
theorem checked_successor (tracked : Tracked settings queue stages)
    (silenced : Silenced settings queue stages) (silences : queue.Silences settings action)
    (successor : Successor settings queue stages action after stages') :
    ∀ id handler msg, after.handlers.lookup id = some handler →
      HandlerAt settings handler msg (stages' id) → ∀ attempt ∈ handler.attempt,
      Outdated after.log msg.jobId attempt → ¬ Unchecked handler.program := by
  refine successor.each tracked
    (fun _ handler msg _ => ∀ attempt ∈ handler.attempt,
      Outdated queue.log msg.jobId attempt → ¬ Unchecked handler.program)
    (fun _ handler msg _ => ∀ attempt ∈ handler.attempt,
      Outdated after.log msg.jobId attempt → ¬ Unchecked handler.program)
    silenced.checked ?_ ?_ ?_ ?_
  · intro id handler msg stage runs handlerAt _ checked attempt isAttempt outdated
    rcases successor.outdated_gains outdated with before | ⟨winner, won, newer, fate, held, ttlMs,
      rfl, works, sameJob, less, applied, pending, free⟩
    · exact checked attempt isAttempt before
    · exact ((silences won newer works).1 held ttlMs pending).1 free applied id handler attempt runs
        (handlerAt.isJob.trans (congrArg some sameJob.symm)) isAttempt less
  · intro id worker entry msg redis _ attempt impossible
    cases impossible
  · intro id handler msg op next response reply stage' stepped checked attempt isAttempt outdated
    have isNext := (advance_payload handler op reply (next reply)).2.2
    have keeps := stepped.handlerAt'.keeps
    rw [isNext] at keeps ⊢
    rcases stepped.step.numbers with sameAttempt | calm
    · rw [sameAttempt] at isAttempt
      have before := stepped.outdated isAttempt outdated
      have wasChecked := checked attempt isAttempt before
      rw [stepped.isCall] at wasChecked
      cases decides : op.decides with
      | true =>
        exact checked_of_calm keeps (stepped.calm silences isAttempt before decides)
      | false =>
        exact fun unchecked => wasChecked (Or.inr ⟨decides, reply, unchecked⟩)
    · exact checked_of_calm keeps calm
  · exact fun _ _ _ _ checked => checked

/-- No step of the rule adds a final deed of a stale attempt. -/
theorem silent_successor (silenced : Silenced settings queue stages)
    (successor : Successor settings queue stages action after stages') : StaleSilent after.log := by
  cases successor with
  | stepped id handler msg op next response reply services stage' runs handlerAt isCall permits
      responded step handlerAt' =>
    refine List.pairwise_append.mpr ⟨?_, silenced.silent, ?_⟩
    · refine List.pairwise_map.mpr (List.pairwise_of_forall ?_)
      exact fun _ _ _ attempt isAttempt => outdates_own isAttempt
    · rintro later gained earlier before isFinal attempt isAttempt outdates
      obtain ⟨deed, isDeed, rfl⟩ := List.mem_map.mp gained
      have ends : op.final = true := by
        rcases deeds_cases isDeed with ⟨ends, _⟩ | ⟨_, _, _, rfl⟩ | ⟨_, _, _, _, _, _, _, _, rfl⟩
        · exact ends
        · cases isFinal
        · cases isFinal
      refine silenced.checked id handler msg runs handlerAt attempt isAttempt
        ⟨earlier, before, outdates⟩ ?_
      rw [isCall]
      exact Or.inl ends
  | enqueued | outside | arrived | strayed | cancelled | renewed | crashed | sweeping | swept
  | stopped => exact silenced.silent

/-- In every run under the rule, once a newer attempt of a job has taken the lock, no
older one writes the job's end or acknowledges its entry. -/
theorem stale_silent {rows : AList (fun _ : Text => JobRow)}
    (reached : Runs.Reaches (Queue.step settings) (Queue.Silences settings) (Queue.initial rows)
      queue) : StaleSilent queue.log := by
  have start : Silenced settings (Queue.initial rows) (fun _ => .over) := by
    refine ⟨?_, .nil⟩
    intro id handler msg impossible
    cases impossible
  obtain ⟨_, _, silenced⟩ := reaches_tracked (Silenced settings) (initial_tracked rows) start
    (fun _ _ _ _ _ tracked silenced silences successor =>
      ⟨checked_successor tracked silenced silences successor, silent_successor silenced successor⟩)
    reached
  exact silenced.silent

end Silenced

/-! ## Two attempts of a job -/

/-- The first attempt has looked at its lock, which expires; the second one takes it, and
the first one writes the row. -/
def takenOver : List QueueAction :=
  [.enqueue smallJob, .deliver 0 "w".toList] ++
    replies 0 (toLock ++ toRun ++ toLook) ++
    [.expireLock "p".toList, .reclaim 1 "w".toList 0] ++ replies 1 toLock ++
    replies 0 ([.iso "t".toList] ++ serve 1)

/-- Without the rule, an older attempt writes the end of its job. -/
theorem stale_writes : ∃ queue : Queue,
    Runs.Reaches (Queue.step .default) (fun _ _ => True) (Queue.initial ∅) queue ∧
      ¬ StaleSilent queue.log :=
  Runs.reaches_of_check (Queue.step .default) (fun _ _ => True) (Queue.initial ∅) takenOver
    (fun queue => ¬ StaleSilent queue.log) (by decide +kernel)

/-- The handler has a decision right before it. -/
def Handler.waits (handler : Handler) : Bool :=
  match handler.program with
  | .call op _ => op.decides && !op.final
  | .done _ => false

/-- A handler with a decision right before it does nothing final unchecked. -/
theorem checked_of_waits {handler : Handler} (waits : handler.waits = true) :
    ¬ Unchecked handler.program := by
  obtain ⟨entry, payload, program, lock, cancelled, attempt, admitted⟩ := handler
  cases program with
  | done value => exact id
  | call op next =>
    obtain ⟨decides, notFinal⟩ := (Bool.and_eq_true _ _).mp waits
    rintro (isFinal | ⟨undecided, _⟩)
    · simp [isFinal] at notFinal
    · cases undecided.symm.trans decides

/-- The lock is taken only while every other handler has a decision right before it, a
handler that looks at the lock finds another fence there or is the newest attempt, and
no configuration is unreadable. -/
def Queue.careful (queue : Queue) : QueueAction → Bool
  | .answer id (.fate _) =>
    match queue.handlers.lookup id, queue.pending id with
    | some _, some (.command (.setLock pipeline _ _)) =>
      (queue.services.redis.locks.lookup pipeline).isNone &&
        queue.handlers.keys.all (fun other =>
          other = id || (queue.handlers.lookup other).all Handler.waits)
    | some handler, some (.command (.getLock pipeline)) =>
      handler.jobId?.all (fun jobId => handler.attempt.all (fun number =>
        (queue.services.redis.locks.lookup pipeline).any (fun held => held ≠ fence jobId number) ||
          !decide (Outdated queue.log jobId number)))
    | _, _ => true
  | .answer _ (.outcome (.error (.configRead _))) => false
  | _ => true

/-- Careful steps keep stale attempts silent. -/
theorem careful_silences {settings : QueueSettings} {queue : Queue} {action : QueueAction}
    (careful : queue.careful action = true) : queue.Silences settings action := by
  unfold Queue.Silences
  split
  · next id fate =>
    rintro msg attempt ⟨handler, runs, isMessage, isAttempt⟩
    constructor
    · intro held ttlMs pending
      simp only [Queue.careful, runs, pending, Bool.and_eq_true, List.all_eq_true] at careful
      obtain ⟨free, others⟩ := careful
      refine ⟨?_, fun busy => absurd (Option.isNone_iff_eq_none.mp free) busy⟩
      intro _ _ other older number olderRuns _ isNumber less
      have member : other ∈ queue.handlers.keys :=
        AList.mem_keys.mp (AList.lookup_isSome.mp (by rw [olderRuns]; rfl))
      rcases (Bool.or_eq_true _ _).mp (others other member) with same | waits
      · obtain rfl := of_decide_eq_true same
        obtain rfl := Option.some.inj (runs.symm.trans olderRuns)
        obtain rfl := Option.some.inj (isAttempt.symm.trans isNumber)
        exact absurd less (lt_irrefl _)
      · rw [olderRuns] at waits
        exact checked_of_waits waits
    · intro pending _ clear outdated
      have isJob : handler.jobId? = some msg.jobId := by rw [Handler.jobId?, isMessage]
      simp only [Queue.careful, runs, pending, isJob, isAttempt, Option.all_some, Bool.or_eq_true,
        outdated, decide_true, Bool.not_true, Bool.false_eq_true, or_false, Option.any_eq_true,
        decide_eq_true_eq] at careful
      obtain ⟨held, isHeld, other⟩ := careful
      exact other (clear held isHeld)
  · cases careful
  · trivial

/-- The lock expires while the first attempt runs, the second one takes it, and the first
one finds it there. -/
theorem stale_silent_withheld : ∃ queue : Queue,
    (Outdated queue.log smallJob.jobId 1 ∧
      (queue.log.filter (fun happening => happening.deed.final)).map Happening.attempt =
        [some 2, some 2, some 2]) ∧ StaleSilent queue.log := by
  obtain ⟨queue, reached, ran⟩ := Runs.reaches_of_check (Queue.step .default)
    (fun queue action => queue.careful action = true) (Queue.initial ∅)
    ([.enqueue smallJob, .deliver 0 "w".toList] ++ replies 0 (toLock ++ toRun) ++
      [.expireLock "p".toList, .reclaim 1 "w".toList 0] ++ replies 1 toLock ++ replies 0 toLook ++
      replies 1 (toRun ++ toLook ++ toFinish ++ serve 2))
    (fun queue => Outdated queue.log smallJob.jobId 1 ∧
      (queue.log.filter (fun happening => happening.deed.final)).map Happening.attempt =
        [some 2, some 2, some 2]) (by decide +kernel)
  exact ⟨queue, ran, stale_silent (reached.mono (fun _ _ => careful_silences))⟩

end KaretWorker
