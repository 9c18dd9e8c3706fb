import KaretWorker.AttemptBound

/-!
# Fence values

A lock is held under the fence of an attempt, so a stale holder is kept out only if no
fence is ever stored twice. The attempt number is the value of a counter that other
deliveries of the job lower again, and the constant one when the counter cannot be
raised, so numbers do come back: `fence_reused` is a run in which they do.

They come back only that way. If every increment succeeds, a live hash expires only
before its first attempt, and an attempt is given back only while its number is the
latest, then in every queue reached no two acquisitions store the same fence, and what
a handler releases or renews is its own acquisition.
-/
namespace KaretWorker

open Texts Interaction Tickets Indexing

/-- The fences stored by acquisitions, the latest first. -/
def acquisitions (log : List Happening) : List Text :=
  log.filterMap (fun happening =>
    match happening.deed with
    | .acquired fence => some fence
    | _ => none)

/-- The fence a handler releases next, or renews while its run lasts. -/
def Queue.guards (queue : Queue) (id : Nat) (fence : Text) : Prop :=
  (∃ pipeline, queue.pending id = some (.command (.releaseLock pipeline fence))) ∨
    ∃ handler pipeline, queue.handlers.lookup id = some handler ∧
      handler.lock = some (pipeline, fence)

/-- No fence was stored twice, and an attempt releases or renews only what it stored
itself. -/
structure FencesOnce (queue : Queue) : Prop where
  once : (acquisitions queue.log).Nodup
  own : ∀ id handler attempt fence, queue.handlers.lookup id = some handler →
    handler.attempt = some attempt → queue.guards id fence →
    ∀ happening ∈ queue.log, happening.deed = .acquired fence →
      happening.handler = id ∧ happening.attempt = some attempt

/-! ## When numbers do not come back -/

/-- The job whose attempts an operation lowers. -/
def Op.lowered : Op → Option Text
  | .command (.hincrAttempts jobId (-1)) => some jobId
  | _ => none

/-- The command of an answered operation took effect. -/
def Response.applied : Response → Bool
  | .fate given => given.applied
  | _ => true

/-- The attempt a handler was numbered as. -/
def Queue.attemptOf (queue : Queue) (id : Nat) : Option Nat :=
  (queue.handlers.lookup id).bind Handler.attempt

/-- Increments succeed, an attempt is given back only while it is the latest, and a
live hash expires only with no attempt counted. -/
def Queue.Numbers (queue : Queue) : QueueAction → Prop
  | .answer id response => ∀ op ∈ queue.pending id,
      (∀ jobId ∈ op.counted,
        response.isServed = true ∧ 0 ≤ queue.services.redis.attempts jobId + 1 ∧
          queue.services.redis.attempts jobId + 1 < 2 ^ 32) ∧
      (∀ jobId ∈ op.lowered, response.applied = true →
        ∀ attempt ∈ queue.attemptOf id, queue.services.redis.attempts jobId = attempt)
  | .expireLive jobId => queue.services.redis.attempts jobId = 0
  | _ => True

instance (queue : Queue) : DecidablePred queue.Numbers
  | .answer id _ => inferInstanceAs (Decidable (∀ op ∈ queue.pending id,
      (∀ jobId ∈ op.counted, _ ∧ _ ∧ _) ∧ (∀ jobId ∈ op.lowered, _ → ∀ attempt ∈ _, _)))
  | .expireLive _ => inferInstanceAs (Decidable (_ = _))
  | .enqueue _ | .poison _ | .deliver _ _ | .reclaim _ _ _ | .beat _ _ | .progress _ | .crash _
  | .move _ _ | .trim | .expireLock _ | .sweep _ | .answerSweep _ _ | .stopSweep _ => isTrue trivial

/-! ## The numbers of a job as tickets -/

/-- The number a handler at the stage tries the lock with. -/
def Stage.trying : Stage → Option Nat
  | .locking attempt | .yielding attempt => some attempt
  | _ => none

/-- The number a handler of the job tries the lock with. -/
def Queue.triedAs (queue : Queue) (stages : Nat → Stage) (jobId : Text) (id : Nat) : Option Int :=
  if (queue.handlers.lookup id).bind Handler.jobId? = some jobId then
    (stages id).trying.map Int.ofNat
  else none

/-- The numbers that acquired, with the handlers. -/
def numbersUsed (jobId : Text) (log : List Happening) : List (Int × Nat) :=
  log.filterMap (fun happening =>
    if happening.jobId = jobId then
      match happening.deed, happening.attempt with
      | .acquired _, some attempt => some (Int.ofNat attempt, happening.handler)
      | _, _ => none
    else none)

/-- The attempts of a job as numbers given out to its handlers. -/
def Queue.numbering (queue : Queue) (stages : Nat → Stage) (jobId : Text) : Numbering Nat :=
  ⟨queue.services.redis.attempts jobId, queue.triedAs stages jobId, numbersUsed jobId queue.log⟩

/-- A step of a handler counts an attempt, gives one back, tries the lock, or does none
of these, and then no handler tries the lock that did not before. -/
inductive Tries (msg : JobMessage) : Stage → (op : Op) → OpReply op → Stage → Prop
  | count (reply : Except Text Int) (stage' : Stage)
      (number : ∀ attempt, stage'.trying = some attempt → attempt = attemptsFrom reply) :
      Tries msg .counting (.command (.hincrAttempts msg.jobId 1)) reply stage'
  | giveBack (attempt : Nat) (reply : Except Text Int) :
      Tries msg (.yielding attempt) (.command (.hincrAttempts msg.jobId (-1))) reply
        (.deferring attempt)
  | tries (attempt ttlMs : Nat) (reply : Except Text Bool) (stage' : Stage)
      (again : stage'.trying = none ∨ (reply = .ok false ∧ stage' = .yielding attempt)) :
      Tries msg (.locking attempt)
        (.command (.setLock msg.pipeline (fence msg.jobId attempt) ttlMs)) reply stage'
  | none (stage : Stage) (op : Op) (reply : OpReply op) (stage' : Stage)
      (uncounted : ∀ jobId increment, op ≠ .command (.hincrAttempts jobId increment))
      (untried : ∀ pipeline fence ttlMs, op ≠ .command (.setLock pipeline fence ttlMs))
      (fewer : ∀ attempt, stage'.trying = some attempt → stage.trying = some attempt) :
      Tries msg stage op reply stage'

/-- A handler tries with the attempt it has counted, and with no other. -/
theorem Step.tries {settings : QueueSettings} {msg : JobMessage} {entry : Nat}
    {stage stage' : Stage} {op : Op} {reply : OpReply op}
    (step : Step settings msg entry stage op reply stage') : Tries msg stage op reply stage' := by
  cases step with
  | gaveUp => exact .count _ _ (fun _ impossible => nomatch impossible)
  | counted => exact .count _ _ (fun _ same => (Option.some.inj same).symm)
  | yielded attempt => exact .giveBack attempt _
  | unlocked attempt => exact .tries attempt _ _ _ (Or.inl rfl)
  | busy attempt => exact .tries attempt _ _ _ (Or.inr ⟨rfl, rfl⟩)
  | locked attempt => exact .tries attempt _ _ _ (Or.inl rfl)
  | idle stage op reply isIdle =>
    refine .none _ _ _ _ ?_ ?_ (fun _ same => same)
    · rintro jobId increment rfl
      exact nomatch isIdle
    · rintro pipeline fence ttlMs rfl
      exact nomatch isIdle
  | prepared attempt op reply prepares =>
    refine .none _ _ _ _ ?_ ?_ (fun _ same => same)
    · rintro jobId increment rfl
      exact nomatch prepares
    · rintro pipeline fence ttlMs rfl
      exact nomatch prepares
  | ended attempt outcome =>
    refine .none _ _ _ _ (fun _ _ impossible => nomatch impossible)
      (fun _ _ _ impossible => nomatch impossible) ?_
    rcases outcome with (error | error | errors | _ | error | _) | outcome <;>
      exact fun _ impossible => nomatch impossible
  | unconnected | rejected | accepted | seen | unseen | dismissed | deferred | begun | exhausted
  | returned | requeued | unchecked | withheld | cleared | recorded | unpublished | published
  | unreleased | released | acked =>
    exact .none _ _ _ _ (fun _ _ impossible => nomatch impossible)
      (fun _ _ _ impossible => nomatch impossible) (fun _ impossible => nomatch impossible)

/-- Only trying the lock acquires it, under the fence it is tried with. -/
theorem tries_of_acquired {services : Services} {op : Op} {response : Response} {stored : Text}
    (acquired : .acquired stored ∈ deeds services op response) :
    ∃ pipeline ttlMs, op = .command (.setLock pipeline stored ttlMs) := by
  rcases deeds_cases acquired with ⟨_, isFinal⟩ | ⟨_, _, _, isStart⟩ |
    ⟨pipeline, held, ttlMs, fate, rfl, _, _, _, isTaken⟩
  · cases isFinal
  · cases isStart
  · obtain rfl := Deed.acquired.inj isTaken
    exact ⟨pipeline, ttlMs, rfl⟩

/-- Only setting a lock acquires a fence. -/
theorem acquired_deeds {services : Services} {op : Op} {response : Response}
    (untried : ∀ pipeline fence ttlMs, op ≠ .command (.setLock pipeline fence ttlMs)) :
    ∀ deed ∈ deeds services op response, ∀ fence, deed ≠ .acquired fence := by
  rintro deed member stored rfl
  obtain ⟨pipeline, ttlMs, isTry⟩ := tries_of_acquired member
  exact untried pipeline stored ttlMs isTry

/-- Operations that acquire no fence use no number. -/
theorem numbersUsed_deeds {done : List Deed} (unacquired : ∀ deed ∈ done, ∀ fence,
      deed ≠ .acquired fence) (jobId : Text) (id : Nat) (worked : Text) (attempt : Option Nat)
    (log : List Happening) :
    numbersUsed jobId (done.map (fun deed => ⟨id, worked, attempt, deed⟩) ++ log) =
      numbersUsed jobId log := by
  rw [numbersUsed, List.filterMap_append, List.filterMap_map]
  have nothing : List.filterMap ((fun happening : Happening =>
      if happening.jobId = jobId then
        match happening.deed, happening.attempt with
        | .acquired _, some attempt => some (Int.ofNat attempt, happening.handler)
        | _, _ => none
      else none) ∘ fun deed => ⟨id, worked, attempt, deed⟩) done = [] := by
    rw [List.filterMap_eq_nil_iff]
    intro deed member
    simp only [Function.comp_apply]
    split
    · split
      · next fence _ => exact absurd rfl (unacquired _ member fence)
      · rfl
    · rfl
  rw [nothing, List.nil_append]
  rfl

/-! ## Numbers over steps of the queue -/

section Numbering

variable {settings : QueueSettings} {queue after : Queue} {stages stages' : Nat → Stage}
  {jobId : Text}

/-- A handler has tried with a number exactly if it works on the job at a stage with that
attempt. -/
theorem triedAs_iff {id : Nat} {number : Int} : queue.triedAs stages jobId id = some number ↔
    ∃ handler attempt, queue.handlers.lookup id = some handler ∧ handler.jobId? = some jobId ∧
      (stages id).trying = some attempt ∧ Int.ofNat attempt = number := by
  unfold Queue.triedAs
  constructor
  · intro holds
    split at holds
    · next isJob =>
      obtain ⟨handler, runs, isJob⟩ := Option.bind_eq_some_iff.mp isJob
      obtain ⟨attempt, trying, same⟩ := Option.map_eq_some_iff.mp holds
      exact ⟨handler, attempt, runs, isJob, trying, same⟩
    · exact nomatch holds
  · rintro ⟨handler, attempt, runs, isJob, trying, rfl⟩
    rw [runs, Option.bind_some, if_pos isJob, trying]
    rfl

/-- If whoever tries the lock for the job did so before, no number was drawn. -/
theorem triedAs_fewer
    (before : ∀ id handler, after.handlers.lookup id = some handler →
      (stages' id).trying ≠ none → ∃ handler', queue.handlers.lookup id = some handler' ∧
        handler'.jobId? = handler.jobId? ∧ (stages id).trying = (stages' id).trying)
    (id : Nat) (number : Int) (holds : after.triedAs stages' jobId id = some number) :
    queue.triedAs stages jobId id = some number := by
  obtain ⟨handler, attempt, runs, isJob, trying, same⟩ := triedAs_iff.mp holds
  obtain ⟨handler', runs', sameJob, sameTry⟩ := before id handler runs (by simp [trying])
  exact triedAs_iff.mpr ⟨handler', attempt, runs', sameJob.trans isJob, sameTry.trans trying, same⟩

/-- With the same counter and the same uses, numbers may only have been dropped. -/
theorem numbering_drop (sameCounter : after.services.redis.attempts jobId =
      queue.services.redis.attempts jobId)
    (sameUsed : numbersUsed jobId after.log = numbersUsed jobId queue.log)
    (fewer : ∀ id number, after.triedAs stages' jobId id = some number →
      queue.triedAs stages jobId id = some number) :
    Relation.ReflTransGen Numbering.Moves (queue.numbering stages jobId)
      (after.numbering stages' jobId) := by
  rw [Queue.numbering, Queue.numbering, sameCounter, sameUsed]
  exact .single (.drop _ _ fewer)

/-- The numbers over a step of a handler. -/
theorem numbering_stepped {id : Nat} {handler handler' : Handler} {msg : JobMessage} {op : Op}
    {response : Response} {reply : OpReply op} {stage stage' : Stage}
    (runs : queue.handlers.lookup id = some handler) (isMessage : handler.payload = .message msg)
    (atStage : stages id = stage) (samePayload : handler'.payload = handler.payload)
    (isAfter : after.handlers = keepRunning queue.handlers id handler')
    (isLog : after.log = (deeds queue.services op response).map
      (fun deed => ⟨id, msg.jobId, handler.attempt, deed⟩) ++ queue.log)
    (responded : respond queue.services op response = some (reply, after.services))
    (numbered : stage ≠ .over → handler.attempt = stage.attempt?)
    (counts : op = .command (.hincrAttempts msg.jobId 1) → response.isServed = true ∧
      0 ≤ queue.services.redis.attempts msg.jobId + 1 ∧
      queue.services.redis.attempts msg.jobId + 1 < 2 ^ 32)
    (latest : op = .command (.hincrAttempts msg.jobId (-1)) → response.applied = true →
      ∀ attempt, handler.attempt = some attempt →
        queue.services.redis.attempts msg.jobId = attempt)
    (tries : Tries msg stage op reply stage') :
    Relation.ReflTransGen Numbering.Moves (queue.numbering stages jobId)
      (after.numbering (Function.update stages id stage') jobId) := by
  have isJob : handler.jobId? = some msg.jobId := by rw [Handler.jobId?, isMessage]
  -- Who tries the lock afterwards, and with which number.
  have members : ∀ other number,
      after.triedAs (Function.update stages id stage') jobId other = some number →
      (other = id ∧ jobId = msg.jobId ∧
        ∃ attempt, stage'.trying = some attempt ∧ Int.ofNat attempt = number) ∨
      (other ≠ id ∧ queue.triedAs stages jobId other = some number) := by
    intro other number holds
    obtain ⟨found, attempt, foundRuns, worked, trying, same⟩ := triedAs_iff.mp holds
    rw [isAfter] at foundRuns
    rcases lookup_keepRunning foundRuns with ⟨rfl, rfl⟩ | ⟨different, foundRuns⟩
    · rw [Function.update_self] at trying
      simp only [Handler.jobId?, samePayload] at worked
      rw [← Handler.jobId?, isJob] at worked
      exact Or.inl ⟨rfl, (Option.some.inj worked).symm, attempt, trying, same⟩
    · rw [Function.update_of_ne different] at trying
      exact Or.inr ⟨different, triedAs_iff.mpr ⟨found, attempt, foundRuns, worked, trying, same⟩⟩
  have fewer : (jobId ≠ msg.jobId ∨ stage'.trying = none) → ∀ other number,
      after.triedAs (Function.update stages id stage') jobId other = some number →
      queue.triedAs stages jobId other = some number := by
    intro outside other number holds
    rcases members other number holds with ⟨_, same, attempt, trying, _⟩ | ⟨_, was⟩
    · rcases outside with different | quiet
      · exact absurd same different
      · cases quiet.symm.trans trying
    · exact was
  have erased : stage'.trying = none → ∀ other number,
      after.triedAs (Function.update stages id stage') jobId other = some number →
      Function.update (queue.triedAs stages jobId) id none other = some number := by
    intro quiet other number holds
    rcases members other number holds with ⟨_, _, attempt, trying, _⟩ | ⟨different, was⟩
    · cases quiet.symm.trans trying
    · rw [Function.update_of_ne different]
      exact was
  cases tries with
  | count reply stage' number =>
    obtain ⟨fate, rfl, rfl, isServices⟩ := respond_command responded
    obtain ⟨isServed, notNegative, below⟩ := counts rfl
    obtain rfl := served_of_isServed isServed
    have sameUsed : numbersUsed jobId after.log = numbersUsed jobId queue.log := by
      rw [isLog]
      exact numbersUsed_deeds (acquired_deeds (by rintro _ _ _ ⟨⟩))
        jobId id _ _ _
    have counter := attempts_increment queue.services msg.jobId 1 .served jobId
    rw [← isServices] at counter
    by_cases own : jobId = msg.jobId
    · rw [if_pos ⟨rfl, own⟩] at counter
      rw [Queue.numbering, Queue.numbering, counter, sameUsed]
      cases trying : stage'.trying with
      | none =>
        exact (Relation.ReflTransGen.single (.raise _)).tail (.drop _ _ (fewer (Or.inr trying)))
      | some attempt =>
        refine (Relation.ReflTransGen.single (.draw _ id)).tail (.drop _ _ ?_)
        intro other held holds
        simp only
        rcases members other held holds with ⟨rfl, _, attempt', trying', same⟩ | ⟨different, was⟩
        · have isNumber := attemptsFrom_served notNegative below
          have drawn : Int.ofNat attempt' = queue.services.redis.attempts msg.jobId + 1 := by
            rw [number attempt' trying']
            exact isNumber
          rw [Function.update_self, ← same, drawn, own]
        · rw [Function.update_of_ne different]
          exact was
    · rw [if_neg (fun both => own both.2)] at counter
      exact numbering_drop counter sameUsed (fewer (Or.inl own))
  | giveBack attempt =>
    obtain ⟨fate, rfl, _, isServices⟩ := respond_command responded
    have sameUsed : numbersUsed jobId after.log = numbersUsed jobId queue.log := by
      rw [isLog]
      exact numbersUsed_deeds (acquired_deeds (by rintro _ _ _ ⟨⟩))
        jobId id _ _ _
    have counter := attempts_increment queue.services msg.jobId (-1) fate jobId
    rw [← isServices] at counter
    by_cases counts : fate.applied = true ∧ jobId = msg.jobId
    · have own := counts.2
      rw [if_pos counts] at counter
      have isNumber : handler.attempt = some attempt :=
        numbered (fun impossible => by cases impossible)
      have isLatest := latest rfl counts.1 attempt isNumber
      have holds : queue.triedAs stages jobId id = some (queue.services.redis.attempts jobId) :=
        triedAs_iff.mpr ⟨handler, attempt, runs, by rw [isJob, own], by rw [atStage]; rfl,
          by rw [own, isLatest]; rfl⟩
      rw [Queue.numbering, Queue.numbering, counter, sameUsed]
      exact (Relation.ReflTransGen.single (.giveBack _ id holds)).tail (.drop _ _ (erased rfl))
    · rw [if_neg counts] at counter
      exact numbering_drop counter sameUsed (fewer (Or.inr rfl))
  | tries attempt ttlMs reply stage' again =>
    have sameCounter := attempts_respond responded (fun _ _ impossible => by cases impossible) jobId
    obtain ⟨fate, rfl, rfl, isServices⟩ := respond_command responded
    have isNumber : handler.attempt = some attempt :=
      numbered (fun impossible => by cases impossible)
    by_cases takes : fate.applied = true ∧
        (queue.services.redis.locks.lookup msg.pipeline).isNone = true
    · have acquires : deeds queue.services (.command (.setLock msg.pipeline
          (fence msg.jobId attempt) ttlMs)) (.fate fate) =
            [.acquired (fence msg.jobId attempt)] := by
        simp only [deeds, takes.1, takes.2, ↓reduceIte]
      have quiet : stage'.trying = none := by
        rcases again with quiet | ⟨busy, _⟩
        · exact quiet
        · obtain ⟨_, isTaken⟩ := reply_ok busy
          simp only [Command.value, takes.2] at isTaken
          cases isTaken
      by_cases own : jobId = msg.jobId
      · have used : numbersUsed jobId after.log =
            (Int.ofNat attempt, id) :: numbersUsed jobId queue.log := by
          rw [isLog, acquires, isNumber]
          simp [numbersUsed, own]
        have holds : queue.triedAs stages jobId id = some (Int.ofNat attempt) :=
          triedAs_iff.mpr ⟨handler, attempt, runs, by rw [isJob, own], by rw [atStage]; rfl, rfl⟩
        rw [Queue.numbering, Queue.numbering, sameCounter, used]
        exact (Relation.ReflTransGen.single (.use _ id _ holds)).tail (.drop _ _ (erased quiet))
      · refine numbering_drop sameCounter ?_ (fewer (Or.inl own))
        rw [isLog, acquires]
        simp [numbersUsed, Ne.symm own]
    · have idle : deeds queue.services (.command (.setLock msg.pipeline
          (fence msg.jobId attempt) ttlMs)) (.fate fate) = [] := by
        simp only [deeds]
        split
        · next applied => exact if_neg (fun free => takes ⟨applied, free⟩)
        · rfl
      refine numbering_drop sameCounter ?_ ?_
      · rw [isLog, idle, List.map_nil, List.nil_append]
      · intro other number holds
        rcases members other number holds with ⟨rfl, own, attempt', trying, same⟩ | ⟨_, was⟩
        · rcases again with quiet | ⟨_, rfl⟩
          · cases quiet.symm.trans trying
          · exact triedAs_iff.mpr ⟨handler, attempt', runs, by rw [isJob, own],
              by rw [atStage]; exact trying, same⟩
        · exact was
  | none stage op reply stage' uncounted untried kept =>
    refine numbering_drop (attempts_respond responded uncounted jobId) ?_ ?_
    · rw [isLog]
      exact numbersUsed_deeds (acquired_deeds untried) jobId id _ _ _
    · intro other number holds
      rcases members other number holds with ⟨rfl, own, attempt, trying, same⟩ | ⟨_, was⟩
      · exact triedAs_iff.mpr ⟨handler, attempt, runs, by rw [isJob, own],
          by rw [atStage]; exact kept attempt trying, same⟩
      · exact was

/-- A live hash with no attempt counted counts none when it is gone. -/
theorem attempts_expired {redis redis' : Redis} {action : QueueAction}
    (happens : Outside redis action redis')
    (uncounted : ∀ jobId, action = .expireLive jobId → redis.attempts jobId = 0) :
    redis'.attempts jobId = redis.attempts jobId := by
  by_cases expires : ∃ expired, action = .expireLive expired
  · obtain ⟨expired, rfl⟩ := expires
    cases happens with
    | liveExpired expired =>
      by_cases same : jobId = expired
      · subst same
        rw [uncounted jobId rfl, Redis.attempts, Redis.hash, AList.lookup_erase]
        rfl
      · rw [Redis.attempts, Redis.hash, AList.lookup_erase_ne same]
        rfl
  · exact attempts_outside happens (fun expired isExpiry => expires ⟨expired, isExpiry⟩)

/-- The numbers of a job over a step of the queue. -/
theorem numbering_successor {action : QueueAction} (numbers : queue.Numbers action)
    (successor : Successor settings queue stages action after stages') :
    Relation.ReflTransGen Numbering.Moves (queue.numbering stages jobId)
      (after.numbering stages' jobId) := by
  cases successor with
  | enqueued msg =>
    exact numbering_drop (attempts_enqueue _ msg jobId) rfl (fun _ _ holds => holds)
  | outside action redis happens =>
    refine numbering_drop (attempts_expired happens ?_) rfl (fun _ _ holds => holds)
    rintro expired rfl
    exact numbers
  | arrived action id worker entry payload redis isNew handed =>
    refine numbering_drop (by cases handed <;> rfl) rfl (triedAs_fewer ?_)
    intro other found runs tries
    rcases lookup_of_insert runs with ⟨rfl, rfl⟩ | ⟨different, runs⟩
    · rw [Function.update_self] at tries
      exact absurd rfl tries
    · rw [Function.update_of_ne different]
      exact ⟨found, runs, rfl, rfl⟩
  | stepped id handler msg op next response reply services stage' runs handlerAt isCall permits
      responded step handlerAt' =>
    refine numbering_stepped runs handlerAt.isMessage rfl (advance_payload _ _ _ _).1 rfl rfl
      responded handlerAt.numbered ?_ ?_ step.tries
    · rintro rfl
      exact (numbers _ (pending_call runs isCall)).1 msg.jobId rfl
    · rintro rfl applied attempt isAttempt
      refine (numbers _ (pending_call runs isCall)).2 msg.jobId rfl applied attempt ?_
      rw [Queue.attemptOf, runs]
      exact isAttempt
  | strayed id handler command next fate runs stray isCall harmless stray' =>
    refine numbering_drop ?_ rfl (triedAs_fewer ?_)
    · exact attempts_harmless harmless jobId
    · intro other found foundRuns _
      rcases lookup_keepRunning foundRuns with ⟨rfl, rfl⟩ | ⟨_, foundRuns⟩
      · exact ⟨handler, runs, by simp only [Handler.jobId?, (advance_payload _ _ _ _).1], rfl⟩
      · exact ⟨found, foundRuns, rfl, rfl⟩
  | cancelled id handler fate runs =>
    refine numbering_drop rfl rfl (triedAs_fewer ?_)
    intro other found foundRuns _
    rcases lookup_of_insert foundRuns with ⟨rfl, rfl⟩ | ⟨_, foundRuns⟩
    · exact ⟨handler, runs, rfl, rfl⟩
    · exact ⟨found, foundRuns, rfl, rfl⟩
  | renewed | sweeping | stopped => exact numbering_drop rfl rfl (fun _ _ holds => holds)
  | crashed id =>
    refine numbering_drop rfl rfl (triedAs_fewer ?_)
    exact fun other found runs _ => ⟨found, (lookup_of_erase runs).2, rfl, rfl⟩
  | swept id sweep op next response reply services runs isCall responded step =>
    exact numbering_drop (attempts_respond responded step.uncounted jobId) rfl
      (fun _ _ holds => holds)

end Numbering

/-! ## Whose acquisitions they are -/

/-- The number under which a handler at the stage took the lock, or gave up. -/
def Stage.owns : Stage → Option Nat
  | .preparing attempt | .executing attempt | .returning attempt | .requeueing attempt =>
    some attempt
  | .checking closer _ | .recording closer _ | .publishing closer _ | .releasing closer
  | .acking closer => closer.attempt?
  | _ => none

/-- The handler acquired as the attempt, unless that is beyond the bound. -/
def Queue.Acquired (settings : QueueSettings) (queue : Queue) (jobId : Text) (id attempt : Nat) :
    Prop :=
  (Int.ofNat attempt, id) ∈ numbersUsed jobId queue.log ∨ settings.maxAttempts < attempt

/-- What a handler owns at its stage, and what it renews, it acquired. -/
structure Owns (settings : QueueSettings) (queue : Queue) (id : Nat) (handler : Handler)
    (msg : JobMessage) (stage : Stage) : Prop where
  staged : ∀ attempt, stage.owns = some attempt → queue.Acquired settings msg.jobId id attempt
  renewed : ∀ lock attempt, handler.lock = some lock → handler.attempt = some attempt →
    queue.Acquired settings msg.jobId id attempt

/-- An acquisition stores the fence of its attempt, which is within the bound. -/
def Labelled (settings : QueueSettings) (log : List Happening) : Prop :=
  ∀ happening ∈ log, ∀ stored, happening.deed = .acquired stored → ∃ attempt,
    happening.attempt = some attempt ∧ stored = fence happening.jobId attempt ∧
      attempt ≤ settings.maxAttempts

section Owns

variable {settings : QueueSettings} {queue after : Queue} {stages stages' : Nat → Stage}

/-- The numbers used are those of the locks that the log says were acquired. -/
theorem mem_numbersUsed {jobId : Text} {log : List Happening} {number : Int} {id : Nat} :
    (number, id) ∈ numbersUsed jobId log ↔ ∃ happening ∈ log, ∃ stored attempt,
      happening.jobId = jobId ∧ happening.deed = .acquired stored ∧
        happening.attempt = some attempt ∧ Int.ofNat attempt = number ∧ happening.handler = id := by
  rw [numbersUsed, List.mem_filterMap]
  constructor
  · rintro ⟨happening, member, found⟩
    split at found
    · next isJob =>
      split at found
      · next stored attempt isAcquired isAttempt =>
        obtain ⟨isNumber, isHandler⟩ := Prod.mk.inj (Option.some.inj found)
        exact ⟨happening, member, stored, attempt, isJob, isAcquired, isAttempt, isNumber,
          isHandler⟩
      · exact nomatch found
    · exact nomatch found
  · rintro ⟨happening, member, stored, attempt, isJob, isAcquired, isAttempt, rfl, rfl⟩
    refine ⟨happening, member, ?_⟩
    simp only [isJob, isAcquired, isAttempt, ↓reduceIte]

/-- What was acquired stays acquired. -/
theorem Queue.Acquired.grows {jobId : Text} {id attempt : Nat} {done : List Happening}
    (acquired : queue.Acquired settings jobId id attempt) (isLog : after.log = done ++ queue.log) :
    after.Acquired settings jobId id attempt := by
  rcases acquired with used | beyond
  · refine Or.inl ?_
    obtain ⟨happening, member, rest⟩ := mem_numbersUsed.mp used
    rw [mem_numbersUsed, isLog]
    exact ⟨happening, List.mem_append_right _ member, rest⟩
  · exact Or.inr beyond

/-- The log only grows. -/
theorem Successor.log_grows {action : QueueAction}
    (successor : Successor settings queue stages action after stages') :
    ∃ done, after.log = done ++ queue.log := by
  cases successor with
  | stepped => exact ⟨_, rfl⟩
  | enqueued | outside | arrived | strayed | cancelled | renewed | crashed | sweeping | swept
  | stopped => exact ⟨[], rfl⟩

/-- A step leads to a stage that owns an attempt from one that does, by giving up, or by
taking the lock. -/
theorem Step.owns {msg : JobMessage} {entry : Nat} {stage stage' : Stage} {op : Op}
    {reply : OpReply op} {response : Response} {services services' : Services} {attempt : Nat}
    (step : Step settings msg entry stage op reply stage')
    (responded : respond services op response = some (reply, services'))
    (owns : stage'.owns = some attempt) : stage.owns = some attempt ∨
      settings.maxAttempts < attempt ∨ (stage = .locking attempt ∧
        .acquired (fence msg.jobId attempt) ∈ deeds services op response) := by
  cases step with
  | idle | prepared => exact Or.inl owns
  | locked acquired =>
    obtain rfl := Option.some.inj owns
    obtain ⟨fate, rfl, isReply, _⟩ := respond_command responded
    obtain ⟨rfl, isFree⟩ := reply_ok isReply.symm
    simp only [Command.value] at isFree
    exact Or.inr (Or.inr ⟨rfl, by simp [deeds, Fate.applied, ← isFree]⟩)
  | gaveUp reply exceeds =>
    obtain rfl := Option.some.inj owns
    exact Or.inr (Or.inl exceeds)
  | ended running outcome =>
    refine Or.inl ?_
    rcases outcome with (error | error | errors | _ | error | _) | outcome
    all_goals first
      | exact owns
      | cases owns
  | begun | exhausted | returned | cleared | recorded | published | released => exact Or.inl owns
  | unconnected | rejected | accepted | seen | unseen | dismissed | counted | unlocked | busy
  | yielded | deferred | requeued | unchecked | withheld | unpublished | unreleased | acked =>
    cases owns

/-- Only the start of a run gives a handler a lock to renew. -/
theorem lock_of_advance {handler : Handler} {op : Op} {reply : OpReply op} {rest : Handling Unit}
    {lock : Text × Text} (holds : (handler.advance op reply rest).lock = some lock) :
    handler.lock = some lock ∨ op = .startJob lock.1 lock.2 := by
  unfold Handler.advance at holds
  split at holds
  · exact Or.inl holds
  · exact Or.inl holds
  · exact Or.inl holds
  · obtain rfl := Option.some.inj holds
    exact Or.inr rfl
  · exact nomatch holds
  · exact Or.inl holds

/-- A run starts under the fence of the attempt that prepared it. -/
theorem Step.starts {msg : JobMessage} {entry : Nat} {stage stage' : Stage} {pipeline held : Text}
    {reply : Unit} (step : Step settings msg entry stage (.startJob pipeline held) reply stage') :
    ∃ attempt, stage = .preparing attempt ∧ held = fence msg.jobId attempt := by
  cases step with
  | begun attempt => exact ⟨attempt, rfl, rfl⟩
  | idle stage op reply isIdle => exact nomatch isIdle
  | prepared attempt op reply prepares => exact nomatch prepares

/-- The lock is tried under the fence of the attempt that was counted. -/
theorem Step.tries_lock {msg : JobMessage} {entry : Nat} {stage stage' : Stage}
    {pipeline stored : Text} {ttlMs : Nat} {reply : Except Text Bool}
    (step : Step settings msg entry stage (.command (.setLock pipeline stored ttlMs)) reply
      stage') :
    ∃ attempt, stage = .locking attempt ∧ stored = fence msg.jobId attempt := by
  cases step with
  | unlocked attempt => exact ⟨attempt, rfl, rfl⟩
  | busy attempt => exact ⟨attempt, rfl, rfl⟩
  | locked attempt => exact ⟨attempt, rfl, rfl⟩
  | idle stage op reply isIdle => exact nomatch isIdle
  | prepared attempt op reply prepares => exact nomatch prepares

/-- What a handler owns after a step, it acquired. -/
theorem owns_stepped {action : QueueAction} {id : Nat} {handler : Handler} {msg : JobMessage}
    {op : Op} {next : OpReply op → Handling Unit} {response : Response} {reply : OpReply op}
    {stage' : Stage}
    (stepped : Stepped settings queue stages action after id handler msg op next response
      reply stage')
    (owns : Owns settings queue id handler msg (stages id)) :
    Owns settings after id (handler.advance op reply (next reply)) msg stage' := by
  have grows := fun attempt (acquired : queue.Acquired settings msg.jobId id attempt) =>
    acquired.grows stepped.isLog
  refine ⟨?_, ?_⟩
  · intro attempt isOwned
    rcases stepped.step.owns stepped.responded isOwned with owned | beyond | ⟨atLock, acquired⟩
    · exact grows attempt (owns.staged attempt owned)
    · exact Or.inr beyond
    · have isAttempt : handler.attempt = some attempt := by
        rw [stepped.handlerAt.numbered (by rw [atLock]; exact fun impossible => nomatch impossible),
          atLock]
        rfl
      have logged :
        (⟨id, msg.jobId, handler.attempt, .acquired (fence msg.jobId attempt)⟩ : Happening)
          ∈ after.log := by
        rw [stepped.isLog]
        exact List.mem_append_left _ (List.mem_map.mpr ⟨_, acquired, rfl⟩)
      exact Or.inl (mem_numbersUsed.mpr ⟨_, logged, _, attempt, rfl, rfl, isAttempt, rfl, rfl⟩)
  · intro lock attempt holds isAttempt
    obtain ⟨number, isNumber, isLock⟩ := stepped.handlerAt'.renews lock holds
    obtain rfl : number = attempt := Option.some.inj (isNumber.symm.trans isAttempt)
    rcases lock_of_advance holds with before | starts
    · obtain ⟨number', isNumber', isLock'⟩ := stepped.handlerAt.renews lock before
      have sameFence := congrArg Prod.snd (isLock'.symm.trans isLock)
      obtain rfl := (fence_injective sameFence).2
      exact grows _ (owns.renewed lock _ before isNumber')
    · have step := stepped.step
      subst starts
      obtain ⟨number', atStage, isFence⟩ := step.starts
      rw [isLock] at isFence
      obtain rfl := (fence_injective isFence).2
      exact grows _ (owns.staged number (by rw [atStage]; rfl))

/-- A step stores the fence of an attempt within the bound, or none. -/
theorem labelled_stepped {action : QueueAction} {id : Nat} {handler : Handler} {msg : JobMessage}
    {op : Op} {next : OpReply op → Handling Unit} {response : Response} {reply : OpReply op}
    {stage' : Stage}
    (stepped : Stepped settings queue stages action after id handler msg op next response
      reply stage')
    (labelled : Labelled settings queue.log) : Labelled settings after.log := by
  intro happening member stored isAcquired
  rw [stepped.isLog] at member
  rcases List.mem_append.mp member with done | before
  · obtain ⟨deed, isDone, rfl⟩ := List.mem_map.mp done
    simp only at isAcquired
    subst isAcquired
    have step := stepped.step
    obtain ⟨pipeline, ttlMs, rfl⟩ := tries_of_acquired isDone
    obtain ⟨attempt, atStage, isFence⟩ := step.tries_lock
    have sound := stepped.handlerAt.sound
    have numbered := stepped.handlerAt.numbered
    rw [atStage] at sound numbered
    exact ⟨attempt, numbered (fun impossible => nomatch impossible), isFence, sound.2⟩
  · exact labelled happening before stored isAcquired

/-- Where acquisitions store the fences of their attempts, and each job uses a number
once, no fence is stored twice. -/
theorem nodup_acquisitions {log : List Happening} (labelled : Labelled settings log)
    (once : ∀ jobId, ((numbersUsed jobId log).map Prod.fst).Nodup) : (acquisitions log).Nodup := by
  induction log with
  | nil => exact List.nodup_nil
  | cons happening rest inductionHypothesis =>
    have restLabelled : Labelled settings rest :=
      fun other member => labelled other (List.mem_cons_of_mem _ member)
    have restOnce : ∀ jobId, ((numbersUsed jobId rest).map Prod.fst).Nodup := by
      intro jobId
      refine List.Nodup.sublist (List.Sublist.map _ ?_) (once jobId)
      exact (List.sublist_cons_self happening rest).filterMap _
    have restNodup := inductionHypothesis restLabelled restOnce
    rw [acquisitions, List.filterMap_cons]
    split
    · exact restNodup
    · next stored found =>
      have isAcquired : happening.deed = .acquired stored := by
        split at found
        · next isDeed =>
          rw [isDeed, Option.some.inj found]
        · exact nomatch found
      refine List.nodup_cons.mpr ⟨?_, restNodup⟩
      intro again
      obtain ⟨other, member, isOther⟩ := List.mem_filterMap.mp again
      have otherAcquired : other.deed = .acquired stored := by
        split at isOther
        · next isDeed => rw [isDeed, Option.some.inj isOther]
        · exact nomatch isOther
      obtain ⟨attempt, isAttempt, isFence, _⟩ :=
        labelled happening List.mem_cons_self stored isAcquired
      obtain ⟨attempt', isAttempt', isFence', _⟩ := restLabelled other member stored otherAcquired
      obtain ⟨sameJob, rfl⟩ := fence_injective (isFence.symm.trans isFence')
      have used : numbersUsed happening.jobId (happening :: rest) =
          (Int.ofNat attempt, happening.handler) :: numbersUsed happening.jobId rest := by
        simp [numbersUsed, isAcquired, isAttempt]
      have usedBefore : (Int.ofNat attempt, other.handler) ∈ numbersUsed happening.jobId rest :=
        mem_numbersUsed.mpr
          ⟨other, member, stored, attempt, sameJob.symm, otherAcquired, isAttempt',
          rfl, rfl⟩
      have nodup := once happening.jobId
      rw [used, List.map_cons, List.nodup_cons] at nodup
      exact nodup.1 (List.mem_map.mpr ⟨_, usedBefore, rfl⟩)

/-- What is true of queues whose numbers do not come back. -/
structure Numbered (settings : QueueSettings) (queue : Queue) (stages : Nat → Stage) : Prop where
  sound : ∀ jobId, (queue.numbering stages jobId).Sound
  labelled : Labelled settings queue.log
  owned : ∀ id handler msg, queue.handlers.lookup id = some handler →
    HandlerAt settings handler msg (stages id) → Owns settings queue id handler msg (stages id)

/-- A step after which no number came back. -/
theorem numbered_successor {action : QueueAction} (tracked : Tracked settings queue stages)
    (numbered : Numbered settings queue stages) (numbers : queue.Numbers action)
    (successor : Successor settings queue stages action after stages') :
    Numbered settings after stages' := by
  refine ⟨fun jobId => (numbered.sound jobId).moves (numbering_successor numbers successor), ?_, ?_⟩
  · have unlogged : after.log = queue.log → Labelled settings after.log := by
      intro sameLog
      rw [sameLog]
      exact numbered.labelled
    cases successor with
    | stepped id handler msg op next response reply services stage' runs handlerAt isCall permits
        responded step handlerAt' =>
      exact labelled_stepped ⟨rfl, runs, handlerAt, isCall, responded, step, handlerAt', rfl, rfl⟩
        numbered.labelled
    | enqueued | outside | arrived | strayed | cancelled | renewed | crashed | sweeping | swept
    | stopped => exact unlogged rfl
  · obtain ⟨done, isLog⟩ := successor.log_grows
    apply successor.each tracked (Owns settings queue) (Owns settings after) numbered.owned
    · intro id handler msg stage _ _ _ owns
      exact ⟨fun attempt isOwned => (owns.staged attempt isOwned).grows isLog,
        fun lock attempt holds isAttempt => (owns.renewed lock attempt holds isAttempt).grows isLog⟩
    · intro id worker entry msg redis _
      exact ⟨fun _ impossible => (nomatch impossible), fun _ _ impossible => nomatch impossible⟩
    · intro id handler msg op next response reply stage' stepped owns
      exact owns_stepped stepped owns
    · intro id handler msg stage owns
      exact ⟨owns.staged, owns.renewed⟩

/-- Of a job's acquisitions only one has a given number. -/
theorem acquired_once {jobId : Text} {id attempt : Nat} (numbered : Numbered settings queue stages)
    (acquired : queue.Acquired settings jobId id attempt) :
    ∀ happening ∈ queue.log, happening.deed = .acquired (fence jobId attempt) →
      happening.handler = id ∧ happening.attempt = some attempt := by
  intro happening member isAcquired
  obtain ⟨attempt', isAttempt, isFence, within⟩ :=
    numbered.labelled happening member _ isAcquired
  obtain ⟨sameJob, rfl⟩ := fence_injective isFence
  refine ⟨?_, isAttempt⟩
  have used : (Int.ofNat attempt, happening.handler) ∈ numbersUsed jobId queue.log :=
    mem_numbersUsed.mpr
      ⟨happening, member, _, attempt, sameJob.symm, isAcquired, isAttempt, rfl, rfl⟩
  rcases acquired with usedHere | beyond
  · have pair := List.inj_on_of_nodup_map (numbered.sound jobId).usedOnce used usedHere rfl
    exact congrArg Prod.snd pair
  · omega

/-- What a handler releases it owns. -/
theorem Step.releases {msg : JobMessage} {entry : Nat} {stage stage' : Stage}
    {pipeline held : Text} {reply : Except Text Unit}
    (step : Step settings msg entry stage (.command (.releaseLock pipeline held)) reply stage') :
    ∃ number, held = fence msg.jobId number ∧ (stage.attempt? = none ∨
      (stage.attempt? = some number ∧ stage.owns = some number)) ∧ stage ≠ .over := by
  cases step with
  | exhausted attempt | returned attempt =>
    exact ⟨attempt, rfl, Or.inr ⟨rfl, rfl⟩, fun impossible => nomatch impossible⟩
  | unreleased closer | released closer =>
    refine ⟨closer.number, rfl, ?_, fun impossible => nomatch impossible⟩
    cases closer with
    | rejected => exact Or.inl rfl
    | attempt number => exact Or.inr ⟨rfl, rfl⟩
  | idle stage op reply isIdle => exact nomatch isIdle
  | prepared attempt op reply prepares => exact nomatch prepares

/-- Only a running handler has a pending operation. -/
theorem runs_of_pending {id : Nat} {op : Op} (isPending : queue.pending id = some op) :
    ∃ handler, queue.handlers.lookup id = some handler := by
  cases runs : queue.handlers.lookup id with
  | none => simp [Queue.pending, runs] at isPending
  | some handler => exact ⟨handler, rfl⟩

/-- A handler with a pending operation calls it. -/
theorem call_of_pending {id : Nat} {handler : Handler} {op : Op}
    (runs : queue.handlers.lookup id = some handler) (isPending : queue.pending id = some op) :
    ∃ next, handler.program = .call op next := by
  simp only [Queue.pending, runs] at isPending
  split at isPending
  · next found next isCall =>
    obtain rfl := Option.some.inj isPending
    exact ⟨next, isCall⟩
  · cases isPending

/-- In every queue reached without numbers coming back, no fence was stored twice, and
attempts release and renew only what they stored. -/
theorem fences_once {rows : AList (fun _ : Text => JobRow)}
    (reached : Runs.Reaches (Queue.step settings) Queue.Numbers (Queue.initial rows) queue) :
    FencesOnce queue := by
  have start : Numbered settings (Queue.initial rows) (fun _ => .over) := by
    have nobody : ∀ jobId id number,
        (Queue.initial rows).triedAs (fun _ => .over) jobId id ≠ some number := by
      intro jobId id number holds
      obtain ⟨handler, attempt, impossible, _⟩ := triedAs_iff.mp holds
      exact nomatch impossible
    refine ⟨fun jobId => ⟨?_, ?_, ?_, ?_, List.nodup_nil⟩, ?_, ?_⟩
    · exact fun id number holds => absurd holds (nobody jobId id number)
    · exact fun _ impossible => nomatch impossible
    · exact fun id _ number holds => absurd holds (nobody jobId id number)
    · exact fun id number holds => absurd holds (nobody jobId id number)
    · exact fun _ impossible => nomatch impossible
    · exact fun _ _ _ impossible => nomatch impossible
  obtain ⟨stages, tracked, numbered⟩ := reaches_tracked (Numbered settings) (initial_tracked rows)
    start (fun _ _ _ _ _ tracked numbered numbers successor =>
      numbered_successor tracked numbered numbers successor) reached
  refine ⟨nodup_acquisitions numbered.labelled (fun jobId => (numbered.sound jobId).usedOnce), ?_⟩
  intro id handler attempt stored runs isAttempt guards
  rcases guards with ⟨pipeline, isPending⟩ | ⟨holder, pipeline, holderRuns, holds⟩
  · obtain ⟨next, isCall⟩ := call_of_pending runs isPending
    rcases tracked.handlers id handler runs with ⟨msg, handlerAt⟩ | stray
    · obtain ⟨stage', step, _⟩ := handlerAt.advance isCall (.ok ())
      obtain ⟨number, rfl, numberless | ⟨isNumber, owned⟩, goesOn⟩ := step.releases
      · rw [handlerAt.numbered goesOn, numberless] at isAttempt
        exact nomatch isAttempt
      · rw [handlerAt.numbered goesOn, isNumber] at isAttempt
        obtain rfl := Option.some.inj isAttempt
        exact acquired_once numbered ((numbered.owned id handler msg runs handlerAt).staged _ owned)
    · rcases (stray.advance isCall (.ok ())).1 with impossible | impossible
      · exact nomatch impossible
      · exact nomatch impossible
  · obtain rfl := Option.some.inj (holderRuns.symm.trans runs)
    rcases tracked.handlers id holder runs with ⟨msg, handlerAt⟩ | stray
    · obtain ⟨number, isNumber, isLock⟩ := handlerAt.renews _ holds
      obtain rfl := Option.some.inj (isAttempt.symm.trans isNumber)
      obtain ⟨_, rfl⟩ := Prod.mk.inj isLock
      exact acquired_once numbered
        ((numbered.owned id holder msg runs handlerAt).renewed _ _ holds isAttempt)
    · exact nomatch stray.unnumbered.symm.trans isAttempt

end Owns

/-! ## A number that comes back -/

/-- Three deliveries of one job: the first acquires as one; the second, counted as two,
gives its attempt back while the third, counted as three, acquires; so the fourth is
counted as three again and acquires under the same fence. -/
def comingBack : List QueueAction :=
  [.enqueue smallJob, .deliver 0 "w".toList] ++ replies 0 (serve 4) ++
    [.reclaim 1 "w".toList 0] ++ replies 1 (serve 3) ++
    [.reclaim 2 "w".toList 0] ++ replies 2 (serve 3) ++ replies 1 (serve 2) ++
    [.crash 0, .expireLock "p".toList] ++ replies 2 (serve 1) ++
    [.crash 2, .expireLock "p".toList, .reclaim 3 "w".toList 0] ++ replies 3 (serve 4)

/-- Without the rule, two acquisitions store the same fence. -/
theorem fence_reused : ∃ queue : Queue,
    Runs.Reaches (Queue.step .default) (fun _ _ => True) (Queue.initial ∅) queue ∧
      ¬ (acquisitions queue.log).Nodup := by
  exact Runs.reaches_of_check (Queue.step .default) (fun _ _ => True) (Queue.initial ∅) comingBack
    (fun queue => ¬ (acquisitions queue.log).Nodup) (by decide +kernel)

/-- The fences are stored once where two deliveries share a job. -/
theorem fences_once_sharing : ∃ queue : Queue,
    acquisitions queue.log = [fence smallJob.jobId 1] ∧ FencesOnce queue := by
  obtain ⟨queue, reached, ran⟩ := Runs.reaches_of_check (Queue.step .default) Queue.Numbers
    (Queue.initial ∅) sharing
    (fun queue => acquisitions queue.log = [fence smallJob.jobId 1]) (by decide +kernel)
  exact ⟨queue, ran, fences_once reached⟩

end KaretWorker
