import KaretWorker.Debounce
import KaretWorker.Library.Index

/-!
# Upload triggers

An event that was recorded should stay in the debounce set until a job for its slug is
enqueued. The pop removes the slug one command before the job is enqueued, so the event
is nowhere in between, and it stays nowhere if the enqueue fails or the scheduler stops.

`kept_iff` says that a run keeps its triggers exactly when no pop takes a slug with an
event that no job has followed. `triggers_held` says what the code does achieve: as long
as pops and enqueues succeed and no scheduler stops between them, each such event waits
or is in the hands of a scheduler. `trigger_lost` is a run that loses one for good.
-/
namespace KaretWorker

open Texts Interaction Runs Indexing

/-- An event of the slug was recorded, and no job has been enqueued since. -/
def Unserved (log : List Trigger) (slug : Text) : Prop :=
  ∃ later earlier, log = later ++ .recorded slug :: earlier ∧ .enqueued slug ∉ later

/-- Every recorded event waits in the debounce set, unless a job followed it. -/
def Kept (debouncer : Debouncer) : Prop :=
  ∀ later slug earlier, debouncer.log = later ++ .recorded slug :: earlier →
    slug ∈ debouncer.services.waiting ∨ .enqueued slug ∈ later

/-- An action pops a slug from the debounce set. -/
def Pops (debouncer : Debouncer) (action : DebounceAction) (slug : Text) : Prop :=
  ∃ id fate now next, action = .answerTick id (.fate fate) ∧ fate.applied = true ∧
    debouncer.schedulers.lookup id = some (.call (.command (.popDue now)) next) ∧
    slug ∈ dueSlugs debouncer.services.waiting now

/-- A pop takes only slugs whose events were all followed by a job. -/
def PopsServed (debouncer : Debouncer) (action : DebounceAction) : Prop :=
  ∀ slug, Pops debouncer action slug → ¬ Unserved debouncer.log slug

/-- Triggers are kept exactly when every unserved slug waits. -/
theorem kept_unserved {debouncer : Debouncer} :
    Kept debouncer ↔ ∀ slug, Unserved debouncer.log slug → slug ∈ debouncer.services.waiting := by
  constructor
  · rintro kept slug ⟨later, earlier, split, unfollowed⟩
    exact (kept later slug earlier split).resolve_right unfollowed
  · intro waits later slug earlier split
    by_cases followed : .enqueued slug ∈ later
    · exact Or.inr followed
    · exact Or.inl (waits slug ⟨later, earlier, split, followed⟩)

/-- What is unserved after new entries was recorded by them, or was unserved before and
they enqueue no job for it. -/
theorem unserved_append {added log : List Trigger} {slug : Text}
    (unserved : Unserved (added ++ log) slug) :
    .recorded slug ∈ added ∨ (Unserved log slug ∧ .enqueued slug ∉ added) := by
  obtain ⟨later, earlier, split, unfollowed⟩ := unserved
  rcases List.append_eq_append_iff.mp split with ⟨between, rfl, same⟩ | ⟨between, rfl, same⟩
  · exact Or.inr
      ⟨⟨between, earlier, same, fun member => unfollowed (List.mem_append_right _ member)⟩,
      fun member => unfollowed (List.mem_append_left _ member)⟩
  · cases between with
    | nil =>
      refine Or.inr ⟨⟨[], earlier, same.symm, List.not_mem_nil⟩, ?_⟩
      simpa using unfollowed
    | cons first rest =>
      obtain ⟨rfl, _⟩ := List.cons.inj same
      exact Or.inl (by simp)

/-! ## What a command does to the debounce set -/

/-- The slugs left are those that were not erased. -/
theorem mem_eraseAll {map : AList (fun _ : Text => Int)} {slugs : List Text} {slug : Text} :
    slug ∈ eraseAll map slugs ↔ slug ∈ map ∧ slug ∉ slugs := by
  induction slugs generalizing map with
  | nil => simp [eraseAll]
  | cons first rest inductionHypothesis =>
    have unfolded : eraseAll map (first :: rest) = eraseAll (map.erase first) rest := rfl
    rw [unfolded, inductionHypothesis, AList.mem_erase, List.mem_cons, not_or, and_assoc]
    tauto

/-- Only a pop takes slugs out of the debounce set, and it takes those that are due. -/
theorem apply_waiting (services : Debounce) (command : DebounceCommand) {slug : Text}
    (waits : slug ∈ services.waiting) :
    slug ∈ (command.apply services).waiting ∨
      ∃ now, command = .popDue now ∧ slug ∈ dueSlugs services.waiting now := by
  cases command with
  | connect => exact Or.inl waits
  | setFirst other now ttlMs =>
    left
    simp only [DebounceCommand.apply]
    split <;> exact waits
  | zadd other fireAt => exact Or.inl ((AList.mem_insert _).mpr (Or.inr waits))
  | popDue now =>
    by_cases due : slug ∈ dueSlugs services.waiting now
    · exact Or.inr ⟨now, rfl, due⟩
    · exact Or.inl (mem_eraseAll.mpr ⟨waits, due⟩)
  | enqueue msg => exact Or.inl waits

/-! ## Handlers -/

/-- The program of a handler pops nothing, and returns successfully only after it has
set the time of its slug. -/
def Records (slug : Text) : Debouncing (Except Text Int) → Prop
  | .done _ => True
  | .call (.command (.popDue _)) _ => False
  | .call (.command (.zadd other _)) next => other = slug ∧
      (∀ error wait, next (.error error) ≠ .done (.ok wait)) ∧ ∀ reply, Records slug (next reply)
  | .call _ next => ∀ reply, (∀ wait, next reply ≠ .done (.ok wait)) ∧ Records slug (next reply)

/-- An event records its slug before it returns successfully. -/
theorem records_debounceEvent (slug : Text) : Records slug (debounceEvent slug) := by
  refine fun now => ⟨fun _ impossible => (nomatch impossible), ?_⟩
  rintro (error | first)
  · exact ⟨fun _ impossible => (nomatch impossible), trivial⟩
  · refine ⟨fun _ impossible => (nomatch impossible), rfl, ?_, ?_⟩
    · exact fun _ _ impossible => nomatch impossible
    · rintro (error | added)
      · trivial
      · trivial

/-- Every handler's program records its slug. -/
def Recording (webhooks : AList (fun _ : Nat => Webhook)) : Prop :=
  ∀ id webhook, webhooks.lookup id = some webhook → Records webhook.slug webhook.program

/-- One answer to a handler: its slug waits if it returns, and no slug stops waiting. -/
theorem answer_records {slug : Text} {op : DebounceOp}
    {next : DebounceReply op → Debouncing (Except Text Int)} {services services' : Debounce}
    {response : DebounceResponse} {reply : DebounceReply op}
    (records : Records slug (.call op next))
    (answered : debounceRespond services op response = some (reply, services')) :
    Records slug (next reply) ∧ (∀ wait, next reply = .done (.ok wait) → slug ∈ services'.waiting) ∧
      ∀ other ∈ services.waiting, other ∈ services'.waiting := by
  cases op with
  | nowMs | newJobId =>
    cases response <;> simp only [debounceRespond, reduceCtorEq, Option.some.injEq, Prod.mk.injEq]
      at answered
    obtain ⟨rfl, rfl⟩ := answered
    exact ⟨(records _).2, fun wait returns => absurd returns ((records _).1 wait),
      fun _ waits => waits⟩
  | command command =>
    cases response with
    | ms | id => exact nomatch answered
    | fate fate =>
      obtain ⟨rfl, rfl⟩ := Prod.mk.inj (Option.some.inj answered)
      have stays : (∀ now, command ≠ .popDue now) → ∀ other ∈ services.waiting,
          other ∈ (if fate.applied then command.apply services else services).waiting := by
        intro noPop other waits
        split
        · exact (apply_waiting services command waits).resolve_right
            (fun ⟨now, same, _⟩ => noPop now same)
        · exact waits
      cases command with
      | popDue now => exact absurd records id
      | zadd other fireAt =>
        obtain ⟨rfl, failing, continues⟩ := records
        refine ⟨continues _, ?_, stays (fun _ impossible => nomatch impossible)⟩
        intro wait returns
        cases fate with
        | served => exact (AList.mem_insert _).mpr (Or.inl rfl)
        | refused error | lost error => exact absurd returns (failing error wait)
      | connect | setFirst | enqueue =>
        exact ⟨(records _).2, fun wait returns => absurd returns ((records _).1 wait),
          stays (fun _ impossible => nomatch impossible)⟩

/-! ## One step -/

/-- What a step does to the log and to the debounce set. -/
structure Moves (before : Debouncer) (action : DebounceAction) (after : Debouncer) : Prop where
  recording : Recording after.webhooks
  log : ∃ added, after.log = added ++ before.log ∧
    ∀ slug, .recorded slug ∈ added → slug ∈ after.services.waiting
  waiting : ∀ slug ∈ before.services.waiting,
    slug ∈ after.services.waiting ∨ Pops before action slug

/-- A further handler that records its slug. -/
theorem recording_insert {webhooks : AList (fun _ : Nat => Webhook)}
    (recording : Recording webhooks)
    {id : Nat} {webhook : Webhook} (records : Records webhook.slug webhook.program) :
    Recording (webhooks.insert id webhook) := by
  intro other found lookup
  rcases lookup_of_insert lookup with ⟨rfl, rfl⟩ | ⟨_, before⟩
  · exact records
  · exact recording other found before

/-- One handler less. -/
theorem recording_erase {webhooks : AList (fun _ : Nat => Webhook)} (recording : Recording webhooks)
    (id : Nat) : Recording (webhooks.erase id) :=
  fun other found lookup => recording other found (lookup_of_erase lookup).2

/-- Every step does so. -/
theorem step_moves {before after : Debouncer} {action : DebounceAction}
    (recording : Recording before.webhooks) (stepped : before.step action = some after) :
    Moves before action after := by
  have quiet : ∀ {webhooks schedulers first}, Recording webhooks →
      Moves before action ⟨⟨before.services.redis, before.services.waiting, first⟩, webhooks,
        schedulers, before.log⟩ :=
    fun still => ⟨still, ⟨[], rfl, fun _ impossible => nomatch impossible⟩,
      fun _ waits => Or.inl waits⟩
  cases action with
  | upload id slug =>
    simp only [Debouncer.step] at stepped
    split at stepped
    · obtain rfl := Option.some.inj stepped
      exact quiet (recording_insert recording (records_debounceEvent slug))
    · exact nomatch stepped
  | stopUpload id =>
    obtain rfl := Option.some.inj stepped
    exact quiet (recording_erase recording id)
  | tick id =>
    simp only [Debouncer.step] at stepped
    split at stepped
    · obtain rfl := Option.some.inj stepped
      exact quiet recording
    · exact nomatch stepped
  | stopTick id =>
    obtain rfl := Option.some.inj stepped
    exact quiet recording
  | expireFirst slug =>
    obtain rfl := Option.some.inj stepped
    exact quiet recording
  | answerUpload id response =>
    simp only [Debouncer.step] at stepped
    split at stepped
    case h_2 => exact nomatch stepped
    next webhook found =>
    split at stepped
    case h_2 => exact nomatch stepped
    next op next isCall =>
    split at stepped
    case h_2 => exact nomatch stepped
    next reply services answered =>
    obtain rfl := Option.some.inj stepped
    have records := recording id webhook found
    rw [isCall] at records
    obtain ⟨continues, returns, stays⟩ := answer_records records answered
    refine ⟨?_, ⟨_, rfl, ?_⟩, fun other waits => Or.inl (stays other waits)⟩
    · simp only [keepWebhook]
      split
      · exact recording_erase recording id
      · exact recording_insert recording continues
    · intro slug isRecorded
      simp only [Webhook.recorded] at isRecorded
      split at isRecorded
      · next wait isDone =>
        obtain ⟨rfl⟩ := Trigger.recorded.inj (List.mem_singleton.mp isRecorded)
        exact returns wait isDone
      · exact absurd isRecorded List.not_mem_nil
  | answerTick id response =>
    simp only [Debouncer.step] at stepped
    split at stepped
    case h_2 | h_3 => exact nomatch stepped
    next op next found =>
    split at stepped
    case h_2 => exact nomatch stepped
    next reply services answered =>
    obtain rfl := Option.some.inj stepped
    refine ⟨recording, ⟨_, rfl, ?_⟩, ?_⟩
    · intro slug isRecorded
      exfalso
      revert isRecorded
      unfold enqueuedBy
      split
      · split <;> simp
      · simp
    · intro slug waits
      cases op with
      | nowMs | newJobId =>
        cases response <;> simp only [debounceRespond, reduceCtorEq, Option.some.injEq,
          Prod.mk.injEq] at answered
        rw [← answered.2]
        exact Or.inl waits
      | command command =>
        cases response with
        | ms | id => exact nomatch answered
        | fate fate =>
          obtain ⟨_, rfl⟩ := Prod.mk.inj (Option.some.inj answered)
          by_cases applied : fate.applied = true
          · simp only [applied, ↓reduceIte]
            refine (apply_waiting before.services command waits).imp_right ?_
            rintro ⟨now, rfl, due⟩
            exact ⟨id, fate, now, next, rfl, applied, found, due⟩
          · simp only [applied, Bool.false_eq_true, ↓reduceIte]
            exact Or.inl waits

/-! ## Runs that keep their triggers -/

/-- Triggers are kept by a step that pops only served slugs. -/
theorem kept_step {before after : Debouncer} {action : DebounceAction}
    (recording : Recording before.webhooks) (kept : Kept before)
    (served : PopsServed before action) (stepped : before.step action = some after) :
    Kept after := by
  have moves := step_moves recording stepped
  obtain ⟨added, log, recorded⟩ := moves.log
  rw [kept_unserved] at kept ⊢
  intro slug unserved
  rw [log] at unserved
  rcases unserved_append unserved with new | ⟨old, _⟩
  · exact recorded slug new
  · exact (moves.waiting slug (kept slug old)).resolve_right (fun pops => served slug pops old)

/-- A pop of an unserved slug breaks them. -/
theorem kept_broken {before after : Debouncer} {action : DebounceAction}
    (stepped : before.step action = some after) (kept : Kept after) : PopsServed before action := by
  rintro slug ⟨id, fate, now, next, rfl, applied, found, due⟩ ⟨later, earlier, split, unfollowed⟩
  simp only [Debouncer.step, found, debounceRespond, applied, ↓reduceIte, Option.some.injEq]
    at stepped
  subst stepped
  rcases kept later slug earlier split with waits | followed
  · exact absurd due (mem_eraseAll.mp waits).2
  · exact unfollowed followed

/-- A run keeps its triggers in every state if and only if none of its pops takes a slug
with a recorded event that no job has followed. -/
theorem kept_iff (redis : Redis) (actions : List DebounceAction) :
    Along Debouncer.step Kept (Debouncer.initial redis) actions ↔
      Abides Debouncer.step PopsServed (Debouncer.initial redis) actions := by
  refine along_iff_abides (fun debouncer => Recording debouncer.webhooks) ?_ ?_ ?_ ?_ ?_ actions
  · exact fun before action after recording stepped => (step_moves recording stepped).recording
  · exact fun before action after => kept_step
  · exact fun before action after => kept_broken
  · intro id webhook lookup
    rw [Debouncer.initial, AList.lookup_empty] at lookup
    exact nomatch lookup
  · intro later slug earlier split
    exact absurd split (by simp [Debouncer.initial])

/-! ## Triggers in the hands of a scheduler -/

/-- Whatever it is answered, the program enqueues a job for the slug before it ends. -/
def Enqueues (slug : Text) : Debouncing Unit → Prop
  | .done _ => False
  | .call (.command (.enqueue msg)) next =>
    msg.pipeline = slug ∨ ∀ reply, Enqueues slug (next reply)
  | .call _ next => ∀ reply, Enqueues slug (next reply)

/-- The program enqueues a job for each slug that it pops. -/
def Fires : Debouncing Unit → Prop
  | .done _ => True
  | .call (.command (.popDue _)) next =>
    (∀ slugs, ∀ slug ∈ slugs, Enqueues slug (next (.ok slugs))) ∧ ∀ reply, Fires (next reply)
  | .call _ next => ∀ reply, Fires (next reply)

/-- Firing a list of slugs enqueues a job for each of them. -/
theorem enqueues_fireAll {slug : Text} {slugs : List Text} (member : slug ∈ slugs) :
    Enqueues slug (fireAll slugs) := by
  induction slugs with
  | nil => exact absurd member List.not_mem_nil
  | cons first rest inductionHypothesis =>
    intro jobId now
    rcases List.mem_cons.mp member with rfl | later
    · exact Or.inl rfl
    · exact Or.inr (fun _ => inductionHypothesis later)

/-- Firing pops nothing more. -/
theorem fires_fireAll (slugs : List Text) : Fires (fireAll slugs) := by
  induction slugs with
  | nil => trivial
  | cons first rest inductionHypothesis => exact fun jobId now reply => inductionHypothesis

/-- A scheduler fires what it pops. -/
theorem fires_debounceScheduler : Fires debounceScheduler := by
  rintro (error | connected)
  · trivial
  · refine fun now => ⟨fun slugs slug member => enqueues_fireAll member, ?_⟩
    rintro (error | slugs)
    · trivial
    · exact fires_fireAll slugs

/-- Some scheduler at work enqueues a job for the slug. -/
def InHand (schedulers : AList (fun _ : Nat => Debouncing Unit)) (slug : Text) : Prop :=
  ∃ id program, schedulers.lookup id = some program ∧ Enqueues slug program

/-- Every recorded event waits, or is in the hands of a scheduler, unless a job followed. -/
def Held (debouncer : Debouncer) : Prop :=
  ∀ slug, Unserved debouncer.log slug →
    slug ∈ debouncer.services.waiting ∨ InHand debouncer.schedulers slug

/-- A pop is not applied without an answer, an enqueue is applied, and no scheduler stops
with a slug in its hands. -/
def Delivers (debouncer : Debouncer) : DebounceAction → Prop
  | .answerTick id (.fate fate) => ∀ command next,
      debouncer.schedulers.lookup id = some (.call (.command command) next) →
        ((∃ now, command = .popDue now) → ∀ error, fate ≠ .lost error) ∧
        ((∃ msg, command = .enqueue msg) → fate.applied = true)
  | .stopTick id => ∀ program, debouncer.schedulers.lookup id = some program →
      ∀ slug, ¬ Enqueues slug program
  | _ => True

section InHand

variable {schedulers : AList (fun _ : Nat => Debouncing Unit)} {id : Nat} {slug : Text}

/-- A program that still enqueues is kept. -/
theorem inHand_keep {program : Debouncing Unit} (enqueues : Enqueues slug program) :
    InHand (keepScheduler schedulers id program) slug := by
  cases program with
  | done => exact enqueues.elim
  | call op next => exact ⟨id, _, AList.lookup_insert _, enqueues⟩

/-- Other schedulers keep what they have. -/
theorem lookup_keepScheduler {other : Nat} (different : other ≠ id) (program : Debouncing Unit) :
    (keepScheduler schedulers id program).lookup other = schedulers.lookup other := by
  cases program with
  | done => exact AList.lookup_erase_ne different
  | call op next => exact AList.lookup_insert_ne different

/-- One answer to a scheduler: what it has to enqueue it still has, or has enqueued. -/
theorem answer_enqueues {op : DebounceOp} {next : DebounceReply op → Debouncing Unit}
    {services services' : Debounce} {response : DebounceResponse} {reply : DebounceReply op}
    (enqueues : Enqueues slug (.call op next))
    (answered : debounceRespond services op response = some (reply, services'))
    (delivered : ∀ msg fate, op = .command (.enqueue msg) → response = .fate fate →
      fate.applied = true) :
    Enqueues slug (next reply) ∨ .enqueued slug ∈ enqueuedBy op response := by
  cases op with
  | nowMs | newJobId => exact Or.inl (enqueues reply)
  | command command =>
    cases command with
    | connect | setFirst | zadd | popDue => exact Or.inl (enqueues reply)
    | enqueue msg =>
      rcases enqueues with rfl | later
      · cases response with
        | ms | id => exact nomatch answered
        | fate fate =>
          right
          simp only [enqueuedBy, delivered msg fate rfl rfl, ↓reduceIte, List.mem_singleton]
      · exact Or.inl (later reply)

/-- A program that fires what it pops goes on doing so. -/
theorem fires_answer {op : DebounceOp} {next : DebounceReply op → Debouncing Unit}
    (fires : Fires (.call op next)) (reply : DebounceReply op) : Fires (next reply) := by
  cases op with
  | nowMs | newJobId => exact fires reply
  | command command =>
    cases command with
    | popDue now => exact fires.2 reply
    | connect | setFirst | zadd | enqueue => exact fires reply

end InHand

/-- What a step does to the schedulers. -/
inductive Schedules (before : Debouncer) : DebounceAction → Debouncer → Prop
  | elsewhere {action : DebounceAction} {after : Debouncer}
    (same : after.schedulers = before.schedulers) : Schedules before action after
  | begins {id : Nat} {after : Debouncer} (idle : before.schedulers.lookup id = none)
    (inserted : after.schedulers = before.schedulers.insert id debounceScheduler) :
    Schedules before (.tick id) after
  | stops {id : Nat} {after : Debouncer} (erased : after.schedulers = before.schedulers.erase id) :
    Schedules before (.stopTick id) after
  | answered {id : Nat} {response : DebounceResponse} {op : DebounceOp}
    {next : DebounceReply op → Debouncing Unit} {reply : DebounceReply op} {after : Debouncer}
    (found : before.schedulers.lookup id = some (.call op next))
    (replied : debounceRespond before.services op response = some (reply, after.services))
    (kept : after.schedulers = keepScheduler before.schedulers id (next reply))
    (log : after.log = enqueuedBy op response ++ before.log) :
    Schedules before (.answerTick id response) after

/-- A step begins, answers or stops one scheduler at most. -/
theorem step_schedules {before after : Debouncer} {action : DebounceAction}
    (stepped : before.step action = some after) : Schedules before action after := by
  cases action with
  | stopUpload | expireFirst =>
    obtain rfl := Option.some.inj stepped
    exact .elsewhere rfl
  | stopTick id =>
    obtain rfl := Option.some.inj stepped
    exact .stops rfl
  | upload id slug =>
    simp only [Debouncer.step] at stepped
    split at stepped
    · obtain rfl := Option.some.inj stepped
      exact .elsewhere rfl
    · exact nomatch stepped
  | answerUpload id response =>
    simp only [Debouncer.step] at stepped
    split at stepped
    case h_2 => exact nomatch stepped
    split at stepped
    case h_2 => exact nomatch stepped
    split at stepped
    case h_2 => exact nomatch stepped
    obtain rfl := Option.some.inj stepped
    exact .elsewhere rfl
  | tick id =>
    simp only [Debouncer.step] at stepped
    split at stepped
    · next idle =>
      obtain rfl := Option.some.inj stepped
      exact .begins idle rfl
    · exact nomatch stepped
  | answerTick id response =>
    simp only [Debouncer.step] at stepped
    split at stepped
    case h_2 | h_3 => exact nomatch stepped
    next op next found =>
    split at stepped
    case h_2 => exact nomatch stepped
    next reply services replied =>
    obtain rfl := Option.some.inj stepped
    exact .answered found replied rfl rfl

/-- Every scheduler fires what it pops. -/
def Firing (schedulers : AList (fun _ : Nat => Debouncing Unit)) : Prop :=
  ∀ id program, schedulers.lookup id = some program → Fires program

/-- After a step, every scheduler still fires what it pops. -/
theorem firing_step {before after : Debouncer} {action : DebounceAction}
    (firing : Firing before.schedulers) (schedules : Schedules before action after) :
    Firing after.schedulers := by
  intro other found lookup
  cases schedules with
  | elsewhere same => exact firing other found (same ▸ lookup)
  | begins _ inserted =>
    rw [inserted] at lookup
    rcases lookup_of_insert lookup with ⟨_, rfl⟩ | ⟨_, old⟩
    · exact fires_debounceScheduler
    · exact firing other found old
  | stops erased =>
    rw [erased] at lookup
    exact firing other found (lookup_of_erase lookup).2
  | @answered id _ op next reply _ isCall _ kept _ =>
    have continues := fires_answer (firing id _ isCall) reply
    rw [kept] at lookup
    revert continues lookup
    cases next reply with
    | done value => exact fun lookup _ => firing other found (lookup_of_erase lookup).2
    | call op rest =>
      intro lookup continues
      rcases lookup_of_insert lookup with ⟨_, rfl⟩ | ⟨_, old⟩
      · exact continues
      · exact firing other found old

/-- If every pop and enqueue is delivered, no trigger is ever out of hand. -/
theorem triggers_held {redis : Redis} {state : Debouncer}
    (reached : Runs.Reaches Debouncer.step Delivers (Debouncer.initial redis) state) :
    Held state := by
  refine (Runs.Reaches.invariant reached (fun debouncer => Recording debouncer.webhooks ∧
    Firing debouncer.schedulers ∧ Held debouncer) ?_ ?_).2.2
  · refine ⟨?_, ?_, ?_⟩
    · intro id webhook lookup
      simp [Debouncer.initial] at lookup
    · intro id program lookup
      simp [Debouncer.initial] at lookup
    · rintro slug ⟨later, earlier, split, _⟩
      exact absurd split (by simp [Debouncer.initial])
  rintro before action after ⟨recording, firing, held⟩ delivers stepped
  have moves := step_moves recording stepped
  have schedules := step_schedules stepped
  refine ⟨moves.recording, firing_step firing schedules, ?_⟩
  obtain ⟨added, log, recorded⟩ := moves.log
  intro slug unserved
  rw [log] at unserved
  rcases unserved_append unserved with new | ⟨old, unfollowed⟩
  · exact Or.inl (recorded slug new)
  rcases held slug old with waits | ⟨holder, program, found, enqueues⟩
  · rcases moves.waiting slug waits with still | ⟨id, fate, now, next, rfl, applied, popper, due⟩
    · exact Or.inl still
    · right
      have served : fate = .served := by
        cases fate with
        | served => rfl
        | refused error => exact nomatch applied
        | lost error => exact absurd rfl ((delivers _ _ popper).1 ⟨now, rfl⟩ error)
      subst served
      simp only [Debouncer.step, popper, debounceRespond, Option.some.injEq] at stepped
      subst stepped
      exact inHand_keep ((firing id _ popper).1 _ slug due)
  · right
    cases schedules with
    | elsewhere same =>
      rw [same]
      exact ⟨holder, program, found, enqueues⟩
    | @begins id _ idle inserted =>
      have different : holder ≠ id := by
        rintro rfl
        exact nomatch idle.symm.trans found
      rw [inserted]
      exact ⟨holder, program, (AList.lookup_insert_ne different).trans found, enqueues⟩
    | @stops id _ erased =>
      have different : holder ≠ id := by
        rintro rfl
        exact delivers program found slug enqueues
      rw [erased]
      exact ⟨holder, program, (AList.lookup_erase_ne different).trans found, enqueues⟩
    | @answered id response op next reply _ isCall replied kept isLog =>
      rw [kept]
      by_cases different : holder = id
      · subst different
        obtain rfl := Option.some.inj (found.symm.trans isCall)
        have delivered : ∀ msg fate, op = .command (.enqueue msg) → response = .fate fate →
            fate.applied = true := by
          rintro msg fate rfl rfl
          exact (delivers _ _ isCall).2 ⟨msg, rfl⟩
        rcases answer_enqueues enqueues replied delivered with still | enqueued
        · exact inHand_keep still
        · rw [List.append_cancel_right (log.symm.trans isLog)] at unfollowed
          exact absurd enqueued unfollowed
      · exact ⟨holder, program, (lookup_keepScheduler different _).trans found, enqueues⟩

/-- An upload of a slug is recorded, a scheduler pops it and stops. -/
def poppedAndStopped : List DebounceAction :=
  [.upload 0 "s".toList, .answerUpload 0 (.ms 0), .answerUpload 0 (.fate .served),
    .answerUpload 0 (.fate .served), .tick 1, .answerTick 1 (.fate .served), .answerTick 1 (.ms 6000),
    .answerTick 1 (.fate .served), .stopTick 1]

/-- Then its trigger is lost: no slug waits, no one works, and no job was enqueued. -/
theorem trigger_lost : ∃ state,
    Runs.Reaches Debouncer.step (fun _ _ => True) (Debouncer.initial Redis.empty) state ∧
      ¬ Kept state ∧ state.schedulers.keys = [] ∧ state.webhooks.keys = [] ∧
      state.services.redis.entries = [] := by
  obtain ⟨state, reached, log, waiting, idle⟩ := reaches_of_check Debouncer.step (fun _ _ => True)
    (Debouncer.initial Redis.empty) poppedAndStopped
    (fun state => state.log = [.recorded "s".toList] ∧ state.services.waiting.keys = [] ∧
      state.schedulers.keys = [] ∧ state.webhooks.keys = [] ∧ state.services.redis.entries = [])
    (by decide +kernel)
  refine ⟨state, reached, ?_, idle⟩
  intro kept
  rcases kept [] "s".toList [] log with waits | followed
  · rw [AList.mem_keys, waiting] at waits
    exact List.not_mem_nil waits
  · exact List.not_mem_nil followed

end KaretWorker
