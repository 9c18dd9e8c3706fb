import KaretWorker.Triggers
import Mathlib.Data.Fintype.EquivFin

/-!
# When a debounced slug fires

Calls of `debounce_event` and runs of the pop script, each taken at once, under a clock that
never goes back. A batch is what was recorded of a slug since it last fired, and the time at
which a batch fires is a matter of its first and last event only.

Redis does not keep batches. It keeps a time for each slug, and beside it a marker that only
the first event of a batch sets, that a pop deletes and that expires. The invariant says that
both agree with the batch as long as no marker expires before its slug is popped; all that
`debounce_timing` says about single steps and whole runs is then read off batches.
-/
namespace KaretWorker

open Texts Interaction Runs

/-! ## Batches -/

/-- What happened to slugs. -/
inductive Debounced where
  | recorded (slug : Text) (now : Int)
  | fired (slugs : List Text)
  deriving DecidableEq, Repr

/-- The times of the events of a slug since it last fired, the latest first. -/
def batchOf (slug : Text) : List Debounced → List Int
  | [] => []
  | .recorded other now :: earlier =>
    if other = slug then now :: batchOf slug earlier else batchOf slug earlier
  | .fired slugs :: earlier => if slugs.contains slug then [] else batchOf slug earlier

/-- When a batch fires: after a quiet window, up to the longest wait. -/
def firesAt (batch : List Int) : Option Int :=
  batch.head?.bind (fun last => batch.getLast?.map (fun first => min (last + quietMs) (first + maxWaitMs)))

/-- Nothing fires where nothing was recorded. -/
@[simp] theorem firesAt_nil : firesAt [] = none := rfl

/-- A further event moves the end of the quiet window and leaves the start of the batch, if
it does not start one. -/
theorem firesAt_cons (now : Int) (batch : List Int) :
    firesAt (now :: batch) = some (min (now + quietMs) (batch.getLast?.getD now + maxWaitMs)) := by
  simp only [firesAt, List.head?_cons, Option.bind_some, List.getLast?_cons, Option.map_some]

/-- A batch that fires has a first and a last event. -/
theorem firesAt_some {batch : List Int} {fireAt : Int} (fires : firesAt batch = some fireAt) :
    ∃ first last, batch.getLast? = some first ∧ batch.head? = some last ∧
      fireAt = min (last + quietMs) (first + maxWaitMs) := by
  simp only [firesAt, Option.bind_eq_some_iff, Option.map_eq_some_iff] at fires
  obtain ⟨last, isLast, first, isFirst, rfl⟩ := fires
  exact ⟨first, last, isFirst, isLast, rfl⟩

/-- Further events that are no earlier than the last one keep the start of a batch and never
bring its time forward. -/
theorem firesAt_append {batch more : List Int} {fireAt : Int} (fires : firesAt batch = some fireAt)
    (later : ∀ now ∈ more, ∀ last, batch.head? = some last → last ≤ now) :
    (more ++ batch).getLast? = batch.getLast? ∧
      ∃ fireAt', firesAt (more ++ batch) = some fireAt' ∧ fireAt ≤ fireAt' := by
  obtain ⟨first, last, isFirst, isLast, rfl⟩ := firesAt_some fires
  have begins : (more ++ batch).getLast? = some first := by
    rw [List.getLast?_append, isFirst]
    rfl
  refine ⟨begins.trans isFirst.symm, ?_⟩
  cases more with
  | nil => exact ⟨_, fires, le_refl _⟩
  | cons now more =>
    have begins' : (more ++ batch).getLast? = some first := by
      rw [List.getLast?_append, isFirst]
      rfl
    refine ⟨_, firesAt_cons now (more ++ batch), ?_⟩
    rw [begins', Option.getD_some]
    have notEarlier := later now List.mem_cons_self last isLast
    omega

/-! ## The system under a clock -/

/-- Redis, the time of the last step, and what happened so far, the latest first, which the
code does not read. -/
structure Clocked where
  services : Debounce
  clock : Int
  history : List Debounced

/-- What is recorded of a slug since it last fired. -/
def Clocked.batch (clocked : Clocked) (slug : Text) : List Int := batchOf slug clocked.history

/-- Every operation is served, and the clock reads the same throughout. -/
def responseAt (now : Int) : DebounceOp → DebounceResponse
  | .command _ => .fate .served
  | .nowMs => .ms now
  | .newJobId => .id []

/-- Run a program at once. -/
def serveAt {α : Type} (now : Int) : Debouncing α → Debounce → Option (α × Debounce)
  | .done value, services => some (value, services)
  | .call op next, services =>
    match debounceRespond services op (responseAt now op) with
    | some (reply, services') => serveAt now (next reply) services'
    | none => none

/-- An action with its time. -/
inductive Occurrence where
  | event (slug : Text) (now : Int)
  | popDue (now : Int)
  | expireFirst (slug : Text) (now : Int)
  deriving DecidableEq, Repr

/-- The time of an occurrence. -/
def Occurrence.now : Occurrence → Int
  | .event _ now | .popDue now | .expireFirst _ now => now

/-- A marker holds the time at which it was set, and expires after its time to live. -/
def Clocked.happen (clocked : Clocked) : Occurrence → Option Clocked
  | .event slug now =>
    (serveAt now (debounceEvent slug) clocked.services).map (fun served =>
      ⟨served.2, now, .recorded slug now :: clocked.history⟩)
  | .popDue now =>
    some ⟨(DebounceCommand.popDue now).apply clocked.services, now,
      .fired (dueSlugs clocked.services.waiting now) :: clocked.history⟩
  | .expireFirst slug now =>
    match clocked.services.first.lookup slug with
    | some start =>
      if start + maxWaitMs * 4 ≤ now then
        some ⟨{ clocked.services with first := clocked.services.first.erase slug }, now,
          clocked.history⟩
      else none
    | none => none

/-- The clock never goes back. -/
def Clocked.step (clocked : Clocked) (occurrence : Occurrence) : Option Clocked :=
  if clocked.clock ≤ occurrence.now then clocked.happen occurrence else none

/-- Nothing is recorded yet. -/
def Clocked.initial (redis : Redis) (clock : Int) : Clocked := ⟨⟨redis, ∅, ∅⟩, clock, []⟩

/-- Slugs are popped in time: nothing happens after a marker's time to live while its slug
still waits. -/
def PoppedInTime (clocked : Clocked) (occurrence : Occurrence) : Prop :=
  ∀ slug start, clocked.services.first.lookup slug = some start → slug ∈ clocked.services.waiting →
    occurrence.now < start + maxWaitMs * 4

/-! ## Batches and clocks -/

/-- What Redis holds of a slug agrees with its batch, whose events come in order. -/
structure Clocked.Keeps (clocked : Clocked) (slug : Text) : Prop where
  score : clocked.services.waiting.lookup slug = firesAt (clocked.batch slug)
  mark : clocked.services.first.lookup slug = (clocked.batch slug).getLast?
  past : ∀ now ∈ clocked.batch slug, now ≤ clocked.clock
  ordered : (clocked.batch slug).Pairwise (fun later earlier => earlier ≤ later)

/-- Erasing slugs leaves all others as they were. -/
theorem lookup_eraseAll (map : AList (fun _ : Text => Int)) (slugs : List Text) (slug : Text) :
    (eraseAll map slugs).lookup slug = if slug ∈ slugs then none else map.lookup slug := by
  induction slugs generalizing map with
  | nil => simp [eraseAll]
  | cons first rest inductionHypothesis =>
    have unfolded : eraseAll map (first :: rest) = eraseAll (map.erase first) rest := rfl
    rw [unfolded, inductionHypothesis]
    by_cases isFirst : slug = first
    · subst isFirst
      simp
    · simp [isFirst]

/-- What is popped waits, and its time has come. -/
theorem due_of_mem_dueSlugs {waiting : AList (fun _ : Text => Int)} {now : Int} {slug : Text}
    (due : slug ∈ dueSlugs waiting now) : ∃ fireAt ≤ now, waiting.lookup slug = some fireAt := by
  simp only [dueSlugs, List.mem_map] at due
  obtain ⟨⟨slug, fireAt⟩, taken, rfl⟩ := due
  have sorted := List.mem_of_mem_take taken
  simp only [List.mem_insertionSort, List.mem_filter, decide_eq_true_eq] at sorted
  exact ⟨fireAt, sorted.2, AList.mem_lookup_iff.mpr sorted.1⟩

/-- An event sets a marker if there is none, and a time by the marker. -/
theorem serveAt_debounceEvent (slug : Text) (now : Int) (services : Debounce) :
    serveAt now (debounceEvent slug) services =
      let start := (services.first.lookup slug).getD now
      let fireAt := min (now + quietMs) (start + maxWaitMs)
      some (.ok (fireAt - now), ⟨services.redis, services.waiting.insert slug fireAt,
        if (services.first.lookup slug).isNone then services.first.insert slug now
        else services.first⟩) := by
  have served : serveAt now (debounceEvent slug) services =
      some (.ok (min (now + quietMs) ((services.first.lookup slug).getD now + maxWaitMs) - now),
        (DebounceCommand.zadd slug
          (min (now + quietMs) ((services.first.lookup slug).getD now + maxWaitMs))).apply
            ((DebounceCommand.setFirst slug now (maxWaitMs * 4)).apply services)) := rfl
  rw [served]
  simp only [DebounceCommand.apply]
  split <;> rfl

/-- What Redis and the history hold of a slug is as it was. -/
def Clocked.SameOf (clocked after : Clocked) (slug : Text) : Prop :=
  after.services.waiting.lookup slug = clocked.services.waiting.lookup slug ∧
    after.services.first.lookup slug = clocked.services.first.lookup slug ∧
      after.batch slug = clocked.batch slug

/-- A slug that is left as it was keeps its agreement. -/
theorem Clocked.Keeps.same {clocked after : Clocked} {slug : Text} (keeps : clocked.Keeps slug)
    (same : clocked.SameOf after slug) (forward : clocked.clock ≤ after.clock) :
    after.Keeps slug := by
  obtain ⟨sameScore, sameMark, sameBatch⟩ := same
  constructor
  · rw [sameScore, sameBatch, keeps.score]
  · rw [sameMark, sameBatch, keeps.mark]
  · rw [sameBatch]
    exact fun now member => (keeps.past now member).trans forward
  · rw [sameBatch]
    exact keeps.ordered

/-- An event leaves other slugs as they are. -/
theorem Clocked.happen_event {clocked after : Clocked} {slug : Text} {now : Int}
    (happens : clocked.happen (.event slug now) = some after) :
    after.clock = now ∧ after.batch slug = now :: clocked.batch slug ∧
      ∀ other, other ≠ slug → clocked.SameOf after other := by
  simp only [Clocked.happen, serveAt_debounceEvent, Option.map_some, Option.some.injEq] at happens
  subst happens
  refine ⟨rfl, if_pos rfl, ?_⟩
  intro other differs
  refine ⟨AList.lookup_insert_ne differs, ?_, if_neg differs.symm⟩
  dsimp only
  split
  · exact AList.lookup_insert_ne differs
  · rfl

/-- An event adds to the batch of its slug, and Redis follows. -/
theorem Clocked.Keeps.event {clocked after : Clocked} {slug : Text} {now : Int}
    (keeps : clocked.Keeps slug) (forward : clocked.clock ≤ now)
    (happens : clocked.happen (.event slug now) = some after) : after.Keeps slug := by
  obtain ⟨isNow, extended, _⟩ := Clocked.happen_event happens
  have earlier : ∀ time ∈ clocked.batch slug, time ≤ now :=
    fun time member => (keeps.past time member).trans forward
  constructor
  · rw [extended, firesAt_cons, ← keeps.mark]
    simp only [Clocked.happen, serveAt_debounceEvent, Option.map_some, Option.some.injEq] at happens
    subst happens
    exact AList.lookup_insert _
  · rw [extended, List.getLast?_cons, ← keeps.mark]
    simp only [Clocked.happen, serveAt_debounceEvent, Option.map_some, Option.some.injEq] at happens
    subst happens
    cases marked : clocked.services.first.lookup slug with
    | none => simp
    | some start => simp [marked]
  · rw [extended, isNow, List.forall_mem_cons]
    exact ⟨le_refl _, earlier⟩
  · rw [extended, List.pairwise_cons]
    exact ⟨earlier, keeps.ordered⟩

/-- A pop takes slugs that are due, with their batches, and leaves the others as they are. -/
theorem Clocked.happen_popDue {clocked after : Clocked} {now : Int}
    (happens : clocked.happen (.popDue now) = some after) :
    after.clock = now ∧ ∃ fired, after.history = .fired fired :: clocked.history ∧ ∀ slug,
      (slug ∈ fired → (∃ fireAt ≤ now, clocked.services.waiting.lookup slug = some fireAt) ∧
        after.services.waiting.lookup slug = none ∧ after.services.first.lookup slug = none ∧
        after.batch slug = []) ∧
      (slug ∉ fired → clocked.SameOf after slug) := by
  obtain rfl := Option.some.inj happens
  refine ⟨rfl, _, rfl, fun slug => ⟨?_, ?_⟩⟩
  · intro due
    refine ⟨due_of_mem_dueSlugs due, ?_, ?_, if_pos (List.contains_iff_mem.mpr due)⟩
    · exact (lookup_eraseAll _ _ _).trans (if_pos due)
    · exact (lookup_eraseAll _ _ _).trans (if_pos due)
  · intro notDue
    refine ⟨?_, ?_, if_neg (fun found => notDue (List.contains_iff_mem.mp found))⟩
    · exact (lookup_eraseAll _ _ _).trans (if_neg notDue)
    · exact (lookup_eraseAll _ _ _).trans (if_neg notDue)

/-- No marker expires whose slug is popped in time. -/
theorem Clocked.Keeps.not_expires {clocked : Clocked} {slug : Text} {now : Int}
    (keeps : clocked.Keeps slug) (inTime : PoppedInTime clocked (.expireFirst slug now)) :
    clocked.happen (.expireFirst slug now) = none := by
  simp only [Clocked.happen]
  cases marked : clocked.services.first.lookup slug with
  | none => rfl
  | some start =>
    have waits : slug ∈ clocked.services.waiting := by
      rw [← AList.lookup_isSome, keeps.score]
      rw [keeps.mark] at marked
      cases isBatch : clocked.batch slug with
      | nil =>
        rw [isBatch] at marked
        exact nomatch marked
      | cons last earlier =>
        rw [firesAt_cons]
        rfl
    have early : now < start + maxWaitMs * 4 := inTime slug start marked waits
    exact if_neg (by omega)

/-- An occurrence comes no earlier than the clock, and then it happens. -/
theorem Clocked.step_some {clocked after : Clocked} {occurrence : Occurrence}
    (stepped : clocked.step occurrence = some after) :
    clocked.clock ≤ occurrence.now ∧ clocked.happen occurrence = some after := by
  rw [Clocked.step, Option.ite_none_right_eq_some] at stepped
  exact stepped

/-- Every step of slugs that are popped in time keeps Redis and the batches in agreement. -/
theorem Clocked.step_keeps {clocked after : Clocked} {occurrence : Occurrence}
    (keeps : ∀ slug, clocked.Keeps slug) (inTime : PoppedInTime clocked occurrence)
    (stepped : clocked.step occurrence = some after) (slug : Text) : after.Keeps slug := by
  obtain ⟨forward, happens⟩ := Clocked.step_some stepped
  cases occurrence with
  | event other now =>
    by_cases isOther : slug = other
    · subst isOther
      exact (keeps slug).event forward happens
    · obtain ⟨rfl, _, others⟩ := Clocked.happen_event happens
      exact (keeps slug).same (others slug isOther) forward
  | popDue now =>
    obtain ⟨rfl, fired, _, each⟩ := Clocked.happen_popDue happens
    by_cases isFired : slug ∈ fired
    · obtain ⟨_, score, mark, emptied⟩ := (each slug).1 isFired
      constructor <;> simp [score, mark, emptied]
    · exact (keeps slug).same ((each slug).2 isFired) forward
  | expireFirst other now =>
    rw [(keeps other).not_expires inTime] at happens
    exact nomatch happens

/-- What is kept of each slug is kept in every state reached. -/
theorem Clocked.keeps {redis : Redis} {clock : Int} {clocked : Clocked}
    (reached : Runs.Reaches Clocked.step PoppedInTime (Clocked.initial redis clock) clocked)
    (slug : Text) :
    clocked.Keeps slug := by
  have initially : ∀ slug, (Clocked.initial redis clock).Keeps slug :=
    fun _ => ⟨AList.lookup_empty _, AList.lookup_empty _, fun _ => (nomatch ·), List.Pairwise.nil⟩
  exact reached.invariant (fun clocked => ∀ slug, clocked.Keeps slug) initially
    (fun _ _ _ keeps inTime stepped => Clocked.step_keeps keeps inTime stepped) slug

/-! ## The interleaved system -/

/-- A handler whose program is run at once takes the steps of the interleaved system. -/
theorem answerUpload_serves {id : Nat} {slug : Text} {now : Int} {value : Except Text Int}
    {services : Debounce} {program : Debouncing (Except Text Int)} {debouncer : Debouncer}
    (handles : debouncer.webhooks.lookup id = some ⟨slug, program⟩)
    (isRunning : ∀ value, program ≠ .done value)
    (served : serveAt now program debouncer.services = some (value, services)) :
    ∃ after, Runs.Reaches Debouncer.step (fun _ _ => True) debouncer after ∧
    after.services = services := by
  induction program generalizing debouncer with
  | done value => exact absurd rfl (isRunning value)
  | call op next inductionHypothesis =>
    rw [serveAt] at served
    cases responded : debounceRespond debouncer.services op (responseAt now op) with
    | none =>
      rw [responded] at served
      cases served
    | some answered =>
      obtain ⟨reply, middle⟩ := answered
      rw [responded] at served
      dsimp only at served
      let after : Debouncer := { debouncer with
        services := middle
        webhooks := keepWebhook debouncer.webhooks id ⟨slug, next reply⟩
        log := Webhook.recorded ⟨slug, next reply⟩ (next reply) ++ debouncer.log }
      have stepped : debouncer.step (.answerUpload id (responseAt now op)) = some after := by
        simp only [Debouncer.step, handles, responded]
        rfl
      have first : Runs.Reaches Debouncer.step (fun _ _ => True) debouncer after :=
        .single ⟨_, trivial, stepped⟩
      cases rest : next reply with
      | done value =>
        rw [rest] at served
        obtain ⟨⟩ := served
        exact ⟨after, first, rfl⟩
      | call op' next' =>
        have handles' : after.webhooks.lookup id = some ⟨slug, next reply⟩ := by
          simp only [after, keepWebhook, rest]
          exact AList.lookup_insert _
        obtain ⟨final, continues, isFinal⟩ := inductionHypothesis reply handles'
          (fun value isDone => by cases rest.symm.trans isDone) served
        exact ⟨final, first.trans continues, isFinal⟩

/-- One answer to a scheduler. -/
theorem answerTick_step {id : Nat} {op : DebounceOp} {next : DebounceReply op → Debouncing Unit}
    {debouncer : Debouncer} (scheduled : debouncer.schedulers.lookup id = some (.call op next))
    {services : Debounce} {response : DebounceResponse} {reply : DebounceReply op}
    (answered : debounceRespond debouncer.services op response = some (reply, services)) :
    ∃ after, debouncer.step (.answerTick id response) = some after ∧ after.services = services ∧
      after.schedulers = keepScheduler debouncer.schedulers id (next reply) := by
  refine ⟨{ debouncer with
    services := services
    schedulers := keepScheduler debouncer.schedulers id (next reply)
    log := enqueuedBy op response ++ debouncer.log }, ?_, rfl, rfl⟩
  simp only [Debouncer.step, scheduled, answered]

/-- Whatever happens at once can happen in the interleaved system. -/
theorem Clocked.interleaved {redis : Redis} {clock : Int} {clocked : Clocked}
    (reached : Runs.Reaches Clocked.step (fun _ _ => True) (Clocked.initial redis clock) clocked) :
    ∃ debouncer, Runs.Reaches Debouncer.step (fun _ _ => True) (Debouncer.initial redis) debouncer ∧
      debouncer.services = clocked.services := by
  refine reached.invariant (fun clocked => ∃ debouncer,
    Runs.Reaches Debouncer.step (fun _ _ => True) (Debouncer.initial redis) debouncer ∧
      debouncer.services = clocked.services) ⟨_, .refl, rfl⟩ ?_
  rintro before occurrence after ⟨debouncer, reachedBefore, same⟩ _ stepped
  obtain ⟨_, happens⟩ := Clocked.step_some stepped
  suffices further : ∃ debouncer',
    Runs.Reaches Debouncer.step (fun _ _ => True) debouncer debouncer' ∧
      debouncer'.services = after.services by
    obtain ⟨debouncer', reachedAfter, same'⟩ := further
    exact ⟨debouncer', reachedBefore.trans reachedAfter, same'⟩
  cases occurrence with
  | event slug now =>
    obtain ⟨id, free⟩ := Infinite.exists_notMem_finset debouncer.webhooks.keys.toFinset
    have isFree : debouncer.webhooks.lookup id = none :=
      AList.lookup_eq_none.mpr (fun taken => free (List.mem_toFinset.mpr (AList.mem_keys.mp taken)))
    let handling : Debouncer := { debouncer with
      webhooks := debouncer.webhooks.insert id ⟨slug, debounceEvent slug⟩ }
    have starts : debouncer.step (.upload id slug) = some handling := by
      simp only [Debouncer.step, isFree]
      rfl
    simp only [Clocked.happen, Option.map_eq_some_iff] at happens
    obtain ⟨⟨value, services⟩, served, isAfter⟩ := happens
    have handles : handling.webhooks.lookup id = some ⟨slug, debounceEvent slug⟩ :=
      AList.lookup_insert _
    have served' : serveAt now (debounceEvent slug) handling.services = some (value, services) :=
      same ▸ served
    obtain ⟨final, continues, isFinal⟩ :=
      answerUpload_serves handles (fun _ isDone => by cases isDone) served'
    refine ⟨final, .head ⟨_, trivial, starts⟩ continues, ?_⟩
    rw [isFinal, ← isAfter]
  | popDue now =>
    obtain ⟨id, free⟩ := Infinite.exists_notMem_finset debouncer.schedulers.keys.toFinset
    have isFree : debouncer.schedulers.lookup id = none :=
      AList.lookup_eq_none.mpr (fun taken => free (List.mem_toFinset.mpr (AList.mem_keys.mp taken)))
    let ticking : Debouncer := { debouncer with
      schedulers := debouncer.schedulers.insert id debounceScheduler }
    have starts : debouncer.step (.tick id) = some ticking := by
      simp only [Debouncer.step, isFree]
      rfl
    have scheduled : ticking.schedulers.lookup id = some debounceScheduler := AList.lookup_insert _
    -- the scheduler connects, reads the clock and pops; what it enqueues is left to later steps
    have connect : debounceRespond ticking.services (.command .connect) (.fate .served) =
        some (.ok (), ticking.services) := rfl
    obtain ⟨connected, connects, sameServices, isConnected⟩ := answerTick_step scheduled connect
    have reads : connected.schedulers = ticking.schedulers.insert id (.call .nowMs _) := isConnected
    have clock : debounceRespond connected.services .nowMs (.ms now) =
        some (now, connected.services) := rfl
    obtain ⟨timed, times, sameTime, isTimed⟩ :=
      answerTick_step (reads ▸ AList.lookup_insert _) clock
    have isDue : timed.schedulers =
        connected.schedulers.insert id (.call (.command (.popDue now)) _) := isTimed
    have pop : debounceRespond timed.services (.command (.popDue now)) (.fate .served) =
        some (.ok (dueSlugs timed.services.waiting now),
          (DebounceCommand.popDue now).apply timed.services) := rfl
    obtain ⟨final, pops, isFinal, _⟩ :=
      answerTick_step (isDue ▸ AList.lookup_insert _) pop
    refine ⟨final, .head ⟨_, trivial, starts⟩ (.head ⟨_, trivial, connects⟩
      (.head ⟨_, trivial, times⟩ (.single ⟨_, trivial, pops⟩))), ?_⟩
    rw [isFinal, sameTime, sameServices, ← Option.some.inj happens]
    exact congrArg (DebounceCommand.popDue now).apply same
  | expireFirst slug now =>
    refine ⟨_, .single ⟨.expireFirst slug, trivial, rfl⟩, ?_⟩
    simp only [Clocked.happen] at happens
    split at happens
    · split at happens
      · obtain rfl := Option.some.inj happens
        rw [same]
      · cases happens
    · cases happens

/-! ## Runs -/

/-- A slug has not fired since a state. -/
def Clocked.Unfired (clocked later : Clocked) (slug : Text) : Prop :=
  ∃ newer, later.history = newer ++ clocked.history ∧
    ∀ slugs, Debounced.fired slugs ∈ newer → slug ∉ slugs

/-- While a slug does not fire its batch only grows. -/
theorem Clocked.Unfired.grows {clocked later : Clocked} {slug : Text}
    (unfired : clocked.Unfired later slug) :
    ∃ more, later.batch slug = more ++ clocked.batch slug := by
  obtain ⟨newer, isHistory, none⟩ := unfired
  simp only [Clocked.batch, isHistory]
  clear isHistory
  induction newer with
  | nil => exact ⟨[], rfl⟩
  | cons latest newer inductionHypothesis =>
    obtain ⟨more, grown⟩ := inductionHypothesis (fun slugs member =>
      none slugs (List.mem_cons_of_mem _ member))
    cases latest with
    | recorded other now =>
      by_cases isSlug : other = slug
      · exact ⟨now :: more, by simp [batchOf, isSlug, grown]⟩
      · exact ⟨more, by simp [batchOf, isSlug, grown]⟩
    | fired slugs =>
      have notFired := none slugs List.mem_cons_self
      exact ⟨more, by simp [batchOf, notFired, grown]⟩

/-- When a slug fires is a matter of the events since it last fired. In every state reached
its score is the end of the quiet window after the last of them, up to the longest wait
after the first; while it does not fire, its score never decreases and never exceeds that
longest wait. An event leaves other slugs as they are, and starts a batch if nothing is
recorded since the last pop. A pop takes a slug only after a quiet window or the longest
wait, and leaves the slugs that it does not take as they are. -/
theorem debounce_timing {redis : Redis} {clock : Int} {clocked : Clocked}
    (reached : Runs.Reaches Clocked.step PoppedInTime (Clocked.initial redis clock) clocked) :
    (∀ slug, clocked.services.waiting.lookup slug = firesAt (clocked.batch slug) ∧
      ∀ first last, (clocked.batch slug).getLast? = some first →
        (clocked.batch slug).head? = some last →
          clocked.services.waiting.lookup slug = some (min (last + quietMs) (first + maxWaitMs))) ∧
    (∀ later, Runs.Reaches Clocked.step PoppedInTime clocked later → ∀ slug, clocked.Unfired later slug →
      ∀ first, (clocked.batch slug).getLast? = some first →
        (later.batch slug).getLast? = some first ∧ ∃ score score',
          clocked.services.waiting.lookup slug = some score ∧
          later.services.waiting.lookup slug = some score' ∧ score ≤ score' ∧
          score' ≤ first + maxWaitMs) ∧
    (∀ slug now after, clocked.step (.event slug now) = some after →
      after.batch slug = now :: clocked.batch slug ∧
      (clocked.batch slug = [] → after.services.waiting.lookup slug = some (now + quietMs) ∧
        after.services.first.lookup slug = some now) ∧
      ∀ other, other ≠ slug → clocked.SameOf after other) ∧
    ∀ now after, clocked.step (.popDue now) = some after →
      ∃ fired, after.history = .fired fired :: clocked.history ∧ ∀ slug,
        (slug ∈ fired →
          (∃ first last, (clocked.batch slug).getLast? = some first ∧
            (clocked.batch slug).head? = some last ∧
            (last + quietMs ≤ now ∨ first + maxWaitMs ≤ now)) ∧
          after.services.waiting.lookup slug = none ∧ after.services.first.lookup slug = none ∧
          after.batch slug = []) ∧
        (slug ∉ fired → clocked.SameOf after slug) := by
  have keeps := Clocked.keeps reached
  refine ⟨?_, ?_, ?_, ?_⟩
  · intro slug
    refine ⟨(keeps slug).score, fun first last isFirst isLast => ?_⟩
    rw [(keeps slug).score, firesAt, isLast, isFirst]
    rfl
  · intro later continued slug unfired first isFirst
    have keepsLater := Clocked.keeps (reached.trans continued) slug
    obtain ⟨more, grown⟩ := unfired.grows
    obtain ⟨score, fires⟩ : ∃ score, firesAt (clocked.batch slug) = some score := by
      cases isBatch : clocked.batch slug with
      | nil =>
        rw [isBatch] at isFirst
        exact nomatch isFirst
      | cons last earlier => exact ⟨_, firesAt_cons last earlier⟩
    have inOrder := keepsLater.ordered
    rw [grown, List.pairwise_append] at inOrder
    obtain ⟨sameFirst, score', fires', delayed⟩ := firesAt_append fires
      (fun now member last isLast => inOrder.2.2 now member last (List.mem_of_mem_head? isLast))
    rw [isFirst] at sameFirst
    rw [(keeps slug).score, keepsLater.score, grown]
    obtain ⟨first', last, isFirst', _, rfl⟩ := firesAt_some fires'
    obtain rfl := Option.some.inj (isFirst'.symm.trans sameFirst)
    exact ⟨sameFirst, score, _, fires, fires', delayed, min_le_right _ _⟩
  · intro slug now after stepped
    obtain ⟨forward, happens⟩ := Clocked.step_some stepped
    obtain ⟨_, extended, others⟩ := Clocked.happen_event happens
    have keepsAfter := (keeps slug).event forward happens
    refine ⟨extended, fun isEmpty => ?_, others⟩
    rw [keepsAfter.score, keepsAfter.mark, extended, isEmpty, firesAt_cons]
    simp [quietMs, maxWaitMs]
  · intro now after stepped
    obtain ⟨_, fired, isHistory, each⟩ := Clocked.happen_popDue (Clocked.step_some stepped).2
    refine ⟨fired, isHistory, fun slug => ⟨fun isFired => ?_, (each slug).2⟩⟩
    obtain ⟨⟨fireAt, isDue, waits⟩, gone⟩ := (each slug).1 isFired
    rw [(keeps slug).score] at waits
    obtain ⟨first, last, isFirst, isLast, rfl⟩ := firesAt_some waits
    exact ⟨⟨first, last, isFirst, isLast, min_le_iff.mp isDue⟩, gone⟩

/-- Whether every slug is popped in time can be read off the markers. -/
instance (clocked : Clocked) : DecidablePred (PoppedInTime clocked) := fun occurrence =>
  decidable_of_iff (∀ entry ∈ clocked.services.first.entries, entry.1 ∈ clocked.services.waiting →
      occurrence.now < entry.2 + maxWaitMs * 4) (by
    constructor
    · intro each slug start marked waits
      exact each ⟨slug, start⟩ (AList.mem_lookup_iff.mp marked) waits
    · intro inTime entry member waits
      exact inTime entry.1 entry.2 (AList.mem_lookup_iff.mpr member) waits)

/-- Two slugs with three events. The first one waits for its second event to pass, and no
pop takes it one millisecond early. -/
theorem debounce_timing_two : ∃ clocked,
    Runs.Reaches Clocked.step PoppedInTime (Clocked.initial Redis.empty 0) clocked ∧
    clocked.batch "b".toList = [] ∧
    clocked.services.waiting.lookup "a".toList = some 8000 ∧
    ∀ after, clocked.step (.popDue 7999) = some after →
      after.services.waiting.lookup "a".toList = some 8000 := by
  obtain ⟨clocked, reached, isFirst, isSecond⟩ := reaches_of_check Clocked.step PoppedInTime
    (Clocked.initial Redis.empty 0)
    [.event "a".toList 0, .event "b".toList 1000, .event "a".toList 3000, .popDue 6000]
    (fun clocked => clocked.batch "a".toList = [3000, 0] ∧ clocked.batch "b".toList = [])
    (by decide +kernel)
  obtain ⟨scores, _, _, pops⟩ := debounce_timing reached
  have waits : clocked.services.waiting.lookup "a".toList = some 8000 := by
    rw [(scores _).1, isFirst]
    rfl
  refine ⟨clocked, reached, isSecond, waits, fun after popped => ?_⟩
  obtain ⟨fired, _, each⟩ := pops 7999 after popped
  have spared : "a".toList ∉ fired := by
    intro taken
    obtain ⟨first, last, begins, ends, due⟩ := ((each _).1 taken).1
    rw [isFirst] at begins ends
    obtain rfl := Option.some.inj begins
    obtain rfl := Option.some.inj ends
    exact absurd due (by decide)
  exact ((each _).2 spared).1.trans waits

end KaretWorker
