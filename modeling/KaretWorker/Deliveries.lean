import KaretWorker.QueueRuns

/-!
# Deliveries and terminal statuses

What the commands and the surroundings do to the deliveries of the queue: the stream
with the group's position in it, the pending list and the delayed set. Only an
acknowledgement takes an entry off the pending list, and only a deferral adds to the
delayed set.

Beside it stands when a job's live status becomes terminal, and that the history keeps
just those jobs.
-/
namespace KaretWorker

open Texts Interaction Indexing

/-- The live status of the job is terminal. -/
def Redis.Settled (redis : Redis) (jobId : Text) : Prop :=
  ∃ status, redis.status jobId = some status ∧ status.terminal = true

instance (redis : Redis) (jobId : Text) : Decidable (redis.Settled jobId) :=
  decidable_of_iff ((redis.status jobId).any Status.terminal = true)
    (by simp [Redis.Settled, Option.any_eq_true])

/-- A copy of the message is in the stream and was not delivered yet. -/
def Redis.Undelivered (redis : Redis) (msg : JobMessage) : Prop :=
  ∃ entry, (entry, Payload.message msg) ∈ redis.entries ∧ redis.unread ≤ entry

/-- A copy of the message was delivered and not acknowledged. -/
def Redis.Unacknowledged (redis : Redis) (msg : JobMessage) : Prop :=
  ∃ entry, (entry, Payload.message msg) ∈ redis.entries ∧ entry ∈ redis.pending

/-- A copy of the message can still be delivered. -/
def Redis.Deliverable (redis : Redis) (msg : JobMessage) : Prop :=
  redis.Undelivered msg ∨ redis.Unacknowledged msg ∨ msg ∈ redis.delayed

/-- Entries are numbered in the order of the stream, and only delivered entries are
pending. -/
structure Redis.Ordered (redis : Redis) : Prop where
  increasing : redis.entries.Pairwise (fun earlier later => earlier.1 < later.1)
  below : ∀ entry ∈ redis.entries, entry.1 < redis.nextEntry
  reached : redis.unread ≤ redis.nextEntry
  delivered : ∀ entry ∈ redis.pending, entry < redis.unread

/-- The deliveries are the same. -/
structure SameDeliveries (redis redis' : Redis) : Prop where
  entries : redis'.entries = redis.entries
  nextEntry : redis'.nextEntry = redis.nextEntry
  unread : redis'.unread = redis.unread
  pending : redis'.pending = redis.pending
  delayed : redis'.delayed = redis.delayed

/-! ## The stream -/

section Stream

variable {redis redis' : Redis} {msg : JobMessage}

/-- Where the deliveries are the same, the entries are as ordered. -/
theorem SameDeliveries.ordered (same : SameDeliveries redis redis') (ordered : redis.Ordered) :
    redis'.Ordered := by
  obtain ⟨entries, nextEntry, unread, pending, _⟩ := same
  constructor
  · rw [entries]
    exact ordered.increasing
  · rw [entries, nextEntry]
    exact ordered.below
  · rw [unread, nextEntry]
    exact ordered.reached
  · rw [pending, unread]
    exact ordered.delivered

/-- Where the deliveries are the same, a job is as deliverable. -/
theorem SameDeliveries.deliverable (same : SameDeliveries redis redis')
    (deliverable : redis.Deliverable msg) : redis'.Deliverable msg := by
  obtain ⟨entries, _, unread, pending, delayed⟩ := same
  simpa only [Redis.Deliverable, Redis.Undelivered, Redis.Unacknowledged, entries, unread, pending,
    delayed] using deliverable

/-- Two entries with one number have one payload. -/
theorem Redis.Ordered.unique (ordered : redis.Ordered) {entry : Nat} {payload payload' : Payload}
    (member : (entry, payload) ∈ redis.entries) (member' : (entry, payload') ∈ redis.entries) :
    payload = payload' := by
  have distinct : (redis.entries.map Prod.fst).Nodup :=
    List.pairwise_map.mpr (ordered.increasing.imp Nat.ne_of_lt)
  exact congrArg Prod.snd (List.inj_on_of_nodup_map distinct member member' rfl)

/-- The next entry to deliver is the first one that was not. -/
theorem nextUnread_least (ordered : redis.Ordered) {entry : Nat} {payload : Payload}
    (isNext : redis.nextUnread = some (entry, payload)) :
    (entry, payload) ∈ redis.entries ∧ redis.unread ≤ entry ∧
      ∀ other ∈ redis.entries, redis.unread ≤ other.1 → entry ≤ other.1 := by
  obtain ⟨notRead, before, after, isEntries, read⟩ := List.find?_eq_some_iff_append.mp isNext
  have increasing := ordered.increasing
  rw [isEntries] at increasing ⊢
  refine ⟨by simp, by simpa using notRead, ?_⟩
  intro other member unread
  rcases List.mem_append.mp member with earlier | later
  · have isRead := read other earlier
    simp only [Bool.not_eq_true', decide_eq_false_iff_not] at isRead
    exact absurd unread isRead
  · rcases List.mem_cons.mp later with rfl | later
    · exact le_refl _
    · have apart := (List.pairwise_append.mp increasing).2.1
      exact Nat.le_of_lt (List.rel_of_pairwise_cons apart later)

/-- An entry found in the stream is there. -/
theorem payloadAt_mem {entry : Nat} {payload : Payload}
    (found : redis.payloadAt entry = some payload) : (entry, payload) ∈ redis.entries := by
  obtain ⟨⟨number, isPayload⟩, isFound, rfl⟩ := Option.map_eq_some_iff.mp found
  have same : number = entry := by simpa using List.find?_some isFound
  subst same
  exact List.mem_of_find?_eq_some isFound

/-! ## What happens to the stream -/

/-- A new entry gets a number above all others. -/
theorem Redis.Ordered.append (ordered : redis.Ordered) (payload : Payload) :
    (redis.append payload).Ordered := by
  constructor
  · apply List.pairwise_append.mpr
    refine ⟨ordered.increasing, List.pairwise_singleton _ _, ?_⟩
    intro earlier member later isLast
    rw [List.mem_singleton.mp isLast]
    exact ordered.below earlier member
  · intro entry member
    simp only [Redis.append] at member ⊢
    rcases List.mem_append.mp member with before | isLast
    · exact Nat.lt_succ_of_lt (ordered.below entry before)
    · rw [List.mem_singleton.mp isLast]
      exact Nat.lt_succ_self _
  · exact Nat.le_succ_of_le ordered.reached
  · exact ordered.delivered

/-- A new entry takes no other away. -/
theorem Redis.Deliverable.append (deliverable : redis.Deliverable msg) (payload : Payload) :
    (redis.append payload).Deliverable msg := by
  rcases deliverable with ⟨entry, member, unread⟩ | ⟨entry, member, pending⟩ | delayed
  · exact Or.inl ⟨entry, List.mem_append_left _ member, unread⟩
  · exact Or.inr (Or.inl ⟨entry, List.mem_append_left _ member, pending⟩)
  · exact Or.inr (Or.inr delayed)

/-- What was appended can be delivered. -/
theorem Redis.Ordered.deliverable_append (ordered : redis.Ordered) (msg : JobMessage) :
    (redis.append (.message msg)).Deliverable msg :=
  Or.inl ⟨redis.nextEntry, List.mem_append_right _ (List.mem_singleton.mpr rfl), ordered.reached⟩

/-- What the mover takes from the delayed set leaves the rest as it is. -/
theorem Redis.Ordered.taken (ordered : redis.Ordered) (taken : JobMessage) :
    Redis.Ordered { redis with delayed := redis.delayed.erase taken } :=
  ⟨ordered.increasing, ordered.below, ordered.reached, ordered.delivered⟩

/-- Moving due jobs keeps the entries in order. -/
theorem Redis.Ordered.moved (ordered : redis.Ordered) (due : List JobMessage) :
    (due.foldl Redis.moveOne redis).Ordered := by
  induction due generalizing redis with
  | nil => exact ordered
  | cons taken rest inductionHypothesis =>
    exact inductionHypothesis ((ordered.taken taken).append (.message taken))

/-- A new job is appended to the stream. -/
theorem enqueue_deliveries (redis : Redis) (msg : JobMessage) :
    SameDeliveries (redis.append (.message msg)) (redis.enqueue msg) :=
  ⟨rfl, rfl, rfl, rfl, rfl⟩

/-- The messages the mover takes from the delayed set are on the stream afterwards. -/
theorem Redis.Deliverable.moved (deliverable : redis.Deliverable msg) (ordered : redis.Ordered)
    (due : List JobMessage) : (due.foldl Redis.moveOne redis).Deliverable msg := by
  induction due generalizing redis with
  | nil => exact deliverable
  | cons taken rest inductionHypothesis =>
    refine inductionHypothesis ?_ ((ordered.taken taken).append (.message taken))
    by_cases isTaken : msg = taken
    · subst isTaken
      exact (ordered.taken msg).deliverable_append msg
    · have still : Redis.Deliverable { redis with delayed := redis.delayed.erase taken } msg := by
        rcases deliverable with undelivered | pending | delayed
        · exact Or.inl undelivered
        · exact Or.inr (Or.inl pending)
        · exact Or.inr (Or.inr (AList.mem_erase.mpr ⟨isTaken, delayed⟩))
      exact still.append _

/-- Redis once the entry was delivered. -/
def Redis.deliver (redis : Redis) (entry : Nat) : Redis :=
  { redis with unread := entry + 1, pending := entry :: redis.pending }

/-- A delivery makes the first entry that was not delivered pending. -/
theorem Redis.Ordered.deliver (ordered : redis.Ordered) {entry : Nat} {payload : Payload}
    (isNext : redis.nextUnread = some (entry, payload)) : (redis.deliver entry).Ordered := by
  obtain ⟨member, unread, _⟩ := nextUnread_least ordered isNext
  refine ⟨ordered.increasing, ordered.below, ordered.below _ member, ?_⟩
  intro other pending
  rcases List.mem_cons.mp pending with rfl | before
  · exact Nat.lt_succ_self _
  · have earlier := ordered.delivered other before
    show other < entry + 1
    omega

/-- Handing out an entry loses no job: that entry is pending from then on. -/
theorem Redis.Deliverable.deliver (deliverable : redis.Deliverable msg) (ordered : redis.Ordered)
    {entry : Nat} {payload : Payload} (isNext : redis.nextUnread = some (entry, payload)) :
    (redis.deliver entry).Deliverable msg := by
  obtain ⟨_, _, least⟩ := nextUnread_least ordered isNext
  rcases deliverable with ⟨other, isEntry, notRead⟩ | ⟨other, isEntry, pending⟩ | delayed
  · rcases Nat.eq_or_lt_of_le (least _ isEntry notRead) with rfl | later
    · exact Or.inr (Or.inl ⟨_, isEntry, List.mem_cons_self⟩)
    · exact Or.inl ⟨other, isEntry, later⟩
  · exact Or.inr (Or.inl ⟨other, isEntry, List.mem_cons_of_mem _ pending⟩)
  · exact Or.inr (Or.inr delayed)

/-- The entries are in order without the first. -/
theorem Redis.Ordered.tail (ordered : redis.Ordered) :
    Redis.Ordered { redis with entries := redis.entries.tail } := by
  constructor
  · exact ordered.increasing.sublist (List.tail_sublist _)
  · exact fun entry member => ordered.below entry (List.mem_of_mem_tail member)
  · exact ordered.reached
  · exact ordered.delivered

/-- Trimming an acknowledged entry takes no message away. -/
theorem Redis.Deliverable.tail (deliverable : redis.Deliverable msg)
    (acked : ∀ entry ∈ redis.entries.head?, entry.1 < redis.unread ∧ entry.1 ∉ redis.pending) :
    Redis.Deliverable { redis with entries := redis.entries.tail } msg := by
  have remains : ∀ {entry : Nat}, (entry, Payload.message msg) ∈ redis.entries →
      redis.unread ≤ entry ∨ entry ∈ redis.pending →
      (entry, Payload.message msg) ∈ redis.entries.tail := by
    intro entry member needed
    cases isEntries : redis.entries with
    | nil => simp [isEntries] at member
    | cons first rest =>
      rw [isEntries] at member acked
      obtain ⟨delivered, notPending⟩ := acked first rfl
      rcases List.mem_cons.mp member with rfl | later
      · rcases needed with unread | pending
        · exact absurd unread (Nat.not_le.mpr delivered)
        · exact absurd pending notPending
      · exact later
  rcases deliverable with ⟨entry, member, unread⟩ | ⟨entry, member, pending⟩ | delayed
  · exact Or.inl ⟨entry, remains member (Or.inl unread), unread⟩
  · exact Or.inr (Or.inl ⟨entry, remains member (Or.inr pending), pending⟩)
  · exact Or.inr (Or.inr delayed)

/-- Acknowledging leaves the entries as they are. -/
theorem Redis.Ordered.ack (ordered : redis.Ordered) (entry : Nat) : (redis.ack entry).Ordered :=
  ⟨ordered.increasing, ordered.below, ordered.reached,
    fun other pending => ordered.delivered other (List.mem_of_mem_filter pending)⟩

/-- Redis once the message was put on the delayed set and the entry acknowledged. -/
def Redis.defer (redis : Redis) (msg : JobMessage) (fireAt : Int) (entry : Nat) : Redis :=
  { redis with delayed := redis.delayed.insert msg fireAt }.ack entry

/-- Deferring leaves the entries in order. -/
theorem Redis.Ordered.defer (ordered : redis.Ordered) (msg : JobMessage) (fireAt : Int)
    (entry : Nat) : (redis.defer msg fireAt entry).Ordered :=
  ⟨ordered.increasing, ordered.below, ordered.reached,
    fun other pending => ordered.delivered other (List.mem_of_mem_filter pending)⟩

/-- An acknowledgement affects at most the message of its entry. -/
theorem Redis.Deliverable.ack {entry : Nat} (deliverable : redis.Deliverable msg)
    (other : (entry, Payload.message msg) ∉ redis.entries) : (redis.ack entry).Deliverable msg := by
  rcases deliverable with undelivered | ⟨acked, member, pending⟩ | delayed
  · exact Or.inl undelivered
  · refine Or.inr (Or.inl ⟨acked, member, List.mem_filter.mpr ⟨pending, ?_⟩⟩)
    rw [decide_eq_true_eq]
    rintro rfl
    exact other member
  · exact Or.inr (Or.inr delayed)

/-- A deferral puts its own message on the delayed set. -/
theorem Redis.Deliverable.defer {deferred : JobMessage} {entry : Nat}
    (deliverable : redis.Deliverable msg)
    (own : ∀ other, (entry, Payload.message other) ∈ redis.entries → other = deferred)
    (fireAt : Int) : (redis.defer deferred fireAt entry).Deliverable msg := by
  by_cases isOwn : msg = deferred
  · subst isOwn
    exact Or.inr (Or.inr ((AList.mem_insert _).mpr (Or.inl rfl)))
  · have still : Redis.Deliverable { redis with delayed := redis.delayed.insert deferred fireAt }
        msg := by
      rcases deliverable with undelivered | pending | delayed
      · exact Or.inl undelivered
      · exact Or.inr (Or.inl pending)
      · exact Or.inr (Or.inr ((AList.mem_insert _).mpr (Or.inr delayed)))
    exact still.ack (fun member => isOwn (own msg member))

end Stream

/-- The operation a sweep has reached. -/
def Queue.sweepPending (queue : Queue) (id : Nat) : Option Op :=
  match queue.sweeps.lookup id with
  | some sweep =>
    match sweep.program with
    | .call op _ => some op
    | .done _ => none
  | none => none

/-- A sweep with a pending operation calls it. -/
theorem call_of_sweepPending {queue : Queue} {id : Nat} {op : Op}
    (isPending : queue.sweepPending id = some op) :
    ∃ sweep next, queue.sweeps.lookup id = some sweep ∧ sweep.program = .call op next := by
  simp only [Queue.sweepPending] at isPending
  split at isPending
  · next sweep runs =>
    split at isPending
    · next found next isCall =>
      obtain rfl := Option.some.inj isPending
      exact ⟨sweep, next, runs, isCall⟩
    · exact nomatch isPending
  · exact nomatch isPending

/-! ## Commands -/

/-- The entry a command acknowledges. -/
def Command.acks : Command → Option Nat
  | .xack entry => some entry
  | .deferEntry _ _ entry => some entry
  | _ => none

/-- A command that acknowledges nothing leaves the deliveries alone. -/
theorem deliveries_apply {services : Services} {command : Command} (quiet : command.acks = none) :
    SameDeliveries services.redis (command.apply services).redis := by
  cases command with
  | xack | deferEntry => exact nomatch quiet
  | setLock | releaseLock =>
    simp only [Command.apply, Command.applyRedis]
    split <;> constructor <;> rfl
  | connect | hgetStatus | hgetEnqueuedAt | hincrAttempts | hset | getLock | renewLock | finishLive
  | abandonLive | xrange | markRunning | markFinished => constructor <;> rfl

/-- What commands do to the deliveries: nothing, an acknowledgement, or a deferral. -/
theorem execute_deliveries (services : Services) (command : Command) (fate : Fate) :
    SameDeliveries services.redis (command.execute services fate).redis ∨
      (∃ entry, command = .xack entry ∧
        (command.execute services fate).redis = services.redis.ack entry) ∨
      ∃ msg fireAt entry, command = .deferEntry msg fireAt entry ∧
        (command.execute services fate).redis = services.redis.defer msg fireAt entry := by
  cases applied : fate.applied with
  | false =>
    rw [execute_unapplied applied]
    exact Or.inl ⟨rfl, rfl, rfl, rfl, rfl⟩
  | true =>
    rw [execute_applied applied]
    cases command with
    | xack entry => exact Or.inr (Or.inl ⟨entry, rfl, rfl⟩)
    | deferEntry msg fireAt entry => exact Or.inr (Or.inr ⟨msg, fireAt, entry, rfl, rfl⟩)
    | connect | hgetStatus | hgetEnqueuedAt | hincrAttempts | hset | setLock | getLock | releaseLock
    | renewLock | finishLive | abandonLive | xrange | markRunning | markFinished =>
      exact Or.inl (deliveries_apply rfl)

/-- Every fate answers a command. -/
theorem respond_fate (services : Services) (command : Command) (fate : Fate) :
    respond services (.command command) (.fate fate) =
      some (command.reply services fate, command.execute services fate) := rfl

/-- What operations do to the deliveries. -/
theorem respond_deliveries {services services' : Services} {op : Op} {response : Response}
    {reply : OpReply op} (responded : respond services op response = some (reply, services')) :
    SameDeliveries services.redis services'.redis ∨
      (∃ entry, op = .command (.xack entry) ∧ services'.redis = services.redis.ack entry) ∨
      ∃ msg fireAt entry, op = .command (.deferEntry msg fireAt entry) ∧
        services'.redis = services.redis.defer msg fireAt entry := by
  by_cases isCommand : ∃ command, op = .command command
  · obtain ⟨command, rfl⟩ := isCommand
    obtain ⟨fate, _, _, rfl⟩ := respond_command responded
    rcases execute_deliveries services command fate with same | ⟨entry, rfl, isAfter⟩ |
      ⟨msg, fireAt, entry, rfl, isAfter⟩
    · exact Or.inl same
    · exact Or.inr (Or.inl ⟨entry, rfl, isAfter⟩)
    · exact Or.inr (Or.inr ⟨msg, fireAt, entry, rfl, isAfter⟩)
  · rw [(respond_other (fun command same => isCommand ⟨command, same⟩) responded).1]
    exact Or.inl ⟨rfl, rfl, rfl, rfl, rfl⟩

/-- No operation changes the stream itself. -/
theorem stream_respond {services services' : Services} {op : Op} {response : Response}
    {reply : OpReply op} (responded : respond services op response = some (reply, services')) :
    services'.redis.entries = services.redis.entries ∧
      services'.redis.unread = services.redis.unread := by
  rcases respond_deliveries responded with same | ⟨entry, _, isAfter⟩ |
    ⟨msg, fireAt, entry, _, isAfter⟩
  · exact ⟨same.entries, same.unread⟩
  · rw [isAfter]
    exact ⟨rfl, rfl⟩
  · rw [isAfter]
    exact ⟨rfl, rfl⟩

/-- The stream stays ordered over an operation. -/
theorem ordered_respond {services services' : Services} {op : Op} {response : Response}
    {reply : OpReply op} (ordered : services.redis.Ordered)
    (responded : respond services op response = some (reply, services')) :
    services'.redis.Ordered := by
  rcases respond_deliveries responded with same | ⟨entry, _, isAfter⟩ |
    ⟨msg, fireAt, entry, _, isAfter⟩
  · exact same.ordered ordered
  · rw [isAfter]
    exact ordered.ack entry
  · rw [isAfter]
    exact ordered.defer msg fireAt entry

/-! ## Terminal statuses -/

section Settled

variable {services services' : Services} {jobId : Text}

/-- A job is settled by a command that writes a terminal status. -/
theorem Command.settles_writes {command : Command} (settles : jobId ∈ command.settles) :
    ∃ status, command.writesStatus = some (jobId, status) ∧ status.terminal = true := by
  unfold Command.settles at settles
  split at settles
  · next written status _ _ _ _ =>
    split at settles
    · next terminal =>
      rw [List.mem_singleton.mp settles]
      exact ⟨status, rfl, terminal⟩
    · exact absurd settles List.not_mem_nil
  · rw [List.mem_singleton.mp settles]
    exact ⟨.abandoned, rfl, rfl⟩
  · exact absurd settles List.not_mem_nil

/-- The jobs that the history gains are settled at that moment. -/
theorem settledBy_settled {op : Op} {response : Response} {reply : OpReply op}
    (responded : respond services op response = some (reply, services'))
    (settles : jobId ∈ settledBy op response) : services'.redis.Settled jobId := by
  cases op with
  | command command =>
    obtain ⟨fate, rfl, _, rfl⟩ := respond_command responded
    simp only [settledBy] at settles
    split at settles
    · next applied =>
      obtain ⟨status, writes, terminal⟩ := Command.settles_writes settles
      rw [execute_applied applied]
      exact ⟨status, status_apply_self writes, terminal⟩
    · exact absurd settles List.not_mem_nil
  | nowIso | nowMs | scanLive | startJob | awaitJob | abortHeartbeat =>
    exact absurd settles List.not_mem_nil

/-- The field a command sets by itself is no terminal status. -/
def Op.Open (op : Op) : Prop :=
  ∀ jobId status, op = .command (.hset jobId (.status status)) → status.terminal = false

/-- An operation leaves the status of a job alone, or applies a command that writes it. -/
theorem status_respond {op : Op} {response : Response} {reply : OpReply op}
    (responded : respond services op response = some (reply, services')) (jobId : Text) :
    services'.redis.status jobId = services.redis.status jobId ∨
      ∃ command fate status, op = .command command ∧ response = .fate fate ∧
        fate.applied = true ∧ command.writesStatus = some (jobId, status) ∧
        services'.redis.status jobId = some status := by
  by_cases isCommand : ∃ command, op = .command command
  · obtain ⟨command, rfl⟩ := isCommand
    obtain ⟨fate, rfl, _, rfl⟩ := respond_command responded
    cases applied : fate.applied with
    | false =>
      rw [execute_unapplied applied]
      exact Or.inl rfl
    | true =>
      rw [execute_applied applied]
      by_cases writes : ∃ status, command.writesStatus = some (jobId, status)
      · obtain ⟨status, writes⟩ := writes
        exact Or.inr ⟨command, fate, status, rfl, rfl, applied, writes, status_apply_self writes⟩
      · exact Or.inl (status_apply_other (fun status same => writes ⟨status, same⟩))
  · rw [(respond_other (fun command same => isCommand ⟨command, same⟩) responded).1]
    exact Or.inl rfl

/-- A job that is settled after an operation was so before, or the history gains it. -/
theorem settled_respond {op : Op} {response : Response} {reply : OpReply op} (isOpen : op.Open)
    (responded : respond services op response = some (reply, services'))
    (settled : services'.redis.Settled jobId) :
    services.redis.Settled jobId ∨ jobId ∈ settledBy op response := by
  obtain ⟨status, isStatus, terminal⟩ := settled
  rcases status_respond responded jobId with same | ⟨command, fate, written, rfl, rfl, applied,
    writes, isWritten⟩
  · exact Or.inl ⟨status, same.symm.trans isStatus, terminal⟩
  · obtain rfl := Option.some.inj (isWritten.symm.trans isStatus)
    refine Or.inr ?_
    simp only [settledBy, applied, ↓reduceIte]
    cases command with
    | hset jobId field =>
      cases field with
      | status =>
        obtain ⟨rfl, rfl⟩ := Prod.mk.inj (Option.some.inj writes)
        cases (isOpen _ _ rfl).symm.trans terminal
      | worker | startedAt => cases writes
    | finishLive | abandonLive =>
      obtain ⟨rfl, rfl⟩ := Prod.mk.inj (Option.some.inj writes)
      simp [Command.settles, terminal]
    | connect | hgetStatus | hgetEnqueuedAt | hincrAttempts | setLock | getLock | releaseLock
    | renewLock | deferEntry | xack | xrange | markRunning | markFinished => cases writes

/-- Handlers set no terminal status on its own. -/
theorem Step.isOpen {settings : QueueSettings} {msg : JobMessage} {entry : Nat}
    {stage stage' : Stage} {op : Op} {reply : OpReply op}
    (step : Step settings msg entry stage op reply stage') : op.Open := by
  rintro jobId status rfl
  cases step with
  | idle stage op reply isIdle => exact nomatch isIdle
  | prepared attempt op reply prepares =>
    cases status with
    | running => rfl
    | queued | completed | failed | abandoned => exact nomatch prepares
  | requeued => rfl

/-- A sweep may have any of its operations answered in any way. -/
theorem SweepStep.isOpen {held held' : Option Text} {op : Op} {reply : OpReply op}
    (step : SweepStep held op reply held') : op.Open := by
  rintro jobId status rfl
  cases step with
  | idle held op reply isIdle => exact nomatch isIdle

end Settled

end KaretWorker
