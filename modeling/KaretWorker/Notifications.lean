import KaretWorker.DebounceTiming
import KaretWorker.Routing
import KaretWorker.Triggers

/-!
# Upload notifications

The object store posts what was uploaded to `post_s3_events` of `src/http.rs`. A request has to
carry the webhook secret. Each of its records that names an object created in the lake is routed,
and each pipeline it is routed to has its debounce window extended; the reply says which.

A handler calls `route_key` and `debounce_event` one after the other, and these take their steps in
the router and the debouncer, among those of any other handlers, of changes to the configurations
and of the schedulers. Every handler may be stopped between two steps.

A reply tells what happened: the slugs it names were recorded since the request came, and each of
them was routed to. No job is enqueued for a pipeline unless a request with the secret brought an
upload that was routed to it, and where the schedulers enqueue what they pop, what was recorded
waits or is in a scheduler's hands (`webhook_triggers`).
-/
namespace KaretWorker

open Texts Interaction Indexing Json Codec

/-! ## Payloads -/

/-- The fields of a notification that are read. -/
inductive EventKey where
  | records | eventName | s3 | bucket | object | name | key
  deriving DecidableEq

/-- The name of a field as it is written. -/
def EventKey.text : EventKey → Text
  | .records => "Records".toList
  | .eventName => "eventName".toList
  | .s3 => "s3".toList
  | .bucket => "bucket".toList
  | .object => "object".toList
  | .name => "name".toList
  | .key => "key".toList

/-- In an array no field may be missing that has no default. -/
def allThere {α : Type} (count : Nat) (codec : Codec α) : Codec α where
  write := codec.write
  read
    | .array elements => if elements.length = count then codec.read (.array elements) else none
    | json => codec.read json

/-- `S3EventBucket`, of which the name may be missing. -/
def eventBucket : Codec (Option Text) :=
  allThere 1 ((Shape.field EventKey.name (.optional .text)).codec EventKey.text false)

/-- `S3EventObject`, of which the key may be missing. -/
def eventObject : Codec (Option Text) :=
  allThere 1 ((Shape.field EventKey.key (.optional .text)).codec EventKey.text false)

/-- `S3EventInner`, bucket and object, either of which may be missing. -/
def eventInner : Codec (Option (Option Text) × Option (Option Text)) :=
  allThere 2 (((Shape.field EventKey.bucket (.optional eventBucket)).and
    (Shape.field EventKey.object (.optional eventObject))).codec EventKey.text false)

/-- A record with the bucket and the key of its object, if they are given. -/
def eventRecord : Codec S3EventRecord :=
  (((Shape.field EventKey.eventName (.defaulted .text [])).and
    (Shape.field EventKey.s3 (.optional eventInner))).record
      (fun fields => ⟨fields.1, fields.2.bind (fun inner => inner.1.join), fields.2.bind (fun inner => inner.2.join)⟩)
      (fun record => (record.eventName, some (some record.bucket, some record.key)))).codec EventKey.text false

/-- `S3EventPayload`: without a member `Records` there are none. -/
def eventPayload : Codec (List S3EventRecord) :=
  (Shape.field EventKey.records (.defaulted (.list eventRecord) [])).codec EventKey.text false

/-! ## Requests -/

/-- Comparison of all bytes, whichever differ. -/
def constantTimeEq (left right : List UInt8) : Bool :=
  if left.length ≠ right.length then false
  else (left.zip right).foldl (fun diff pair => diff ||| (pair.1 ^^^ pair.2)) 0 == 0

/-- The headers of a request that can be read as text, and its body if it is received. -/
structure WebhookRequest where
  webhookSecret : Option Text
  authorization : Option Text
  body : Option (List UInt8)

/-- The secret that a request provides. -/
def WebhookRequest.provided (request : WebhookRequest) : Option Text :=
  match request.webhookSecret with
  | some secret => some secret
  | none => request.authorization.map (fun value => (value.dropPrefix? "Bearer ".toList).getD value)

/-- What a handler reads of the server's state: whether there is a queue, the secret that is
configured, and the name of the lake's bucket. -/
structure WebhookState where
  queue : Bool
  webhookSecret : Option Text
  lakeBucket : Text

/-- A refusal with its status, kind, message and details, or how many records came and which slugs
were scheduled. -/
inductive WebhookReply where
  | error (status : Nat) (kind message : Text) (details : List Text)
  | accepted (received : Nat) (scheduled : List Text)
  deriving DecidableEq

/-! ## Handling a request -/

/-- What a handler calls. -/
inductive HookOp where
  | connect
  | routeKey (key : Text)
  | debounceEvent (slug : Text)

/-- What each call returns. -/
abbrev HookReply : HookOp → Type
  | .connect => Except Text Unit
  | .routeKey _ => List Text
  | .debounceEvent _ => Except Text Int

/-- Programs of calls. -/
abbrev Hooking (α : Type) : Type := Program HookOp HookReply α

/-- One call, whose value is what it returns. -/
def hookOp (op : HookOp) : Hooking (HookReply op) := Program.perform op

/-- Extend the window of each slug, and note those for which it succeeds. -/
def scheduleAll : List Text → List Text → Hooking (List Text)
  | [], scheduled => pure scheduled
  | slug :: rest, scheduled => do
    match ← hookOp (.debounceEvent slug) with
    | .ok _ => scheduleAll rest (if scheduled.contains slug then scheduled else scheduled ++ [slug])
    | .error _ => scheduleAll rest scheduled

/-- Route each record of an upload and schedule what it is routed to. -/
def handleRecords (lakeBucket : Text) : List S3EventRecord → List Text → Hooking (List Text)
  | [], scheduled => pure scheduled
  | record :: rest, scheduled =>
    match record.upload lakeBucket with
    | none => handleRecords lakeBucket rest scheduled
    | some key => do
      let slugs ← hookOp (.routeKey key)
      let scheduled ← scheduleAll slugs scheduled
      handleRecords lakeBucket rest scheduled

section Requests

-- `parse` reads the text of a body.
variable (state : WebhookState) (parse : List UInt8 → Option Json.Value)

/-- The records of a body, if it is a payload. -/
def WebhookRequest.records (request : WebhookRequest) : Option (List S3EventRecord) :=
  request.body.bind (fun bytes => (parse bytes).bind eventPayload.read)

/-- Object-created notifications. -/
def postS3Events (request : WebhookRequest) : Hooking WebhookReply :=
  if !state.queue then
    pure (.error 503 "queue_disabled".toList
      "REDIS_URL is not configured; webhook events have nowhere to go".toList [])
  else
    match state.webhookSecret.filter (fun secret => !secret.isEmpty) with
    | none => pure (.error 401 "unauthorized".toList "webhook secret is not configured".toList [])
    | some expected =>
      if !request.provided.any (fun secret => constantTimeEq (Utf8.encode secret) (Utf8.encode expected)) then
        pure (.error 401 "unauthorized".toList "missing or invalid webhook secret".toList [])
      else
        match request.body with
        | none => pure (.error 400 "invalid_body".toList "unreadable body".toList [])
        | some bytes =>
          match (parse bytes).bind eventPayload.read with
          | none => pure (.error 400 "invalid_json".toList "body is not an S3 event payload".toList [])
          | some records => do
            match ← hookOp .connect with
            | .error error =>
              pure (.error 503 "redis_unavailable".toList ("cannot record event: ".toList ++ error) [])
            | .ok () => do
              let scheduled ← handleRecords state.lakeBucket records []
              pure (.accepted records.length scheduled)

end Requests

/-! ## The system -/

/-- A handler with the calls it has made, and what had been answered and logged before it came. -/
structure Post where
  request : WebhookRequest
  program : Hooking WebhookReply
  calls : List (Event HookOp HookReply)
  answers : List RouteAnswer
  log : List Trigger

/-- The router and the debouncer with the handlers that call them, and the requests so far. -/
structure Receiver where
  router : Router
  debouncer : Debouncer
  posts : AList (fun _ : Nat => Post)
  received : List WebhookRequest
  replied : List (Post × WebhookReply)

/-- Before the first request: no table is built and nothing waits. -/
def Receiver.initial (pipelines : Store) (now : Nat) (redis : Redis) : Receiver :=
  ⟨.initial pipelines now, .initial redis, ∅, [], []⟩

/-- Nobody's call. -/
def RouterAction.outside : RouterAction → Bool
  | .put _ _ | .delete _ | .elapse _ | .validate => true
  | .upload _ _ | .answer _ _ | .stop _ => false

/-- The schedulers' part. -/
def DebounceAction.outside : DebounceAction → Bool
  | .tick _ | .answerTick _ _ | .stopTick _ | .expireFirst _ => true
  | .upload _ _ | .answerUpload _ _ | .stopUpload _ => false

/-- What a call to the router returns with an answer, if it returns. -/
def Router.returns (router : Router) (id : Nat) (given : RouteGiven) : Option (List Text) :=
  match router.calls.lookup id with
  | some call =>
    match call.program with
    | .call op next =>
      match router.respond call.build op given with
      | some (reply, _, _) =>
        match next reply with
        | .done slugs => some slugs
        | .call _ _ => none
      | none => none
    | .done _ => none
  | none => none

/-- What an event returns with an answer, if it returns. -/
def Debouncer.returns (debouncer : Debouncer) (id : Nat) (response : DebounceResponse) :
    Option (Except Text Int) :=
  match debouncer.webhooks.lookup id with
  | some webhook =>
    match webhook.program with
    | .call op next =>
      match debounceRespond debouncer.services op response with
      | some (reply, _) =>
        match next reply with
        | .done result => some result
        | .call _ _ => none
      | none => none
    | .done _ => none
  | none => none

/-- A handler goes on or replies. -/
def Receiver.keep (receiver : Receiver) (id : Nat) (post : Post) : Receiver :=
  match post.program with
  | .done reply =>
    { receiver with posts := receiver.posts.erase id, replied := (post, reply) :: receiver.replied }
  | .call _ _ => { receiver with posts := receiver.posts.insert id post }

/-- A handler that has called is given what the call returns. -/
def Post.advance (post : Post) (op : HookOp) (reply : HookReply op) (rest : Hooking WebhookReply) : Post :=
  { post with program := rest, calls := post.calls ++ [⟨op, reply⟩] }

/-- Configurations change and schedulers run; requests come, their handlers call and are answered
one step at a time, and may be stopped at any. -/
inductive ReceiverAction where
  | router (action : RouterAction)
  | debouncer (action : DebounceAction)
  | post (id : Nat) (request : WebhookRequest)
  | connected (id : Nat) (result : Except Text Unit)
  | call (id : Nat)
  | route (id : Nat) (given : RouteGiven)
  | debounce (id : Nat) (response : DebounceResponse)
  | stop (id : Nat)

section System

variable (client : Bool) (document : Object → Option Json.Value) (state : WebhookState)
  (parse : List UInt8 → Option Json.Value)

/-- One action, if it is possible here. A handler's call begins in the router or the debouncer and
goes on when it returns. -/
def Receiver.step (receiver : Receiver) : ReceiverAction → Option Receiver
  | .router action =>
    if action.outside then
      (receiver.router.step client document action).map (fun router => { receiver with router := router })
    else none
  | .debouncer action =>
    if action.outside then
      (receiver.debouncer.step action).map (fun debouncer => { receiver with debouncer := debouncer })
    else none
  | .post id request =>
    match receiver.posts.lookup id with
    | none => some (Receiver.keep { receiver with received := request :: receiver.received } id
        ⟨request, postS3Events state parse request, [], receiver.router.answers, receiver.debouncer.log⟩)
    | some _ => none
  | .connected id result =>
    match receiver.posts.lookup id with
    | some post =>
      match post.program with
      | .call .connect next => some (receiver.keep id (post.advance .connect result (next result)))
      | _ => none
    | none => none
  | .call id =>
    match receiver.posts.lookup id with
    | some post =>
      match post.program with
      | .call (.routeKey key) _ =>
        (receiver.router.step client document (.upload id key)).map (fun router =>
          { receiver with router := router })
      | .call (.debounceEvent slug) _ =>
        (receiver.debouncer.step (.upload id slug)).map (fun debouncer =>
          { receiver with debouncer := debouncer })
      | _ => none
    | none => none
  | .route id given =>
    match receiver.posts.lookup id with
    | some post =>
      match post.program with
      | .call (.routeKey key) next =>
        (receiver.router.step client document (.answer id given)).map (fun router =>
          match receiver.router.returns id given with
          | some slugs =>
            Receiver.keep { receiver with router := router } id (post.advance (.routeKey key) slugs (next slugs))
          | none => { receiver with router := router })
      | _ => none
    | none => none
  | .debounce id response =>
    match receiver.posts.lookup id with
    | some post =>
      match post.program with
      | .call (.debounceEvent slug) next =>
        (receiver.debouncer.step (.answerUpload id response)).map (fun debouncer =>
          match receiver.debouncer.returns id response with
          | some result => Receiver.keep { receiver with debouncer := debouncer } id
              (post.advance (.debounceEvent slug) result (next result))
          | none => { receiver with debouncer := debouncer })
      | _ => none
    | none => none
  | .stop id => some { receiver with
      router := { receiver.router with calls := receiver.router.calls.erase id }
      debouncer := { receiver.debouncer with webhooks := receiver.debouncer.webhooks.erase id }
      posts := receiver.posts.erase id }

/-- The store answers the calls to the router as it is. -/
def Receiver.Permits (receiver : Receiver) : ReceiverAction → Prop
  | .router action => receiver.router.Permits action
  | .route id given => receiver.router.Permits (.answer id given)
  | _ => True

/-- What a scheduler pops it gets, and it enqueues a job for each slug before it stops. -/
def Receiver.Enqueues (receiver : Receiver) : ReceiverAction → Prop
  | .debouncer action => Delivers receiver.debouncer action
  | _ => True

end System

/-! ## Secrets -/

/-- Differences that are gathered vanish only if there are none. -/
theorem gathered_zero (pairs : List (UInt8 × UInt8)) (diff : UInt8) :
    pairs.foldl (fun diff pair => diff ||| (pair.1 ^^^ pair.2)) diff = 0 ↔
      diff = 0 ∧ ∀ pair ∈ pairs, pair.1 = pair.2 := by
  induction pairs generalizing diff with
  | nil => simp
  | cons pair rest inductionHypothesis =>
    rw [List.foldl_cons, inductionHypothesis, UInt8.or_eq_zero_iff, UInt8.xor_eq_zero_iff,
      List.forall_mem_cons,
      and_assoc]

/-- The comparison holds of equal bytes only. -/
theorem constantTimeEq_iff {left right : List UInt8} :
    constantTimeEq left right = true ↔ left = right := by
  unfold constantTimeEq
  split
  · next different =>
    refine ⟨fun impossible => (nomatch impossible), ?_⟩
    rintro rfl
    exact absurd rfl different
  · next sameLength =>
    rw [beq_iff_eq, gathered_zero, and_iff_right rfl]
    rw [ne_eq, not_not] at sameLength
    induction left generalizing right with
    | nil => simp [List.eq_nil_of_length_eq_zero sameLength.symm]
    | cons first rest inductionHypothesis =>
      cases right with
      | nil => exact nomatch sameLength
      | cons second others =>
        rw [List.zip_cons_cons, List.forall_mem_cons, inductionHypothesis (Nat.succ.inj sameLength),
          List.cons.injEq]

/-- Different texts have different bytes. -/
theorem encode_injective : Function.Injective Utf8.encode :=
  Function.LeftInverse.injective Utf8.lossy_encode

/-! ## What a handler does -/

/-- A call to the router, with the slugs it returned. -/
def routeOf : Event HookOp HookReply → Option (Text × List Text)
  | ⟨.routeKey key, slugs⟩ => some (key, slugs)
  | _ => none

/-- An event of a slug, with its result. -/
def eventOf : Event HookOp HookReply → Option (Text × Except Text Int)
  | ⟨.debounceEvent slug, result⟩ => some (slug, result)
  | _ => none

/-- A routed key is among the routes. -/
@[simp] theorem routes_route (key : Text) (slugs : List Text)
    (calls : List (Event HookOp HookReply)) :
    List.filterMap routeOf (⟨.routeKey key, slugs⟩ :: calls) = (key, slugs) ::
      calls.filterMap routeOf := rfl

/-- Events are not. -/
@[simp] theorem routes_event (slug : Text) (result : Except Text Int)
    (calls : List (Event HookOp HookReply)) :
    List.filterMap routeOf (⟨.debounceEvent slug, result⟩ :: calls) = calls.filterMap routeOf := rfl

/-- Routes are not among the events. -/
@[simp] theorem events_route (key : Text) (slugs : List Text)
    (calls : List (Event HookOp HookReply)) :
    List.filterMap eventOf (⟨.routeKey key, slugs⟩ :: calls) = calls.filterMap eventOf := rfl

/-- A recorded event is. -/
@[simp] theorem events_event (slug : Text) (result : Except Text Int)
    (calls : List (Event HookOp HookReply)) :
    List.filterMap eventOf (⟨.debounceEvent slug, result⟩ :: calls) = (slug, result) ::
      calls.filterMap eventOf := rfl

section Handlers

variable (state : WebhookState) (parse : List UInt8 → Option Json.Value)

/-- There is a queue, and the request provides the secret. -/
def Authorized (request : WebhookRequest) : Prop :=
  state.queue = true ∧ ∃ secret, state.webhookSecret = some secret ∧ secret ≠ [] ∧ request.provided = some secret

/-- The keys that a request says were uploaded to the lake. -/
def WebhookRequest.uploads (request : WebhookRequest) : List Text :=
  ((request.records parse).getD []).filterMap (S3EventRecord.upload state.lakeBucket)

/-- Uploads are routed, and what they are routed to has its event. -/
def Justified (request : WebhookRequest) (calls : List (Event HookOp HookReply)) : HookOp → Prop
  | .connect => True
  | .routeKey key => key ∈ request.uploads state parse
  | .debounceEvent slug => ∃ route ∈ calls.filterMap routeOf, route.1 ∈ request.uploads state parse ∧ slug ∈ route.2

/-- A handler of a request makes one more call. -/
def HookMove (request : WebhookRequest) (calls : List (Event HookOp HookReply)) (op : HookOp)
    (reply : HookReply op) (calls' : List (Event HookOp HookReply)) : Prop :=
  Authorized state request ∧ Justified state parse request calls op ∧ calls' = calls ++ [⟨op, reply⟩]

/-- The handler of a request makes only such calls, and meets the postcondition. -/
def HookKeeps (request : WebhookRequest) {α : Type} (post : α → List (Event HookOp HookReply) → Prop)
    (program : Hooking α) (calls : List (Event HookOp HookReply)) : Prop :=
  Program.Follows (fun _ _ => True) (HookMove state parse request) post program calls

/-- What is scheduled by calls, beside what was. -/
structure Notes (scheduled : List Text) (calls : List (Event HookOp HookReply)) (scheduled' : List Text) : Prop where
  once : scheduled.Nodup → scheduled'.Nodup
  exact : ∀ slug, slug ∈ scheduled' ↔
    slug ∈ scheduled ∨ ∃ wait, (slug, Except.ok wait) ∈ calls.filterMap eventOf

variable {state parse} {request : WebhookRequest} {scheduled scheduled' scheduled'' : List Text}
  {calls calls' : List (Event HookOp HookReply)}

/-- Calls one after another schedule what each of them does. -/
theorem Notes.trans (first : Notes scheduled calls scheduled')
    (second : Notes scheduled' calls' scheduled'') :
    Notes scheduled (calls ++ calls') scheduled'' := by
  refine ⟨fun once => second.once (first.once once), fun slug => ?_⟩
  rw [second.exact, first.exact, List.filterMap_append]
  simp only [List.mem_append, exists_or, or_assoc]

/-- Calls without events schedule nothing. -/
theorem notes_none (quiet : calls.filterMap eventOf = []) : Notes scheduled calls scheduled := by
  refine ⟨id, fun slug => ?_⟩
  rw [quiet]
  simp

/-- An event that succeeds schedules its slug, once. -/
theorem notes_ok (slug : Text) (wait : Int) :
    Notes scheduled [⟨.debounceEvent slug, .ok wait⟩]
      (if scheduled.contains slug then scheduled else scheduled ++ [slug]) := by
  simp only [List.contains_iff_mem]
  refine ⟨fun once => ?_, fun other => ?_⟩
  · split
    · exact once
    · next isNew => exact List.nodup_append.mpr ⟨once, List.nodup_singleton _, by
        rintro member isThere _ isSlug rfl
        exact isNew (List.mem_singleton.mp isSlug ▸ isThere)⟩
  · have isEvent : (∃ wait', (other, Except.ok wait') ∈
        ([⟨.debounceEvent slug, .ok wait⟩] : List (Event HookOp HookReply)).filterMap eventOf) ↔
          other = slug := by
      simp [eventOf]
    rw [isEvent]
    split
    · next isThere =>
      constructor
      · exact Or.inl
      · rintro (before | rfl)
        · exact before
        · exact isThere
    · rw [List.mem_append, List.mem_singleton]

/-- An event that fails schedules nothing. -/
theorem notes_error (slug : Text) (error : Text) :
    Notes scheduled [⟨.debounceEvent slug, .error error⟩] scheduled := by
  refine ⟨id, fun other => ?_⟩
  simp [eventOf]

/-- Each slug has its event, and those that succeed are scheduled. -/
theorem scheduleAll_keeps (authorized : Authorized state request) (slugs : List Text)
    (routed : ∀ slug ∈ slugs, Justified state parse request calls (.debounceEvent slug)) :
    HookKeeps state parse request (fun scheduled' calls' => ∃ events, calls' = calls ++ events ∧
      events.filterMap routeOf = [] ∧ (events.filterMap eventOf).map Prod.fst = slugs ∧
        Notes scheduled events scheduled') (scheduleAll slugs scheduled) calls := by
  induction slugs generalizing scheduled calls with
  | nil => exact ⟨[], (List.append_nil _).symm, rfl, rfl, notes_none rfl⟩
  | cons slug rest inductionHypothesis =>
    rw [List.forall_mem_cons] at routed
    simp only [scheduleAll, hookOp, Program.perform_bind]
    intro result _
    refine ⟨calls ++ [⟨.debounceEvent slug, result⟩], ⟨authorized, routed.1, rfl⟩, ?_⟩
    have further : ∀ other ∈ rest,
      Justified state parse request (calls ++ [⟨.debounceEvent slug, result⟩])
        (.debounceEvent other) := by
      intro other member
      obtain ⟨route, isRoute, isUpload, isSlug⟩ := routed.2 other member
      refine ⟨route, ?_, isUpload, isSlug⟩
      rw [List.filterMap_append]
      exact List.mem_append_left _ isRoute
    have goesOn : ∀ scheduledNow, Notes scheduled [⟨.debounceEvent slug, result⟩] scheduledNow →
        HookKeeps state parse request (fun scheduled' calls' => ∃ events, calls' = calls ++ events ∧
          events.filterMap routeOf = [] ∧ (events.filterMap eventOf).map Prod.fst = slug :: rest ∧
            Notes scheduled events scheduled') (scheduleAll rest scheduledNow)
          (calls ++ [⟨.debounceEvent slug, result⟩]) := by
      intro scheduledNow noted
      refine Program.follows_mono (inductionHypothesis further) ?_
      rintro scheduled' _ ⟨events, rfl, noRoutes, slugs, notes⟩
      refine ⟨⟨.debounceEvent slug, result⟩ :: events, by simp, ?_, ?_, noted.trans notes⟩
      · rw [routes_event, noRoutes]
      · rw [events_event, List.map_cons, slugs]
    cases result with
    | ok wait => exact goesOn _ (notes_ok slug wait)
    | error error => exact goesOn _ (notes_error slug error)

/-- Each record of an upload is routed, and what it is routed to has its event. -/
theorem handleRecords_keeps (authorized : Authorized state request) (records : List S3EventRecord)
    (uploads : ∀ key ∈ records.filterMap (S3EventRecord.upload state.lakeBucket),
      key ∈ request.uploads state parse) :
    HookKeeps state parse request (fun scheduled' calls' => ∃ further, calls' = calls ++ further ∧
      (further.filterMap routeOf).map Prod.fst = records.filterMap
        (S3EventRecord.upload state.lakeBucket) ∧
      (further.filterMap eventOf).map Prod.fst =
      ((further.filterMap routeOf).map Prod.snd).flatten ∧
      Notes scheduled further scheduled')
        (handleRecords state.lakeBucket records scheduled) calls := by
  induction records generalizing scheduled calls with
  | nil => exact ⟨[], (List.append_nil _).symm, rfl, rfl, notes_none rfl⟩
  | cons record rest inductionHypothesis =>
    rw [handleRecords]
    cases isUpload : record.upload state.lakeBucket with
    | none =>
      rw [List.filterMap_cons_none isUpload] at uploads ⊢
      exact inductionHypothesis uploads
    | some key =>
      rw [List.filterMap_cons_some isUpload] at uploads ⊢
      rw [List.forall_mem_cons] at uploads
      simp only [hookOp, Program.perform_bind]
      intro slugs _
      refine ⟨calls ++ [⟨.routeKey key, slugs⟩], ⟨authorized, uploads.1, rfl⟩, ?_⟩
      have routed : ∀ slug ∈ slugs,
        Justified state parse request (calls ++ [⟨.routeKey key, slugs⟩])
          (.debounceEvent slug) := by
        intro slug member
        refine ⟨(key, slugs), ?_, uploads.1, member⟩
        rw [List.filterMap_append]
        exact List.mem_append_right _ (List.mem_singleton_self _)
      refine Program.follows_bind
        (Program.follows_mono (scheduleAll_keeps authorized slugs routed) ?_)
      rintro scheduled' _ ⟨events, rfl, noRoutes, areSlugs, notes⟩
      refine Program.follows_mono (inductionHypothesis uploads.2) ?_
      rintro scheduled'' _ ⟨further, rfl, keys, others, notes'⟩
      refine ⟨⟨.routeKey key, slugs⟩ :: (events ++ further), by simp, ?_, ?_, ?_⟩
      · rw [routes_route, List.filterMap_append, noRoutes, List.nil_append, List.map_cons, keys]
      · rw [events_route, routes_route, List.filterMap_append, List.filterMap_append, noRoutes,
          List.nil_append,
          List.map_append, areSlugs, others, List.map_cons, List.flatten_cons]
      · have routing : Notes scheduled [⟨.routeKey key, slugs⟩] scheduled := notes_none rfl
        exact routing.trans (notes.trans notes')

/-- What a reply says of the calls before it. -/
def Accounted (state : WebhookState) (parse : List UInt8 → Option Json.Value) (request : WebhookRequest) :
    WebhookReply → List (Event HookOp HookReply) → Prop
  | .error _ _ _ _, calls => calls.filterMap eventOf = []
  | .accepted received scheduled, calls => Authorized state request ∧
      ∃ records, request.records parse = some records ∧ received = records.length ∧
        (calls.filterMap routeOf).map Prod.fst = records.filterMap (S3EventRecord.upload state.lakeBucket) ∧
        (calls.filterMap eventOf).map Prod.fst = ((calls.filterMap routeOf).map Prod.snd).flatten ∧
        scheduled.Nodup ∧ ∀ slug, slug ∈ scheduled ↔ ∃ wait, (slug, Except.ok wait) ∈ calls.filterMap eventOf

/-- The handler of any request. -/
theorem postS3Events_keeps (request : WebhookRequest) :
    HookKeeps state parse request (Accounted state parse request)
    (postS3Events state parse request) [] := by
  unfold postS3Events
  split
  · exact rfl
  · next isQueue =>
    split
    · exact rfl
    · next expected isExpected =>
      split
      · exact rfl
      · next isProvided =>
        have authorized : Authorized state request := by
          obtain ⟨isSecret, nonempty⟩ := Option.filter_eq_some_iff.mp isExpected
          simp only [Bool.not_eq_true, Bool.not_eq_false', Option.any_eq_true] at isProvided
          obtain ⟨secret, isGiven, same⟩ := isProvided
          obtain rfl := encode_injective (constantTimeEq_iff.mp same)
          refine ⟨by simpa using isQueue, secret, isSecret, ?_, isGiven⟩
          rintro rfl
          simp at nonempty
        split
        · exact rfl
        · next bytes isBody =>
          split
          · exact rfl
          · next records isPayload =>
            have isRecords : request.records parse = some records := by
              rw [WebhookRequest.records, isBody, Option.bind_some, isPayload]
            simp only [hookOp, Program.perform_bind]
            intro result _
            refine ⟨[⟨.connect, result⟩], ⟨authorized, trivial, rfl⟩, ?_⟩
            cases result with
            | error error => exact rfl
            | ok connected =>
              refine Program.follows_bind
                (Program.follows_mono (handleRecords_keeps authorized records
                (fun key isKey => ?_)) ?_)
              · rw [WebhookRequest.uploads, isRecords]
                exact isKey
              · rintro scheduled _ ⟨further, rfl, keys, slugs, notes⟩
                refine ⟨authorized, records, isRecords, rfl, keys, slugs, notes.once List.nodup_nil,
                  fun slug => ?_⟩
                rw [notes.exact]
                exact or_iff_right List.not_mem_nil

end Handlers

/-! ## What calls return -/

/-- The item has been added since. -/
def Added {α : Type} (earlier now : List α) (item : α) : Prop := ∃ added, now = added ++ earlier ∧ item ∈ added

/-- What has been added stays so while the list grows. -/
theorem Added.mono {α : Type} {earlier now later : List α} {item : α}
    (added : Added earlier now item) (grows : now <:+ later) : Added earlier later item := by
  obtain ⟨before, rfl, member⟩ := added
  obtain ⟨more, rfl⟩ := grows
  exact ⟨more ++ before, (List.append_assoc _ _ _).symm, List.mem_append_right _ member⟩

/-- The newest item has been added. -/
theorem added_cons {α : Type} {earlier now : List α} (item : α) (grows : earlier <:+ now) :
    Added earlier (item :: now) item := by
  obtain ⟨added, rfl⟩ := grows
  exact ⟨item :: added, rfl, List.mem_cons_self⟩

/-- What has been added is there. -/
theorem Added.mem {α : Type} {earlier now : List α} {item : α} (added : Added earlier now item) :
    item ∈ now := by
  obtain ⟨before, rfl, member⟩ := added
  exact List.mem_append_left _ member

section Calls

variable {client : Bool} {document : Object → Option Json.Value} {router routed : Router}
  {debouncer debounced : Debouncer} {id : Nat}

/-- Operations leave calls and answers alone. -/
theorem respond_calls {build build' : Build} {op : RouteOp} {given : RouteGiven}
    {reply : RouteReply op}
    (responded : router.respond build op given = some (reply, routed, build')) :
    routed.calls = router.calls ∧ routed.answers = router.answers := by
  cases op with
  | trusted | swap =>
    cases given <;> simp only [Router.respond, Option.some.injEq, reduceCtorEq] at responded
    obtain ⟨-, rfl, -⟩ := responded
    exact ⟨rfl, rfl⟩
  | listKeys | getBytes =>
    rcases given with _ | (_ | _) | (_ | _) <;>
      simp only [Router.respond, Option.some.injEq, reduceCtorEq] at responded
    · obtain ⟨-, rfl, -⟩ := responded
      exact ⟨rfl, rfl⟩
    · obtain ⟨-, rfl, -⟩ := responded
      exact ⟨rfl, rfl⟩

/-- A call to the router returns with an answer, or goes on. -/
theorem router_answer {given : RouteGiven}
    (stepped : router.step client document (.answer id given) = some routed) :
    ∃ call, router.calls.lookup id = some call ∧
      ((∃ answer, router.returns id given = some answer.slugs ∧ answer.key = call.key ∧
          routed.calls = router.calls.erase id ∧ routed.answers = answer :: router.answers) ∨
        (router.returns id given = none ∧ routed.answers = router.answers ∧
          ∃ call', routed.calls = router.calls.insert id call' ∧ call'.key = call.key)) := by
  simp only [Router.step] at stepped
  split at stepped
  case h_2 => cases stepped
  next call found =>
  split at stepped
  case h_2 => cases stepped
  next op next isCall =>
  split at stepped
  case h_2 => cases stepped
  next reply after build responded =>
  obtain rfl := Option.some.inj stepped
  obtain ⟨sameCalls, sameAnswers⟩ := respond_calls responded
  refine ⟨call, found, ?_⟩
  simp only [Router.returns, found, isCall, responded, Router.keep]
  cases next reply with
  | done slugs =>
    refine Or.inl ⟨⟨call.key, slugs, after.table, after.now, after.validations⟩, rfl, rfl, ?_, ?_⟩
    · simp only [sameCalls]
    · simp only [sameAnswers]
  | call op' next' =>
    refine Or.inr ⟨rfl, sameAnswers, ⟨call.key, .call op' next', build⟩, ?_, rfl⟩
    simp only [sameCalls]

/-- An event is recorded if it returns successfully, or goes on. -/
theorem debouncer_answer {response : DebounceResponse}
    (stepped : debouncer.step (.answerUpload id response) = some debounced) :
    ∃ webhook, debouncer.webhooks.lookup id = some webhook ∧
      ((∃ result added, debouncer.returns id response = some result ∧
          debounced.webhooks = debouncer.webhooks.erase id ∧
          debounced.log = added ++ debouncer.log ∧
          ∀ wait, result = .ok wait → added = [.recorded webhook.slug]) ∨
        (debouncer.returns id response = none ∧ debounced.log = debouncer.log ∧
          ∃ program, debounced.webhooks = debouncer.webhooks.insert id
            ⟨webhook.slug, program⟩)) := by
  simp only [Debouncer.step] at stepped
  split at stepped
  case h_2 => cases stepped
  next webhook found =>
  split at stepped
  case h_2 => cases stepped
  next op next isCall =>
  split at stepped
  case h_2 => cases stepped
  next reply services responded =>
  obtain rfl := Option.some.inj stepped
  refine ⟨webhook, found, ?_⟩
  simp only [Debouncer.returns, found, isCall, responded, keepWebhook]
  cases next reply with
  | done result =>
    refine Or.inl ⟨result, _, rfl, rfl, rfl, ?_⟩
    rintro wait rfl
    rfl
  | call op' next' => exact Or.inr ⟨rfl, rfl, _, rfl⟩

/-- A call begins. -/
theorem router_upload {key : Text}
    (stepped : router.step client document (.upload id key) = some routed) :
    ∃ call, routed.calls = router.calls.insert id call ∧ call.key = key ∧
    routed.answers = router.answers := by
  simp only [Router.step] at stepped
  split at stepped
  · obtain rfl := Option.some.inj stepped
    exact ⟨_, rfl, rfl, rfl⟩
  · cases stepped

/-- An event begins. -/
theorem debouncer_upload {slug : Text}
    (stepped : debouncer.step (.upload id slug) = some debounced) :
    ∃ webhook, debounced.webhooks = debouncer.webhooks.insert id webhook ∧ webhook.slug = slug ∧
      debounced.log = debouncer.log := by
  simp only [Debouncer.step] at stepped
  split at stepped
  · obtain rfl := Option.some.inj stepped
    exact ⟨_, rfl, rfl, rfl⟩
  · cases stepped

/-- What happens outside leaves the calls alone. -/
theorem router_outside {action : RouterAction} (isOutside : action.outside = true)
    (stepped : router.step client document action = some routed) :
    routed.calls = router.calls ∧ routed.answers = router.answers := by
  cases action with
  | put | delete | elapse | validate =>
    obtain rfl := Option.some.inj stepped
    exact ⟨rfl, rfl⟩
  | upload | answer | stop => cases isOutside

/-- The schedulers leave the events alone, and only add to the log. -/
theorem debouncer_outside {action : DebounceAction} (isOutside : action.outside = true)
    (stepped : debouncer.step action = some debounced) :
    debounced.webhooks = debouncer.webhooks ∧ debouncer.log <:+ debounced.log := by
  cases action with
  | upload | answerUpload | stopUpload => cases isOutside
  | tick other =>
    simp only [Debouncer.step] at stepped
    split at stepped
    · obtain rfl := Option.some.inj stepped
      exact ⟨rfl, List.suffix_refl _⟩
    · cases stepped
  | stopTick | expireFirst =>
    obtain rfl := Option.some.inj stepped
    exact ⟨rfl, List.suffix_refl _⟩
  | answerTick other response =>
    simp only [Debouncer.step] at stepped
    split at stepped
    case h_2 | h_3 => cases stepped
    split at stepped
    case h_2 => cases stepped
    obtain rfl := Option.some.inj stepped
    exact ⟨rfl, List.suffix_append _ _⟩

end Calls

/-! ## Jobs come from events -/

/-- The program of a scheduler enqueues jobs for the admitted slugs only, if only slugs that are
admitted by then are due. -/
def Bounded (admitted : Text → Prop) : Debouncing Unit → Prop
  | .done _ => True
  | .call (.command (.enqueue msg)) next => admitted msg.pipeline ∧ ∀ reply, Bounded admitted (next reply)
  | .call (.command (.popDue _)) next =>
    ∀ wider : Text → Prop, (∀ slug, admitted slug → wider slug) →
      ∀ reply : Except Text (List Text), (∀ slugs, reply = .ok slugs → ∀ slug ∈ slugs, wider slug) →
        Bounded wider (next reply)
  | .call (.command (.zadd _ _)) _ => False
  | .call _ next => ∀ reply, Bounded admitted (next reply)

/-- Slugs that wait, are due or have a job are admitted, and so are those that have events. -/
structure Debouncer.Confined (admitted : Text → Prop) (debouncer : Debouncer) : Prop where
  webhooks : ∀ id webhook, debouncer.webhooks.lookup id = some webhook →
    admitted webhook.slug ∧ Records webhook.slug webhook.program
  waiting : ∀ slug ∈ debouncer.services.waiting, admitted slug
  schedulers : ∀ id program, debouncer.schedulers.lookup id = some program → Bounded admitted program
  log : ∀ slug, .enqueued slug ∈ debouncer.log → admitted slug

section Confined

variable {admitted wider : Text → Prop} {debouncer after : Debouncer}

/-- A program that is bounded is so by any wider admission. -/
theorem bounded_mono {program : Debouncing Unit} (bounded : Bounded admitted program)
    (implies : ∀ slug, admitted slug → wider slug) : Bounded wider program := by
  induction program with
  | done value => trivial
  | call op next inductionHypothesis =>
    cases op with
    | nowMs | newJobId => exact fun reply => inductionHypothesis reply (bounded reply)
    | command command =>
      cases command with
      | connect | setFirst => exact fun reply => inductionHypothesis reply (bounded reply)
      | zadd => exact bounded
      | enqueue msg =>
          exact ⟨implies _ bounded.1, fun reply => inductionHypothesis reply (bounded.2 reply)⟩
      | popDue now =>
        exact fun widest further => bounded widest
          (fun slug isAdmitted => further slug (implies slug isAdmitted))

/-- Jobs are enqueued for the admitted slugs among those popped. -/
theorem fireAll_bounded (slugs : List Text) (admits : ∀ slug ∈ slugs, admitted slug) :
    Bounded admitted (fireAll slugs) := by
  induction slugs with
  | nil => trivial
  | cons slug rest inductionHypothesis =>
    rw [List.forall_mem_cons] at admits
    intro jobId now
    exact ⟨admits.1, fun _ => inductionHypothesis admits.2⟩

/-- A scheduler enqueues jobs for admitted slugs, whatever is admitted by the time it pops. -/
theorem debounceScheduler_bounded (admitted : Text → Prop) :
    Bounded admitted debounceScheduler := by
  rintro (error | connected)
  · trivial
  · intro now wider _ reply due
    cases reply with
    | error error => trivial
    | ok slugs => exact fireAll_bounded slugs (due slugs rfl)

/-- A slug that waits after a command waited before, or is the command's. -/
theorem waiting_apply {services : Debounce} {command : DebounceCommand} {slug : Text}
    (waits : slug ∈ (command.apply services).waiting) :
    slug ∈ services.waiting ∨ ∃ fireAt, command = .zadd slug fireAt := by
  cases command with
  | connect | enqueue => exact Or.inl waits
  | setFirst other now ttlMs =>
    simp only [DebounceCommand.apply] at waits
    split at waits
    · exact Or.inl waits
    · exact Or.inl waits
  | zadd other fireAt =>
    rcases (AList.mem_insert _).mp waits with rfl | before
    · exact Or.inr ⟨fireAt, rfl⟩
    · exact Or.inl before
  | popDue now => exact Or.inl (mem_eraseAll.mp waits).1

/-- A slug that waits after an operation waited before it, or the operation recorded it. -/
theorem waiting_respond {services services' : Debounce} {op : DebounceOp}
    {response : DebounceResponse} {reply : DebounceReply op}
    (responded : debounceRespond services op response = some (reply, services'))
    {slug : Text} (waits : slug ∈ services'.waiting) :
    slug ∈ services.waiting ∨ ∃ fireAt, op = .command (.zadd slug fireAt) := by
  cases op with
  | nowMs | newJobId =>
    cases response <;>
      simp only [debounceRespond, reduceCtorEq, Option.some.injEq, Prod.mk.injEq] at responded
    rw [← responded.2] at waits
    exact Or.inl waits
  | command command =>
    cases response with
    | ms | id => cases responded
    | fate fate =>
      obtain ⟨rfl, rfl⟩ := Prod.mk.inj (Option.some.inj responded)
      split at waits
      · refine (waiting_apply waits).imp_right ?_
        rintro ⟨fireAt, rfl⟩
        exact ⟨fireAt, rfl⟩
      · exact Or.inl waits

/-- A confined debouncer stays so when more is admitted. -/
theorem Debouncer.Confined.mono (confined : debouncer.Confined admitted)
    (implies : ∀ slug, admitted slug → wider slug) : debouncer.Confined wider where
  webhooks := fun id webhook found => (confined.webhooks id webhook found).imp_left (implies _)
  waiting := fun slug waits => implies slug (confined.waiting slug waits)
  schedulers := fun id program found => bounded_mono (confined.schedulers id program found) implies
  log := fun slug isEnqueued => implies slug (confined.log slug isEnqueued)

/-- What a scheduler goes on with is bounded, and so is what it enqueues. -/
theorem bounded_respond {op : DebounceOp} {next : DebounceReply op → Debouncing Unit}
    {services services' : Debounce} {response : DebounceResponse} {reply : DebounceReply op}
    (bounded : Bounded admitted (.call op next))
    (waiting : ∀ slug ∈ services.waiting, admitted slug)
    (responded : debounceRespond services op response = some (reply, services')) :
    Bounded admitted (next reply) ∧ (∀ slug ∈ services'.waiting, admitted slug) ∧
      ∀ slug, .enqueued slug ∈ enqueuedBy op response → admitted slug := by
  have stillWaiting : (∀ slug fireAt, op ≠ .command (.zadd slug fireAt)) →
      ∀ slug ∈ services'.waiting, admitted slug := by
    intro noZadd slug waits
    rcases waiting_respond responded waits with before | ⟨fireAt, isOp⟩
    · exact waiting slug before
    · exact absurd isOp (noZadd slug fireAt)
  cases op with
  | nowMs | newJobId =>
    refine ⟨bounded reply, stillWaiting (by simp), ?_⟩
    simp [enqueuedBy]
  | command command =>
    cases response with
    | ms | id => cases responded
    | fate fate =>
      cases command with
      | zadd => exact absurd bounded id
      | connect | setFirst =>
        refine ⟨bounded reply, stillWaiting (by simp), ?_⟩
        simp [enqueuedBy]
      | enqueue msg =>
        refine ⟨bounded.2 reply, stillWaiting (by simp), fun slug isEnqueued => ?_⟩
        simp only [enqueuedBy] at isEnqueued
        split at isEnqueued
        · rw [Trigger.enqueued.inj (List.mem_singleton.mp isEnqueued)]
          exact bounded.1
        · cases isEnqueued
      | popDue now =>
        refine ⟨bounded admitted (fun _ => id) reply ?_, stillWaiting (by simp),
          by simp [enqueuedBy]⟩
        rintro slugs rfl slug isDue
        obtain ⟨isReply, _⟩ := Prod.mk.inj (Option.some.inj responded)
        cases fate with
        | served =>
          obtain rfl := Except.ok.inj isReply
          obtain ⟨fireAt, _, isWaiting⟩ := due_of_mem_dueSlugs isDue
          exact waiting slug
            (AList.lookup_isSome.mp (Option.isSome_iff_exists.mpr ⟨fireAt, isWaiting⟩))
        | refused | lost => cases isReply

/-- Events of admitted slugs and whatever schedulers do keep to the admitted slugs. -/
theorem Debouncer.Confined.step (confined : debouncer.Confined admitted) {action : DebounceAction}
    (events : ∀ id slug, action = .upload id slug → admitted slug)
    (stepped : debouncer.step action = some after) :
    after.Confined admitted := by
  obtain ⟨webhooks, waiting, schedulers, log⟩ := confined
  cases action with
  | upload id slug =>
    simp only [Debouncer.step] at stepped
    split at stepped
    · obtain rfl := Option.some.inj stepped
      refine ⟨fun other webhook found => ?_, waiting, schedulers, log⟩
      rcases lookup_of_insert found with ⟨_, rfl⟩ | ⟨_, before⟩
      · exact ⟨events id slug rfl, records_debounceEvent slug⟩
      · exact webhooks other webhook before
    · cases stepped
  | stopUpload id =>
    obtain rfl := Option.some.inj stepped
    exact ⟨fun other webhook found => webhooks other webhook (lookup_of_erase found).2, waiting,
      schedulers, log⟩
  | tick id =>
    simp only [Debouncer.step] at stepped
    split at stepped
    · obtain rfl := Option.some.inj stepped
      refine ⟨webhooks, waiting, fun other program found => ?_, log⟩
      rcases lookup_of_insert found with ⟨_, rfl⟩ | ⟨_, before⟩
      · exact debounceScheduler_bounded admitted
      · exact schedulers other program before
    · cases stepped
  | stopTick id =>
    obtain rfl := Option.some.inj stepped
    exact ⟨webhooks, waiting,
      fun other program found => schedulers other program (lookup_of_erase found).2, log⟩
  | expireFirst slug =>
    obtain rfl := Option.some.inj stepped
    exact ⟨webhooks, waiting, schedulers, log⟩
  | answerUpload id response =>
    simp only [Debouncer.step] at stepped
    split at stepped
    case h_2 => cases stepped
    next webhook found =>
    split at stepped
    case h_2 => cases stepped
    next op next isCall =>
    split at stepped
    case h_2 => cases stepped
    next reply services responded =>
    obtain rfl := Option.some.inj stepped
    obtain ⟨isAdmitted, records⟩ := webhooks id webhook found
    rw [isCall] at records
    refine ⟨fun other kept lookup => ?_, fun slug waits => ?_, schedulers,
      fun slug isEnqueued => ?_⟩
    · simp only [keepWebhook] at lookup
      split at lookup
      · exact webhooks other kept (lookup_of_erase lookup).2
      · rcases lookup_of_insert lookup with ⟨_, rfl⟩ | ⟨_, before⟩
        · exact ⟨isAdmitted, (answer_records records responded).1⟩
        · exact webhooks other kept before
    · rcases waiting_respond responded waits with before | ⟨fireAt, rfl⟩
      · exact waiting slug before
      · rw [records.1]
        exact isAdmitted
    · rcases List.mem_append.mp isEnqueued with new | before
      · simp only [Webhook.recorded] at new
        split at new
        · exact absurd new (by simp)
        · exact absurd new List.not_mem_nil
      · exact log slug before
  | answerTick id response =>
    simp only [Debouncer.step] at stepped
    split at stepped
    case h_2 | h_3 => cases stepped
    next op next found =>
    split at stepped
    case h_2 => cases stepped
    next reply services responded =>
    obtain rfl := Option.some.inj stepped
    obtain ⟨bounded, stillWaiting, enqueues⟩ :=
      bounded_respond (schedulers id _ found) waiting responded
    refine ⟨webhooks, stillWaiting, fun other program lookup => ?_, fun slug isEnqueued => ?_⟩
    · unfold keepScheduler at lookup
      split at lookup
      · exact schedulers other program (lookup_of_erase lookup).2
      · rcases lookup_of_insert lookup with ⟨_, rfl⟩ | ⟨_, before⟩
        · exact bounded
        · exact schedulers other program before
    · rcases List.mem_append.mp isEnqueued with new | before
      · exact enqueues slug new
      · exact log slug before

end Confined

/-! ## The system keeps account -/

/-- A request with the secret brought an upload that was routed to the slug. -/
def Receiver.Caused (state : WebhookState) (parse : List UInt8 → Option Json.Value) (receiver : Receiver)
    (slug : Text) : Prop :=
  ∃ request ∈ receiver.received, Authorized state request ∧ ∃ answer ∈ receiver.router.answers,
    answer.key ∈ request.uploads state parse ∧ slug ∈ answer.slugs

/-- A handler waits for what it has called. -/
def Receiver.Awaits (receiver : Receiver) (id : Nat) (op : HookOp) : Prop :=
  ∃ post next, receiver.posts.lookup id = some post ∧ post.program = .call op next

/-- What a handler was returned was answered and recorded since it came. -/
structure Post.Sound (receiver : Receiver) (post : Post) : Prop where
  received : post.request ∈ receiver.received
  routed : ∀ route ∈ post.calls.filterMap routeOf, ∃ answer,
    Added post.answers receiver.router.answers answer ∧ answer.key = route.1 ∧ answer.slugs = route.2
  recorded : ∀ slug wait, (slug, Except.ok wait) ∈ post.calls.filterMap eventOf →
    Added post.log receiver.debouncer.log (.recorded slug)
  answers : post.answers <:+ receiver.router.answers
  log : post.log <:+ receiver.debouncer.log

/-- Requests, answers and log only grow. -/
structure Receiver.Grows (receiver after : Receiver) : Prop where
  received : receiver.received <:+ after.received
  answers : receiver.router.answers <:+ after.router.answers
  log : receiver.debouncer.log <:+ after.debouncer.log

/-- What holds throughout a run. -/
structure Receiver.Sound (client : Bool) (document : Object → Option Json.Value) (state : WebhookState)
    (parse : List UInt8 → Option Json.Value) (receiver : Receiver) : Prop where
  router : receiver.router.Sound client document
  confined : receiver.debouncer.Confined (receiver.Caused state parse)
  posts : ∀ id post, receiver.posts.lookup id = some post → post.Sound receiver ∧
    HookKeeps state parse post.request (Accounted state parse post.request) post.program post.calls
  replied : ∀ done ∈ receiver.replied,
    done.1.Sound receiver ∧ Accounted state parse done.1.request done.2 done.1.calls
  calls : ∀ id call, receiver.router.calls.lookup id = some call → receiver.Awaits id (.routeKey call.key)
  events : ∀ id webhook, receiver.debouncer.webhooks.lookup id = some webhook →
    receiver.Awaits id (.debounceEvent webhook.slug)

section Receivers

variable {client : Bool} {document : Object → Option Json.Value} {state : WebhookState}
  {parse : List UInt8 → Option Json.Value} {receiver after : Receiver} {post : Post} {id : Nat}
    {op : HookOp}
  {reply : HookReply op}

/-- What caused a slug is not forgotten. -/
theorem Receiver.Caused.mono {slug : Text} (caused : receiver.Caused state parse slug)
    (grows : receiver.Grows after) : after.Caused state parse slug := by
  obtain ⟨request, isReceived, authorized, answer, isAnswer, isUpload, isSlug⟩ := caused
  exact ⟨request, grows.received.subset isReceived, authorized, answer,
    grows.answers.subset isAnswer, isUpload,
    isSlug⟩

/-- What a handler was returned stays answered and recorded. -/
theorem Post.Sound.mono (sound : post.Sound receiver) (grows : receiver.Grows after) :
    post.Sound after where
  received := grows.received.subset sound.received
  routed := fun route isRoute => by
    obtain ⟨answer, isAdded, same⟩ := sound.routed route isRoute
    exact ⟨answer, isAdded.mono grows.answers, same⟩
  recorded := fun slug wait isEvent => (sound.recorded slug wait isEvent).mono grows.log
  answers := sound.answers.trans grows.answers
  log := sound.log.trans grows.log

/-- A handler that is given a reply, if the reply was answered or recorded. -/
theorem Post.Sound.advance (sound : post.Sound receiver) (rest : Hooking WebhookReply)
    (routed : ∀ route, routeOf ⟨op, reply⟩ = some route → ∃ answer,
      Added post.answers receiver.router.answers answer ∧ answer.key = route.1 ∧
      answer.slugs = route.2)
    (recorded : ∀ slug wait, eventOf ⟨op, reply⟩ = some (slug, .ok wait) →
      Added post.log receiver.debouncer.log (.recorded slug)) :
    (post.advance op reply rest).Sound receiver := by
  refine ⟨sound.received, fun route isRoute => ?_, fun slug wait isEvent => ?_, sound.answers,
    sound.log⟩
  · rw [Post.advance, List.filterMap_append, List.mem_append] at isRoute
    rcases isRoute with before | new
    · exact sound.routed route before
    · obtain ⟨_, isLast, isRoute⟩ := List.mem_filterMap.mp new
      rw [List.mem_singleton.mp isLast] at isRoute
      exact routed route isRoute
  · rw [Post.advance, List.filterMap_append, List.mem_append] at isEvent
    rcases isEvent with before | new
    · exact sound.recorded slug wait before
    · obtain ⟨_, isLast, isEvent⟩ := List.mem_filterMap.mp new
      rw [List.mem_singleton.mp isLast] at isEvent
      exact recorded slug wait isEvent

/-- A handler that waits has a reason, and goes on with whatever it is given. -/
theorem keeps_advance {next : HookReply op → Hooking WebhookReply}
    (keeps : HookKeeps state parse post.request (Accounted state parse post.request) post.program
      post.calls)
    (isCall : post.program = .call op next) (reply : HookReply op) :
    Authorized state post.request ∧ Justified state parse post.request post.calls op ∧
      HookKeeps state parse post.request (Accounted state parse post.request)
        (post.advance op reply (next reply)).program
          (post.advance op reply (next reply)).calls := by
  rw [isCall] at keeps
  obtain ⟨_, ⟨authorized, justified, rfl⟩, further⟩ := keeps reply trivial
  exact ⟨authorized, justified, further⟩

/-- A handler waits for one call only. -/
theorem Receiver.Awaits.unique {other : HookOp} {next : HookReply op → Hooking WebhookReply}
    (awaits : receiver.Awaits id other) (found : receiver.posts.lookup id = some post)
    (isCall : post.program = .call op next) : other = op := by
  obtain ⟨_, _, isPost, isOther⟩ := awaits
  obtain rfl := Option.some.inj (found.symm.trans isPost)
  exact (Program.call.inj (isOther.symm.trans isCall)).1

/-- What leaves the handlers where they are. -/
theorem Receiver.Sound.grow (sound : receiver.Sound client document state parse)
    (grows : receiver.Grows after)
    (posts : after.posts = receiver.posts) (replied : after.replied = receiver.replied)
    (router : after.router.Sound client document)
    (confined : after.debouncer.Confined (after.Caused state parse))
    (calls : ∀ id call, after.router.calls.lookup id = some call →
      receiver.Awaits id (.routeKey call.key))
    (events : ∀ id webhook, after.debouncer.webhooks.lookup id = some webhook →
      receiver.Awaits id (.debounceEvent webhook.slug)) :
        after.Sound client document state parse := by
  refine ⟨router, confined, ?_, ?_, ?_, ?_⟩
  · rw [posts]
    exact fun id post found => (sound.posts id post found).imp_left
      (fun isSound => isSound.mono grows)
  · rw [replied]
    exact fun done isDone => (sound.replied done isDone).imp_left
      (fun isSound => isSound.mono grows)
  · intro id call found
    rw [Receiver.Awaits, posts]
    exact calls id call found
  · intro id webhook found
    rw [Receiver.Awaits, posts]
    exact events id webhook found

/-- A handler goes on or replies, once nobody works for it. -/
theorem Receiver.Sound.keep (router : receiver.router.Sound client document)
    (confined : receiver.debouncer.Confined (receiver.Caused state parse))
    (posts : ∀ id post, receiver.posts.lookup id = some post → post.Sound receiver ∧
      HookKeeps state parse post.request (Accounted state parse post.request) post.program
        post.calls)
    (replied : ∀ done ∈ receiver.replied,
      done.1.Sound receiver ∧ Accounted state parse done.1.request done.2 done.1.calls)
    (calls : ∀ other call, receiver.router.calls.lookup other = some call →
      other ≠ id ∧ receiver.Awaits other (.routeKey call.key))
    (events : ∀ other webhook, receiver.debouncer.webhooks.lookup other = some webhook →
      other ≠ id ∧ receiver.Awaits other (.debounceEvent webhook.slug))
    (isSound : post.Sound receiver)
    (keeps : HookKeeps state parse post.request (Accounted state parse post.request) post.program
      post.calls) :
    (receiver.keep id post).Sound client document state parse := by
  have still : ∀ {posts replied},
    receiver.Grows { receiver with posts := posts, replied := replied } :=
    ⟨List.suffix_refl _, List.suffix_refl _, List.suffix_refl _⟩
  unfold Receiver.keep
  split
  · next reply isDone =>
    rw [isDone] at keeps
    refine ⟨router, confined, fun other found lookup => ?_, ?_, fun other call lookup => ?_,
      fun other webhook lookup => ?_⟩
    · exact (posts other found (lookup_of_erase lookup).2).imp_left
        (fun isSound => isSound.mono still)
    · exact List.forall_mem_cons.mpr ⟨⟨isSound.mono still, keeps⟩,
        fun done isDone => (replied done isDone).imp_left (fun isSound => isSound.mono still)⟩
    · obtain ⟨different, found, next, isFound, isCall⟩ := calls other call lookup
      exact ⟨found, next, (AList.lookup_erase_ne different).trans isFound, isCall⟩
    · obtain ⟨different, found, next, isFound, isCall⟩ := events other webhook lookup
      exact ⟨found, next, (AList.lookup_erase_ne different).trans isFound, isCall⟩
  · refine ⟨router, confined, fun other found lookup => ?_, ?_, fun other call lookup => ?_,
      fun other webhook lookup => ?_⟩
    · rcases lookup_of_insert lookup with ⟨_, rfl⟩ | ⟨_, before⟩
      · exact ⟨isSound.mono still, keeps⟩
      · exact (posts other found before).imp_left (fun isSound => isSound.mono still)
    · exact fun done isDone => (replied done isDone).imp_left (fun isSound => isSound.mono still)
    · obtain ⟨different, found, next, isFound, isCall⟩ := calls other call lookup
      exact ⟨found, next, (AList.lookup_insert_ne different).trans isFound, isCall⟩
    · obtain ⟨different, found, next, isFound, isCall⟩ := events other webhook lookup
      exact ⟨found, next, (AList.lookup_insert_ne different).trans isFound, isCall⟩

/-- A handler is given what it waits for, and nobody works for it any more. -/
theorem Receiver.Sound.advance (sound : receiver.Sound client document state parse)
    (grows : receiver.Grows after)
    (posts : after.posts = receiver.posts) (replied : after.replied = receiver.replied)
    (router : after.router.Sound client document)
    (confined : after.debouncer.Confined (receiver.Caused state parse))
    (calls : ∀ other call, after.router.calls.lookup other = some call →
      other ≠ id ∧ receiver.Awaits other (.routeKey call.key))
    (events : ∀ other webhook, after.debouncer.webhooks.lookup other = some webhook →
      other ≠ id ∧ receiver.Awaits other (.debounceEvent webhook.slug))
    {next : HookReply op → Hooking WebhookReply} (found : receiver.posts.lookup id = some post)
    (isCall : post.program = .call op next)
    (routed : ∀ route, routeOf ⟨op, reply⟩ = some route → ∃ answer,
      Added post.answers after.router.answers answer ∧ answer.key = route.1 ∧
      answer.slugs = route.2)
    (recorded : ∀ slug wait, eventOf ⟨op, reply⟩ = some (slug, .ok wait) →
      Added post.log after.debouncer.log (.recorded slug)) :
    (after.keep id (post.advance op reply (next reply))).Sound client document state parse := by
  obtain ⟨isSound, keeps⟩ := sound.posts id post found
  obtain ⟨-, -, further⟩ := keeps_advance keeps isCall reply
  have awaits : ∀ {other waited}, receiver.Awaits other waited → after.Awaits other waited := by
    intro other waited awaits
    rw [Receiver.Awaits, posts]
    exact awaits
  refine Receiver.Sound.keep router (confined.mono (fun slug caused => caused.mono grows)) ?_ ?_
    (fun other call lookup => (calls other call lookup).imp_right awaits)
    (fun other webhook lookup => (events other webhook lookup).imp_right awaits)
    ((isSound.mono grows).advance (next reply) routed recorded) further
  · rw [posts]
    exact fun other post lookup => (sound.posts other post lookup).imp_left
      (fun isSound => isSound.mono grows)
  · rw [replied]
    exact fun done isDone => (sound.replied done isDone).imp_left
      (fun isSound => isSound.mono grows)

/-- Nobody works for a handler that waits for something else. -/
theorem Receiver.Sound.idle (sound : receiver.Sound client document state parse)
    {next : HookReply op → Hooking WebhookReply} (found : receiver.posts.lookup id = some post)
    (isCall : post.program = .call op next) :
    ((∀ key, op ≠ .routeKey key) → receiver.router.calls.lookup id = none) ∧
      ((∀ slug, op ≠ .debounceEvent slug) → receiver.debouncer.webhooks.lookup id = none) := by
  refine ⟨fun different => ?_, fun different => ?_⟩
  · cases lookup : receiver.router.calls.lookup id with
    | none => rfl
    | some call =>
        exact absurd ((sound.calls id call lookup).unique found isCall).symm (different _)
  · cases lookup : receiver.debouncer.webhooks.lookup id with
    | none => rfl
    | some webhook =>
        exact absurd ((sound.events id webhook lookup).unique found isCall).symm (different _)

/-- Who works for others does not work for a handler for which nobody does. -/
theorem other_of_lookup {β : Type} {entries : AList (fun _ : Nat => β)} {other : Nat} {value : β}
    (isNone : entries.lookup id = none) (found : entries.lookup other = some value) :
    other ≠ id := by
  rintro rfl
  exact Option.some_ne_none _ (found.symm.trans isNone)

/-- One step keeps it. -/
theorem Receiver.Sound.step (sound : receiver.Sound client document state parse)
    {action : ReceiverAction} (permits : receiver.Permits action)
    (stepped : receiver.step client document state parse action = some after) :
    after.Sound client document state parse := by
  cases action with
  | router action =>
    simp only [Receiver.step] at stepped
    split at stepped
    case isFalse => cases stepped
    next isOutside =>
    obtain ⟨routed, isStep, rfl⟩ := Option.map_eq_some_iff.mp stepped
    obtain ⟨sameCalls, sameAnswers⟩ := router_outside isOutside isStep
    have grows : receiver.Grows { receiver with router := routed } :=
      ⟨List.suffix_refl _, sameAnswers ▸ List.suffix_refl _, List.suffix_refl _⟩
    refine sound.grow grows rfl rfl (sound.router.step permits isStep)
      (sound.confined.mono (fun slug caused => caused.mono grows)) ?_ sound.events
    rw [sameCalls]
    exact sound.calls
  | debouncer action =>
    simp only [Receiver.step] at stepped
    split at stepped
    case isFalse => cases stepped
    next isOutside =>
    obtain ⟨debounced, isStep, rfl⟩ := Option.map_eq_some_iff.mp stepped
    obtain ⟨sameWebhooks, logged⟩ := debouncer_outside isOutside isStep
    have grows : receiver.Grows { receiver with debouncer := debounced } :=
      ⟨List.suffix_refl _, List.suffix_refl _, logged⟩
    have noEvents : ∀ id slug, action = .upload id slug → receiver.Caused state parse slug := by
      rintro id slug rfl
      cases isOutside
    refine sound.grow grows rfl rfl sound.router
      ((sound.confined.step noEvents isStep).mono (fun slug caused => caused.mono grows))
        sound.calls ?_
    rw [sameWebhooks]
    exact sound.events
  | post id request =>
    simp only [Receiver.step] at stepped
    split at stepped
    case h_2 => cases stepped
    next isNew =>
    obtain rfl := Option.some.inj stepped
    have grows : receiver.Grows { receiver with received := request :: receiver.received } :=
      ⟨List.suffix_cons _ _, List.suffix_refl _, List.suffix_refl _⟩
    have another : ∀ {other op}, receiver.Awaits other op → other ≠ id := by
      rintro other op ⟨post, next, found, -⟩ rfl
      exact Option.some_ne_none _ (found.symm.trans isNew)
    refine Receiver.Sound.keep sound.router
      (sound.confined.mono (fun slug caused => caused.mono grows))
      (fun other post found => (sound.posts other post found).imp_left
        (fun isSound => isSound.mono grows))
      (fun done isDone => (sound.replied done isDone).imp_left (fun isSound => isSound.mono grows))
      (fun other call found =>
        ⟨another (sound.calls other call found), sound.calls other call found⟩)
      (fun other webhook found =>
        ⟨another (sound.events other webhook found), sound.events other webhook found⟩)
      ⟨List.mem_cons_self, ?_, ?_, List.suffix_refl _, List.suffix_refl _⟩
        (postS3Events_keeps request)
    · intro route isRoute
      cases isRoute
    · intro slug wait isEvent
      cases isEvent
  | connected id result =>
    simp only [Receiver.step] at stepped
    split at stepped
    case h_2 => cases stepped
    next post found =>
    split at stepped
    case h_2 => cases stepped
    next next isCall =>
    obtain rfl := Option.some.inj stepped
    obtain ⟨noCalls, noEvents⟩ := sound.idle found isCall
    refine sound.advance ⟨List.suffix_refl _, List.suffix_refl _, List.suffix_refl _⟩ rfl rfl
      sound.router
      sound.confined (fun other call lookup => ⟨?_, sound.calls other call lookup⟩)
      (fun other webhook lookup => ⟨?_, sound.events other webhook lookup⟩) found isCall ?_ ?_
    · exact other_of_lookup (noCalls (fun key impossible => by cases impossible)) lookup
    · exact other_of_lookup (noEvents (fun slug impossible => by cases impossible)) lookup
    · intro route isRoute
      cases isRoute
    · intro slug wait isEvent
      cases isEvent
  | call id =>
    simp only [Receiver.step] at stepped
    split at stepped
    case h_2 => cases stepped
    next post found =>
    split at stepped
    case h_3 => cases stepped
    · next key next isCall =>
      obtain ⟨routed, isStep, rfl⟩ := Option.map_eq_some_iff.mp stepped
      obtain ⟨call, isCalled, isKey, sameAnswers⟩ := router_upload isStep
      have grows : receiver.Grows { receiver with router := routed } :=
        ⟨List.suffix_refl _, sameAnswers ▸ List.suffix_refl _, List.suffix_refl _⟩
      have admitted : receiver.router.Permits (.upload id key) := trivial
      refine sound.grow grows rfl rfl (sound.router.step admitted isStep)
        (sound.confined.mono (fun slug caused => caused.mono grows))
          (fun other called lookup => ?_) sound.events
      rw [isCalled] at lookup
      rcases lookup_of_insert lookup with ⟨rfl, rfl⟩ | ⟨_, before⟩
      · rw [isKey]
        exact ⟨post, next, found, isCall⟩
      · exact sound.calls other called before
    · next slug next isCall =>
      obtain ⟨debounced, isStep, rfl⟩ := Option.map_eq_some_iff.mp stepped
      obtain ⟨webhook, isWebhook, isSlug, sameLog⟩ := debouncer_upload isStep
      have grows : receiver.Grows { receiver with debouncer := debounced } :=
        ⟨List.suffix_refl _, List.suffix_refl _, sameLog ▸ List.suffix_refl _⟩
      have caused : receiver.Caused state parse slug := by
        obtain ⟨isSound, keeps⟩ := sound.posts id post found
        obtain ⟨authorized, ⟨route, isRoute, isUpload, isMatch⟩, -⟩ :=
          keeps_advance keeps isCall (.error [])
        obtain ⟨answer, isAdded, isKey, areSlugs⟩ := isSound.routed route isRoute
        exact ⟨post.request, isSound.received, authorized, answer, isAdded.mem, isKey ▸ isUpload,
          areSlugs ▸ isMatch⟩
      have isEvent : ∀ other event, DebounceAction.upload id slug = .upload other event →
          receiver.Caused state parse event := by
        rintro _ _ ⟨⟩
        exact caused
      refine sound.grow grows rfl rfl sound.router
        ((sound.confined.step isEvent isStep).mono (fun slug caused => caused.mono grows))
          sound.calls
        (fun other event lookup => ?_)
      rw [isWebhook] at lookup
      rcases lookup_of_insert lookup with ⟨rfl, rfl⟩ | ⟨_, before⟩
      · rw [isSlug]
        exact ⟨post, next, found, isCall⟩
      · exact sound.events other event before
  | route id given =>
    simp only [Receiver.step] at stepped
    split at stepped
    case h_2 => cases stepped
    next post found =>
    split at stepped
    case h_2 => cases stepped
    next key next isCall =>
    obtain ⟨routed, isStep, rfl⟩ := Option.map_eq_some_iff.mp stepped
    have router := sound.router.step permits isStep
    obtain ⟨_, noEvents⟩ := sound.idle found isCall
    have events : ∀ other webhook, receiver.debouncer.webhooks.lookup other = some webhook →
        other ≠ id ∧ receiver.Awaits other (.debounceEvent webhook.slug) :=
          fun other webhook lookup =>
      ⟨other_of_lookup (noEvents (fun slug impossible => by cases impossible)) lookup,
        sound.events other webhook lookup⟩
    obtain ⟨call, isCalled, returned | goesOn⟩ := router_answer isStep
    · obtain ⟨answer, returns, isKey, calls, answers⟩ := returned
      have sameKey : call.key = key :=
        HookOp.routeKey.inj ((sound.calls id call isCalled).unique found isCall)
      have grows : receiver.Grows { receiver with router := routed } :=
        ⟨List.suffix_refl _, answers ▸ List.suffix_cons _ _, List.suffix_refl _⟩
      rw [returns]
      refine sound.advance grows rfl rfl router sound.confined (fun other call lookup => ?_) events
        found isCall ?_ ?_
      · rw [calls] at lookup
        obtain ⟨different, before⟩ := lookup_of_erase lookup
        exact ⟨different, sound.calls other call before⟩
      · rintro _ ⟨⟩
        rw [answers]
        exact ⟨answer, added_cons answer (sound.posts id post found).1.answers,
          isKey.trans sameKey, rfl⟩
      · intro slug wait isEvent
        cases isEvent
    · obtain ⟨returns, answers, called, calls, isKey⟩ := goesOn
      have grows : receiver.Grows { receiver with router := routed } :=
        ⟨List.suffix_refl _, answers ▸ List.suffix_refl _, List.suffix_refl _⟩
      rw [returns]
      refine sound.grow grows rfl rfl router
        (sound.confined.mono (fun slug caused => caused.mono grows))
        (fun other other' lookup => ?_) sound.events
      rw [calls] at lookup
      rcases lookup_of_insert lookup with ⟨rfl, rfl⟩ | ⟨_, before⟩
      · rw [isKey]
        exact sound.calls other call isCalled
      · exact sound.calls other other' before
  | debounce id response =>
    simp only [Receiver.step] at stepped
    split at stepped
    case h_2 => cases stepped
    next post found =>
    split at stepped
    case h_2 => cases stepped
    next slug next isCall =>
    obtain ⟨debounced, isStep, rfl⟩ := Option.map_eq_some_iff.mp stepped
    have noUpload : ∀ other event, DebounceAction.answerUpload id response = .upload other event →
        receiver.Caused state parse event := fun _ _ impossible => by cases impossible
    have confined := sound.confined.step noUpload isStep
    obtain ⟨noCalls, _⟩ := sound.idle found isCall
    have calls : ∀ other call, receiver.router.calls.lookup other = some call →
        other ≠ id ∧ receiver.Awaits other (.routeKey call.key) := fun other call lookup =>
      ⟨other_of_lookup
        (noCalls (fun key impossible => by cases impossible)) lookup, sound.calls other call lookup⟩
    obtain ⟨webhook, isWebhook, returned | goesOn⟩ := debouncer_answer isStep
    · obtain ⟨result, added, returns, webhooks, log, isRecorded⟩ := returned
      have sameSlug : webhook.slug = slug :=
        HookOp.debounceEvent.inj ((sound.events id webhook isWebhook).unique found isCall)
      have grows : receiver.Grows { receiver with debouncer := debounced } :=
        ⟨List.suffix_refl _, List.suffix_refl _, log ▸ List.suffix_append _ _⟩
      rw [returns]
      refine sound.advance grows rfl rfl sound.router confined calls
        (fun other webhook lookup => ?_) found isCall
        ?_ ?_
      · rw [webhooks] at lookup
        obtain ⟨different, before⟩ := lookup_of_erase lookup
        exact ⟨different, sound.events other webhook before⟩
      · intro route isRoute
        cases isRoute
      · intro event wait isEvent
        obtain ⟨rfl, rfl⟩ := Prod.mk.inj (Option.some.inj isEvent)
        rw [log, isRecorded wait rfl, sameSlug]
        exact added_cons _ (sound.posts id post found).1.log
    · obtain ⟨returns, log, program, webhooks⟩ := goesOn
      have grows : receiver.Grows { receiver with debouncer := debounced } :=
        ⟨List.suffix_refl _, List.suffix_refl _, log ▸ List.suffix_refl _⟩
      rw [returns]
      refine sound.grow grows rfl rfl sound.router
        (confined.mono (fun slug caused => caused.mono grows)) sound.calls
        (fun other event lookup => ?_)
      rw [webhooks] at lookup
      rcases lookup_of_insert lookup with ⟨rfl, rfl⟩ | ⟨_, before⟩
      · exact sound.events other webhook isWebhook
      · exact sound.events other event before
  | stop id =>
    obtain rfl := Option.some.inj stepped
    obtain ⟨router, confined, posts, replied, calls, events⟩ := sound
    have still : ∀ {other op}, other ≠ id → receiver.Awaits other op →
        ∃ post next, (receiver.posts.erase id).lookup other = some post ∧
          post.program = .call op next := by
      rintro other op different ⟨post, next, found, isCall⟩
      exact ⟨post, next, (AList.lookup_erase_ne different).trans found, isCall⟩
    have stopped : (receiver.debouncer.step (.stopUpload id)) =
        some { receiver.debouncer with webhooks := receiver.debouncer.webhooks.erase id } := rfl
    have admitted : receiver.router.Permits (.stop id) := trivial
    refine ⟨router.step admitted rfl, confined.step (fun _ _ impossible => ?_) stopped,
      fun other post lookup => ?_, fun done isDone => ?_, fun other call lookup => ?_,
        fun other webhook lookup => ?_⟩
    · cases impossible
    · exact (posts other post (lookup_of_erase lookup).2).imp_left (fun isSound => isSound.mono
        ⟨List.suffix_refl _, List.suffix_refl _, List.suffix_refl _⟩)
    · exact (replied done isDone).imp_left (fun isSound => isSound.mono
        ⟨List.suffix_refl _, List.suffix_refl _, List.suffix_refl _⟩)
    · obtain ⟨different, before⟩ := lookup_of_erase lookup
      exact still different (calls other call before)
    · obtain ⟨different, before⟩ := lookup_of_erase lookup
      exact still different (events other webhook before)

/-- A handler that goes on leaves the debouncer. -/
theorem keep_debouncer (receiver : Receiver) (id : Nat) (post : Post) :
    (receiver.keep id post).debouncer = receiver.debouncer := by
  unfold Receiver.keep
  split <;> rfl

/-- A step leaves the debouncer or is one of its steps, which delivers what the schedulers pop. -/
theorem receiver_debounces {action : ReceiverAction} (enqueues : receiver.Enqueues action)
    (stepped : receiver.step client document state parse action = some after) :
    after.debouncer = receiver.debouncer ∨
      Runs.Admits Debouncer.step Delivers receiver.debouncer after.debouncer := by
  cases action with
  | router action =>
    simp only [Receiver.step] at stepped
    split at stepped
    · obtain ⟨_, _, rfl⟩ := Option.map_eq_some_iff.mp stepped
      exact Or.inl rfl
    · cases stepped
  | debouncer action =>
    simp only [Receiver.step] at stepped
    split at stepped
    · obtain ⟨_, isStep, rfl⟩ := Option.map_eq_some_iff.mp stepped
      exact Or.inr ⟨action, enqueues, isStep⟩
    · cases stepped
  | post id request =>
    simp only [Receiver.step] at stepped
    split at stepped
    · obtain rfl := Option.some.inj stepped
      exact Or.inl (keep_debouncer _ _ _)
    · cases stepped
  | stop id =>
    obtain rfl := Option.some.inj stepped
    exact Or.inr ⟨.stopUpload id, trivial, rfl⟩
  | connected id result =>
    simp only [Receiver.step] at stepped
    split at stepped
    case h_2 => cases stepped
    split at stepped
    case h_2 => cases stepped
    obtain rfl := Option.some.inj stepped
    exact Or.inl (keep_debouncer _ _ _)
  | call id =>
    simp only [Receiver.step] at stepped
    split at stepped
    case h_2 => cases stepped
    split at stepped
    case h_3 => cases stepped
    · obtain ⟨_, _, rfl⟩ := Option.map_eq_some_iff.mp stepped
      exact Or.inl rfl
    · next slug next isCall =>
      obtain ⟨_, isStep, rfl⟩ := Option.map_eq_some_iff.mp stepped
      exact Or.inr ⟨.upload id slug, trivial, isStep⟩
  | route id given =>
    simp only [Receiver.step] at stepped
    split at stepped
    case h_2 => cases stepped
    split at stepped
    case h_2 => cases stepped
    obtain ⟨_, _, rfl⟩ := Option.map_eq_some_iff.mp stepped
    split
    · exact Or.inl (keep_debouncer _ _ _)
    · exact Or.inl rfl
  | debounce id response =>
    simp only [Receiver.step] at stepped
    split at stepped
    case h_2 => cases stepped
    split at stepped
    case h_2 => cases stepped
    obtain ⟨_, isStep, rfl⟩ := Option.map_eq_some_iff.mp stepped
    refine Or.inr ⟨.answerUpload id response, trivial, ?_⟩
    split
    · rw [keep_debouncer]
      exact isStep
    · exact isStep

/-- If whatever is popped is enqueued, every recorded event waits or is in the hands of a scheduler,
unless a job followed it. -/
theorem receiver_held {pipelines : Store} {now : Nat} {redis : Redis}
    (reached : Runs.Reaches (Receiver.step client document state parse) Receiver.Enqueues
      (Receiver.initial pipelines now redis) receiver) : Held receiver.debouncer :=
  triggers_held (Runs.Reaches.projected Receiver.debouncer
    (fun _ _ _ enqueues stepped => receiver_debounces enqueues stepped) reached)

/-- Nothing has come yet. -/
theorem receiver_initial (pipelines : Store) (now : Nat) (redis : Redis) :
    (Receiver.initial pipelines now redis).Sound client document state parse := by
  refine ⟨router_initial pipelines now, ⟨?_, ?_, ?_, ?_⟩, ?_, ?_, ?_, ?_⟩ <;>
    simp [Receiver.initial, Debouncer.initial, Router.initial]

/-- What a reply tells of a request that was accepted. -/
structure Post.Told (document : Object → Option Json.Value) (state : WebhookState)
    (parse : List UInt8 → Option Json.Value) (receiver : Receiver) (post : Post) (received : Nat)
    (scheduled : List Text) : Prop where
  authorized : Authorized state post.request
  counted : ∃ records, post.request.records parse = some records ∧ received = records.length
  once : scheduled.Nodup
  recorded : ∀ slug ∈ scheduled, Added post.log receiver.debouncer.log (.recorded slug)
  routed : ∀ slug ∈ scheduled, ∃ answer, Added post.answers receiver.router.answers answer ∧
    answer.Right document ∧ answer.key ∈ post.request.uploads state parse ∧ slug ∈ answer.slugs
  complete : ∀ key ∈ post.request.uploads state parse, ∃ answer, Added post.answers receiver.router.answers answer ∧
    answer.Right document ∧ answer.key = key ∧ ∀ slug ∈ answer.slugs, slug ∈ scheduled ∨
      ∃ error, (slug, Except.error error) ∈ post.calls.filterMap eventOf

/-- A handler whose calls are accounted for tells so. -/
theorem Post.Sound.told (isSound : post.Sound receiver)
    (router : receiver.router.Sound client document) {received : Nat} {scheduled : List Text}
    (handled : Accounted state parse post.request (.accepted received scheduled) post.calls) :
    post.Told document state parse receiver received scheduled := by
  obtain ⟨authorized, records, isRecords, count, keys, slugs, once, exact⟩ := handled
  have uploads : post.request.uploads state parse = (post.calls.filterMap routeOf).map
    Prod.fst := by
    rw [WebhookRequest.uploads, isRecords, keys]
    rfl
  refine ⟨authorized, ⟨records, isRecords, count⟩, once, fun slug isScheduled => ?_,
    fun slug isScheduled => ?_,
    fun key isUpload => ?_⟩
  · obtain ⟨wait, isEvent⟩ := (exact slug).mp isScheduled
    exact isSound.recorded slug wait isEvent
  · obtain ⟨wait, isEvent⟩ := (exact slug).mp isScheduled
    have isSlug : slug ∈ (post.calls.filterMap eventOf).map Prod.fst := List.mem_map_of_mem isEvent
    rw [slugs, List.mem_flatten] at isSlug
    obtain ⟨_, isRouted, isSlug⟩ := isSlug
    obtain ⟨route, isRoute, rfl⟩ := List.mem_map.mp isRouted
    obtain ⟨answer, isAdded, isKey, areSlugs⟩ := isSound.routed route isRoute
    refine ⟨answer, isAdded, (router.answers answer isAdded.mem).1, ?_, areSlugs ▸ isSlug⟩
    rw [uploads, isKey]
    exact List.mem_map_of_mem isRoute
  · rw [uploads] at isUpload
    obtain ⟨route, isRoute, rfl⟩ := List.mem_map.mp isUpload
    obtain ⟨answer, isAdded, isKey, areSlugs⟩ := isSound.routed route isRoute
    refine ⟨answer, isAdded, (router.answers answer isAdded.mem).1, isKey, fun slug isSlug => ?_⟩
    have hasEvent : slug ∈ (post.calls.filterMap eventOf).map Prod.fst := by
      rw [slugs]
      exact List.mem_flatten_of_mem (List.mem_map_of_mem isRoute) (areSlugs ▸ isSlug)
    obtain ⟨⟨_, result⟩, isEvent, rfl⟩ := List.mem_map.mp hasEvent
    cases result with
    | ok wait => exact Or.inl ((exact _).mpr ⟨wait, isEvent⟩)
    | error error => exact Or.inr ⟨error, isEvent⟩

/-- In every run, a reply tells what was routed and recorded since the request came, a request
that is turned away has no events, and a job is enqueued only for what the uploads of a request
with the secret were routed to. If the schedulers enqueue whatever they pop, no recorded event is
ever out of hand. -/
theorem webhook_triggers (client : Bool) (document : Object → Option Json.Value) (state : WebhookState)
    (parse : List UInt8 → Option Json.Value) (pipelines : Store) (now : Nat) (redis : Redis) {receiver : Receiver}
    (reached : Runs.Reaches (Receiver.step client document state parse) Receiver.Permits
      (Receiver.initial pipelines now redis) receiver) :
    (∀ post received scheduled, (post, .accepted received scheduled) ∈ receiver.replied →
      post.Told document state parse receiver received scheduled) ∧
    (∀ post status kind message details, (post, .error status kind message details) ∈ receiver.replied →
      post.calls.filterMap eventOf = []) ∧
    (∀ slug, .enqueued slug ∈ receiver.debouncer.log → receiver.Caused state parse slug) ∧
    (Runs.Reaches (Receiver.step client document state parse) Receiver.Enqueues
      (Receiver.initial pipelines now redis) receiver → Held receiver.debouncer) := by
  have sound : receiver.Sound client document state parse :=
    reached.invariant (Receiver.Sound client document state parse)
      (receiver_initial pipelines now redis)
      (fun _ _ _ sound permits stepped => sound.step permits stepped)
  refine ⟨fun post received scheduled isReply => ?_,
    fun post status kind message details isReply => ?_,
    sound.confined.log, receiver_held⟩
  · obtain ⟨isSound, handled⟩ := sound.replied _ isReply
    exact isSound.told sound.router handled
  · exact (sound.replied _ isReply).2

end Receivers

/-! ## A first notification -/

/-- One object is created in the lake. -/
def firstRecord : S3EventRecord :=
  ⟨"s3:ObjectCreated:Put".toList, some "lake".toList, some "in/a.csv".toList⟩

/-- A notification of one object created in the lake. -/
def firstBody : List UInt8 := Utf8.encode
  ("\x7b\"Records\":[\x7b\"eventName\":\"s3:ObjectCreated:Put\",\"s3\":\x7b\"bucket\":\x7b\"name\":\"lake\"\x7d," ++
    "\"object\":\x7b\"key\":\"in/a.csv\"\x7d\x7d\x7d]\x7d").toList

/-- What its text says. -/
def firstParse (bytes : List UInt8) : Option Json.Value :=
  if bytes = firstBody then some (eventPayload.write [firstRecord]) else none

/-- A server with a queue and a secret. -/
def firstState : WebhookState := ⟨true, some "k".toList, "lake".toList⟩

/-- A request that carries the secret as a bearer token. -/
def firstRequest : WebhookRequest := ⟨none, some "Bearer k".toList, some firstBody⟩

/-- The same request with another secret. -/
def forgedRequest : WebhookRequest := { firstRequest with authorization := some "Bearer x".toList }

/-- What the object store's answers and the schedulers keep to. -/
def Receiver.Keeps (receiver : Receiver) (action : ReceiverAction) : Prop :=
  receiver.Permits action ∧ receiver.Enqueues action

/-- A pop or an enqueue that is served is delivered. -/
theorem delivers_served (debouncer : Debouncer) (id : Nat) :
    Delivers debouncer (.answerTick id (.fate .served)) := by
  intro command next _
  exact ⟨fun _ _ impossible => (nomatch impossible), fun _ => rfl⟩

/-- The object's upload goes to the pipeline, whose job a scheduler enqueues when its window is over.
A request with another secret is turned away. -/
theorem webhook_triggers_first : ∃ (receiver : Receiver) (post forged : Post),
    (post, .accepted 1 ["s".toList]) ∈ receiver.replied ∧
    post.Told oneDocument firstState firstParse receiver 1 ["s".toList] ∧
    (forged, .error 401 "unauthorized".toList "missing or invalid webhook secret".toList []) ∈ receiver.replied ∧
    forged.calls.filterMap eventOf = [] ∧
    .enqueued "s".toList ∈ receiver.debouncer.log ∧ receiver.Caused firstState firstParse "s".toList ∧
    Held receiver.debouncer := by
  -- The body is compared with the text that is parsed.
  set_option maxRecDepth 1000 in
  have come : Runs.Reaches (Receiver.step true oneDocument firstState firstParse) Receiver.Keeps
      (Receiver.initial onePipeline 7 Redis.empty) _ :=
    .tail .refl ⟨.post 0 firstRequest, ⟨trivial, trivial⟩, rfl⟩
  have connected := come.tail ⟨.connected 0 (.ok ()), ⟨trivial, trivial⟩, rfl⟩
  have called := connected.tail ⟨.call 0, ⟨trivial, trivial⟩, rfl⟩
  have looked := called.tail ⟨.route 0 .performed, ⟨trivial, trivial⟩, rfl⟩
  have listed := looked.tail ⟨.route 0 (.listed (.ok [configKey "s".toList])), ⟨by
    intro call isCall
    rw [← Option.some.inj isCall]
    exact onePipeline_listed, trivial⟩, rfl⟩
  have got := listed.tail ⟨.route 0 (.got (.ok (.data []))), ⟨by
    intro call key next isCall reads
    rw [← Option.some.inj isCall] at reads
    cases reads
    exact onePipeline_found, trivial⟩, rfl⟩
  have routed := got.tail ⟨.route 0 .performed, ⟨trivial, trivial⟩, rfl⟩
  have recording := routed.tail ⟨.call 0, ⟨trivial, trivial⟩, rfl⟩
  have timed := recording.tail ⟨.debounce 0 (.ms 100), ⟨trivial, trivial⟩, rfl⟩
  have opened := timed.tail ⟨.debounce 0 (.fate .served), ⟨trivial, trivial⟩, rfl⟩
  have replied := opened.tail ⟨.debounce 0 (.fate .served), ⟨trivial, trivial⟩, rfl⟩
  have refused := replied.tail ⟨.post 1 forgedRequest, ⟨trivial, trivial⟩, rfl⟩
  have ticked := refused.tail ⟨.debouncer (.tick 0), ⟨trivial, trivial⟩, rfl⟩
  have ready :=
    ticked.tail ⟨.debouncer (.answerTick 0 (.fate .served)), ⟨trivial, delivers_served _ 0⟩, rfl⟩
  have now := ready.tail ⟨.debouncer (.answerTick 0 (.ms 5100)), ⟨trivial, trivial⟩, rfl⟩
  have popped :=
    now.tail ⟨.debouncer (.answerTick 0 (.fate .served)), ⟨trivial, delivers_served _ 0⟩, rfl⟩
  have named := popped.tail ⟨.debouncer (.answerTick 0 (.id "j".toList)), ⟨trivial, trivial⟩, rfl⟩
  have dated := named.tail ⟨.debouncer (.answerTick 0 (.ms 5101)), ⟨trivial, trivial⟩, rfl⟩
  have enqueued :=
    dated.tail ⟨.debouncer (.answerTick 0 (.fate .served)), ⟨trivial, delivers_served _ 0⟩, rfl⟩
  obtain ⟨tells, refuses, caused, held⟩ :=
    webhook_triggers true oneDocument firstState firstParse onePipeline 7
    Redis.empty (Runs.Reaches.mono enqueued (fun _ _ keeps => keeps.1))
  exact ⟨_, _, _, List.mem_cons_of_mem _ List.mem_cons_self,
    tells _ _ _ (List.mem_cons_of_mem _ List.mem_cons_self), List.mem_cons_self,
    refuses _ _ _ _ _ List.mem_cons_self, List.mem_cons_self, caused _ List.mem_cons_self,
    held (Runs.Reaches.mono enqueued (fun _ _ keeps => keeps.2))⟩

end KaretWorker
