import KaretWorker.ConfigDocument
import KaretWorker.Library.Index
import KaretWorker.Library.Runs
import KaretWorker.Listing
import KaretWorker.UploadKeys

/-!
# Routing uploads to pipelines

A webhook asks which pipelines have a source around the key of an upload (`route_key` of
`src/http.rs`). The table it looks in is built from the stored configurations, trusted for half
a minute, and forgotten when a configuration is validated. Any number of handlers look and build
at once, outside the lock, while configurations are written and deleted; the last one to finish
installs its table.

An answer holds no slug that was not a right one at some moment of the build behind its table,
and it holds every slug that was right throughout, unless its configuration could not be read.
The table is not half a minute old, and nothing was validated since it was installed
(`routing_coherent`).
-/
namespace KaretWorker

open Texts Interaction Indexing Json Codec

/-! ## Stored configurations -/

/-- A source as the router reads it. -/
def routingSource : Codec Text :=
  (Shape.field ConfigKey.pathPrefix (.defaulted .text [])).codec ConfigKey.text false

/-- A configuration as the router reads it: the prefixes of its sources. -/
def routingConfig : Codec (List Text) :=
  (Shape.field ConfigKey.sourceContainers (.defaulted (.list routingSource) [])).codec ConfigKey.text false

/-- Where the pipelines lie in their bucket. -/
def pipelinesLead : Text := "pipelines/".toList

/-- What ends the key of a configuration. -/
def configTrail : Text := "/pipeline.json".toList

/-- The slug of the pipeline whose configuration is kept under a key. -/
def slugOf (key : Text) : Option Text :=
  match (key.dropPrefix? pipelinesLead).bind (fun rest => rest.dropSuffix? configTrail) with
  | some slug => if slug.isEmpty || slug.contains '/' then none else some slug
  | none => none

/-- Where the configuration of a pipeline is kept. -/
def configKey (slug : Text) : Text := pipelinesLead ++ (slug ++ configTrail)

/-- The slug of a key is what stands between the two, if it is a segment. -/
theorem slugOf_iff {key slug : Text} :
    slugOf key = some slug ↔ key = configKey slug ∧ slug ≠ [] ∧ '/' ∉ slug := by
  have dropped : (key.dropPrefix? pipelinesLead).bind (fun rest => rest.dropSuffix? configTrail) =
    some slug ↔
      key = configKey slug := by
    simp only [Option.bind_eq_some_iff, dropPrefix_iff, dropSuffix_iff, configKey]
    constructor
    · rintro ⟨_, isKey, rfl⟩
      exact isKey
    · intro isKey
      exact ⟨_, isKey, rfl⟩
  rw [← dropped, slugOf]
  constructor
  · intro isSlug
    split at isSlug
    · next found isFound =>
      split at isSlug
      · exact nomatch isSlug
      · next plain =>
        obtain rfl := Option.some.inj isSlug
        simp only [Bool.or_eq_true, List.isEmpty_iff, List.contains_iff_mem, not_or] at plain
        exact ⟨isFound, plain⟩
    · exact nomatch isSlug
  · rintro ⟨isFound, nonempty, plain⟩
    simp only [isFound]
    rw [if_neg]
    simp only [Bool.or_eq_true, List.isEmpty_iff, List.contains_iff_mem, not_or]
    exact ⟨nonempty, plain⟩

/-! ## Building the table -/

/-- What a handler does to the cache, and what it asks of the bucket. -/
inductive RouteOp where
  | trusted
  | listKeys
  | getBytes (key : Text)
  | swap (entries : List (Text × Text))

/-- Looking into the cache gives its entries if they are trusted. -/
def RouteReply : RouteOp → Type
  | .trusted => Option (List (Text × Text))
  | .listKeys => Except Text (List Text)
  | .getBytes _ => Except Text Object
  | .swap _ => Unit

/-- Programs over the router's operations. -/
abbrev Router.Program (α : Type) : Type := Interaction.Program RouteOp RouteReply α

/-- One operation, whose value is the reply. -/
def routeOp (op : RouteOp) : Router.Program (RouteReply op) := Program.perform op

section Routing

-- Without a client the table is empty; `document` reads the text of a body.
variable (client : Bool) (document : Object → Option Json.Value)

/-- The entries that a reply adds for a pipeline. Errors add none. -/
def routesOf (slug : Text) : Except Text Object → List (Text × Text)
  | .ok body =>
    match (document body).bind routingConfig.read with
    | some prefixes => prefixes.map (fun lead => (lead, slug))
    | none => []
  | .error _ => []

/-- Read the configurations among the keys. -/
def collectRoutes : List Text → List (Text × Text) → Router.Program (List (Text × Text))
  | [], entries => pure entries
  | key :: rest, entries =>
    match slugOf key with
    | none => collectRoutes rest entries
    | some slug => do
      let reply ← routeOp (.getBytes key)
      collectRoutes rest (entries ++ routesOf document slug reply)

/-- List the stored configurations and collect every source prefix. -/
def buildRouting : Router.Program (List (Text × Text)) :=
  if client then do
    match ← routeOp .listKeys with
    | .error _ => pure []
    | .ok keys => collectRoutes document keys []
  else pure []

/-- Swap the table in and look the key up in it. -/
def installRoutes (key : Text) (entries : List (Text × Text)) : Router.Program (List Text) := do
  routeOp (.swap entries)
  pure (matchKey entries key)

/-- The slugs of every pipeline with a source prefix of the key. -/
def routeKey (key : Text) : Router.Program (List Text) := do
  match ← routeOp .trusted with
  | some entries => pure (matchKey entries key)
  | none => do
    let entries ← buildRouting client document
    installRoutes key entries

end Routing

/-! ## The cache among its handlers -/

/-- When the table in use was built, if it is to be trusted at all, and its entries. -/
structure RoutingCache where
  builtAt : Option Nat
  entries : List (Text × Text)

/-- How long a table is trusted, in milliseconds. -/
def routingTtl : Nat := 30000

/-- The entries, if they are trusted. -/
def RoutingCache.trusted (cache : RoutingCache) (now : Nat) : Option (List (Text × Text)) :=
  if cache.builtAt.any (fun built => now - built < routingTtl) then some cache.entries else none

/-- What a build knows of itself: how many contents the bucket had gone through when it began,
whether the keys were listed, and which of them could not be read. -/
structure Build where
  since : Nat
  listed : Bool
  unread : List Text

/-- A call of `route_key`: its key, the rest of its program and the build it is in. -/
structure RouteCall where
  key : Text
  program : Router.Program (List Text)
  build : Build

/-- What is known of an installed table: the contents of the bucket during its build, when it
was installed, and how many validations there had been. -/
structure RouteTable where
  during : List Store
  listed : Bool
  unread : List Text
  builtAt : Nat
  validations : Nat

/-- What a call returned, with the table it was found in and when. -/
structure RouteAnswer where
  key : Text
  slugs : List Text
  table : RouteTable
  now : Nat
  validations : Nat

/-- The bucket with its former contents, the clock, the cache, and the handlers. -/
structure Router where
  pipelines : Store
  past : List Store
  now : Nat
  cache : RoutingCache
  table : RouteTable
  validations : Nat
  calls : AList (fun _ : Nat => RouteCall)
  answers : List RouteAnswer

/-- No table, no handlers. -/
def Router.initial (pipelines : Store) (now : Nat) : Router :=
  ⟨pipelines, [], now, ⟨none, []⟩, ⟨[], false, [], now, 0⟩, 0, ∅, []⟩

/-- The contents of the bucket since there had been so many. -/
def Router.during (router : Router) (since : Nat) : List Store :=
  router.pipelines :: router.past.take (router.past.length - since)

/-- How the bucket answers one operation; operations on the cache are simply performed. -/
inductive RouteGiven where
  | performed
  | listed (result : Except Text (List Text))
  | got (result : Except Text Object)

/-- Perform an operation under an answer. An answer that does not fit it performs nothing. -/
def Router.respond (router : Router) (build : Build) :
    (op : RouteOp) → RouteGiven → Option (RouteReply op × Router × Build)
  | .trusted, .performed =>
    some (router.cache.trusted router.now, router, ⟨router.past.length, false, []⟩)
  | .listKeys, .listed (.ok keys) => some (.ok keys, router, { build with listed := true })
  | .listKeys, .listed (.error error) => some (.error error, router, build)
  | .getBytes _, .got (.ok body) => some (.ok body, router, build)
  | .getBytes key, .got (.error error) =>
    some (.error error, router, { build with unread := key :: build.unread })
  | .swap entries, .performed => some ((), { router with
      cache := ⟨some router.now, entries⟩
      table := ⟨router.during build.since, build.listed, build.unread, router.now, router.validations⟩ }, build)
  | _, _ => none

/-- A call that has its answer is gone. -/
def Router.keep (router : Router) (id : Nat) (key : Text) (program : Router.Program (List Text))
    (build : Build) : Router :=
  match program with
  | .done slugs => { router with
      calls := router.calls.erase id
      answers := ⟨key, slugs, router.table, router.now, router.validations⟩ :: router.answers }
  | .call _ _ => { router with calls := router.calls.insert id ⟨key, program, build⟩ }

/-- Objects change, time passes and a configuration is validated; calls begin, take their steps and
may be stopped. -/
inductive RouterAction where
  | put (key : Text) (body : Object)
  | delete (key : Text)
  | elapse (ms : Nat)
  | validate
  | upload (id : Nat) (key : Text)
  | answer (id : Nat) (given : RouteGiven)
  | stop (id : Nat)

section System

variable (client : Bool) (document : Object → Option Json.Value)

/-- One action, if it is possible here. -/
def Router.step (router : Router) : RouterAction → Option Router
  | .put key body => some { router with
      pipelines := router.pipelines.insert key body, past := router.pipelines :: router.past }
  | .delete key => some { router with
      pipelines := router.pipelines.erase key, past := router.pipelines :: router.past }
  | .elapse ms => some { router with now := router.now + ms }
  | .validate => some { router with
      cache := { router.cache with builtAt := none }, validations := router.validations + 1 }
  | .upload id key =>
    match router.calls.lookup id with
    | none => some { router with
        calls := router.calls.insert id ⟨key, routeKey client document key, ⟨router.past.length, false, []⟩⟩ }
    | some _ => none
  | .answer id given =>
    match router.calls.lookup id with
    | some call =>
      match call.program with
      | .call op next =>
        match router.respond call.build op given with
        | some (reply, after, build) => some (after.keep id call.key (next reply) build)
        | none => none
      | .done _ => none
    | none => none
  | .stop id => some { router with calls := router.calls.erase id }

/-- A listing has the keys of the contents meanwhile, and what is read is there. -/
def Router.Permits (router : Router) : RouterAction → Prop
  | .answer id (.listed (.ok keys)) => ∀ call, router.calls.lookup id = some call →
      ListedDuring pipelinesLead (router.during call.build.since) keys
  | .answer id (.got (.ok body)) => ∀ call key next, router.calls.lookup id = some call →
      call.program = .call (.getBytes key) next → router.pipelines.lookup key = some body
  | _ => True

end System

/-! ## Looking a key up -/

/-- A slug is matched exactly if one of its prefixes, not empty, begins the key. -/
theorem mem_matchKey {entries : List (Text × Text)} {key slug : Text} :
    slug ∈ matchKey entries key ↔ ∃ lead, (lead, slug) ∈ entries ∧ lead ≠ [] ∧ lead <+: key := by
  simp only [matchKey, List.mem_dedup, List.mem_insertionSort, List.mem_map, List.mem_filter,
    Bool.and_eq_true, Bool.not_eq_true', List.isEmpty_eq_false_iff, List.isPrefixOf_iff_prefix]
  constructor
  · rintro ⟨⟨lead, _⟩, isEntry, rfl⟩
    exact ⟨lead, isEntry⟩
  · rintro ⟨lead, isEntry⟩
    exact ⟨(lead, slug), isEntry, rfl⟩

/-- The slugs of an answer are in order, each once. -/
theorem matchKey_ascending (entries : List (Text × Text)) (key : Text) :
    (matchKey entries key).Pairwise (· < ·) := by
  have sorted : (matchKey entries key).Pairwise (· ≤ ·) :=
    (List.pairwise_insertionSort _ _).sublist (List.dedup_sublist _)
  exact (sorted.and (List.nodup_dedup _)).imp (fun both => lt_of_le_of_ne both.1 both.2)

/-! ## What the entries say -/

/-- A slug that keys are made of. -/
def IsSlug (slug : Text) : Prop := slug ≠ [] ∧ '/' ∉ slug

section Coherence

variable (client : Bool) (document : Object → Option Json.Value)

/-- A source of the pipeline has the prefix. -/
def Names (store : Store) (slug lead : Text) : Prop :=
  ∃ body json prefixes, store.lookup (configKey slug) = some body ∧ document body = some json ∧
    routingConfig.read json = some prefixes ∧ lead ∈ prefixes

/-- A source of the pipeline is around the key. -/
def Routed (store : Store) (key slug : Text) : Prop :=
  IsSlug slug ∧ ∃ lead, Names document store slug lead ∧ lead ≠ [] ∧ lead <+: key

/-- What is known of entries while the keys of the rest are still to be read: each of them was
right at some moment, and those of some moment are there for each pipeline that is through. -/
structure Loaded (during : List Store) (listed : Bool) (unread rest : List Text)
    (entries : List (Text × Text)) : Prop where
  sound : ∀ entry ∈ entries, IsSlug entry.2 ∧ ∃ store ∈ during, Names document store entry.2 entry.1
  complete : listed = true → ∀ slug, IsSlug slug → (∀ store ∈ during, configKey slug ∈ store) →
    configKey slug ∈ rest ∨ configKey slug ∈ unread ∨
      ∃ store ∈ during, ∀ lead, Names document store slug lead → (lead, slug) ∈ entries

variable {client document} {during : List Store} {listed : Bool} {unread rest : List Text}
  {entries : List (Text × Text)}

/-- It stays known while the build goes on. -/
theorem Loaded.mono {longer : List Store}
    (loaded : Loaded document during listed unread rest entries)
    (more : during ⊆ longer) : Loaded document longer listed unread rest entries := by
  refine ⟨fun entry isEntry => ?_, fun isListed slug isSlug throughout => ?_⟩
  · obtain ⟨isSlug, store, isStore, names⟩ := loaded.sound entry isEntry
    exact ⟨isSlug, store, more isStore, names⟩
  · rcases loaded.complete isListed slug isSlug
      (fun store isStore => throughout store (more isStore)) with
      remains | failed | ⟨store, isStore, named⟩
    · exact Or.inl remains
    · exact Or.inr (Or.inl failed)
    · exact Or.inr (Or.inr ⟨store, more isStore, named⟩)

/-- A build that has read nothing has no entries. -/
theorem loaded_nil : Loaded document during false unread rest [] :=
  ⟨fun _ impossible => (nomatch impossible), fun impossible => (nomatch impossible)⟩

/-- After the listing all that was there throughout is to be read. -/
theorem loaded_listed {keys : List Text} (lists : ListedDuring pipelinesLead during keys) :
    Loaded document during true unread keys [] :=
  ⟨fun _ impossible => (nomatch impossible),
    fun _ _ _ throughout => Or.inl (lists.1 _ (List.prefix_append _ _) throughout)⟩

/-- A key that is no configuration's is passed over. -/
theorem Loaded.skip {key : Text}
    (loaded : Loaded document during listed unread (key :: rest) entries)
    (other : slugOf key = none) : Loaded document during listed unread rest entries := by
  refine ⟨loaded.sound, fun isListed slug isSlug throughout => ?_⟩
  refine (loaded.complete isListed slug isSlug throughout).imp_left (fun member => ?_)
  rcases List.mem_cons.mp member with isKey | remains
  · rw [slugOf_iff.mpr ⟨isKey.symm, isSlug⟩] at other
    exact nomatch other
  · exact remains

/-- A configuration that cannot be read is noted. -/
theorem Loaded.fail {key : Text}
    (loaded : Loaded document during listed unread (key :: rest) entries) :
    Loaded document during listed (key :: unread) rest entries := by
  refine ⟨loaded.sound, fun isListed slug isSlug throughout => ?_⟩
  rcases loaded.complete isListed slug isSlug throughout with member | failed | named
  · rcases List.mem_cons.mp member with isKey | remains
    · exact Or.inr (Or.inl (List.mem_cons.mpr (Or.inl isKey)))
    · exact Or.inl remains
  · exact Or.inr (Or.inl (List.mem_cons_of_mem _ failed))
  · exact Or.inr (Or.inr named)

/-- What is read of a configuration is what its sources name. -/
theorem mem_routesOf {store : Store} {slug : Text} {body : Object}
    (found : store.lookup (configKey slug) = some body) {entry : Text × Text} :
    entry ∈ routesOf document slug (.ok body) ↔ entry.2 = slug ∧
    Names document store slug entry.1 := by
  simp only [routesOf, Names, found, Option.some.injEq]
  cases read : (document body).bind routingConfig.read with
  | none =>
    refine ⟨fun impossible => (nomatch impossible), ?_⟩
    rintro ⟨_, _, json, prefixes, rfl, isJson, isRead, _⟩
    rw [isJson, Option.bind_some, isRead] at read
    exact nomatch read
  | some prefixes =>
    obtain ⟨json, isJson, isRead⟩ := Option.bind_eq_some_iff.mp read
    constructor
    · intro member
      obtain ⟨lead, isLead, rfl⟩ := List.mem_map.mp member
      exact ⟨rfl, body, json, prefixes, rfl, isJson, isRead, isLead⟩
    · rintro ⟨rfl, _, _, others, rfl, isJson', isRead', isLead⟩
      obtain rfl := Option.some.inj (isJson.symm.trans isJson')
      obtain rfl := Option.some.inj (isRead.symm.trans isRead')
      exact List.mem_map.mpr ⟨entry.1, isLead, rfl⟩

/-- A configuration that is read adds what its sources name at that moment. -/
theorem Loaded.read {key slug : Text} {store : Store} {body : Object}
    (loaded : Loaded document during listed unread (key :: rest) entries)
    (isSlug : slugOf key = some slug) (now : store ∈ during)
    (found : store.lookup key = some body) :
    Loaded document during listed unread rest (entries ++ routesOf document slug (.ok body)) := by
  obtain ⟨rfl, slugged⟩ := slugOf_iff.mp isSlug
  refine ⟨fun entry isEntry => ?_, fun isListed other isOther throughout => ?_⟩
  · rcases List.mem_append.mp isEntry with before | new
    · exact loaded.sound entry before
    · obtain ⟨rfl, names⟩ := (mem_routesOf found).mp new
      exact ⟨slugged, store, now, names⟩
  · rcases loaded.complete isListed other isOther throughout with member | failed |
      ⟨earlier, isEarlier, named⟩
    · rcases List.mem_cons.mp member with same | remains
      · obtain rfl : other = slug := by
          have both := slugOf_iff.mpr ⟨same.symm, isOther⟩
          exact Option.some.inj (both.symm.trans isSlug)
        refine Or.inr (Or.inr ⟨store, now, fun lead names => ?_⟩)
        exact List.mem_append_right _ ((mem_routesOf found).mpr ⟨rfl, names⟩)
      · exact Or.inl remains
    · exact Or.inr (Or.inl failed)
    · exact Or.inr
        (Or.inr ⟨earlier, isEarlier, fun lead names => List.mem_append_left _ (named lead names)⟩)

/-- Looking a key up in a table gives the pipelines that were right throughout, unless they were
not read, and none that never was. -/
theorem Loaded.matches (loaded : Loaded document during listed unread [] entries) (key : Text) :
    (∀ slug ∈ matchKey entries key, ∃ store ∈ during, Routed document store key slug) ∧
      (listed = true → during ≠ [] → ∀ slug, configKey slug ∉ unread →
        (∀ store ∈ during, Routed document store key slug) → slug ∈ matchKey entries key) := by
  constructor
  · intro slug member
    obtain ⟨lead, isEntry, nonempty, around⟩ := mem_matchKey.mp member
    obtain ⟨isSlug, store, isStore, names⟩ := loaded.sound _ isEntry
    exact ⟨store, isStore, isSlug, lead, names, nonempty, around⟩
  · intro isListed begun slug wasRead throughout
    obtain ⟨first, isFirst⟩ := List.exists_mem_of_ne_nil during begun
    have present : ∀ store ∈ during, configKey slug ∈ store := by
      intro store isStore
      obtain ⟨_, _, ⟨body, _, _, found, _⟩, _⟩ := throughout store isStore
      exact AList.lookup_isSome.mp (Option.isSome_iff_exists.mpr ⟨body, found⟩)
    rcases loaded.complete isListed slug (throughout first isFirst).1 present with
      impossible | failed | ⟨store, isStore, named⟩
    · exact nomatch impossible
    · exact absurd failed wasRead
    · obtain ⟨_, lead, names, nonempty, around⟩ := throughout store isStore
      exact mem_matchKey.mpr ⟨lead, named lead names, nonempty, around⟩

/-! ## Where a call stands -/

/-- A call has not looked yet, waits for the listing, or reads the rest of the keys. -/
inductive Router.Stage (client : Bool) (document : Object → Option Json.Value) (router : Router)
    (call : RouteCall) : Prop where
  | looks (isProgram : call.program = routeKey client document call.key)
  | lists (isProgram : call.program = buildRouting true document >>= installRoutes call.key)
      (begun : call.build.since ≤ router.past.length) (unlisted : call.build.listed = false)
  | collects (rest : List Text) (entries : List (Text × Text))
      (isProgram : call.program = collectRoutes document rest entries >>= installRoutes call.key)
      (begun : call.build.since ≤ router.past.length)
      (loaded : Loaded document (router.during call.build.since) call.build.listed call.build.unread
        rest entries)

/-- What holds of the cache and of the calls. -/
structure Router.Coherent (client : Bool) (document : Object → Option Json.Value) (router : Router) :
    Prop where
  loaded : Loaded document router.table.during router.table.listed router.table.unread []
    router.cache.entries
  begun : router.table.listed = true → router.table.during ≠ []
  history : router.table.during <:+: router.pipelines :: router.past
  current : ∀ built, router.cache.builtAt = some built →
    built = router.table.builtAt ∧ router.table.validations = router.validations
  stages : ∀ id call, router.calls.lookup id = some call → router.Stage client document call

/-- The contents of the bucket during a build include those of any later moment. -/
structure Router.Grows (router after : Router) : Prop where
  longer : router.past.length ≤ after.past.length
  during : ∀ since ≤ router.past.length, router.during since ⊆ after.during since
  history : router.pipelines :: router.past <:+: after.pipelines :: after.past

variable {router after : Router}

/-- What leaves the bucket alone. -/
theorem Router.Grows.of_same (pipelines : after.pipelines = router.pipelines)
    (past : after.past = router.past) :
    router.Grows after := by
  refine ⟨le_of_eq (by rw [past]), fun since _ => ?_, by rw [pipelines, past]⟩
  rw [Router.during, Router.during, pipelines, past]
  exact List.Subset.refl _

/-- A change of the bucket. -/
theorem Router.Grows.of_change (past : after.past = router.pipelines :: router.past) :
    router.Grows after := by
  refine ⟨?_, fun since begun => ?_, ?_⟩
  · rw [past]
    exact Nat.le_succ _
  · rw [Router.during, Router.during, past, List.length_cons, Nat.succ_sub begun,
      List.take_succ_cons]
    exact List.subset_cons_self _ _
  · rw [past]
    exact (List.suffix_cons _ _).isInfix

/-- A call stays where it is while the bucket and its past grow. -/
theorem Router.Stage.mono {call : RouteCall} (stage : router.Stage client document call)
    (grows : router.Grows after) : after.Stage client document call := by
  cases stage with
  | looks isProgram => exact .looks isProgram
  | lists isProgram begun unlisted => exact .lists isProgram (begun.trans grows.longer) unlisted
  | collects rest entries isProgram begun loaded =>
    exact .collects rest entries isProgram (begun.trans grows.longer)
      (loaded.mono (grows.during _ begun))

/-- What does not touch the table or the calls keeps what holds. -/
theorem Router.Coherent.grow (coherent : router.Coherent client document)
    (grows : router.Grows after)
    (cache : after.cache = router.cache) (table : after.table = router.table)
    (validations : after.validations = router.validations)
    (calls : ∀ id call, after.calls.lookup id = some call → router.Stage client document call) :
    after.Coherent client document := by
  refine ⟨?_, ?_, ?_, ?_, fun id call found => (calls id call found).mono grows⟩
  · rw [cache, table]
    exact coherent.loaded
  · rw [table]
    exact coherent.begun
  · rw [table]
    exact coherent.history.trans grows.history
  · rw [cache, table, validations]
    exact coherent.current

/-- The answer of a call is what the trusted table says, or the call stands somewhere further. -/
def Router.Goes (client : Bool) (document : Object → Option Json.Value) (router : Router)
    (call : RouteCall) : Prop :=
  (∃ slugs, call.program = .done slugs ∧ slugs = matchKey router.cache.entries call.key ∧
    ∃ built, router.cache.builtAt = some built ∧ router.now - built < routingTtl) ∨
  (∃ op next, call.program = .call op next) ∧ router.Stage client document call

/-- A call that is reading asks for one more configuration or swaps the table in. -/
theorem collectRoutes_calls (document : Object → Option Json.Value) (key : Text) (rest : List Text)
    (entries : List (Text × Text)) :
    ∃ op next, collectRoutes document rest entries >>= installRoutes key = .call op next := by
  induction rest generalizing entries with
  | nil => exact ⟨.swap entries, _, rfl⟩
  | cons first rest inductionHypothesis =>
    rw [collectRoutes]
    split
    · exact inductionHypothesis entries
    · exact ⟨.getBytes first, _, rfl⟩

/-- A call that goes on reading. -/
theorem Router.goes_collects {call : RouteCall} (rest : List Text) (entries : List (Text × Text))
    (isProgram : call.program = collectRoutes document rest entries >>= installRoutes call.key)
    (begun : call.build.since ≤ router.past.length)
    (loaded : Loaded document (router.during call.build.since) call.build.listed call.build.unread
      rest entries) : router.Goes client document call := by
  refine Or.inr ⟨?_, .collects rest entries isProgram begun loaded⟩
  obtain ⟨op, next, calls⟩ := collectRoutes_calls document call.key rest entries
  exact ⟨op, next, isProgram.trans calls⟩

/-- What performing an operation for a call leads to. -/
structure Router.Serves (client : Bool) (document : Object → Option Json.Value) (router : Router)
    (call : RouteCall) (after : Router) : Prop where
  coherent : after.Coherent client document
  goes : after.Goes client document call
  pipelines : after.pipelines = router.pipelines
  past : after.past = router.past
  calls : after.calls = router.calls
  answers : after.answers = router.answers

/-- The first look into the cache. -/
theorem Router.Coherent.look (coherent : router.Coherent client document) {key : Text}
    {given : RouteGiven} {build build' : Build} {reply : RouteReply .trusted}
    {next : RouteReply .trusted → Router.Program (List Text)}
    (looks : routeKey client document key = .call .trusted next)
    (responded : router.respond build .trusted given = some (reply, after, build')) :
    router.Serves client document ⟨key, next reply, build'⟩ after := by
  cases looks
  cases given with
  | listed _ | got _ => exact nomatch responded
  | performed =>
    simp only [Router.respond, Option.some.injEq] at responded
    obtain ⟨rfl, rfl, rfl⟩ := responded
    refine ⟨coherent, ?_, rfl, rfl, rfl, rfl⟩
    cases looked : router.cache.trusted router.now with
    | some entries =>
      simp only [RoutingCache.trusted] at looked
      split at looked
      · next isTrusted =>
        obtain ⟨built, isBuilt, young⟩ := (Option.any_eq_true _ _).mp isTrusted
        rw [← Option.some.inj looked]
        exact Or.inl ⟨_, rfl, rfl, built, isBuilt, of_decide_eq_true young⟩
      · exact nomatch looked
    | none =>
      cases client with
      | true => exact Or.inr ⟨⟨_, _, rfl⟩, .lists rfl (Nat.le_refl _) rfl⟩
      | false => exact goes_collects [] [] rfl (Nat.le_refl _) loaded_nil

/-- The listing of the keys. -/
theorem Router.Coherent.list (coherent : router.Coherent client document) {key : Text}
    {given : RouteGiven} {build build' : Build} {reply : RouteReply .listKeys}
    {next : RouteReply .listKeys → Router.Program (List Text)}
    (asks : buildRouting true document >>= installRoutes key = .call .listKeys next)
    (responded : router.respond build .listKeys given = some (reply, after, build'))
    (begun : build.since ≤ router.past.length) (unlisted : build.listed = false)
    (lists : ∀ keys, given = .listed (.ok keys) →
      ListedDuring pipelinesLead (router.during build.since) keys) :
    router.Serves client document ⟨key, next reply, build'⟩ after := by
  cases asks
  rcases given with _ | (error | keys) | _
  · exact nomatch responded
  · simp only [Router.respond, Option.some.injEq] at responded
    obtain ⟨rfl, rfl, rfl⟩ := responded
    refine ⟨coherent, goes_collects [] [] rfl begun ?_, rfl, rfl, rfl, rfl⟩
    rw [unlisted]
    exact loaded_nil
  · simp only [Router.respond, Option.some.injEq] at responded
    obtain ⟨rfl, rfl, rfl⟩ := responded
    exact ⟨coherent, goes_collects keys [] rfl begun (loaded_listed (lists keys rfl)), rfl, rfl,
      rfl, rfl⟩
  · exact nomatch responded

/-- The reading of one configuration. -/
theorem Router.Coherent.get (coherent : router.Coherent client document) {key first slug : Text}
    {given : RouteGiven} {build build' : Build} {reply : RouteReply (.getBytes first)}
    {rest : List Text} {entries : List (Text × Text)} (isSlug : slugOf first = some slug)
    (responded : router.respond build (.getBytes first) given = some (reply, after, build'))
    (begun : build.since ≤ router.past.length)
    (loaded : Loaded document (router.during build.since) build.listed build.unread
      (first :: rest) entries)
    (holds : ∀ body, given = .got (.ok body) → router.pipelines.lookup first = some body) :
    router.Serves client document ⟨key, collectRoutes document rest
      (entries ++ routesOf document slug reply) >>= installRoutes key, build'⟩ after := by
  rcases given with _ | _ | (error | body)
  · exact nomatch responded
  · exact nomatch responded
  · simp only [Router.respond, Option.some.injEq] at responded
    obtain ⟨rfl, rfl, rfl⟩ := responded
    refine ⟨coherent, goes_collects rest _ rfl begun ?_, rfl, rfl, rfl, rfl⟩
    rw [routesOf, List.append_nil]
    exact loaded.fail
  · simp only [Router.respond, Option.some.injEq] at responded
    obtain ⟨rfl, rfl, rfl⟩ := responded
    exact ⟨coherent, goes_collects rest _ rfl begun
      (loaded.read isSlug List.mem_cons_self (holds body rfl)), rfl, rfl, rfl, rfl⟩

/-- The swap of the table. -/
theorem Router.Coherent.swap (coherent : router.Coherent client document) {key : Text}
    {given : RouteGiven}
    {build build' : Build} {entries : List (Text × Text)} {reply : RouteReply (.swap entries)}
    (responded : router.respond build (.swap entries) given = some (reply, after, build'))
    (loaded : Loaded document (router.during build.since) build.listed build.unread [] entries) :
    router.Serves client document ⟨key, .done (matchKey entries key), build'⟩ after := by
  cases given with
  | listed _ | got _ => exact nomatch responded
  | performed =>
    simp only [Router.respond, Option.some.injEq] at responded
    obtain ⟨-, rfl, rfl⟩ := responded
    refine ⟨⟨loaded, fun _ => List.cons_ne_nil _ _, ?_, ?_, fun id call found => ?_⟩,
      Or.inl ⟨_, rfl, rfl, router.now, rfl, ?_⟩, rfl, rfl, rfl, rfl⟩
    · exact ((List.prefix_cons_inj _).mpr (List.take_prefix _ _)).isInfix
    · exact fun built isBuilt => ⟨(Option.some.inj isBuilt).symm, rfl⟩
    · exact (coherent.stages id call found).mono (.of_same rfl rfl)
    · show router.now - router.now < routingTtl
      rw [Nat.sub_self]
      decide

/-- Whatever operation a call waits for, performing it leads where the call should go. -/
theorem Router.Coherent.respond (coherent : router.Coherent client document) {id : Nat}
    {call : RouteCall}
    {given : RouteGiven} {op : RouteOp} {next : RouteReply op → Router.Program (List Text)}
    {reply : RouteReply op} {build : Build} (found : router.calls.lookup id = some call)
    (permits : router.Permits (.answer id given)) (isCall : call.program = .call op next)
    (responded : router.respond call.build op given = some (reply, after, build)) :
    router.Serves client document ⟨call.key, next reply, build⟩ after := by
  cases coherent.stages id call found with
  | looks isProgram =>
    have looks := isProgram.symm.trans isCall
    cases looks
    exact coherent.look rfl responded
  | lists isProgram begun unlisted =>
    have asks := isProgram.symm.trans isCall
    cases asks
    refine coherent.list rfl responded begun unlisted (fun keys isListed => ?_)
    rw [isListed] at permits
    exact permits call found
  | collects rest entries isProgram begun loaded =>
    have reads := isProgram.symm.trans isCall
    clear isProgram
    induction rest generalizing entries with
    | nil =>
      cases reads
      exact coherent.swap responded loaded
    | cons first rest inductionHypothesis =>
      rw [collectRoutes] at reads
      split at reads
      · next other => exact inductionHypothesis entries (loaded.skip other) reads
      · next slug isSlug =>
        cases reads
        refine coherent.get isSlug responded begun loaded (fun body isBody => ?_)
        rw [isBody] at permits
        exact permits call first _ found isCall

/-- What is said of an answer. -/
structure RouteAnswer.Right (document : Object → Option Json.Value) (answer : RouteAnswer) : Prop where
  ascending : answer.slugs.Pairwise (· < ·)
  sound : ∀ slug ∈ answer.slugs, ∃ store ∈ answer.table.during, Routed document store answer.key slug
  complete : answer.table.listed = true → ∀ slug, configKey slug ∉ answer.table.unread →
    (∀ store ∈ answer.table.during, Routed document store answer.key slug) → slug ∈ answer.slugs
  young : answer.now < answer.table.builtAt + routingTtl
  unvalidated : answer.table.validations = answer.validations

/-- An answer from a trusted table is right. -/
theorem Router.Coherent.right (coherent : router.Coherent client document) (key : Text)
    {built : Nat}
    (isBuilt : router.cache.builtAt = some built) (isYoung : router.now - built < routingTtl) :
    RouteAnswer.Right document
      ⟨key, matchKey router.cache.entries key, router.table, router.now, router.validations⟩ := by
  obtain ⟨sound, complete⟩ := coherent.loaded.matches key
  obtain ⟨rfl, validations⟩ := coherent.current built isBuilt
  refine ⟨matchKey_ascending _ _, sound, fun listed => complete listed (coherent.begun listed), ?_,
    validations⟩
  show router.now < router.table.builtAt + routingTtl
  omega

/-- What holds throughout a run. -/
structure Router.Sound (client : Bool) (document : Object → Option Json.Value) (router : Router) : Prop where
  coherent : router.Coherent client document
  answers : ∀ answer ∈ router.answers, answer.Right document ∧
    answer.table.during <:+: router.pipelines :: router.past

/-- A call that was served is kept, or its answer is. -/
theorem Router.Sound.keep (sound : router.Sound client document) {call : RouteCall}
    (serves : router.Serves client document call after) (id : Nat) :
    (after.keep id call.key call.program call.build).Sound client document := by
  have before : ∀ answer ∈ after.answers, answer.Right document ∧
      answer.table.during <:+: after.pipelines :: after.past := by
    rw [serves.answers, serves.pipelines, serves.past]
    exact sound.answers
  rcases serves.goes with ⟨slugs, isDone, rfl, built, isBuilt, isYoung⟩ |
    ⟨⟨op, next, isCall⟩, stage⟩
  · simp only [Router.keep, isDone]
    refine ⟨serves.coherent.grow (.of_same rfl rfl) rfl rfl rfl (fun other found lookup => ?_), ?_⟩
    · exact serves.coherent.stages other found (lookup_of_erase lookup).2
    · exact List.forall_mem_cons.mpr
        ⟨⟨serves.coherent.right call.key isBuilt isYoung, serves.coherent.history⟩, before⟩
  · simp only [Router.keep, isCall]
    refine ⟨serves.coherent.grow (.of_same rfl rfl) rfl rfl rfl
      (fun other found lookup => ?_), before⟩
    rcases lookup_of_insert lookup with ⟨_, rfl⟩ | ⟨_, old⟩
    · rw [← isCall]
      exact stage
    · exact serves.coherent.stages other found old

/-- One step keeps it. -/
theorem Router.Sound.step (sound : router.Sound client document) {action : RouterAction}
    (permits : router.Permits action) (stepped : router.step client document action = some after) :
    after.Sound client document := by
  have changes : ∀ {changed : Router}, router.Grows changed → changed.cache = router.cache →
      changed.table = router.table → changed.validations = router.validations →
      changed.calls = router.calls → changed.answers = router.answers →
        changed.Sound client document := by
    intro changed grows cache table validations calls answers
    refine ⟨sound.coherent.grow grows cache table validations ?_, ?_⟩
    · rw [calls]
      exact sound.coherent.stages
    · rw [answers]
      exact fun answer isAnswer => ⟨(sound.answers answer isAnswer).1,
        (sound.answers answer isAnswer).2.trans grows.history⟩
  cases action with
  | put key body | delete key =>
    obtain rfl := Option.some.inj stepped
    exact changes (.of_change rfl) rfl rfl rfl rfl rfl
  | elapse ms =>
    obtain rfl := Option.some.inj stepped
    exact changes (.of_same rfl rfl) rfl rfl rfl rfl rfl
  | validate =>
    obtain rfl := Option.some.inj stepped
    obtain ⟨loaded, begun, history, _, stages⟩ := sound.coherent
    exact ⟨⟨loaded, begun, history, fun _ impossible => (nomatch impossible),
      fun id call found => (stages id call found).mono (.of_same rfl rfl)⟩, sound.answers⟩
  | upload id key =>
    simp only [Router.step] at stepped
    split at stepped
    · obtain rfl := Option.some.inj stepped
      refine ⟨sound.coherent.grow (.of_same rfl rfl) rfl rfl rfl (fun other call lookup => ?_),
        sound.answers⟩
      rcases lookup_of_insert lookup with ⟨_, rfl⟩ | ⟨_, old⟩
      · exact .looks rfl
      · exact sound.coherent.stages other call old
    · exact nomatch stepped
  | answer id given =>
    simp only [Router.step] at stepped
    split at stepped
    · next call found =>
      split at stepped
      · next op next isCall =>
        split at stepped
        · next reply served build responded =>
          obtain rfl := Option.some.inj stepped
          exact sound.keep (sound.coherent.respond found permits isCall responded) id
        · exact nomatch stepped
      · exact nomatch stepped
    · exact nomatch stepped
  | stop id =>
    obtain rfl := Option.some.inj stepped
    refine ⟨sound.coherent.grow (.of_same rfl rfl) rfl rfl rfl (fun other call lookup => ?_),
      sound.answers⟩
    exact sound.coherent.stages other call (lookup_of_erase lookup).2

/-- No table and no handlers, to begin with. -/
theorem router_initial (pipelines : Store) (now : Nat) :
    (Router.initial pipelines now).Sound client document := by
  refine ⟨⟨loaded_nil, fun impossible => (nomatch impossible), List.nil_infix,
    fun _ impossible => (nomatch impossible), fun id call found => ?_⟩,
      fun _ impossible => (nomatch impossible)⟩
  simp [Router.initial] at found

/-- In every run, an answer is right for the contents of the bucket during a build, which followed
one another, and comes from a table younger than its time of trust and than any validation. -/
theorem routing_coherent (client : Bool) (document : Object → Option Json.Value) (pipelines : Store) (now : Nat)
    {router : Router} (reached : Runs.Reaches (Router.step client document) Router.Permits
      (Router.initial pipelines now) router) :
    ∀ answer ∈ router.answers, answer.Right document ∧
      answer.table.during <:+: router.pipelines :: router.past :=
  (reached.invariant (Router.Sound client document) (router_initial pipelines now)
    (fun _ _ _ sound permits stepped => sound.step permits stepped)).answers

end Coherence

/-! ## A first look -/

/-- A bucket with one configuration, and what its text says. -/
def onePipeline : Store := AList.insert (configKey "s".toList) (.data []) ∅

/-- Every configuration has one source, under `in/`. -/
def oneDocument (_ : Object) : Option Json.Value :=
  some (.object [("source_containers".toList,
    .array [.object [("path_prefix".toList, .string "in/".toList)]])])

/-- Its configuration is there. -/
theorem onePipeline_found : onePipeline.lookup (configKey "s".toList) = some (.data []) :=
  AList.lookup_insert _

/-- Its listing while nothing changed. -/
theorem onePipeline_listed : ListedDuring pipelinesLead [onePipeline] [configKey "s".toList] := by
  refine ⟨fun key _ throughout => throughout onePipeline List.mem_cons_self, fun key isKey => ?_⟩
  rw [List.mem_singleton.mp isKey]
  exact ⟨List.prefix_append _ _, onePipeline, List.mem_cons_self,
    AList.lookup_isSome.mp (by rw [onePipeline_found]; rfl)⟩

/-- A second pipeline with the same source is stored. -/
def twoPipelines : Store := onePipeline.insert (configKey "t".toList) (.data [])

/-- Both configurations are there. -/
theorem twoPipelines_found {key : Text}
    (isKey : key ∈ [configKey "s".toList, configKey "t".toList]) :
    twoPipelines.lookup key = some (.data []) := by
  have different : configKey "s".toList ≠ configKey "t".toList := by decide +kernel
  rw [List.mem_pair] at isKey
  rcases isKey with rfl | rfl
  · rw [twoPipelines, AList.lookup_insert_ne different, onePipeline_found]
  · exact AList.lookup_insert _

/-- Their listing while nothing changed. -/
theorem twoPipelines_listed :
    ListedDuring pipelinesLead [twoPipelines] [configKey "s".toList, configKey "t".toList] := by
  refine ⟨fun key _ throughout => ?_, fun key isKey => ⟨?_, twoPipelines, List.mem_cons_self, ?_⟩⟩
  · rcases (AList.mem_insert _).mp (throughout twoPipelines List.mem_cons_self) with rfl | isFirst
    · exact List.mem_cons_of_mem _ List.mem_cons_self
    · rcases (AList.mem_insert _).mp isFirst with rfl | impossible
      · exact List.mem_cons_self
      · exact absurd impossible (AList.notMem_empty _)
  · rw [List.mem_pair] at isKey
    rcases isKey with rfl | rfl <;> exact List.prefix_append _ _
  · exact AList.lookup_isSome.mp (by rw [twoPipelines_found isKey]; rfl)

/-- The first upload is looked up in the table of one pipeline, which was listed before the other one
was stored and a configuration was validated. -/
def firstLook : RouteAnswer :=
  ⟨"in/a.csv".toList, ["s".toList], ⟨[twoPipelines, onePipeline], true, [], 7, 1⟩, 7, 1⟩

/-- The second upload builds its own table meanwhile, which is installed after the first. -/
def secondLook : RouteAnswer :=
  ⟨"in/b.csv".toList, ["s".toList, "t".toList], ⟨[twoPipelines], true, [], 7, 1⟩, 7, 1⟩

/-- The third one finds that table in time. -/
def thirdLook : RouteAnswer := { secondLook with key := "in/c.csv".toList, now := 17 }

/-- All three answers are right for what was in the bucket during their builds. -/
theorem routing_coherent_first : ∃ router : Router, router.answers = [thirdLook, secondLook, firstLook] ∧
    ∀ answer ∈ router.answers, answer.Right oneDocument ∧
      answer.table.during <:+: router.pipelines :: router.past := by
  have uploaded : Runs.Reaches (Router.step true oneDocument) Router.Permits
    (Router.initial onePipeline 7)
      { Router.initial onePipeline 7 with
        calls := (∅ : AList (fun _ : Nat => RouteCall)).insert 0
          ⟨"in/a.csv".toList, routeKey true oneDocument "in/a.csv".toList, ⟨0, false, []⟩⟩ } :=
    .tail .refl ⟨.upload 0 "in/a.csv".toList, trivial, rfl⟩
  have looked := uploaded.tail ⟨.answer 0 .performed, trivial, rfl⟩
  have listed := looked.tail ⟨.answer 0 (.listed (.ok [configKey "s".toList])), by
    intro call isCall
    rw [← Option.some.inj isCall]
    exact onePipeline_listed, rfl⟩
  have stored := listed.tail ⟨.put (configKey "t".toList) (.data []), trivial, rfl⟩
  have validated := stored.tail ⟨.validate, trivial, rfl⟩
  have came := validated.tail ⟨.upload 1 "in/b.csv".toList, trivial, rfl⟩
  have missed := came.tail ⟨.answer 1 .performed, trivial, rfl⟩
  have alsoListed := missed.tail
    ⟨.answer 1 (.listed (.ok [configKey "s".toList, configKey "t".toList])), by
      intro call isCall
      rw [← Option.some.inj isCall]
      exact twoPipelines_listed, rfl⟩
  have got := alsoListed.tail ⟨.answer 0 (.got (.ok (.data []))), by
    intro call key next isCall reads
    rw [← Option.some.inj isCall] at reads
    cases reads
    exact twoPipelines_found List.mem_cons_self, rfl⟩
  have swapped := got.tail ⟨.answer 0 .performed, trivial, rfl⟩
  have gotFirst := swapped.tail ⟨.answer 1 (.got (.ok (.data []))), by
    intro call key next isCall reads
    rw [← Option.some.inj isCall] at reads
    cases reads
    exact twoPipelines_found List.mem_cons_self, rfl⟩
  have gotSecond := gotFirst.tail ⟨.answer 1 (.got (.ok (.data []))), by
    intro call key next isCall reads
    rw [← Option.some.inj isCall] at reads
    cases reads
    exact twoPipelines_found (List.mem_cons_of_mem _ List.mem_cons_self), rfl⟩
  have installed := gotSecond.tail ⟨.answer 1 .performed, trivial, rfl⟩
  have elapsed := installed.tail ⟨.elapse 10, trivial, rfl⟩
  have third := elapsed.tail ⟨.upload 2 "in/c.csv".toList, trivial, rfl⟩
  have answered := third.tail ⟨.answer 2 .performed, trivial, rfl⟩
  exact ⟨_, rfl, routing_coherent true oneDocument onePipeline 7 answered⟩

end KaretWorker
