import KaretWorker.Library.Runs
import KaretWorker.TableRefinement
import Mathlib.Logic.Function.Basic

/-!
# Executions over shared buckets

A world holds the two buckets and any number of executions of the executor, each
as the rest of its program. One step starts an execution, answers the pending
call of one execution, stops an execution at whatever call it has reached, or
replaces the contents of the lake. Executions interleave freely; a sequence of
runs is the special case in which one starts only after the others have stopped.

The history belongs to one table and is never read by the code. It keeps what
each execution has put under the table, every manifest written, and every
manifest whose pointer was put, in order. An answer counts as applied when it
changed the store, whether or not the caller learned of it.
-/
namespace KaretWorker

open Texts Interaction

/-- A manifest one execution wrote, with the content it had put under each key of
the table by then. -/
structure Listing where
  author : Nat
  version : Nat
  files : List ManifestFile
  uploads : Text → Option (List UInt8)

/-- The listing names the key. -/
def Listing.names (listing : Listing) (key : Text) : Bool :=
  listing.files.any (fun file => file.key = key)

/-- The first of the listings to name a key. -/
def firstNaming (listings : List Listing) (key : Text) : Option Listing :=
  listings.find? (fun listing => listing.names key)

/-- Every manifest written, and every one whose pointer was put, in order. -/
structure Ledger where
  listings : List Listing
  published : List Listing

/-- The last manifest written for a version, the one that is stored. -/
def Ledger.writer (ledger : Ledger) (version : Nat) : Option Listing :=
  (ledger.listings.filter (fun listing => listing.version = version)).getLast?

/-- What has happened to one table. `opener` is the execution that read the
pointer last. -/
structure History where
  uploads : Nat → Text → Option (List UInt8)
  staged : Nat → Option Listing
  ledger : Ledger
  opener : Option Nat

/-- Nothing uploaded, staged or published, and nobody has opened the table. -/
def History.empty : History := ⟨fun _ _ => none, fun _ => none, ⟨[], []⟩, none⟩

/-- A new execution has put nothing yet. -/
def History.start (history : History) (author : Nat) : History :=
  { history with
    uploads := Function.update history.uploads author (fun _ => none)
    staged := Function.update history.staged author none }

/-- One body was put under the table. A pointer publishes the manifest its author
put last. -/
def History.put (history : History) (author : Nat) (key : Text) : Object → History
  | .data bytes =>
    { history with
      uploads := Function.update history.uploads author
        (Function.update (history.uploads author) key (some bytes)) }
  | .manifest manifest =>
    let listing : Listing := ⟨author, manifest.version, manifest.files, history.uploads author⟩
    { history with
      staged := Function.update history.staged author (some listing)
      ledger := { history.ledger with listings := history.ledger.listings ++ [listing] } }
  | .pointer _ =>
    { history with
      ledger := { history.ledger with
        published := history.ledger.published ++ (history.staged author).toList } }

/-- Record one effect of an execution on the table. -/
def History.record (table : Text) (history : History) (author : Nat) (effect : Effect)
    (applied : Bool) : History :=
  match effect with
  | .getBytes .warehouse key =>
    if key = table ++ currentKey then { history with opener := some author } else history
  | .putObject .warehouse key body =>
    match key.dropPrefix? table with
    | some relative => if applied then history.put author relative body else history
    | none => history
  | _ => history

/-- The answer stands for an operation that took place. -/
def Answer.applied : Answer → Bool
  | .served => true
  | .lost _ => true
  | _ => false

/-- The buckets, the executions under way with the rest of their programs, and the history of one
table. -/
structure World where
  buckets : Buckets
  running : AList (fun _ : Nat => Job (Except JobError JobOutcome))
  history : History

/-- What the warehouse holds under a table prefix, by relative key. -/
def Buckets.under (buckets : Buckets) (table key : Text) : Option Object :=
  buckets.warehouse.lookup (table ++ key)

/-- Executions start, are answered and stop anywhere; objects come into the lake. -/
inductive Action where
  | start (author : Nat) (loaded : Except JobError PipelineConfig) (cleanRun : Bool)
  | answer (author : Nat) (given : Answer)
  | stop (author : Nat)
  | fill (lake : Store)

/-- One step of the executions of a pipeline, with the history of one table. -/
def World.step (pipelinePrefix table : Text) (world : World) : Action → Option World
  | .start author loaded cleanRun =>
    match world.running.lookup author with
    | some _ => none
    | none => some { world with
        running := world.running.insert author (executeJob loaded pipelinePrefix cleanRun)
        history := world.history.start author }
  | .answer author given =>
    match world.running.lookup author with
    | some (.call effect next) =>
      match KaretWorker.answer world.buckets effect given with
      | some (reply, buckets) => some {
          buckets := buckets
          running := world.running.insert author (next reply)
          history := world.history.record table author effect given.applied }
      | none => none
    | _ => none
  | .stop author => some { world with running := world.running.erase author }
  | .fill lake => some { world with buckets := { world.buckets with lake := lake } }

/-! ## Rules on steps -/

/-- The call an execution has reached. -/
def World.pending (world : World) (author : Nat) : Option Effect :=
  match world.running.lookup author with
  | some (.call effect _) => some effect
  | _ => none

/-- The pending call of an execution with the reply an answer gives it. -/
def World.exchange (world : World) (author : Nat) (given : Answer) : Option (Event Effect Reply) :=
  match world.running.lookup author with
  | some (.call effect _) =>
    (answer world.buckets effect given).map (fun outcome => ⟨effect, outcome.1⟩)
  | _ => none

/-- Every other table of the configuration lies apart from the table. -/
def Separate (id : Text) : Except JobError PipelineConfig → Prop
  | .ok config => ∀ table ∈ config.analyticTables, table.id = id ∨ Apart id table.id
  | .error _ => True

instance (id : Text) : DecidablePred (Separate id)
  | .ok config => inferInstanceAs (Decidable (∀ table ∈ config.analyticTables, _))
  | .error _ => isTrue trivial

/-- What any step satisfies: configurations keep other tables apart, and replies
are genuine. -/
def World.Proper (id : Text) (world : World) : Action → Prop
  | .start _ loaded _ => Separate id loaded
  | .answer author given => ∀ event ∈ world.exchange author given, Genuine event.1 event.2
  | _ => True

instance (id : Text) (world : World) : DecidablePred (world.Proper id)
  | .start _ loaded _ => inferInstanceAs (Decidable (Separate id loaded))
  | .answer author given => inferInstanceAs (Decidable (∀ event ∈ world.exchange author given, _))
  | .stop _ => isTrue trivial
  | .fill _ => isTrue trivial

/-- A get of the table's pointer is refused only if there is no pointer. -/
def World.PointerServed (table : Text) (world : World) : Action → Prop
  | .answer author (.refused _) =>
    world.pending author = some (.getBytes .warehouse (table ++ currentKey)) →
      world.buckets.under table currentKey = none
  | _ => True

instance (table : Text) (world : World) : DecidablePred (world.PointerServed table)
  | .answer author (.refused _) => inferInstanceAs (Decidable (world.pending author = _ → _ = _))
  | .answer _ .served | .answer _ (.lost _) | .answer _ (.flag _) | .answer _ (.clock _)
  | .answer _ (.order _) | .answer _ (.outcome _) | .answer _ (.evaluated _)
  | .start _ _ _ | .stop _ | .fill _ => isTrue trivial

/-- An execution starts only when no other is running. -/
def World.Sequential (world : World) : Action → Prop
  | .start _ _ _ => world.running.entries.isEmpty = true
  | _ => True

/-- The effect changes an object under the table prefix. -/
def Changes (table : Text) : Effect → Prop
  | .putObject .warehouse key _ => table <+: key
  | .deleteObject .warehouse key => table <+: key
  | _ => False

instance (table : Text) : DecidablePred (Changes table)
  | .putObject .warehouse key _ => inferInstanceAs (Decidable (table <+: key))
  | .deleteObject .warehouse key => inferInstanceAs (Decidable (table <+: key))
  | .putObject .lake _ _ | .deleteObject .lake _ | .getBytes _ _ | .listKeys _ _ | .loadCancel
  | .now | .overflow | .iterate _ | .buildInlineRegistry _ | .rowsFromCsv _ _ | .newMatcher _
  | .evaluate _ _ _ => isFalse id

/-- Only the execution that read the pointer last changes objects of the table. -/
def World.LatestChanges (table : Text) (world : World) : Action → Prop
  | .answer author _ =>
    ∀ effect ∈ world.pending author, Changes table effect → world.history.opener = some author
  | _ => True

instance (world : World) : DecidablePred world.Sequential
  | .start _ _ _ => inferInstanceAs (Decidable (world.running.entries.isEmpty = true))
  | .answer _ _ | .stop _ | .fill _ => isTrue trivial

instance (table : Text) (world : World) : DecidablePred (world.LatestChanges table)
  | .answer author _ =>
    inferInstanceAs (Decidable (∀ effect ∈ world.pending author, Changes table effect → _ = _))
  | .start _ _ _ | .stop _ | .fill _ => isTrue trivial

/-- The worlds reached by steps that keep to a rule. -/
abbrev Reaches (pipelinePrefix table : Text) (rule : World → Action → Prop) : World → World → Prop :=
  Runs.Reaches (World.step pipelinePrefix table) rule

/-! ## What a step does -/

/-- An answered call is the pending call of a running execution. -/
theorem step_answer {pipelinePrefix table : Text} {world after : World} {author : Nat}
    {given : Answer}
    (stepped : world.step pipelinePrefix table (.answer author given) = some after) :
    ∃ effect next reply buckets, world.running.lookup author = some (.call effect next) ∧
      answer world.buckets effect given = some (reply, buckets) ∧
      after = ⟨buckets, world.running.insert author (next reply),
        world.history.record table author effect given.applied⟩ := by
  simp only [World.step] at stepped
  split at stepped
  · next effect next running =>
    split at stepped
    · next reply buckets answered =>
      exact ⟨effect, next, reply, buckets, running, answered, (Option.some.inj stepped).symm⟩
    · exact nomatch stepped
  · exact nomatch stepped

/-- A started execution was not running and is at its beginning. -/
theorem step_start {pipelinePrefix table : Text} {world after : World} {author : Nat}
    {loaded : Except JobError PipelineConfig} {cleanRun : Bool}
    (stepped : world.step pipelinePrefix table (.start author loaded cleanRun) = some after) :
    world.running.lookup author = none ∧
      after = ⟨world.buckets,
        world.running.insert author (executeJob loaded pipelinePrefix cleanRun),
        world.history.start author⟩ := by
  simp only [World.step] at stepped
  split at stepped
  · exact nomatch stepped
  · next idle => exact ⟨idle, (Option.some.inj stepped).symm⟩

section Answers

variable {buckets buckets' : Buckets} {given : Answer}

/-- A get leaves the buckets alone; it returns the body that is stored, or was
refused. -/
theorem answer_getBytes {bucket : Bucket} {key : Text} {reply : Except Text Object}
    (answered : answer buckets (.getBytes bucket key) given = some (reply, buckets')) :
    buckets' = buckets ∧
      ((∃ body, reply = .ok body ∧ (buckets.store bucket).lookup key = some body) ∨
        ∃ error, reply = .error error ∧ given = .refused error) := by
  cases given <;> simp only [answer, Option.map_eq_some_iff, Prod.mk.injEq, Option.some.injEq,
    reduceCtorEq] at answered
  case served =>
    obtain ⟨body, found, rfl, rfl⟩ := answered
    exact ⟨rfl, Or.inl ⟨body, rfl, found⟩⟩
  case refused error =>
    obtain ⟨rfl, rfl⟩ := answered
    exact ⟨rfl, Or.inr ⟨error, rfl, rfl⟩⟩

/-- A listing leaves the buckets alone and shows the keys that are stored. -/
theorem answer_listKeys {bucket : Bucket} {lead : Text} {reply : Except Text (List Text)}
    (answered : answer buckets (.listKeys bucket lead) given = some (reply, buckets')) :
    buckets' = buckets ∧ ∀ keys, reply = .ok keys →
    keys = (buckets.store bucket).listKeys lead := by
  cases given <;> simp only [answer, Option.some.injEq, Prod.mk.injEq, reduceCtorEq] at answered
  case served =>
    obtain ⟨rfl, rfl⟩ := answered
    refine ⟨rfl, ?_⟩
    rintro keys ⟨⟩
    rfl
  case refused error =>
    obtain ⟨rfl, rfl⟩ := answered
    exact ⟨rfl, fun _ impossible => nomatch impossible⟩

/-- A put stores the body or changes nothing; a success has stored it. -/
theorem answer_putObject {bucket : Bucket} {key : Text} {body : Object} {reply : Except Text Unit}
    (answered : answer buckets (.putObject bucket key body) given = some (reply, buckets')) :
    (given.applied = true ∧
        buckets' = buckets.set bucket ((buckets.store bucket).insert key body)) ∨
      (given.applied = false ∧ buckets' = buckets ∧ ∃ error, reply = .error error) := by
  cases given <;> simp only [answer, Option.some.injEq, Prod.mk.injEq, reduceCtorEq] at answered
  case served => exact Or.inl ⟨rfl, answered.2.symm⟩
  case refused error =>
    obtain ⟨rfl, rfl⟩ := answered
    exact Or.inr ⟨rfl, rfl, error, rfl⟩
  case lost error => exact Or.inl ⟨rfl, answered.2.symm⟩

/-- A delete removes the object or changes nothing. -/
theorem answer_deleteObject {bucket : Bucket} {key : Text} {reply : Except Text Unit}
    (answered : answer buckets (.deleteObject bucket key) given = some (reply, buckets')) :
    buckets' = buckets.set bucket ((buckets.store bucket).erase key) ∨ buckets' = buckets := by
  cases given <;> simp only [answer, Option.some.injEq, Prod.mk.injEq, reduceCtorEq] at answered
  case served => exact Or.inl answered.2.symm
  case refused error => exact Or.inr answered.2.symm
  case lost error => exact Or.inl answered.2.symm

/-- What a put under the table does to the table's objects. -/
theorem under_insert (table key : Text) (body : Object) :
    (buckets.set .warehouse (buckets.warehouse.insert (table ++ key) body)).under table =
      Function.update (buckets.under table) key (some body) := by
  funext tested
  by_cases same : tested = key
  · subst same
    simp [Buckets.under, Buckets.set]
  · have different : table ++ tested ≠ table ++ key :=
      fun equal => same (List.append_cancel_left equal)
    simp [Buckets.under, Buckets.set, AList.lookup_insert_ne different, same]

/-- What a delete under the table does to the table's objects. -/
theorem under_erase (table key : Text) :
    (buckets.set .warehouse (buckets.warehouse.erase (table ++ key))).under table =
      Function.update (buckets.under table) key none := by
  funext tested
  by_cases same : tested = key
  · subst same
    simp [Buckets.under, Buckets.set]
  · have different : table ++ tested ≠ table ++ key :=
      fun equal => same (List.append_cancel_left equal)
    simp [Buckets.under, Buckets.set, AList.lookup_erase_ne different, same]

/-- An effect that changes no object under the table leaves all of them alone. -/
theorem under_unchanged {table : Text} {effect : Effect} {reply : Reply effect}
    (quiet : ¬ Changes table effect)
    (answered : answer buckets effect given = some (reply, buckets')) :
    buckets'.under table = buckets.under table := by
  have apart : ∀ {key tested : Text}, ¬ table <+: key → table ++ tested ≠ key :=
    fun outside same => outside ⟨_, same⟩
  cases effect with
  | getBytes bucket key => rw [(answer_getBytes answered).1]
  | listKeys bucket lead => rw [(answer_listKeys answered).1]
  | putObject bucket key body =>
    rcases answer_putObject answered with ⟨_, rfl⟩ | ⟨_, rfl, _⟩
    · cases bucket with
      | lake => rfl
      | warehouse =>
        funext tested
        exact AList.lookup_insert_ne (apart quiet)
    · rfl
  | deleteObject bucket key =>
    rcases answer_deleteObject answered with rfl | rfl
    · cases bucket with
      | lake => rfl
      | warehouse =>
        funext tested
        exact AList.lookup_erase_ne (apart quiet)
    · rfl
  | loadCancel | now | overflow | iterate | buildInlineRegistry | rowsFromCsv | newMatcher
  | evaluate =>
    cases given <;>
      simp only [answer, Option.some.injEq, Prod.mk.injEq, reduceCtorEq] at answered <;>
      rw [answered.2]

end Answers

/-! ## What the history records -/

/-- A manifest is the last one written for its own version and for no other. -/
theorem Ledger.writer_append (ledger : Ledger) (listing : Listing) (version : Nat) :
    Ledger.writer { ledger with listings := ledger.listings ++ [listing] } version =
      if listing.version = version then some listing else ledger.writer version := by
  by_cases same : listing.version = version
  · simp [Ledger.writer, same]
  · simp [Ledger.writer, same]

section History

variable {table : Text} {history : History} {author : Nat} {applied : Bool}

/-- Whoever asks for the pointer is the last to have opened the table. -/
@[simp] theorem record_getPointer :
    history.record table author (.getBytes .warehouse (table ++ currentKey)) applied =
      { history with opener := some author } := if_pos rfl

/-- A put under the table is recorded where it takes effect. -/
@[simp] theorem record_put (key : Text) (body : Object) :
    history.record table author (.putObject .warehouse (table ++ key) body) applied =
      if applied then history.put author key body else history := by
  simp only [History.record, dropPrefix_iff.mpr rfl]

/-- An effect that neither reads the pointer nor changes the table is not
recorded. -/
theorem record_quiet {effect : Effect} (quiet : ¬ Changes table effect)
    (notPointer : effect ≠ .getBytes .warehouse (table ++ currentKey)) :
    history.record table author effect applied = history := by
  unfold History.record
  split
  · next key =>
    exact if_neg (fun same => notPointer (by rw [same]))
  · next key body =>
    split
    · next relative found => exact absurd ⟨relative, (dropPrefix_iff.mp found).symm⟩ quiet
    · rfl
  · rfl

/-- Only reading the pointer changes who read it last. -/
theorem record_opener {effect : Effect}
    (notPointer : effect ≠ .getBytes .warehouse (table ++ currentKey)) :
    (history.record table author effect applied).opener = history.opener := by
  unfold History.record
  split
  · next key =>
    rw [if_neg (fun same => notPointer (by rw [same]))]
  · next key body =>
    split
    · split
      · cases body <;> rfl
      · rfl
    · rfl
  · rfl

end History

end KaretWorker
