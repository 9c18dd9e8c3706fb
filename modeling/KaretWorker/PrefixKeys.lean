import KaretWorker.PipelinePrefix
import KaretWorker.TableRefinement

/-!
# Keys under a pipeline prefix

A run interpolates its pipeline prefix into every key that it asks the warehouse for. No
key leaves the prefix, whatever the configuration, the table ids in it and the replies are
(`executeJob_within`). With an accepted prefix each of these keys then splits into the
prefix's own segments first (`validatePipelinePrefix_iff`).
-/
namespace KaretWorker

open Texts Interaction

/-- What the effect asks of the warehouse begins with the lead, and it writes to no other
bucket. -/
def Effect.Within (lead : Text) : Effect → Prop
  | .getBytes .warehouse key => lead <+: key
  | .listKeys .warehouse key => lead <+: key
  | .putObject bucket key _ => bucket = .warehouse ∧ lead <+: key
  | .deleteObject bucket key => bucket = .warehouse ∧ lead <+: key
  | _ => True

/-- Every publish state lies under the lead. -/
def Placed (lead : Text) (publishes : Publishes) : Prop :=
  ∀ tableId entry, publishes.lookup tableId = some entry → lead <+: entry.tablePrefix

section Within

variable {lead table : Text} {publishes : Publishes}

/-- An effect that concerns no table concerns no key of the warehouse. -/
theorem within_of_foreign {effect : Effect} (foreign : ∀ table, Foreign table effect) :
    effect.Within lead := by
  cases effect with
  | getBytes bucket key =>
    cases bucket with
    | lake => trivial
    | warehouse => exact absurd List.nil_prefix (foreign [])
  | listKeys bucket listed =>
    cases bucket with
    | lake => trivial
    | warehouse => exact absurd rfl (foreign listed)
  | putObject bucket key body =>
    cases bucket with
    | lake => exact (foreign []).elim
    | warehouse => exact absurd List.nil_prefix (foreign [])
  | deleteObject bucket key =>
    cases bucket with
    | lake => exact (foreign []).elim
    | warehouse => exact absurd List.nil_prefix (foreign [])
  | loadCancel | now | overflow | iterate | buildInlineRegistry | rowsFromCsv | newMatcher
  | evaluate => trivial

/-- A program that concerns no table concerns no key of the warehouse. -/
theorem calls_within {α : Type} {job : Job α} (foreign : ∀ table, job.Calls (Foreign table)) :
    job.Calls (Effect.Within lead) :=
  Program.calls_mono (Program.calls_forall foreign) (fun _ => within_of_foreign)

/-- A further publish state under the lead. -/
theorem Placed.insert (placed : Placed lead publishes) {tableId : Text} {entry : TablePublish}
    (under : lead <+: entry.tablePrefix) : Placed lead (publishes.insert tableId entry) := by
  intro other found lookup
  by_cases same : other = tableId
  · subst same
    rw [AList.lookup_insert] at lookup
    exact Option.some.inj lookup ▸ under
  · rw [AList.lookup_insert_ne same] at lookup
    exact placed other found lookup

/-! ## Tables -/

/-- Reading a manifest stays under the lead. -/
theorem readVersion_within (under : lead <+: table) (version : Nat) :
    (readVersion table version).Calls (Effect.Within lead) := by
  refine ⟨under.trans (List.prefix_append _ _), ?_⟩
  rintro (error | (pointer | manifest | bytes)) <;> trivial

/-- Opening the current version stays under the lead. -/
theorem readCurrent_within (under : lead <+: table) :
    (readCurrent table).Calls (Effect.Within lead) := by
  refine ⟨under.trans (List.prefix_append _ _), ?_⟩
  rintro (error | (pointer | manifest | bytes))
  · trivial
  · exact readVersion_within under pointer.version
  · trivial
  · trivial

/-- A table lies under its pipeline's prefix. -/
theorem tablePrefix_under (pipelinePrefix tableId : Text) :
    pipelinePrefix <+: tablePrefix pipelinePrefix tableId := by
  rw [tablePrefix, List.append_assoc]
  exact List.prefix_append _ _

/-- The tables are opened under the prefix. -/
theorem openTables_within (cleanRun : Bool) (tables : List AnalyticTable)
    (placed : Placed lead publishes) :
    (openTables lead cleanRun tables publishes).Calls (Effect.Within lead) ∧
      (openTables lead cleanRun tables publishes).Returns
        (fun result => ∀ opened, result = .ok opened → Placed lead opened) := by
  induction tables generalizing publishes with
  | nil =>
    constructor
    · trivial
    · rintro opened ⟨⟩
      exact placed
  | cons declared rest inductionHypothesis =>
    have under := tablePrefix_under lead declared.id
    constructor
    · refine Program.calls_bind (readCurrent_within under) ?_
      rintro (error | current)
      · trivial
      · unfold nextVersion
        by_cases bounded : current.version + 1 < u64Bound
        · simp only [bounded, ↓reduceIte, Program.pure_def, Program.done_bind]
          exact (inductionHypothesis (placed.insert under)).1
        · simp only [bounded, ↓reduceIte]
          exact ⟨trivial, fun never => nomatch never⟩
    · refine Program.returns_bind (Program.returns_trivial _ ?_)
      rintro (error | current)
      · exact fun _ impossible => nomatch impossible
      · unfold nextVersion
        by_cases bounded : current.version + 1 < u64Bound
        · simp only [bounded, ↓reduceIte, Program.pure_def, Program.done_bind]
          exact (inductionHypothesis (placed.insert under)).2
        · simp only [bounded, ↓reduceIte]
          exact fun never => nomatch never

/-- Reading the retained manifests stays under the lead. -/
theorem readRetained_within (under : lead <+: table) (versions : List Nat)
    (retained : List TableManifest) :
    (readRetained table versions retained).Calls (Effect.Within lead) := by
  induction versions generalizing retained with
  | nil => trivial
  | cons version rest inductionHypothesis =>
    refine Program.calls_bind (readVersion_within under version) ?_
    rintro (error | manifest)
    · trivial
    · exact inductionHypothesis _

/-- The deletions of a vacuum stay under the lead. -/
theorem deleteTargets_within (under : lead <+: table) (targets : List Text) (deleted : Nat) :
    (deleteTargets table targets deleted).Calls (Effect.Within lead) := by
  induction targets generalizing deleted with
  | nil => trivial
  | cons key rest inductionHypothesis =>
    refine ⟨⟨rfl, under.trans (List.prefix_append _ _)⟩, ?_⟩
    rintro (error | ⟨⟩) <;> exact inductionHypothesis _

/-- A vacuum lists its table, reads manifests of it and deletes keys of it. -/
theorem vacuum_within (under : lead <+: table) (current : Nat) :
    (vacuum table current).Calls (Effect.Within lead) := by
  simp only [vacuum, perform, Program.perform_bind]
  refine ⟨under, ?_⟩
  rintro (error | all)
  · trivial
  · refine Program.calls_bind (readRetained_within under _ _) ?_
    rintro (error | retained)
    · trivial
    · exact Program.calls_bind (deleteTargets_within under _ _) (fun _ => trivial)

/-- Manifest and pointer are put under the lead. -/
theorem publish_within (under : lead <+: table) (manifest : TableManifest) :
    (publish table manifest).Calls (Effect.Within lead) := by
  refine ⟨⟨rfl, under.trans (List.prefix_append _ _)⟩, ?_⟩
  rintro (error | ⟨⟩)
  · trivial
  · exact ⟨⟨rfl, under.trans (List.prefix_append _ _)⟩, fun _ => trivial⟩

/-- Publishing all tables stays under the lead. -/
theorem publishTables_within (placed : Placed lead publishes) (order errors : List Text) :
    (publishTables publishes order errors).Calls (Effect.Within lead) := by
  induction order generalizing errors with
  | nil => trivial
  | cons tableId rest inductionHypothesis =>
    unfold publishTables
    split
    · exact inductionHypothesis errors
    · next entry found =>
      have under := placed tableId entry found
      refine Program.calls_bind ?_ inductionHypothesis
      simp only [publishTable, perform, Program.perform_bind]
      split
      · refine ⟨trivial, fun createdAt => Program.calls_bind (publish_within under _) ?_⟩
        rintro (error | ⟨⟩)
        · trivial
        · exact Program.calls_bind (vacuum_within under _) (fun _ => trivial)
      · trivial

/-! ## Mappings -/

/-- Data files are put under the lead. -/
theorem uploadPartitions_within (version : Nat) (mappingId : Text) (outputs : List PartitionOutput)
    (written : List ManifestFile) :
    (uploadPartitions lead version mappingId outputs written).Calls (Effect.Within lead) := by
  induction outputs generalizing written with
  | nil => trivial
  | cons output rest inductionHypothesis =>
    unfold uploadPartitions
    split
    · trivial
    · refine ⟨⟨rfl, ?_⟩, ?_⟩
      · rw [List.append_assoc]
        exact List.prefix_append _ _
      · rintro (error | ⟨⟩)
        · trivial
        · exact inductionHypothesis _

/-- What a mapping uploads stays under the lead, and so do the publish states it leaves. -/
theorem applyMapping_within (mapping : Mapping) (outputs : List PartitionOutput) (dropped : Nat)
    {progress : Progress} (placed : Placed lead progress.publishes) :
    (applyMapping lead mapping outputs dropped progress).Calls (Effect.Within lead) ∧
      (applyMapping lead mapping outputs dropped progress).Returns
        (fun reached => Placed lead reached.publishes) := by
  unfold applyMapping
  split
  · exact ⟨trivial, placed⟩
  · next entry found =>
    constructor
    · refine Program.calls_bind (uploadPartitions_within _ _ _ _) ?_
      rintro (error | written) <;> trivial
    · refine Program.returns_bind (Program.returns_trivial _ ?_)
      rintro (error | written)
      · exact placed
      · exact placed.insert (placed _ entry found)

/-- The mapping loop uploads under the prefix. -/
theorem runMappings_within (config : PipelineConfig) (files : List (Text × Object))
    (mappings : List Mapping) {progress : Progress} (placed : Placed lead progress.publishes) :
    (runMappings config lead files mappings progress).Calls (Effect.Within lead) ∧
      (runMappings config lead files mappings progress).Returns
        (fun result => ∀ reached, result = .ok reached → Placed lead reached.publishes) := by
  induction mappings generalizing progress with
  | nil =>
    constructor
    · trivial
    · rintro reached ⟨⟩
      exact placed
  | cons mapping rest inductionHypothesis =>
    have failing : ∀ errors, Placed lead
        (Progress.mk progress.publishes progress.partitions progress.deduped errors).publishes :=
      fun _ => placed
    simp only [runMappings, perform, Program.perform_bind]
    constructor
    · refine ⟨trivial, ?_⟩
      rintro (_ | _)
      · simp only [Bool.false_eq_true, ↓reduceIte]
        split
        · exact (inductionHypothesis placed).1
        split
        · exact (inductionHypothesis placed).1
        refine ⟨trivial, ?_⟩
        rintro (⟨outputs, dropped⟩ | message | joinError)
        · have applied := applyMapping_within mapping outputs dropped placed
          exact Program.calls_bind_returns applied.1 applied.2
            (fun _ placed => (inductionHypothesis placed).1)
        · exact (inductionHypothesis (failing _)).1
        · exact (inductionHypothesis (failing _)).1
      · trivial
    · rintro (_ | _)
      · simp only [Bool.false_eq_true, ↓reduceIte]
        split
        · exact (inductionHypothesis placed).2
        split
        · exact (inductionHypothesis placed).2
        rintro (⟨outputs, dropped⟩ | message | joinError)
        · exact Program.returns_bind (Program.returns_mono
            (applyMapping_within mapping outputs dropped placed).2
            (fun _ placed => (inductionHypothesis placed).2))
        · exact (inductionHypothesis (failing _)).2
        · exact (inductionHypothesis (failing _)).2
      · exact fun _ impossible => by cases impossible

/-- Whatever a run asks of the warehouse is under its prefix. -/
theorem executeJob_within (loaded : Except JobError PipelineConfig) (pipelinePrefix : Text)
    (cleanRun : Bool) :
    (executeJob loaded pipelinePrefix cleanRun).Calls (Effect.Within pipelinePrefix) := by
  cases loaded with
  | error error => trivial
  | ok config =>
    have start : Placed pipelinePrefix ∅ := fun other entry found => nomatch found
    obtain ⟨opens, opened⟩ := openTables_within cleanRun config.analyticTables start
    refine Program.calls_bind_returns opens opened ?_
    rintro (error | publishes) isPlaced
    · trivial
    have placed := isPlaced publishes rfl
    refine Program.calls_bind (calls_within (fun table => listSources_foreign table _ _)) ?_
    intro candidates
    refine Program.calls_bind (calls_within (fun table => downloadAll_foreign table _ _)) ?_
    rintro (error | files)
    · trivial
    dsimp only
    split
    · trivial
    refine Program.calls_bind (calls_within (fun table => loadDimensions_foreign table _)) ?_
    rintro (error | ⟨⟩)
    · trivial
    have start' : Placed pipelinePrefix (Progress.mk publishes 0 0 []).publishes := placed
    obtain ⟨maps, mapped⟩ := runMappings_within config files config.mappings start'
    refine Program.calls_bind_returns maps mapped ?_
    rintro (error | progress) reached
    · trivial
    simp only [perform, Program.perform_bind]
    exact ⟨trivial, fun order => Program.calls_bind
      (publishTables_within (reached progress rfl) order _) (fun _ => trivial)⟩

end Within

/-! ## Accepted prefixes -/

/-- What the effect asks of the warehouse continues the lead, and splits into the given
segments first. It writes to no other bucket. -/
def Effect.KeyedBy (lead : Text) (segments : List Text) : Effect → Prop
  | .getBytes .warehouse key => ∃ rest, key = lead ++ rest ∧ key.splitOn '/' = segments ++ rest.splitOn '/'
  | .listKeys .warehouse key => ∃ rest, key = lead ++ rest ∧ key.splitOn '/' = segments ++ rest.splitOn '/'
  | .putObject bucket key _ => bucket = .warehouse ∧
      ∃ rest, key = lead ++ rest ∧ key.splitOn '/' = segments ++ rest.splitOn '/'
  | .deleteObject bucket key => bucket = .warehouse ∧
      ∃ rest, key = lead ++ rest ∧ key.splitOn '/' = segments ++ rest.splitOn '/'
  | _ => True

/-- The prefix check accepts exactly its grammar: a prefix is accepted if and only if it is
short enough and consists of valid segments, each followed by a slash. Whatever continues
an accepted prefix splits into these segments first, and so does every key that a run with
it asks the warehouse for. -/
theorem validatePipelinePrefix_iff (text : Text) :
    (validatePipelinePrefix text = .ok () ↔
      byteLength text ≤ maxPrefixLen ∧ ∃ segments, WrittenBy segments text) ∧
    ∀ segments, WrittenBy segments text →
      (∀ rest, (text ++ rest).splitOn '/' = segments ++ rest.splitOn '/') ∧
      ∀ loaded cleanRun, (executeJob loaded text cleanRun).Calls (Effect.KeyedBy text segments) := by
  refine ⟨validatePipelinePrefix_ok, fun segments written => ⟨written.splitOn_append, ?_⟩⟩
  have keyed : ∀ key, text <+: key →
      ∃ rest, key = text ++ rest ∧ key.splitOn '/' = segments ++ rest.splitOn '/' := by
    rintro key ⟨rest, rfl⟩
    exact ⟨rest, rfl, written.splitOn_append rest⟩
  intro loaded cleanRun
  apply Program.calls_mono (executeJob_within loaded text cleanRun)
  intro effect within
  cases effect with
  | getBytes bucket key | listKeys bucket key =>
    cases bucket with
    | lake => trivial
    | warehouse => exact keyed key within
  | putObject bucket key body => exact ⟨within.1, keyed key within.2⟩
  | deleteObject bucket key => exact ⟨within.1, keyed key within.2⟩
  | loadCancel | now | overflow | iterate | buildInlineRegistry | rowsFromCsv | newMatcher
  | evaluate => trivial

end KaretWorker
