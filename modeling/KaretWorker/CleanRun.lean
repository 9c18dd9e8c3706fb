import KaretWorker.SourceReads

/-!
# What a clean run has read

The files of a mapping are replaced by the result of evaluating it over whatever
was fetched of its source. None of the failed listings and downloads reaches the
outcome's list of errors.

For a lake, a configuration and a pattern of failures, `clean_run_iff` says exactly
when every run over them keeps the promise of a clean outcome: each replaced
mapping was evaluated over all accepted objects of its source, and `NoFiles` is
reported only if there are none.
-/
namespace KaretWorker

open Texts Interaction

/-! ## What the parts of a run do besides -/

section Parts

/-- The effect is a read, or the stop on overflow. -/
def Effect.Reads : Effect → Prop
  | .getBytes _ _ => True
  | .listKeys _ _ => True
  | .overflow => True
  | _ => False

/-- A read starts no mapping. -/
theorem Effect.Reads.not_evaluates {effect : Effect} (reads : effect.Reads) :
    ¬ effect.Evaluates := by
  intro evaluates
  cases effect with
  | evaluate mapping table files => exact reads
  | getBytes | listKeys | putObject | deleteObject | loadCancel | now | overflow | iterate
  | buildInlineRegistry | rowsFromCsv | newMatcher => exact evaluates

/-- Opening the current version only reads. -/
theorem readCurrent_reads (table : Text) : (readCurrent table).Calls Effect.Reads := by
  refine ⟨trivial, ?_⟩
  rintro (error | (pointer | manifest | bytes))
  · trivial
  · refine ⟨trivial, ?_⟩
    rintro (error | (pointer | manifest | bytes)) <;> trivial
  · trivial
  · trivial

/-- Opening the tables only reads. -/
theorem openTables_reads (pipelinePrefix : Text) (cleanRun : Bool) (tables : List AnalyticTable)
    (publishes : Publishes) :
    (openTables pipelinePrefix cleanRun tables publishes).Calls Effect.Reads := by
  induction tables generalizing publishes with
  | nil => trivial
  | cons table rest inductionHypothesis =>
    refine Program.calls_bind (readCurrent_reads _) ?_
    rintro (error | manifest)
    · trivial
    · refine Program.calls_bind ?_ (fun version => inductionHypothesis _)
      unfold nextVersion
      split
      · trivial
      · exact ⟨trivial, fun never => nomatch never⟩

/-- Listing the sources only reads. -/
theorem listSources_reads (containers : List SourceContainer) (candidates : List Text) :
    (listSources containers candidates).Calls Effect.Reads := by
  induction containers generalizing candidates with
  | nil => trivial
  | cons container rest inductionHypothesis =>
    refine ⟨trivial, ?_⟩
    rintro (error | listed) <;> exact inductionHypothesis _

/-- Downloads start no mapping. -/
theorem downloadAll_quiet (candidates : List Text) (files : List (Text × Object)) :
    (downloadAll candidates files).Calls (fun effect => ¬ effect.Evaluates) := by
  induction candidates generalizing files with
  | nil => trivial
  | cons key rest inductionHypothesis =>
    refine ⟨id, ?_⟩
    rintro (_ | _)
    · refine ⟨id, ?_⟩
      rintro (error | body) <;> exact inductionHypothesis _
    · trivial

/-- The effect reads the lake or builds a dimension. -/
def Effect.Loads : Effect → Prop
  | .getBytes _ _ => True
  | .listKeys _ _ => True
  | .buildInlineRegistry _ => True
  | .rowsFromCsv _ _ => True
  | .newMatcher _ => True
  | _ => False

/-- Loading dimensions starts no mapping. -/
theorem Effect.Loads.not_evaluates {effect : Effect} (loads : effect.Loads) :
    ¬ effect.Evaluates := by
  intro evaluates
  cases effect with
  | evaluate mapping table files => exact loads
  | getBytes | listKeys | putObject | deleteObject | loadCancel | now | overflow | iterate
  | buildInlineRegistry | rowsFromCsv | newMatcher => exact evaluates

/-- Reads of the lake are among the effects of loading. -/
theorem Effect.OnLake.loads {effect : Effect} (onLake : effect.OnLake) : effect.Loads := by
  unfold Effect.OnLake at onLake
  split at onLake
  · trivial
  · trivial
  · trivial
  · trivial
  · trivial
  · exact onLake.elim

/-- Dimensions are loaded by the effects of loading. -/
theorem loadDimensions_loads (dimensions : List Dimension) :
    (loadDimensions dimensions).Calls Effect.Loads :=
  Program.calls_mono (loadDimensions_onLake dimensions) (fun _ onLake => onLake.loads)

/-- Loading dimensions starts no mapping. -/
theorem loadDimensions_quiet (dimensions : List Dimension) :
    (loadDimensions dimensions).Calls (fun effect => ¬ effect.Evaluates) :=
  Program.calls_mono (loadDimensions_loads dimensions) (fun _ => Effect.Loads.not_evaluates)

/-- Loading the dimensions fails with errors of a dimension only. -/
theorem readDimensionFiles_returns {other : JobError}
    (apart : ∀ message, .dimension message ≠ other) (dimension : Dimension) (keys : List Text) :
    (readDimensionFiles dimension keys).Returns (fun result => result ≠ .error other) := by
  induction keys with
  | nil => exact fun impossible => nomatch impossible
  | cons key rest inductionHypothesis =>
    rintro (error | body)
    · exact fun same => apart _ (Except.error.inj same)
    · rintro (error | ⟨⟩)
      · exact fun same => apart _ (Except.error.inj same)
      · exact inductionHypothesis

/-- Reading dimension files fails with dimension errors only. -/
theorem loadFileDimensions_returns {other : JobError}
    (apart : ∀ message, .dimension message ≠ other) (dimensions : List Dimension) :
    (loadFileDimensions dimensions).Returns (fun result => result ≠ .error other) := by
  induction dimensions with
  | nil => exact fun impossible => nomatch impossible
  | cons dimension rest inductionHypothesis =>
    unfold loadFileDimensions
    split
    · exact inductionHypothesis
    · simp only [perform, Program.perform_bind]
      rintro (error | keys)
      · exact fun same => apart _ (Except.error.inj same)
      · refine Program.returns_bind
          (Program.returns_mono (readDimensionFiles_returns apart dimension _) ?_)
        rintro (error | ⟨⟩) differs
        · exact differs
        · rintro (error | ⟨⟩)
          · exact fun same => apart _ (Except.error.inj same)
          · exact inductionHypothesis

/-- Loading dimensions fails with dimension errors only. -/
theorem loadDimensions_returns {other : JobError} (apart : ∀ message, .dimension message ≠ other)
    (dimensions : List Dimension) :
    (loadDimensions dimensions).Returns (fun result => result ≠ .error other) := by
  rintro (error | ⟨⟩)
  · exact fun same => apart _ (Except.error.inj same)
  · exact loadFileDimensions_returns apart dimensions

/-- Opening the tables fails as a read of the configuration does. -/
theorem openTables_returns {other : JobError} (apart : ∀ message, .configRead message ≠ other)
    (pipelinePrefix : Text) (cleanRun : Bool) (tables : List AnalyticTable)
    (publishes : Publishes) :
    (openTables pipelinePrefix cleanRun tables publishes).Returns
      (fun result => result ≠ .error other) := by
  induction tables generalizing publishes with
  | nil => exact fun impossible => nomatch impossible
  | cons table rest inductionHypothesis =>
    refine Program.returns_bind (Program.returns_trivial _ ?_)
    rintro (error | manifest)
    · exact fun same => apart _ (Except.error.inj same)
    · exact Program.returns_bind (Program.returns_trivial _ (fun version => inductionHypothesis _))

/-- The mapping loop fails only by being cancelled. -/
theorem runMappings_returns (config : PipelineConfig) (pipelinePrefix : Text)
    (files : List (Text × Object)) (mappings : List Mapping) (progress : Progress) :
    (runMappings config pipelinePrefix files mappings progress).Returns
      (fun result => result ≠ .error .noFiles) := by
  induction mappings generalizing progress with
  | nil => exact fun impossible => by cases impossible
  | cons mapping rest inductionHypothesis =>
    simp only [runMappings, perform, Program.perform_bind]
    rintro (_ | _)
    · simp only [Bool.false_eq_true, ↓reduceIte]
      split
      · exact inductionHypothesis _
      · split
        · exact inductionHypothesis _
        · rintro (⟨outputs, dropped⟩ | message | joinError)
          · exact Program.returns_bind (Program.returns_trivial _ (fun _ => inductionHypothesis _))
          · exact inductionHypothesis _
          · exact inductionHypothesis _
    · exact fun impossible => by cases impossible

/-- The effect occurs while tables are published and vacuumed. -/
def Effect.Concludes : Effect → Prop
  | .getBytes _ _ => True
  | .listKeys _ _ => True
  | .putObject _ _ _ => True
  | .deleteObject _ _ => True
  | .now => True
  | .overflow => True
  | _ => False

/-- Nothing of the publishing starts a mapping. -/
theorem Effect.Concludes.not_evaluates {effect : Effect} (concludes : effect.Concludes) :
    ¬ effect.Evaluates := by
  intro evaluates
  cases effect with
  | evaluate mapping table files => exact concludes
  | getBytes | listKeys | putObject | deleteObject | loadCancel | now | overflow | iterate
  | buildInlineRegistry | rowsFromCsv | newMatcher => exact evaluates

/-- A read may stand among the effects of the publishing. -/
theorem Effect.Reads.concludes {effect : Effect} (reads : effect.Reads) : effect.Concludes := by
  cases effect with
  | getBytes | listKeys | overflow => trivial
  | putObject | deleteObject | loadCancel | now | iterate | buildInlineRegistry | rowsFromCsv
  | newMatcher | evaluate => exact absurd reads id

/-- The deletions of a vacuum are part of the publishing. -/
theorem deleteTargets_concludes (table : Text) (targets : List Text) (deleted : Nat) :
    (deleteTargets table targets deleted).Calls Effect.Concludes := by
  induction targets generalizing deleted with
  | nil => trivial
  | cons key rest inductionHypothesis =>
    refine ⟨trivial, ?_⟩
    rintro (error | ⟨⟩) <;> exact inductionHypothesis _

/-- Reading the retained manifests only reads. -/
theorem readRetained_reads (table : Text) (versions : List Nat) (retained : List TableManifest) :
    (readRetained table versions retained).Calls Effect.Reads := by
  induction versions generalizing retained with
  | nil => trivial
  | cons version rest inductionHypothesis =>
    refine ⟨trivial, ?_⟩
    rintro (error | (pointer | manifest | bytes))
    · trivial
    · trivial
    · exact inductionHypothesis _
    · trivial

/-- A vacuum is part of the publishing. -/
theorem vacuum_concludes (table : Text) (current : Nat) :
    (vacuum table current).Calls Effect.Concludes := by
  simp only [vacuum, perform, Program.perform_bind]
  refine ⟨trivial, ?_⟩
  rintro (error | all)
  · trivial
  · refine Program.calls_bind (Program.calls_mono (readRetained_reads _ _ _)
      (fun _ => Effect.Reads.concludes)) ?_
    rintro (error | retained)
    · trivial
    · exact Program.calls_bind (deleteTargets_concludes _ _ _) (fun _ => trivial)

/-- Putting manifest and pointer is part of the publishing. -/
theorem publish_concludes (table : Text) (manifest : TableManifest) :
    (publish table manifest).Calls Effect.Concludes := by
  refine ⟨trivial, ?_⟩
  rintro (error | ⟨⟩)
  · trivial
  · exact ⟨trivial, fun _ => trivial⟩

/-- Publishing one table, with its vacuum, is part of the publishing. -/
theorem publishTable_concludes (tableId : Text) (entry : TablePublish) (errors : List Text) :
    (publishTable tableId entry errors).Calls Effect.Concludes := by
  simp only [publishTable, perform, Program.perform_bind]
  split
  · refine ⟨trivial, fun createdAt => Program.calls_bind (publish_concludes _ _) ?_⟩
    rintro (error | ⟨⟩)
    · trivial
    · exact Program.calls_bind (vacuum_concludes _ _) (fun _ => trivial)
  · trivial

/-- The loop over the tables is part of the publishing. -/
theorem publishTables_concludes (publishes : Publishes) (order : List Text) (errors : List Text) :
    (publishTables publishes order errors).Calls Effect.Concludes := by
  induction order generalizing errors with
  | nil => trivial
  | cons tableId rest inductionHypothesis =>
    unfold publishTables
    split
    · exact inductionHypothesis _
    · exact Program.calls_bind (publishTable_concludes _ _ _) (fun _ => inductionHypothesis _)

/-- Publishing starts no mapping. -/
theorem publishTables_quiet (publishes : Publishes) (order : List Text) (errors : List Text) :
    (publishTables publishes order errors).Calls (fun effect => ¬ effect.Evaluates) :=
  Program.calls_mono (publishTables_concludes publishes order errors)
    (fun _ => Effect.Concludes.not_evaluates)

/-- Publishing only adds errors. -/
theorem publishTable_errors (tableId : Text) (entry : TablePublish) (errors : List Text) :
    (publishTable tableId entry errors).Returns (fun result => errors <+: result) := by
  simp only [publishTable, perform, Program.perform_bind]
  split
  · intro createdAt
    refine Program.returns_bind (Program.returns_trivial _ ?_)
    rintro (error | ⟨⟩)
    · exact List.prefix_append _ _
    · exact Program.returns_bind (Program.returns_trivial _ (fun _ => List.prefix_refl _))
  · exact List.prefix_refl _

/-- Publishing adds errors to those it was given and drops none. -/
theorem publishTables_errors (publishes : Publishes) (order : List Text) (errors : List Text) :
    (publishTables publishes order errors).Returns (fun result => errors <+: result) := by
  induction order generalizing errors with
  | nil => exact List.prefix_refl _
  | cons tableId rest inductionHypothesis =>
    unfold publishTables
    split
    · exact inductionHypothesis _
    · refine Program.returns_bind (Program.returns_mono (publishTable_errors _ _ _) ?_)
      intro grown grows
      exact Program.returns_mono (inductionHypothesis grown) (fun _ further => grows.trans further)

end Parts

/-! ## A run from its beginning to its end -/

section Whole

variable {config : PipelineConfig} {pipelinePrefix : Text} {cleanRun : Bool} {pattern : ReadPattern}
  {lake warehouse : Store} {trace : List (Event Effect Reply)} {after : Progressing}
  {result : Except JobError JobOutcome}

/-- How a run can end. -/
inductive Ending (config : PipelineConfig) (pipelinePrefix : Text) (pattern : ReadPattern)
    (lake : Store) (trace : List (Event Effect Reply)) : Except JobError JobOutcome → Prop where
  | broken (error : JobError) (other : error ≠ .noFiles) :
      Ending config pipelinePrefix pattern lake trace (.error error)
  | idle (unfetched : ∀ key, ¬ Fetched config lake pattern key) :
      Ending config pipelinePrefix pattern lake trace (.error .noFiles)
  | evaluated (files : List (Text × Object)) (exactly : FilesOf config lake pattern files)
      (progress reached : Progress) (before middle : Progressing) (mapping : List (Event Effect Reply))
      (maps : RunsOver pattern (runMappings config pipelinePrefix files config.mappings progress)
        before mapping (.ok reached) middle)
      (only : ∀ event ∈ trace, event.1.Evaluates → event ∈ mapping)
      (within : ∀ event ∈ mapping, event ∈ trace) (outcome : JobOutcome)
      (grows : reached.errors <+: outcome.errors) :
      Ending config pipelinePrefix pattern lake trace (.ok outcome)

/-- Opening the tables leaves everything as it is. -/
theorem openTables_completes {before : Progressing} {publishes : Publishes}
    {opened : Except JobError Publishes}
    (completed :
      RunsOver pattern (openTables pipelinePrefix cleanRun config.analyticTables publishes)
      before trace opened after) : after = before := by
  refine Program.unchanged_completes (openTables_reads _ _ _ _) ?_ completed
  intro world effect reply world' reads patterned
  cases effect with
  | getBytes bucket key => exact patterned_read (Or.inl ⟨bucket, key, rfl⟩) patterned
  | listKeys bucket lead => exact patterned_read (Or.inr ⟨bucket, lead, rfl⟩) patterned
  | overflow => exact nomatch reply
  | putObject | deleteObject | loadCancel | now | iterate | buildInlineRegistry | rowsFromCsv
  | newMatcher | evaluate => exact absurd reads id

/-- What was found in the lake and downloaded is what the run could fetch. -/
theorem filesOf_downloaded {candidates : List Text} {files : List (Text × Object)}
    (found : ∀ key, key ∈ candidates ↔ key ∈ ([] : List Text) ∨
      ∃ container ∈ config.sourceContainers, ¬ pattern.listFails container.pathPrefix ∧
        Offered lake container key)
    (downloaded : ∀ key body, (key, body) ∈ files ↔ (key, body) ∈ ([] : List (Text × Object)) ∨
      (key ∈ candidates ∧ ¬ pattern.getFails key ∧ lake.lookup key = some body)) :
    FilesOf config lake pattern files := by
  intro key body
  simp only [downloaded, found, List.not_mem_nil, false_or, Fetched]
  tauto

/-- Nothing was fetched when there are no files. -/
theorem not_fetched_of_nil (exactly : FilesOf config lake pattern []) (key : Text) :
    ¬ Fetched config lake pattern key := by
  intro fetched
  have ⟨_, _, _, _, _, _, present⟩ := fetched
  obtain ⟨body, isBody⟩ := Option.isSome_iff_exists.mp present
  exact List.not_mem_nil ((exactly key body).mpr ⟨fetched, isBody⟩)

/-- A run that completes is broken by an error, finds no files, or evaluates its mappings. -/
theorem executeJob_ending (completed : RunsOver pattern
    (executeJob (.ok config) pipelinePrefix cleanRun) ⟨false, lake, warehouse⟩ trace result after) :
    Ending config pipelinePrefix pattern lake trace result := by
  obtain ⟨opening, opened, _, _, opens, continues, rfl⟩ := Program.bind_completes completed
  obtain rfl := openTables_completes opens
  have opensQuietly := Program.calls_completes (openTables_reads _ _ _ _) opens
  cases opened with
  | error error =>
    cases continues
    refine .broken error ?_
    rintro rfl
    exact Program.returns_completes (openTables_returns (by simp) _ _ _ _) opens rfl
  | ok publishes =>
    obtain ⟨listing, candidates, _, _, lists, continues, rfl⟩ := Program.bind_completes continues
    obtain ⟨rfl, found⟩ := listSources_completes lists
    have listsQuietly := Program.calls_completes (listSources_reads _ _) lists
    obtain ⟨fetching, fetched, _, _, downloads, continues, rfl⟩ := Program.bind_completes continues
    have downloadsQuietly := Program.calls_completes (downloadAll_quiet _ _) downloads
    obtain ⟨rfl, rfl | ⟨files, rfl, downloaded⟩⟩ := downloadAll_completes downloads
    · cases continues
      exact .broken .cancelled (fun impossible => nomatch impossible)
    have exactly := filesOf_downloaded found downloaded
    simp only at continues
    split at continues
    · next empty =>
      cases continues
      rw [List.isEmpty_iff] at empty
      subst empty
      exact .idle (not_fetched_of_nil exactly)
    obtain ⟨loading, loaded, before, _, loads, continues, rfl⟩ := Program.bind_completes continues
    have loadsQuietly := Program.calls_completes (loadDimensions_quiet _) loads
    cases loaded with
    | error error =>
      cases continues
      refine .broken error ?_
      rintro rfl
      exact Program.returns_completes (loadDimensions_returns (by simp) _) loads rfl
    | ok _ =>
      obtain ⟨mapping, mapped, middle, _, maps, continues, rfl⟩ := Program.bind_completes continues
      cases mapped with
      | error error =>
        cases continues
        refine .broken error ?_
        rintro rfl
        exact Program.returns_completes (runMappings_returns _ _ _ _ _) maps rfl
      | ok reached =>
        simp only [perform, Program.perform_bind] at continues
        obtain ⟨order, _, _, _, finishes, rfl⟩ := Program.call_completes continues
        obtain ⟨publishing, errors, _, _, publishes, ends, rfl⟩ := Program.bind_completes finishes
        have publishesQuietly := Program.calls_completes (publishTables_quiet _ _ _) publishes
        have grows := Program.returns_completes (publishTables_errors _ _ _) publishes
        cases ends
        refine .evaluated files exactly _ reached before middle mapping maps ?_ ?_ _ grows
        · intro event member evaluates
          simp only [List.mem_append, List.mem_cons, List.append_nil] at member
          rcases member with early | early | early | early | found | rfl | late
          · exact absurd evaluates (opensQuietly event early).not_evaluates
          · exact absurd evaluates (listsQuietly event early).not_evaluates
          · exact absurd evaluates (downloadsQuietly event early)
          · exact absurd evaluates (loadsQuietly event early)
          · exact found
          · exact absurd evaluates id
          · exact absurd evaluates (publishesQuietly event late)
        · intro event member
          simp only [List.mem_append]
          tauto

/-- With distinct ids, a mapping looked up again by its id is the mapping itself. -/
theorem evaluated_self (distinct : (config.mappings.map Mapping.id).Nodup) {mapping : Mapping}
    (member : mapping ∈ config.mappings) :
    (config.mappings.find? (fun other => other.id = mapping.id)).getD mapping = mapping := by
  cases found : config.mappings.find? (fun other => other.id = mapping.id) with
  | none => rfl
  | some other =>
    have sameId : other.id = mapping.id := by simpa using List.find?_some found
    exact List.inj_on_of_nodup_map distinct (List.mem_of_find?_eq_some found) member sameId

/-- When failures split no source, every run keeps the promise. -/
theorem readsAll_of_wholeSources (distinct : (config.mappings.map Mapping.id).Nodup)
    (whole : WholeSources config lake pattern)
    (completed : RunsOver pattern (executeJob (.ok config) pipelinePrefix cleanRun)
      ⟨false, lake, warehouse⟩ trace result after) : ReadsAll config lake trace result := by
  cases executeJob_ending completed with
  | broken error other =>
    exact ⟨fun _ impossible => (nomatch impossible),
      fun same => absurd (Except.error.inj same) other⟩
  | idle unfetched =>
    refine ⟨fun _ impossible => (nomatch impossible), fun _ => ?_⟩
    rcases whole.2 with ⟨key, fetched⟩ | nothing
    · exact absurd fetched (unfetched key)
    · exact nothing
  | evaluated files exactly progress reached before middle mappingTrace maps only within outcome
      grows =>
    refine ⟨?_, fun impossible => (nomatch impossible)⟩
    rintro _ ⟨⟩ clean mapping member container isSource ⟨table, handed, outputs, dropped, occurred⟩
      key body offered isBody
    have noErrors : reached.errors = [] := by
      rw [clean] at grows
      exact List.prefix_nil.mp grows
    obtain ⟨looped, loopedMember, source, reply, isLooped, fed, same⟩ :=
      runMappings_events maps (only _ occurred trivial) trivial
    have isMapping : mapping = looped := by
      simp only [evaluation, evaluated_self distinct loopedMember, Sigma.mk.injEq,
        Effect.evaluate.injEq] at same
      exact same.1.1
    subst isMapping
    obtain rfl : source = container := Option.some.inj (isLooped.symm.trans isSource)
    rcases whole.1 with ⟨other, otherMember, otherSource, isOther, otherFed, undeclared⟩ | complete
    · obtain ⟨_, _, _, declared⟩ := runMappings_partitions maps noErrors otherMember isOther
        ((filesUnder_iff exactly otherSource).mpr otherFed)
      rw [undeclared] at declared
      exact nomatch declared
    · have fetched := complete mapping member source isSource
        ((filesUnder_iff exactly source).mp fed) key offered
      refine ⟨table, handed, .partitions outputs dropped, occurred, ?_⟩
      simp only [evaluation, Sigma.mk.injEq, Effect.evaluate.injEq] at same
      rw [same.1.2.2]
      exact List.mem_filter.mpr ⟨(exactly key body).mpr ⟨fetched, isBody⟩,
        List.isPrefixOf_iff_prefix.mpr offered.1⟩

end Whole

/-! ## Runs that happen -/

/-- Some run over the lake ends with the value. -/
abbrev EndsOver {α : Type} (pattern : ReadPattern) (job : Job α) (before : Progressing) (value : α)
    (after : Progressing) : Prop :=
  Program.Ends (Patterned pattern) job before value after

section Possible

variable {config : PipelineConfig} {pipelinePrefix : Text} {pattern : ReadPattern}
  {lake warehouse : Store}

/-- An effect that ends no reading and whose reply the pattern leaves open can be
answered in any fitting way. -/
theorem patterned_answer {finished : Bool} {buckets buckets' : Buckets} {effect : Effect}
    {reply : Reply effect} (given : Answer) (genuine : Genuine effect reply)
    (answered : answer buckets effect given = some (reply, buckets'))
    (goesOn : effect.endsReading = false) (fails : finished = true ∨ FailsAs pattern effect reply) :
    Patterned pattern ⟨finished, buckets⟩ effect reply ⟨finished, buckets'⟩ := by
  refine ⟨genuine, ⟨given, answered⟩, by simp [goesOn], fun unfinished => ?_⟩
  rcases fails with isFinished | asPattern
  · exact nomatch isFinished.symm.trans unfinished
  · exact asPattern

/-- The tables can all be opened as unpublished. -/
theorem openTables_ends (tables : List AnalyticTable) (publishes : Publishes) :
    ∃ opened, EndsOver pattern (openTables pipelinePrefix false tables publishes)
      ⟨false, lake, warehouse⟩
      (.ok opened) ⟨false, lake, warehouse⟩ ∧
      ∀ id, (publishes.lookup id).isSome = true ∨ (∃ table ∈ tables, table.id = id) →
        (opened.lookup id).isSome = true := by
  induction tables generalizing publishes with
  | nil => exact ⟨publishes, Program.ends_done _ _, fun id held => by simpa using held⟩
  | cons table rest inductionHypothesis =>
    obtain ⟨opened, ends, held⟩ := inductionHypothesis
      (publishes.insert table.id ⟨tablePrefix pipelinePrefix table.id, 1, [], false⟩)
    refine ⟨opened, ?_, ?_⟩
    · refine Program.ends_call (patterned_answer (.refused "unavailable".toList) trivial rfl rfl
        (Or.inr trivial)) ?_
      exact ends
    · intro id cases
      apply held
      by_cases same : id = table.id
      · subst same
        simp
      · rw [AList.lookup_insert_ne same]
        simpa [Ne.symm same] using cases

/-- The sources can be listed as the pattern says. -/
theorem listSources_ends (containers : List SourceContainer) (candidates : List Text) :
    ∃ found, EndsOver pattern (listSources containers candidates) ⟨false, lake, warehouse⟩ found
      ⟨false, lake, warehouse⟩ := by
  induction containers generalizing candidates with
  | nil => exact ⟨candidates, Program.ends_done _ _⟩
  | cons container rest inductionHypothesis =>
    by_cases fails : pattern.listFails container.pathPrefix
    · have refused : Patterned pattern ⟨false, lake, warehouse⟩
        (.listKeys .lake container.pathPrefix)
          (.error []) ⟨false, lake, warehouse⟩ :=
        patterned_answer (.refused []) trivial rfl rfl (Or.inr fails)
      obtain ⟨found, ends⟩ := inductionHypothesis candidates
      exact ⟨found, Program.ends_call refused ends⟩
    · have served : Patterned pattern ⟨false, lake, warehouse⟩
        (.listKeys .lake container.pathPrefix)
          (.ok (lake.listKeys container.pathPrefix)) ⟨false, lake, warehouse⟩ :=
        patterned_answer .served trivial rfl rfl (Or.inr fails)
      obtain ⟨found, ends⟩ := inductionHypothesis
        (addCandidates container candidates (lake.listKeys container.pathPrefix))
      exact ⟨found, Program.ends_call served ends⟩

/-- The cancel flag can stay unset. -/
theorem patterned_uncancelled (state : Progressing) :
    Patterned pattern state .loadCancel false state :=
  patterned_answer (.flag false) trivial rfl rfl (Or.inr trivial)

/-- Stored candidates can be downloaded as the pattern says. -/
theorem downloadAll_ends (candidates : List Text) (files : List (Text × Object))
    (present : ∀ key ∈ candidates, (lake.lookup key).isSome = true) :
    ∃ found, EndsOver pattern (downloadAll candidates files) ⟨false, lake, warehouse⟩ (.ok found)
      ⟨false, lake, warehouse⟩ := by
  induction candidates generalizing files with
  | nil => exact ⟨files, Program.ends_done _ _⟩
  | cons key rest inductionHypothesis =>
    have restPresent : ∀ key ∈ rest, (lake.lookup key).isSome = true :=
      fun other member => present other (List.mem_cons_of_mem _ member)
    by_cases fails : pattern.getFails key
    · have refused : Patterned pattern ⟨false, lake, warehouse⟩ (.getBytes .lake key) (.error [])
          ⟨false, lake, warehouse⟩ := patterned_answer (.refused []) trivial rfl rfl (Or.inr fails)
      obtain ⟨found, ends⟩ := inductionHypothesis files restPresent
      exact ⟨found, Program.ends_call (patterned_uncancelled _) (Program.ends_call refused ends)⟩
    · obtain ⟨body, isBody⟩ := Option.isSome_iff_exists.mp (present key List.mem_cons_self)
      have found : answer ⟨lake, warehouse⟩ (.getBytes .lake key) .served =
          some (.ok body, ⟨lake, warehouse⟩) := by
        simp only [answer, Buckets.store, isBody, Option.map_some]
      have served : Patterned pattern ⟨false, lake, warehouse⟩ (.getBytes .lake key) (.ok body)
          ⟨false, lake, warehouse⟩ := patterned_answer .served trivial found rfl (Or.inr fails)
      obtain ⟨found, ends⟩ := inductionHypothesis (files ++ [(key, body)]) restPresent
      exact ⟨found, Program.ends_call (patterned_uncancelled _) (Program.ends_call served ends)⟩

/-- In the world the lake is read as it is, and dimensions compile. -/
structure ReadsLake {World : Type} (answers : World → (effect : Effect) → Reply effect → World → Prop)
    (world : World) (lake : Store) : Prop where
  get : ∀ key body, lake.lookup key = some body →
    answers world (.getBytes .lake key) (.ok body) world
  list : ∀ lead, answers world (.listKeys .lake lead) (.ok (lake.listKeys lead)) world
  rows : ∀ dimension body, answers world (.rowsFromCsv dimension body) (.ok ()) world
  matcher : ∀ dimension, answers world (.newMatcher dimension) (.ok ()) world

/-- Stored dimension files can be read. -/
theorem readDimensionFiles_ends {World : Type}
    {answers : World → (effect : Effect) → Reply effect → World → Prop} {world : World}
    (reads : ReadsLake answers world lake) (dimension : Dimension) (keys : List Text)
    (present : ∀ key ∈ keys, (lake.lookup key).isSome = true) :
    Program.Ends answers (readDimensionFiles dimension keys) world (.ok ()) world := by
  induction keys with
  | nil => exact Program.ends_done _ _
  | cons key rest inductionHypothesis =>
    obtain ⟨body, isBody⟩ := Option.isSome_iff_exists.mp (present key List.mem_cons_self)
    exact Program.ends_call (reads.get key body isBody)
      (Program.ends_call (reads.rows dimension body)
      (inductionHypothesis (fun other member => present other (List.mem_cons_of_mem _ member))))

/-- Where the lake answers every read, all dimension files are read. -/
theorem loadFileDimensions_ends {World : Type}
    {answers : World → (effect : Effect) → Reply effect → World → Prop} {world : World}
    (reads : ReadsLake answers world lake) (dimensions : List Dimension) :
    Program.Ends answers (loadFileDimensions dimensions) world (.ok ()) world := by
  induction dimensions with
  | nil => exact Program.ends_done _ _
  | cons dimension rest inductionHypothesis =>
    unfold loadFileDimensions
    split
    · exact inductionHypothesis
    · simp only [perform, Program.perform_bind]
      refine Program.ends_call (reads.list _) ?_
      refine Program.ends_bind (readDimensionFiles_ends reads dimension _ ?_)
        (Program.ends_call (reads.matcher dimension) inductionHypothesis)
      intro key member
      exact (Store.mem_listKeys.mp (List.mem_of_mem_filter member)).2

/-- The dimensions can be loaded, which ends the reading of the sources. -/
theorem loadDimensions_ends (dimensions : List Dimension) :
    EndsOver pattern (loadDimensions dimensions) ⟨false, lake, warehouse⟩ (.ok ())
      ⟨true, lake, warehouse⟩ := by
  have built : Patterned pattern ⟨false, lake, warehouse⟩ (.buildInlineRegistry dimensions) (.ok ())
      ⟨true, lake, warehouse⟩ :=
    ⟨trivial, ⟨.outcome (.ok ()), rfl⟩, rfl, fun _ => trivial⟩
  have reads : ReadsLake (Patterned pattern) ⟨true, lake, warehouse⟩ lake := by
    refine ⟨fun key body isBody => ?_, fun lead => ?_, fun dimension body => ?_,
      fun dimension => ?_⟩
    · refine patterned_answer .served trivial ?_ rfl (Or.inl rfl)
      simp only [answer, Buckets.store, isBody, Option.map_some]
    · exact patterned_answer .served trivial rfl rfl (Or.inl rfl)
    · exact patterned_answer (.outcome (.ok ())) trivial rfl rfl (Or.inl rfl)
    · exact patterned_answer (.outcome (.ok ())) trivial rfl rfl (Or.inl rfl)
  exact Program.ends_call built (loadFileDimensions_ends reads dimensions)

/-- Partitions whose keys have a slash can all be uploaded. -/
theorem uploadPartitions_ends {version : Nat} {mappingId : Text} (outputs : List PartitionOutput)
    (keyed : ∀ output ∈ outputs, ∃ halves, splitOnce '/' output.key = some halves)
    (written : List ManifestFile) (before : Store) : ∃ result after,
      EndsOver pattern (uploadPartitions pipelinePrefix version mappingId outputs written)
        ⟨true, lake, before⟩
        (.ok result) ⟨true, lake, after⟩ := by
  induction outputs generalizing written before with
  | nil => exact ⟨written, before, Program.ends_done _ _⟩
  | cons output rest inductionHypothesis =>
    obtain ⟨⟨tableId, path⟩, split⟩ := keyed output List.mem_cons_self
    let key := pipelinePrefix ++ tableId ++ '/' :: (versionPrefix version ++ path)
    obtain ⟨result, after, ends⟩ := inductionHypothesis
      (fun other member => keyed other (List.mem_cons_of_mem _ member))
      (written ++ [⟨versionPrefix version ++ path, mappingId, output.bytes.length⟩])
      (before.insert key (.data output.bytes))
    refine ⟨result, after, ?_⟩
    simp only [uploadPartitions, split, perform, Program.perform_bind]
    exact Program.ends_call (patterned_answer .served trivial rfl rfl (Or.inl rfl)) ends

/-- Every fed mapping can be evaluated into an empty frame and uploaded, when the tables
of all fed mappings are declared. -/
theorem runMappings_ends {files : List (Text × Object)} (mappings : List Mapping)
    (progress : Progress)
    (declared : ∀ mapping ∈ mappings, ∀ container, config.sourceOf mapping = some container →
      (filesUnder container files).isEmpty = false →
      (config.tableOf mapping).isSome = true ∧
        (progress.publishes.lookup mapping.analyticTableId).isSome = true) (before : Store) :
    ∃ reached after, EndsOver pattern (runMappings config pipelinePrefix files mappings progress)
      ⟨true, lake, before⟩ (.ok reached) ⟨true, lake, after⟩ ∧
      reached.errors = progress.errors := by
  induction mappings generalizing progress before with
  | nil => exact ⟨progress, before, Program.ends_done _ _, rfl⟩
  | cons mapping rest inductionHypothesis =>
    simp only [runMappings, perform, Program.perform_bind]
    have restDeclared := fun other member =>
      declared other (List.mem_cons_of_mem mapping member)
    cases isSource : config.sourceOf mapping with
    | none =>
      obtain ⟨reached, after, ends, same⟩ := inductionHypothesis progress restDeclared before
      refine ⟨reached, after, Program.ends_call (patterned_uncancelled _) ?_, same⟩
      simpa [isSource] using ends
    | some container =>
      cases unfed : (filesUnder container files).isEmpty with
      | true =>
        obtain ⟨reached, after, ends, same⟩ := inductionHypothesis progress restDeclared before
        refine ⟨reached, after, Program.ends_call (patterned_uncancelled _) ?_, same⟩
        simpa [isSource, unfed] using ends
      | false =>
        obtain ⟨hasTable, isOpen⟩ := declared mapping List.mem_cons_self container isSource unfed
        obtain ⟨table, isTable⟩ := Option.isSome_iff_exists.mp hasTable
        obtain ⟨entry, isEntry⟩ := Option.isSome_iff_exists.mp isOpen
        let outputs := emptyPartitions table mapping.id
        obtain ⟨written, uploaded, uploads⟩ : ∃ written uploaded, EndsOver pattern
            (uploadPartitions pipelinePrefix entry.version mapping.id outputs [])
              ⟨true, lake, before⟩
            (.ok written) ⟨true, lake, uploaded⟩ :=
          uploadPartitions_ends outputs (fun output member => by
            rw [emptyPartitions_key member]
            exact split_shaped _ _ _) [] before
        let applied : Progress := { progress with
          deduped := progress.deduped + 0
          partitions := progress.partitions + written.length
          publishes := progress.publishes.insert mapping.analyticTableId
            { entry with
              files := applyMappingWrites entry.files mapping.id written, touched := true } }
        have stillDeclared : ∀ other ∈ rest, ∀ source, config.sourceOf other = some source →
            (filesUnder source files).isEmpty = false →
            (config.tableOf other).isSome = true ∧
              (applied.publishes.lookup other.analyticTableId).isSome = true := by
          intro other member source isSource fed
          obtain ⟨otherTable, otherOpen⟩ := restDeclared other member source isSource fed
          refine ⟨otherTable, ?_⟩
          by_cases same : other.analyticTableId = mapping.analyticTableId
          · rw [same, AList.lookup_insert, Option.isSome_some]
          · simpa [applied, AList.lookup_insert_ne same] using otherOpen
        obtain ⟨reached, after, ends, same⟩ := inductionHypothesis applied stillDeclared uploaded
        let evaluated := (config.mappings.find? (fun other => other.id = mapping.id)).getD mapping
        have genuine : Genuine (.evaluate evaluated (config.tableOf mapping)
            (filesUnder container files)) (.partitions outputs 0) := by
          have blank : Genuine (.evaluate evaluated (some table) (filesUnder container files))
            (.partitions (emptyPartitions table evaluated.id) 0) := emptyPartitions_genuine 0
          rwa [lookup_again, ← isTable] at blank
        have applies : EndsOver pattern (applyMapping pipelinePrefix mapping outputs 0 progress)
            ⟨true, lake, before⟩ applied ⟨true, lake, uploaded⟩ := by
          simp only [applyMapping, isEntry]
          exact Program.ends_bind uploads (Program.ends_done _ _)
        refine ⟨reached, after, Program.ends_call (patterned_uncancelled _) ?_, same⟩
        simp only [Bool.false_eq_true, ↓reduceIte, unfed]
        exact Program.ends_call
          (patterned_answer (.evaluated (.partitions outputs 0)) genuine rfl rfl
          (Or.inl rfl)) (Program.ends_bind applies ends)

/-- Publishing can succeed for every table, with each vacuum given up at once. -/
theorem publishTables_ends (publishes : Publishes) (order : List Text) (errors : List Text)
    (before : Store) : ∃ after, EndsOver pattern (publishTables publishes order errors)
      ⟨true, lake, before⟩ errors ⟨true, lake, after⟩ := by
  induction order generalizing before with
  | nil => exact ⟨before, Program.ends_done _ _⟩
  | cons tableId rest inductionHypothesis =>
    unfold publishTables
    split
    · exact inductionHypothesis before
    · next entry _ =>
      cases touched : entry.touched with
      | false =>
        obtain ⟨after, ends⟩ := inductionHypothesis before
        exact ⟨after, by simpa [publishTable, touched] using ends⟩
      | true =>
        let manifest : TableManifest := ⟨entry.version, [], none, entry.files⟩
        let pointer : CurrentPointer := ⟨entry.version⟩
        let written := before.insert (entry.tablePrefix ++ manifestKey entry.version)
          (.manifest manifest)
        let flipped := written.insert (entry.tablePrefix ++ currentKey) (.pointer pointer)
        obtain ⟨after, ends⟩ := inductionHypothesis flipped
        have timed : Patterned pattern ⟨true, lake, before⟩ .now [] ⟨true, lake, before⟩ :=
          patterned_answer (.clock []) trivial rfl rfl (Or.inl rfl)
        have writes : Patterned pattern ⟨true, lake, before⟩ (.putObject .warehouse
            (entry.tablePrefix ++ manifestKey entry.version) (.manifest manifest)) (.ok ())
            ⟨true, lake, written⟩ :=
          patterned_answer .served trivial rfl rfl (Or.inl rfl)
        have flips : Patterned pattern ⟨true, lake, written⟩ (.putObject .warehouse
            (entry.tablePrefix ++ currentKey) (.pointer pointer)) (.ok ()) ⟨true, lake, flipped⟩ :=
          patterned_answer .served trivial rfl rfl (Or.inl rfl)
        have unlisted : Patterned pattern ⟨true, lake, flipped⟩
            (.listKeys .warehouse entry.tablePrefix) (.error []) ⟨true, lake, flipped⟩ :=
          patterned_answer (.refused []) trivial rfl rfl (Or.inl rfl)
        refine ⟨after, ?_⟩
        simp only [publishTable, publish, vacuum, touched, ↓reduceIte, perform,
          Program.perform_bind]
        exact Program.ends_call timed (Program.ends_call writes (Program.ends_call flips
          (Program.ends_call unlisted ends)))

/-- Every table of a fed mapping is declared. -/
def Declared (config : PipelineConfig) (lake : Store) (pattern : ReadPattern) : Prop :=
  ∀ mapping ∈ config.mappings, ∀ container, config.sourceOf mapping = some container →
    Fed config lake pattern container → (config.tableOf mapping).isSome = true

/-- The table a mapping writes to is one of the configuration's. -/
theorem tableOf_opened {mapping : Mapping} (hasTable : (config.tableOf mapping).isSome = true) :
    ∃ table ∈ config.analyticTables, table.id = mapping.analyticTableId := by
  obtain ⟨table, isTable⟩ := Option.isSome_iff_exists.mp hasTable
  exact ⟨table, List.mem_of_find?_eq_some isTable, config.tableOf_id isTable⟩

/-- The sources can be listed and downloaded, into all the files there are. -/
theorem sources_end (config : PipelineConfig) (pattern : ReadPattern) (lake warehouse : Store) :
    ∃ candidates files,
      EndsOver pattern (listSources config.sourceContainers []) ⟨false, lake, warehouse⟩ candidates
        ⟨false, lake, warehouse⟩ ∧
      EndsOver pattern (downloadAll candidates []) ⟨false, lake, warehouse⟩ (.ok files)
        ⟨false, lake, warehouse⟩ ∧
      FilesOf config lake pattern files := by
  obtain ⟨candidates, lists⟩ : ∃ candidates, EndsOver pattern
      (listSources config.sourceContainers []) ⟨false, lake, warehouse⟩ candidates
      ⟨false, lake, warehouse⟩ := listSources_ends _ _
  have ⟨_, listed⟩ := lists
  obtain ⟨_, found⟩ := listSources_completes listed
  have present : ∀ key ∈ candidates, (lake.lookup key).isSome = true := by
    intro key member
    rcases (found key).mp member with impossible | ⟨_, _, _, _, _, stored⟩
    · exact absurd impossible List.not_mem_nil
    · exact stored
  obtain ⟨files, downloads⟩ : ∃ files, EndsOver pattern (downloadAll candidates [])
      ⟨false, lake, warehouse⟩ (.ok files) ⟨false, lake, warehouse⟩ :=
    downloadAll_ends candidates [] present
  have ⟨_, downloaded⟩ := downloads
  obtain ⟨_, impossible | ⟨_, ⟨⟩, exactly⟩⟩ := downloadAll_completes downloaded
  · exact nomatch impossible
  · exact ⟨candidates, files, lists, downloads, filesOf_downloaded found exactly⟩

/-- A run over the lake happens. It reports no files when nothing was fetched, and
otherwise, with a table for every fed mapping, it ends without errors. -/
theorem executeJob_ends (config : PipelineConfig) (pipelinePrefix : Text) (lake : Store)
    (pattern : ReadPattern) :
    (EndsOver pattern (executeJob (.ok config) pipelinePrefix false) ⟨false, lake, ∅⟩
      (.error .noFiles)
      ⟨false, lake, ∅⟩ ∧ ∀ key, ¬ Fetched config lake pattern key) ∨
    ((∃ key, Fetched config lake pattern key) ∧
      (Declared config lake pattern → ∃ outcome after,
        EndsOver pattern (executeJob (.ok config) pipelinePrefix false) ⟨false, lake, ∅⟩
          (.ok outcome) after ∧
        outcome.errors = [])) := by
  obtain ⟨opened, opens, held⟩ : ∃ opened, EndsOver pattern
      (openTables pipelinePrefix false config.analyticTables ∅) ⟨false, lake, ∅⟩ (.ok opened)
        ⟨false, lake, ∅⟩ ∧
      ∀ id, _ → (opened.lookup id).isSome = true := openTables_ends _ ∅
  obtain ⟨candidates, files, lists, downloads, exactly⟩ := sources_end config pattern lake ∅
  cases empty : files.isEmpty with
  | true =>
    left
    constructor
    · refine Program.ends_bind opens (Program.ends_bind lists (Program.ends_bind downloads ?_))
      simp only [empty, ↓reduceIte]
      exact Program.ends_done _ _
    · rw [List.isEmpty_iff] at empty
      subst empty
      exact not_fetched_of_nil exactly
  | false =>
    right
    constructor
    · obtain ⟨⟨key, body⟩, member⟩ := List.isEmpty_eq_false_iff_exists_mem.mp empty
      exact ⟨key, ((exactly key body).mp member).1⟩
    · intro declared
      have ready : ∀ mapping ∈ config.mappings, ∀ container,
          config.sourceOf mapping = some container →
          (filesUnder container files).isEmpty = false →
          (config.tableOf mapping).isSome = true ∧
            (opened.lookup mapping.analyticTableId).isSome = true := by
        intro mapping member container isSource fed
        have hasTable := declared mapping member container isSource
          ((filesUnder_iff exactly container).mp fed)
        exact ⟨hasTable, held _ (Or.inr (tableOf_opened hasTable))⟩
      have loads : EndsOver pattern (loadDimensions config.dimensions) ⟨false, lake, ∅⟩ (.ok ())
          ⟨true, lake, ∅⟩ := loadDimensions_ends _
      obtain ⟨reached, uploaded, maps, clean⟩ : ∃ reached uploaded, EndsOver pattern
          (runMappings config pipelinePrefix files config.mappings ⟨opened, 0, 0, []⟩)
            ⟨true, lake, ∅⟩
          (.ok reached) ⟨true, lake, uploaded⟩ ∧ reached.errors = [] := runMappings_ends _ _ ready _
      have ordered : Patterned pattern ⟨true, lake, uploaded⟩ (.iterate reached.publishes.keys)
          reached.publishes.keys ⟨true, lake, uploaded⟩ :=
        patterned_answer (.order _) (List.Perm.refl _) rfl rfl (Or.inl rfl)
      obtain ⟨after, publishes⟩ : ∃ after, EndsOver pattern
          (publishTables reached.publishes reached.publishes.keys reached.errors)
          ⟨true, lake, uploaded⟩ reached.errors ⟨true, lake, after⟩ := publishTables_ends _ _ _ _
      refine ⟨⟨reached.partitions, files.length, reached.deduped, reached.errors⟩,
        ⟨true, lake, after⟩,
        ?_, clean⟩
      refine Program.ends_bind opens (Program.ends_bind lists (Program.ends_bind downloads ?_))
      simp only [empty, Bool.false_eq_true, ↓reduceIte]
      refine Program.ends_bind loads (Program.ends_bind maps ?_)
      simp only [perform, Program.perform_bind]
      exact Program.ends_call ordered (Program.ends_bind publishes (Program.ends_done _ _))

/-- A fed mapping can be replaced in a clean run without an object that was not
fetched. -/
theorem unread_run (pipelinePrefix : Text) (distinct : (config.mappings.map Mapping.id).Nodup)
    (declared : Declared config lake pattern) {mapping : Mapping}
    (member : mapping ∈ config.mappings) {container : SourceContainer}
    (isSource : config.sourceOf mapping = some container) (fed : Fed config lake pattern container)
    {key : Text} (unfetched : ¬ Fetched config lake pattern key) :
    ∃ trace outcome after, RunsOver pattern (executeJob (.ok config) pipelinePrefix false)
      ⟨false, lake, ∅⟩ trace
      (.ok outcome) after ∧ outcome.errors = [] ∧ Replaces mapping trace ∧
      ∀ body, ¬ HandedOver mapping key body trace := by
  rcases executeJob_ends config pipelinePrefix lake pattern with ⟨_, nothing⟩ | ⟨_, cleanly⟩
  · obtain ⟨other, fetched, _⟩ := fed
    exact absurd fetched (nothing other)
  obtain ⟨outcome, after, ⟨trace, runs⟩, clean⟩ := cleanly declared
  refine ⟨trace, outcome, after, runs, clean, ?_⟩
  cases executeJob_ending runs with
  | evaluated files exactly progress reached before middle mappingTrace maps only within _ grows =>
    rw [clean] at grows
    obtain ⟨outputs, dropped, occurs, _⟩ := runMappings_partitions maps (List.prefix_nil.mp grows)
      member isSource ((filesUnder_iff exactly container).mpr fed)
    rw [evaluation, evaluated_self distinct member] at occurs
    refine ⟨⟨_, _, _, _, within _ occurs⟩, ?_⟩
    rintro body ⟨table, handed, reply, occurred, among⟩
    obtain ⟨_, _, source, _, _, _, same⟩ :=
      runMappings_events maps (only _ occurred trivial) trivial
    simp only [evaluation, Sigma.mk.injEq, Effect.evaluate.injEq] at same
    rw [same.1.2.2] at among
    exact unfetched ((exactly key body).mp (List.mem_of_mem_filter among)).1

end Possible

/-! ## The promise of a clean outcome -/

/-- Every run of a pipeline over the lake keeps the promise of a clean outcome exactly when the
failures split no source: all of a mapping's source is fetched or none of it (or
some fed mapping has no table, so that no run is clean), and something is fetched
if anything is offered. -/
theorem clean_run_iff (config : PipelineConfig) (pipelinePrefix : Text) (lake : Store)
    (pattern : ReadPattern) (distinct : (config.mappings.map Mapping.id).Nodup) :
    (∀ cleanRun warehouse trace result after,
      RunsOver pattern (executeJob (.ok config) pipelinePrefix cleanRun) ⟨false, lake, warehouse⟩
        trace result after → ReadsAll config lake trace result) ↔
      WholeSources config lake pattern := by
  constructor
  · intro keeps
    constructor
    · by_cases declared : Declared config lake pattern
      · right
        intro mapping member container isSource fed key offered
        by_contra unfetched
        obtain ⟨trace, outcome, after, runs, clean, replaced, unread⟩ :=
          unread_run pipelinePrefix distinct declared member isSource fed unfetched
        obtain ⟨body, isBody⟩ := Option.isSome_iff_exists.mp offered.2.2
        exact unread body ((keeps _ _ _ _ _ runs).1 outcome rfl clean mapping member container
          isSource replaced key body offered isBody)
      · left
        simp only [Declared, not_forall, Bool.not_eq_true, Option.isSome_eq_false_iff,
          Option.isNone_iff_eq_none] at declared
        obtain ⟨mapping, member, container, isSource, fed, undeclared⟩ := declared
        exact ⟨mapping, member, container, isSource, fed, undeclared⟩
    · rcases executeJob_ends config pipelinePrefix lake pattern with ⟨⟨trace, idles⟩, _⟩ |
        ⟨fetched, _⟩
      · exact Or.inr ((keeps _ _ _ _ _ idles).2 rfl)
      · exact Or.inl fetched
  · intro whole cleanRun warehouse trace result after completed
    exact readsAll_of_wholeSources distinct whole completed

/-- One mapping over one source. -/
def oneSource : PipelineConfig where
  sourceContainers := [plainSource]
  dimensions := []
  mappings := [plainMapping "t".toList]
  analyticTables := [plainTable "t".toList]

/-- A lake with two files of the source. -/
def twoFiles : Store :=
  ((∅ : Store).insert "in/a.csv".toList (.data [1])).insert "in/b.csv".toList (.data [2])

/-- Nothing fails but the download of one key. -/
def oneDownloadFails (key : Text) : ReadPattern := ⟨fun _ => False, fun other => other = key⟩

/-- A failed download of a key that is not there splits no source. -/
theorem twoFiles_whole : WholeSources oneSource twoFiles (oneDownloadFails "in/c.csv".toList) := by
  have fetched : ∀ key, Offered twoFiles plainSource key →
      Fetched oneSource twoFiles (oneDownloadFails "in/c.csv".toList) key := by
    intro key offered
    refine ⟨?_, _, List.mem_singleton.mpr rfl, id, offered⟩
    intro fails
    have absent : (twoFiles.lookup "in/c.csv".toList).isSome = false := by decide
    have present := offered.2.2
    rw [show key = "in/c.csv".toList from fails, absent] at present
    exact nomatch present
  constructor
  · right
    intro mapping member container isSource _ key offered
    rw [List.mem_singleton.mp member] at isSource
    have same : some plainSource = some container := isSource
    rw [← Option.some.inj same] at offered
    exact fetched key offered
  · left
    exact ⟨"in/a.csv".toList, fetched _ ⟨by decide, by decide, by decide⟩⟩

/-- Every run over both files of the source keeps the promise. -/
theorem clean_run_iff_two_files :
    (∀ cleanRun warehouse trace result after,
      RunsOver (oneDownloadFails "in/c.csv".toList)
        (executeJob (.ok oneSource) "pipelines/x/".toList cleanRun) ⟨false, twoFiles, warehouse⟩ trace result
        after → ReadsAll oneSource twoFiles trace result) ∧
      WholeSources oneSource twoFiles (oneDownloadFails "in/c.csv".toList) :=
  ⟨(clean_run_iff oneSource "pipelines/x/".toList twoFiles (oneDownloadFails "in/c.csv".toList)
    (by decide)).mpr
    twoFiles_whole, twoFiles_whole⟩

/-- When the download of one of the two files fails, a run without errors replaces
the mapping from the other one alone. -/
theorem partial_source_replaces : ∃ trace outcome after,
    RunsOver (oneDownloadFails "in/b.csv".toList) (executeJob (.ok oneSource) "pipelines/x/".toList false)
      ⟨false, twoFiles, ∅⟩ trace (.ok outcome) after ∧ outcome.errors = [] ∧
      Replaces (plainMapping "t".toList) trace ∧
      ¬ ReadsAll oneSource twoFiles trace (.ok outcome) := by
  have declared : Declared oneSource twoFiles (oneDownloadFails "in/b.csv".toList) := by
    intro mapping member _ _ _
    rw [List.mem_singleton.mp member]
    decide
  have fed : Fed oneSource twoFiles (oneDownloadFails "in/b.csv".toList)
      plainSource :=
    ⟨"in/a.csv".toList, ⟨by simp [oneDownloadFails], _, List.mem_singleton.mpr rfl, id,
      by decide, by decide, by decide⟩, by decide⟩
  obtain ⟨trace, outcome, after, runs, clean, replaced, unread⟩ :=
    unread_run "pipelines/x/".toList (by decide) declared (List.mem_singleton.mpr rfl) rfl fed
      (fun fetched => fetched.1 (rfl : "in/b.csv".toList = "in/b.csv".toList))
  refine ⟨trace, outcome, after, runs, clean, replaced, ?_⟩
  intro readsAll
  exact unread (.data [2])
    (readsAll.1 outcome rfl clean _ (List.mem_singleton.mpr rfl) _ rfl replaced
    "in/b.csv".toList (.data [2]) ⟨by decide, by decide, by decide⟩ (by decide))

end KaretWorker
