import KaretWorker.Isolation
import KaretWorker.References
import KaretWorker.Uploads

/-!
# The parts of a run

A run that ends with an outcome has opened its tables, read its sources, gone through
its mappings, and published the tables in some order. Only the last two parts write, and
the mappings write data files only.

`executeJob_parts` takes such a run apart; `openTables_entries` says what the tables
start from, and `Parts.entry` what they end with before they are published.
-/
namespace KaretWorker

open Texts Interaction

/-- The effect writes nothing in the warehouse. -/
theorem Foreign.unwriting {effect : Effect} (elsewhere : Foreign [] effect) (key : Text) :
    ¬ effect.Writes key := by
  intro writes
  cases effect with
  | putObject bucket written body =>
    cases bucket with
    | lake => exact writes
    | warehouse => exact elsewhere List.nil_prefix
  | deleteObject bucket removed =>
    cases bucket with
    | lake => exact writes
    | warehouse => exact elsewhere List.nil_prefix
  | getBytes | listKeys | loadCancel | now | overflow | iterate | buildInlineRegistry | rowsFromCsv
  | newMatcher | evaluate => exact writes

section Parts

variable {permits : Buckets → Effect → Answer → Prop} {config : PipelineConfig}
  {pipelinePrefix : Text} {cleanRun : Bool} {buckets final : Buckets}
  {trace : List (Event Effect Reply)}

/-- A read that was answered leaves the buckets alone. -/
theorem reads_given {effect : Effect} {reply : Reply effect} (reads : effect.Reads)
    (given : Given permits buckets effect reply final) : final = buckets := by
  obtain ⟨_, answered, _, isAnswer⟩ := given
  cases effect with
  | getBytes bucket key => exact (answer_getBytes isAnswer).1
  | listKeys bucket lead => exact (answer_listKeys isAnswer).1
  | overflow => exact nomatch reply
  | putObject | deleteObject | loadCancel | now | iterate | buildInlineRegistry | rowsFromCsv
  | newMatcher | evaluate => exact absurd reads id

/-- The version after another one, if the run went on. -/
theorem nextVersion_completes {version next : Nat}
    (completed : Program.Completes (Given permits) (nextVersion version) buckets trace next final) :
    next = version + 1 ∧ trace = [] ∧ final = buckets := by
  unfold nextVersion at completed
  split at completed
  · cases completed
    exact ⟨rfl, rfl, rfl⟩
  · obtain ⟨never, _⟩ := Program.call_completes completed
    exact nomatch never

/-! ## Opening the tables -/

/-- The publish state a table starts from, given its current manifest. -/
def openedState (pipelinePrefix : Text) (cleanRun : Bool) (tableId : Text)
    (current : TableManifest) : TablePublish :=
  ⟨tablePrefix pipelinePrefix tableId, current.version + 1, if cleanRun then [] else current.files,
    false⟩

/-- Every table starts from the manifest that was read for it. -/
theorem openTables_entries {tables : List AnalyticTable} {publishes opened : Publishes}
    (completed : Program.Completes (Given permits)
      (openTables pipelinePrefix cleanRun tables publishes) buckets trace (.ok opened) final)
    {tableId : Text} {entry : TablePublish} (found : opened.lookup tableId = some entry) :
    publishes.lookup tableId = some entry ∨ ∃ table ∈ tables, table.id = tableId ∧
      ∃ current reading, (∀ event ∈ reading, event ∈ trace) ∧
        Program.Completes (Given permits)
        (readCurrent (tablePrefix pipelinePrefix table.id)) buckets
          reading (.ok current) buckets ∧
        entry = openedState pipelinePrefix cleanRun table.id current := by
  induction tables generalizing publishes trace with
  | nil =>
    cases completed
    exact Or.inl found
  | cons table rest inductionHypothesis =>
    obtain ⟨reading, current, middle, later, reads, continues, rfl⟩ :=
      Program.bind_completes completed
    obtain rfl := Program.unchanged_completes (readCurrent_reads _)
      (fun _ _ _ _ isRead => reads_given isRead) reads
    cases current with
    | error error => cases continues
    | ok current =>
      obtain ⟨counting, next, _, further, counts, goesOn, rfl⟩ := Program.bind_completes continues
      obtain ⟨rfl, rfl, rfl⟩ := nextVersion_completes counts
      rcases inductionHypothesis goesOn with before |
        ⟨other, member, same, manifest, events, within,
          isCurrent⟩
      · by_cases here : tableId = table.id
        · subst here
          rw [AList.lookup_insert] at before
          exact Or.inr ⟨table, List.mem_cons_self, rfl, current, reading,
            fun event => List.mem_append_left _, reads, (Option.some.inj before).symm⟩
        · rw [AList.lookup_insert_ne here] at before
          exact Or.inl before
      · exact Or.inr ⟨other, List.mem_cons_of_mem _ member, same, manifest, events,
          fun event occurs => List.mem_append_right _
            (List.mem_append_right _ (within event occurs)),
          isCurrent⟩

/-- What a run read as a table's current manifest is empty or was got as one of its
manifests. -/
theorem readCurrent_carried {table : Text} {current : TableManifest}
    (completed : Program.Completes (Given permits) (readCurrent table) buckets trace (.ok current)
      final) : current = .empty ∨ ∃ version,
        (⟨.getBytes .warehouse (table ++ manifestKey version), .ok (.manifest current)⟩ :
          Event Effect Reply) ∈ trace := by
  obtain ⟨reply, middle, later, _, continues, rfl⟩ := Program.call_completes completed
  rcases reply with error | (pointer | manifest | bytes)
  · cases continues
    exact Or.inl rfl
  · obtain ⟨reply, _, last, _, finishes, rfl⟩ := Program.call_completes continues
    rcases reply with error | (other | manifest | bytes)
    · cases finishes
    · cases finishes
    · cases finishes
      exact Or.inr ⟨pointer.version, List.mem_cons_of_mem _ List.mem_cons_self⟩
    · cases finishes
  · cases continues
  · cases continues

/-- Every table is open once the tables were opened. -/
theorem allOpen_of_opens {opened : Publishes}
    (completed : Program.Completes (Given permits)
      (openTables pipelinePrefix cleanRun config.analyticTables ∅) buckets trace
        (.ok opened) final) :
    AllOpen config opened := by
  intro table member
  exact Program.returns_completes (openTables_opened cleanRun config.analyticTables ∅)
    completed opened
    rfl table.id (Or.inl ⟨table, member, rfl⟩)

/-! ## The run as a whole -/

/-- A run with an outcome, in its parts. -/
structure Parts (permits : Buckets → Effect → Answer → Prop) (config : PipelineConfig)
    (pipelinePrefix : Text) (cleanRun : Bool) (buckets : Buckets)
    (trace : List (Event Effect Reply)) (outcome : JobOutcome) (final : Buckets) where
  opening : List (Event Effect Reply)
  reading : List (Event Effect Reply)
  mapping : List (Event Effect Reply)
  closing : List (Event Effect Reply)
  opened : Publishes
  files : List (Text × Object)
  reached : Progress
  order : List Text
  start : Buckets
  middle : Buckets
  split : trace = opening ++ (reading ++
    (mapping ++ (⟨.iterate reached.publishes.keys, order⟩ :: closing)))
  opens : Program.Completes (Given permits) (openTables pipelinePrefix cleanRun config.analyticTables ∅)
    buckets opening (.ok opened) buckets
  unevaluated : ∀ event ∈ reading, ¬ event.1.Evaluates
  unwritten : ∀ event ∈ reading, ∀ key, ¬ event.1.Writes key
  same : ∀ key, start.warehouse.lookup key = buckets.warehouse.lookup key
  maps : Program.Completes (Given permits)
    (runMappings config pipelinePrefix files config.mappings ⟨opened, 0, 0, []⟩) start mapping
    (.ok reached) middle
  permuted : order.Perm reached.publishes.keys
  publishes : Program.Completes (Given permits) (publishTables reached.publishes order reached.errors)
    middle closing outcome.errors final

/-- Every run with an outcome has these parts. -/
theorem executeJob_parts {outcome : JobOutcome}
    (completed : Program.Completes (Given permits)
      (executeJob (.ok config) pipelinePrefix cleanRun) buckets trace (.ok outcome) final) :
    Nonempty (Parts permits config pipelinePrefix cleanRun buckets trace outcome final) := by
  obtain ⟨opening, opened, _, _, opens, afterOpening, rfl⟩ := Program.bind_completes completed
  obtain rfl := Program.unchanged_completes (openTables_reads _ _ _ _)
    (fun _ _ _ _ isRead => reads_given isRead) opens
  cases opened with
  | error error => cases afterOpening
  | ok opened =>
  obtain ⟨listing, candidates, _, _, lists, afterListing, rfl⟩ :=
    Program.bind_completes afterOpening
  obtain ⟨downloading, files, _, _, downloads, afterDownload, rfl⟩ :=
    Program.bind_completes afterListing
  cases files with
  | error error => cases afterDownload
  | ok files =>
  simp only at afterDownload
  split at afterDownload
  · cases afterDownload
  obtain ⟨loading, loaded, start, _, loads, afterLoading, rfl⟩ :=
    Program.bind_completes afterDownload
  cases loaded with
  | error error => cases afterLoading
  | ok loaded =>
  obtain ⟨mapping, reached, middle, _, maps, afterMapping, rfl⟩ :=
    Program.bind_completes afterLoading
  cases reached with
  | error error => cases afterMapping
  | ok reached =>
  simp only [perform, Program.perform_bind] at afterMapping
  obtain ⟨order, _, _, ⟨permuted, given, _, ordered⟩, afterOrder, rfl⟩ :=
    Program.call_completes afterMapping
  obtain ⟨closing, errors, _, _, publishes, finishes, rfl⟩ := Program.bind_completes afterOrder
  cases finishes
  have listsApart := Program.calls_completes (listSources_foreign [] _ _) lists
  have downloadsApart := Program.calls_completes (downloadAll_foreign [] _ _) downloads
  have loadsApart := Program.calls_completes (loadDimensions_foreign [] _) loads
  have same : ∀ key, start.warehouse.lookup key = _ := fun key =>
    (completes_spares loads (fun event member => (loadsApart event member).unwriting key)).trans
      ((completes_spares downloads
        (fun event member => (downloadsApart event member).unwriting key)).trans
          (completes_spares lists (fun event member => (listsApart event member).unwriting key)))
  refine ⟨⟨opening, listing ++ downloading ++ loading, mapping, closing, opened, files,
    reached, order,
    start, middle, by simp, opens, ?_, ?_, same, maps, permuted, ?_⟩⟩
  · intro event member
    rcases List.mem_append.mp member with early | load
    · rcases List.mem_append.mp early with list | download
      · exact (Program.calls_completes (listSources_reads _ _) lists event list).not_evaluates
      · exact Program.calls_completes (downloadAll_quiet _ _) downloads event download
    · exact Program.calls_completes (loadDimensions_quiet _) loads event load
  · intro event member key
    rcases List.mem_append.mp member with early | load
    · rcases List.mem_append.mp early with list | download
      · exact (listsApart event list).unwriting key
      · exact (downloadsApart event download).unwriting key
    · exact (loadsApart event load).unwriting key
  · cases given <;> simp only [answer, Option.some.injEq, Prod.mk.injEq, reduceCtorEq] at ordered
    rw [ordered.2]
    exact publishes

variable {outcome : JobOutcome}

/-- The mapping loop of a run. -/
theorem Parts.run
    (parts : Parts permits config pipelinePrefix cleanRun buckets trace outcome final) :
    MappingsRun config pipelinePrefix config.mappings parts.mapping parts.opened
      parts.reached.publishes :=
  runMappings_run (allOpen_of_opens parts.opens) parts.maps

/-- What was uploaded before a manifest put is what the mapping loop uploaded. -/
theorem Parts.uploaded_before
    (parts : Parts permits config pipelinePrefix cleanRun buckets trace outcome final)
    {between rest : List (Event Effect Reply)} (closes : parts.closing = between ++ rest) :
    (∀ mappingId, uploaded mappingId (parts.opening ++ (parts.reading ++ (parts.mapping ++
        (⟨.iterate parts.reached.publishes.keys, parts.order⟩ :: between)))) =
      uploaded mappingId (parts.mapping ++
        (⟨.iterate parts.reached.publishes.keys, parts.order⟩ :: between))) ∧
      ∀ mapping ∈ config.mappings, ∀ event ∈ (⟨.iterate parts.reached.publishes.keys,
        parts.order⟩ :: between : List (Event Effect Reply)), SparesMapping mapping.id event := by
  constructor
  · intro mappingId
    rw [uploaded_append (fun event isOpening => sparesMapping_of_quiet
        (Program.calls_completes (openTables_reads _ _ _ _) parts.opens event
          isOpening).not_evaluates),
      uploaded_append (fun event isReading =>
        sparesMapping_of_quiet (parts.unevaluated event isReading))]
  · intro mapping _ event isLater
    refine sparesMapping_of_quiet ?_
    rcases List.mem_cons.mp isLater with rfl | isBetween
    · exact id
    · exact Program.calls_completes (publishTables_quiet _ _ _) parts.publishes event
        (closes ▸ List.mem_append_left _ isBetween)

/-- What a table's publish state has become by the end of the mapping loop, in terms of
the manifest read for it and of what was uploaded. -/
theorem Parts.entry
    (parts : Parts permits config pipelinePrefix cleanRun buckets trace outcome final)
    (distinct : (config.mappings.map Mapping.id).Nodup)
    {between rest : List (Event Effect Reply)} (closes : parts.closing = between ++ rest)
    {tableId : Text} {reached : TablePublish}
    (found : parts.reached.publishes.lookup tableId = some reached) :
    ∃ table ∈ config.analyticTables, table.id = tableId ∧ ∃ current reading,
      (∀ event ∈ reading, event ∈ parts.opening) ∧
      Program.Completes (Given permits) (readCurrent (tablePrefix pipelinePrefix table.id)) buckets
        reading (.ok current) buckets ∧
      parts.opened.lookup tableId = some (openedState pipelinePrefix cleanRun tableId current) ∧
      Revised
        (succeeded tableId (parts.opening ++ (parts.reading ++ (parts.mapping ++
          (⟨.iterate parts.reached.publishes.keys, parts.order⟩ :: between)))) config.mappings)
        (nextFiles (if cleanRun then [] else current.files) (current.version + 1) tableId
          (parts.opening ++ (parts.reading ++ (parts.mapping ++
            (⟨.iterate parts.reached.publishes.keys, parts.order⟩ :: between)))) config.mappings)
        (openedState pipelinePrefix cleanRun tableId current) reached := by
  obtain ⟨sameUploads, spared⟩ := parts.uploaded_before closes
  obtain ⟨entry, isEntry, _⟩ := parts.run.origin found
  obtain ⟨table, member, rfl, current, reading, within, reads, rfl⟩ :
      ∃ table ∈ config.analyticTables, table.id = tableId ∧ ∃ current reading,
        (∀ event ∈ reading, event ∈ parts.opening) ∧
        Program.Completes (Given permits)
          (readCurrent (tablePrefix pipelinePrefix table.id)) buckets
          reading (.ok current) buckets ∧
        entry = openedState pipelinePrefix cleanRun table.id current :=
    (openTables_entries parts.opens isEntry).resolve_left (by rintro ⟨⟩)
  obtain ⟨revisedEntry, isRevised, revised⟩ := parts.run.entry distinct spared isEntry
  obtain rfl := Option.some.inj (found.symm.trans isRevised)
  refine ⟨table, member, rfl, current, reading, within, reads, isEntry, ?_⟩
  rw [succeeded_congr sameUploads, nextFiles_congr sameUploads]
  exact revised

/-- A mapping that has a declared source names it. -/
theorem named_of_sourced (valid : config.Valid) {mapping : Mapping}
    (sourced : (config.sourceOf mapping).isSome = true) : mapping.sourceContainerId ≠ [] := by
  obtain ⟨container, isSource⟩ := Option.isSome_iff_exists.mp sourced
  have sourceId : container.id = mapping.sourceContainerId := by
    simpa using List.find?_some isSource
  exact sourceId ▸ valid.sources.required container (List.mem_of_find?_eq_some isSource)

/-! ## What a run uploads -/

/-- The run read the manifest as the current one of a table. -/
def ReadAs (permits : Buckets → Effect → Answer → Prop) (config : PipelineConfig)
    (pipelinePrefix : Text) (buckets : Buckets) (trace : List (Event Effect Reply))
    (table : AnalyticTable) (current : TableManifest) : Prop :=
  table ∈ config.analyticTables ∧ ∃ reading, (∀ event ∈ reading, event ∈ trace) ∧
    Program.Completes (Given permits) (readCurrent (tablePrefix pipelinePrefix table.id)) buckets
      reading (.ok current) buckets

/-- Whatever the effect writes is a partition, uploaded for the version after the one that
was read for its table. -/
def Uploads (permits : Buckets → Effect → Answer → Prop) (config : PipelineConfig)
    (pipelinePrefix : Text) (buckets : Buckets) (trace : List (Event Effect Reply))
    (effect : Effect) : Prop :=
  ∀ key, effect.Writes key → ∃ table current output segments mappingId bytes,
    ReadAs permits config pipelinePrefix buckets trace table current ∧
    output.key = partitionKey table.id segments mappingId ∧
    key = uploadKey pipelinePrefix (current.version + 1) output ∧
    effect = .putObject .warehouse key (.data bytes)

/-- What is uploaded are data files. -/
theorem Uploads.data {effect : Effect}
    (uploads : Uploads permits config pipelinePrefix buckets trace effect) : DataWrites effect := by
  intro key writes
  obtain ⟨_, _, _, _, _, bytes, _, shaped, rfl, isPut⟩ := uploads key writes
  exact ⟨uploadKey_suffix shaped, bytes, isPut⟩

/-- What writes nothing uploads nothing else. -/
theorem Uploads.of_unwriting {effect : Effect} (unwriting : ∀ key, ¬ effect.Writes key) :
    Uploads permits config pipelinePrefix buckets trace effect :=
  fun key writes => absurd writes (unwriting key)

/-- Partitions of opened tables are uploaded for the versions that were read. -/
theorem uploads_of_writes {opening : List (Event Effect Reply)} {opened : Publishes}
    (opens : Program.Completes (Given permits)
      (openTables pipelinePrefix cleanRun config.analyticTables ∅) buckets opening
        (.ok opened) buckets)
    (within : ∀ event ∈ opening, event ∈ trace) {effect : Effect}
    (writes : UploadWrites pipelinePrefix opened effect) :
    Uploads permits config pipelinePrefix buckets trace effect := by
  intro key isWritten
  obtain ⟨tableId, entry, output, segments, mappingId, bytes, found, shaped, isKey, isPut⟩ :=
    writes key isWritten
  obtain ⟨table, member, rfl, current, reading, inOpening, reads, rfl⟩ :=
    (openTables_entries opens found).resolve_left (by rintro ⟨⟩)
  exact ⟨table, current, output, segments, mappingId, bytes, ⟨member, reading,
    fun event occurs => within event (inOpening event occurs), reads⟩, shaped, isKey, isPut⟩

/-- The mapping loop of a run uploads partitions. -/
theorem Parts.uploads
    (parts : Parts permits config pipelinePrefix cleanRun buckets trace outcome final) :
    ∀ event ∈ parts.mapping, Uploads permits config pipelinePrefix buckets trace event.1 :=
  fun event member => uploads_of_writes parts.opens
    (fun _ occurs => parts.split ▸ List.mem_append_left _ occurs)
    (runMappings_writes (allOpen_of_opens parts.opens) parts.maps event member)

/-- A run without an outcome has uploaded partitions at most. -/
theorem executeJob_unpublished {error : JobError}
    (completed : Program.Completes (Given permits)
      (executeJob (.ok config) pipelinePrefix cleanRun) buckets trace (.error error) final) :
    ∀ event ∈ trace, Uploads permits config pipelinePrefix buckets trace event.1 := by
  obtain ⟨opening, opened, _, afterwards, opens, afterOpening, rfl⟩ :=
    Program.bind_completes completed
  obtain rfl := Program.unchanged_completes (openTables_reads _ _ _ _)
    (fun _ _ _ _ isRead => reads_given isRead) opens
  refine List.forall_mem_append.mpr ⟨fun event member => .of_unwriting (Effect.Reads.unwriting
    (Program.calls_completes (openTables_reads _ _ _ _) opens event member)), ?_⟩
  cases opened with
  | error error =>
    cases afterOpening
    exact fun _ impossible => absurd impossible List.not_mem_nil
  | ok opened =>
  have uploads : ∀ event : Event Effect Reply, UploadWrites pipelinePrefix opened event.1 →
      Uploads permits config pipelinePrefix _ (opening ++ afterwards) event.1 := fun _ writes =>
    uploads_of_writes opens (fun _ => List.mem_append_left _) writes
  obtain ⟨listing, candidates, _, _, lists, afterListing, rfl⟩ :=
    Program.bind_completes afterOpening
  refine List.forall_mem_append.mpr ⟨fun event member => .of_unwriting (Foreign.unwriting
    (Program.calls_completes (listSources_foreign [] _ _) lists event member)), ?_⟩
  obtain ⟨downloading, files, _, _, downloads, afterDownload, rfl⟩ :=
    Program.bind_completes afterListing
  refine List.forall_mem_append.mpr ⟨fun event member => .of_unwriting (Foreign.unwriting
    (Program.calls_completes (downloadAll_foreign [] _ _) downloads event member)), ?_⟩
  cases files with
  | error error =>
    cases afterDownload
    exact fun _ impossible => absurd impossible List.not_mem_nil
  | ok files =>
  simp only at afterDownload
  split at afterDownload
  · cases afterDownload
    exact fun _ impossible => absurd impossible List.not_mem_nil
  obtain ⟨loading, loaded, _, _, loads, afterLoading, rfl⟩ := Program.bind_completes afterDownload
  refine List.forall_mem_append.mpr ⟨fun event member => .of_unwriting (Foreign.unwriting
    (Program.calls_completes (loadDimensions_foreign [] _) loads event member)), ?_⟩
  cases loaded with
  | error error =>
    cases afterLoading
    exact fun _ impossible => absurd impossible List.not_mem_nil
  | ok loaded =>
  obtain ⟨mapping, reached, _, _, maps, afterMapping, rfl⟩ := Program.bind_completes afterLoading
  refine List.forall_mem_append.mpr ⟨fun event member => uploads event
    (runMappings_writes (allOpen_of_opens opens) maps event member), ?_⟩
  cases reached with
  | error error =>
    cases afterMapping
    exact fun _ impossible => absurd impossible List.not_mem_nil
  | ok reached =>
  simp only [perform, Program.perform_bind] at afterMapping
  obtain ⟨order, _, _, _, afterOrder, rfl⟩ := Program.call_completes afterMapping
  obtain ⟨closing, errors, _, _, _, finishes, _⟩ := Program.bind_completes afterOrder
  cases finishes

end Parts

end KaretWorker
