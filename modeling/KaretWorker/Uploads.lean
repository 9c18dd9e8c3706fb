import KaretWorker.Isolation

/-!
# What a run uploaded

The trace of a run tells which mappings succeeded: the evaluation of the mapping came
back with partitions, and the puts that follow it, one for each partition, were all
acknowledged. `uploaded` reads this off a trace, with the key each partition was put
under.

`MappingsRun` says what the mapping loop makes of it. The publish state of a table is
touched by exactly the mappings that target it and succeeded, and ends with their
files in place of the ones it had from them.
-/
namespace KaretWorker

open Texts Interaction

/-- The table segment of a partition's key and what follows it. -/
def keyHalves (output : PartitionOutput) : Text × Text :=
  (splitOnce '/' output.key).getD ([], [])

/-- The object key a partition is put under. -/
def uploadKey (pipelinePrefix : Text) (version : Nat) (output : PartitionOutput) : Text :=
  pipelinePrefix ++ (keyHalves output).1 ++ '/' :: (versionPrefix version ++ (keyHalves output).2)

/-- The manifest entry recorded for it. -/
def recordedFile (version : Nat) (mappingId : Text) (output : PartitionOutput) : ManifestFile :=
  ⟨versionPrefix version ++ (keyHalves output).2, mappingId, output.bytes.length⟩

/-- The partitions with the keys they were put under, if the events begin with an
acknowledged put of each. -/
def acknowledged :
    List PartitionOutput → List (Event Effect Reply) → Option (List (PartitionOutput × Text))
  | [], _ => some []
  | output :: rest, ⟨.putObject .warehouse key (.data bytes), .ok ()⟩ :: later =>
    if bytes = output.bytes then (acknowledged rest later).map ((output, key) :: ·) else none
  | _ :: _, _ => none

/-- The partitions of a mapping with the keys they were put under, if it succeeded. -/
def uploaded (mappingId : Text) :
    List (Event Effect Reply) → Option (List (PartitionOutput × Text))
  | [] => none
  | ⟨.evaluate mapping _ _, .partitions outputs _⟩ :: later =>
    if mapping.id = mappingId then acknowledged outputs later else uploaded mappingId later
  | ⟨.evaluate mapping _ _, _⟩ :: later =>
    if mapping.id = mappingId then none else uploaded mappingId later
  | _ :: later => uploaded mappingId later

/-! ## Reading a trace -/

/-- The event is no evaluation of the mapping. -/
def SparesMapping (mappingId : Text) (event : Event Effect Reply) : Prop :=
  ∀ mapping table files, event.1 = .evaluate mapping table files → mapping.id ≠ mappingId

/-- What starts no mapping spares this one. -/
theorem sparesMapping_of_quiet {mappingId : Text} {event : Event Effect Reply}
    (quiet : ¬ event.1.Evaluates) : SparesMapping mappingId event := by
  intro mapping table files same
  rw [same] at quiet
  exact absurd trivial quiet

/-- Events before the mapping's evaluation do not count. -/
theorem uploaded_append {mappingId : Text} {first later : List (Event Effect Reply)}
    (spared : ∀ event ∈ first, SparesMapping mappingId event) :
    uploaded mappingId (first ++ later) = uploaded mappingId later := by
  induction first with
  | nil => rfl
  | cons event rest inductionHypothesis =>
    have restSpared := inductionHypothesis (fun other member =>
      spared other (List.mem_cons_of_mem _ member))
    have spares := spared event List.mem_cons_self
    obtain ⟨effect, reply⟩ := event
    cases effect with
    | evaluate mapping table files =>
      have different : mapping.id ≠ mappingId := spares mapping table files rfl
      cases reply <;> simpa only [List.cons_append, uploaded, if_neg different] using restSpared
    | getBytes | listKeys | putObject | deleteObject | loadCancel | now | overflow | iterate
    | buildInlineRegistry | rowsFromCsv | newMatcher => exact restSpared

/-- Nothing was uploaded for a mapping that was never evaluated. -/
theorem uploaded_none {mappingId : Text} {trace : List (Event Effect Reply)}
    (spared : ∀ event ∈ trace, SparesMapping mappingId event) :
    uploaded mappingId trace = none := by
  rw [← List.append_nil trace, uploaded_append spared]
  rfl

section Loop

variable {permits : Buckets → Effect → Answer → Prop} {pipelinePrefix : Text}
  {buckets final : Buckets} {trace : List (Event Effect Reply)}

/-- A finished upload has put every partition and recorded it, or stopped at a put that
was not acknowledged. -/
theorem uploadPartitions_acknowledged {version : Nat} {mappingId : Text}
    {outputs : List PartitionOutput}
    (keyed : ∀ output ∈ outputs, ∃ halves, splitOnce '/' output.key = some halves)
    {written : List ManifestFile} {result : Except Text (List ManifestFile)}
    (completed : Program.Completes (Given permits)
      (uploadPartitions pipelinePrefix version mappingId outputs written) buckets trace
        result final) :
    ((∃ error, result = .error error) ∧ ∀ tail, acknowledged outputs (trace ++ tail) = none) ∨
      (result = .ok (written ++ outputs.map (recordedFile version mappingId)) ∧
        ∀ tail, acknowledged outputs (trace ++ tail) =
          some (outputs.map
            (fun output => (output, uploadKey pipelinePrefix version output)))) := by
  induction outputs generalizing written buckets trace with
  | nil =>
    cases completed
    exact Or.inr ⟨by rw [List.map_nil, List.append_nil], fun _ => rfl⟩
  | cons output rest inductionHypothesis =>
    obtain ⟨⟨tableId, path⟩, split⟩ := keyed output List.mem_cons_self
    have halves : keyHalves output = (tableId, path) := by rw [keyHalves, split, Option.getD_some]
    simp only [uploadPartitions, split, perform, Program.perform_bind] at completed
    obtain ⟨reply, middle, later, _, continues, rfl⟩ := Program.call_completes completed
    cases reply with
    | error error =>
      cases continues
      exact Or.inl ⟨⟨_, rfl⟩, fun _ => rfl⟩
    | ok stored =>
      have further := inductionHypothesis
        (fun other member => keyed other (List.mem_cons_of_mem _ member)) continues
      have key : uploadKey pipelinePrefix version output =
          pipelinePrefix ++ tableId ++ '/' :: (versionPrefix version ++ path) := by
        rw [uploadKey, halves]
      have file : recordedFile version mappingId output =
          ⟨versionPrefix version ++ path, mappingId, output.bytes.length⟩ := by
        rw [recordedFile, halves]
      rcases further with ⟨failed, stops⟩ | ⟨isResult, puts⟩
      · refine Or.inl ⟨failed, fun tail => ?_⟩
        simp only [List.cons_append, acknowledged, ↓reduceIte, stops tail, Option.map_none]
      · refine Or.inr ⟨?_, fun tail => ?_⟩
        · rw [isResult, List.map_cons, file, List.append_assoc, List.singleton_append]
        · simp only [List.cons_append, acknowledged, ↓reduceIte, puts tail, Option.map_some,
            List.map_cons, key]

/-- Whatever the effect writes is a data file. -/
def DataWrites (effect : Effect) : Prop :=
  ∀ key, effect.Writes key →
    ".parquet".toList <:+ key ∧ ∃ bytes, effect = .putObject .warehouse key (.data bytes)

/-- The key of a partition's object ends like its own. -/
theorem uploadKey_suffix {version : Nat} {output : PartitionOutput} {tableId mappingId : Text}
    {segments : List Text} (shaped : output.key = partitionKey tableId segments mappingId) :
    ".parquet".toList <:+ uploadKey pipelinePrefix version output := by
  obtain ⟨⟨front, path⟩, split⟩ := split_shaped tableId segments mappingId
  rw [← shaped] at split
  have halves : keyHalves output = (front, path) := by rw [keyHalves, split, Option.getD_some]
  obtain ⟨joined, absent⟩ := split_sound split
  have whole : ".parquet".toList <:+ front ++ '/' :: path := by
    rw [← joined, shaped, partitionKey]
    exact (List.suffix_append _ _).trans ((List.suffix_cons _ _).trans (List.suffix_append _ _))
  have within : ".parquet".toList <:+ path := suffix_of_absent (by decide) whole
  rw [uploadKey, halves]
  exact within.trans ((List.suffix_append _ _).trans ((List.suffix_cons _ _).trans
    (List.suffix_append _ _)))

/-- Whatever the effect writes is an uploaded partition of an open table. -/
def UploadWrites (pipelinePrefix : Text) (publishes : Publishes) (effect : Effect) : Prop :=
  ∀ key, effect.Writes key → ∃ tableId entry output segments mappingId bytes,
    publishes.lookup tableId = some entry ∧ output.key = partitionKey tableId segments mappingId ∧
    key = uploadKey pipelinePrefix entry.version output ∧
    effect = .putObject .warehouse key (.data bytes)

/-- An upload writes partitions of its table. -/
theorem uploadPartitions_writes {publishes : Publishes} {mappingId tableId : Text}
    {entry : TablePublish} (found : publishes.lookup tableId = some entry)
    {outputs : List PartitionOutput}
    (shaped : ∀ output ∈ outputs, ∃ segments, output.key = partitionKey tableId segments mappingId)
    (written : List ManifestFile) :
    (uploadPartitions pipelinePrefix entry.version mappingId outputs written).Calls
      (UploadWrites pipelinePrefix publishes) := by
  induction outputs generalizing written with
  | nil => trivial
  | cons output rest inductionHypothesis =>
    obtain ⟨segments, isKey⟩ := shaped output List.mem_cons_self
    have restShaped := fun other member => shaped other (List.mem_cons_of_mem output member)
    unfold uploadPartitions
    split
    · trivial
    · next front path split =>
      have uploads : uploadKey pipelinePrefix entry.version output =
          pipelinePrefix ++ front ++ '/' :: (versionPrefix entry.version ++ path) := by
        rw [uploadKey, keyHalves, split, Option.getD_some]
      refine ⟨?_, ?_⟩
      · rintro key rfl
        exact ⟨tableId, entry, output, segments, mappingId, _, found, isKey, uploads.symm, rfl⟩
      · rintro (error | ⟨⟩)
        · trivial
        · exact inductionHypothesis restShaped _

variable {config : PipelineConfig} {files : List (Text × Object)}

/-- What handling one mapping makes of the publish states. Either it did not succeed,
or its files replace the ones its table had from it. -/
inductive Handled (config : PipelineConfig) (pipelinePrefix : Text) (mapping : Mapping)
    (first : List (Event Effect Reply)) (before after : Publishes) : Prop where
  | passed (same : after = before)
      (failed : ∀ tail, (∀ event ∈ tail, SparesMapping mapping.id event) →
        uploaded mapping.id (first ++ tail) = none)
  | replaced (sourced : (config.sourceOf mapping).isSome = true) (table : AnalyticTable)
      (isTable : config.tableOf mapping = some table)
      (entry : TablePublish) (found : before.lookup mapping.analyticTableId = some entry)
      (outputs : List PartitionOutput)
      (shaped : ∀ output ∈ outputs, ∃ segments,
        output.key = partitionKey mapping.analyticTableId segments mapping.id)
      (succeeds : ∀ tail, uploaded mapping.id (first ++ tail) = some (outputs.map (fun output =>
        (output, uploadKey pipelinePrefix entry.version output))))
      (replaces : after = before.insert mapping.analyticTableId { entry with
        files := applyMappingWrites entry.files mapping.id
          (outputs.map (recordedFile entry.version mapping.id))
        touched := true })

/-- Every declared table has a publish state. -/
def AllOpen (config : PipelineConfig) (publishes : Publishes) : Prop :=
  ∀ table ∈ config.analyticTables, (publishes.lookup table.id).isSome = true

/-- Handling a mapping keeps the tables open. -/
theorem Handled.open {mapping : Mapping} {first : List (Event Effect Reply)}
    {before after : Publishes} (handled : Handled config pipelinePrefix mapping first before after)
    (isOpen : AllOpen config before) : AllOpen config after := by
  intro table member
  cases handled with
  | passed same _ => exact same ▸ isOpen table member
  | replaced _ _ _ entry _ _ _ _ replaces =>
    rw [replaces]
    by_cases here : table.id = mapping.analyticTableId
    · rw [here, AList.lookup_insert, Option.isSome_some]
    · rw [AList.lookup_insert_ne here]
      exact isOpen table member

/-- The second publish state comes from the first by recording files of its version. -/
structure Descends (entry entry' : TablePublish) : Prop where
  located : entry'.tablePrefix = entry.tablePrefix
  version : entry'.version = entry.version
  listed : ∀ file ∈ entry'.files, file ∈ entry.files ∨
    ∃ path, file.key = versionPrefix entry.version ++ path

/-- A publish state comes from itself. -/
theorem Descends.refl (entry : TablePublish) : Descends entry entry :=
  ⟨rfl, rfl, fun _ => Or.inl⟩

/-- Two descents, one after the other. -/
theorem Descends.trans {first second third : TablePublish} (earlier : Descends first second)
    (later : Descends second third) : Descends first third := by
  refine ⟨later.located.trans earlier.located, later.version.trans earlier.version, ?_⟩
  intro file member
  rcases later.listed file member with before | new
  · exact earlier.listed file before
  · exact Or.inr (earlier.version ▸ new)

/-- Handling a mapping opens no table and only records files. -/
theorem Handled.origin {mapping : Mapping} {first : List (Event Effect Reply)}
    {before after : Publishes} (handled : Handled config pipelinePrefix mapping first before after)
    {tableId : Text} {entry' : TablePublish} (found : after.lookup tableId = some entry') :
    ∃ entry, before.lookup tableId = some entry ∧ Descends entry entry' := by
  cases handled with
  | passed unchanged _ => exact ⟨entry', unchanged ▸ found, .refl entry'⟩
  | replaced _ _ _ entry isEntry outputs _ _ replaces =>
    subst replaces
    by_cases here : tableId = mapping.analyticTableId
    · subst here
      rw [AList.lookup_insert] at found
      obtain ⟨⟩ := found
      refine ⟨entry, isEntry, rfl, rfl, fun file member => ?_⟩
      rcases mem_applyMappingWrites.mp member with ⟨kept, _⟩ | written
      · exact Or.inl kept
      · obtain ⟨output, _, rfl⟩ := List.mem_map.mp written
        exact Or.inr ⟨_, rfl⟩
    · rw [AList.lookup_insert_ne here] at found
      exact ⟨entry', found, .refl entry'⟩

/-- Applying a mapping writes partitions of its table. -/
theorem applyMapping_writes {mapping : Mapping} {outputs : List PartitionOutput} (dropped : Nat)
    (progress : Progress) (shaped : ∀ output ∈ outputs, ∃ segments,
      output.key = partitionKey mapping.analyticTableId segments mapping.id) :
    (applyMapping pipelinePrefix mapping outputs dropped progress).Calls
      (UploadWrites pipelinePrefix progress.publishes) := by
  unfold applyMapping
  split
  · trivial
  · next entry found =>
    refine Program.calls_bind (uploadPartitions_writes found shaped _) ?_
    rintro (error | written) <;> trivial

/-- What follows the evaluation of a mapping into partitions. -/
theorem applyMapping_handled {mapping evaluated : Mapping} {outputs : List PartitionOutput}
    {dropped : Nat} {progress progress' : Progress} (isOpen : AllOpen config progress.publishes)
    (sourced : (config.sourceOf mapping).isSome = true) (sameId : evaluated.id = mapping.id)
    (genuine : Genuine (.evaluate evaluated (config.tableOf mapping) files)
      (.partitions outputs dropped))
    (completed : Program.Completes (Given permits)
      (applyMapping pipelinePrefix mapping outputs dropped progress) buckets trace
        progress' final) :
    Handled config pipelinePrefix mapping (⟨.loadCancel, false⟩ ::
      ⟨.evaluate evaluated (config.tableOf mapping) files, .partitions outputs dropped⟩ :: trace)
      progress.publishes progress'.publishes := by
  have shaped := evaluated_shape config mapping sameId genuine
  obtain ⟨table, isTable, _⟩ := genuine
  have member := List.mem_of_find?_eq_some isTable
  have named := config.tableOf_id isTable
  obtain ⟨entry, found⟩ := Option.isSome_iff_exists.mp (named ▸ isOpen table member)
  have reads : ∀ tail, uploaded mapping.id ((⟨.loadCancel, false⟩ ::
      ⟨.evaluate evaluated (config.tableOf mapping) files, .partitions outputs dropped⟩ :: trace) ++
        tail) = acknowledged outputs (trace ++ tail) := by
    intro tail
    simp only [List.cons_append, uploaded, sameId, ↓reduceIte]
  simp only [applyMapping, found] at completed
  obtain ⟨puts, result, middle, later, uploads, finishes, rfl⟩ := Program.bind_completes completed
  have keyed : ∀ output ∈ outputs, ∃ halves, splitOnce '/' output.key = some halves := by
    intro output isOutput
    obtain ⟨segments, isKey⟩ := shaped output isOutput
    rw [isKey]
    exact split_shaped _ _ _
  rcases uploadPartitions_acknowledged keyed uploads with ⟨⟨error, rfl⟩, stops⟩ | ⟨rfl, stored⟩
  · cases finishes
    refine .passed rfl (fun tail _ => ?_)
    rw [reads, List.append_nil, stops]
  · cases finishes
    refine .replaced sourced table isTable entry found outputs shaped (fun tail => ?_) rfl
    rw [reads, List.append_nil, stored]

/-- The mapping loop is cancelled before its first mapping, or deals with it and goes on
with the rest. -/
theorem runMappings_handled {mapping : Mapping} {rest : List Mapping} {progress : Progress}
    (isOpen : AllOpen config progress.publishes) {result : Except JobError Progress}
    (completed : Program.Completes (Given permits)
      (runMappings config pipelinePrefix files (mapping :: rest) progress) buckets trace
        result final) :
    (result = .error .cancelled ∧ trace = [⟨.loadCancel, true⟩]) ∨
    ∃ first later progress' middle, trace = first ++ later ∧
      (∀ mappingId, mappingId ≠ mapping.id → ∀ event ∈ first, SparesMapping mappingId event) ∧
      (∀ event ∈ first, UploadWrites pipelinePrefix progress.publishes event.1) ∧
      Handled config pipelinePrefix mapping first progress.publishes progress'.publishes ∧
      Program.Completes (Given permits)
      (runMappings config pipelinePrefix files rest progress') middle
        later result final := by
  simp only [runMappings, perform, Program.perform_bind] at completed
  obtain ⟨cancelled, middle, later, _, continues, rfl⟩ := Program.call_completes completed
  have polled : ∀ mappingId event, event ∈ [(⟨.loadCancel, cancelled⟩ : Event Effect Reply)] →
      SparesMapping mappingId event := by
    intro mappingId event member
    rw [List.mem_singleton.mp member]
    exact sparesMapping_of_quiet id
  have polls : ∀ event ∈ [(⟨.loadCancel, cancelled⟩ : Event Effect Reply)],
      UploadWrites pipelinePrefix progress.publishes event.1 := by
    intro event member
    rw [List.mem_singleton.mp member]
    exact fun _ impossible => impossible.elim
  have skipped : Handled config pipelinePrefix mapping
      [(⟨.loadCancel, cancelled⟩ : Event Effect Reply)] progress.publishes progress.publishes :=
    .passed rfl (fun tail spared => by
      rw [uploaded_append (polled mapping.id), uploaded_none spared])
  cases cancelled with
  | true =>
    cases continues
    exact Or.inl ⟨rfl, rfl⟩
  | false =>
    right
    simp only [Bool.false_eq_true, ↓reduceIte] at continues
    cases isSource : config.sourceOf mapping with
    | none =>
      rw [isSource] at continues
      exact ⟨[_], later, progress, middle, rfl, fun other _ => polled other, polls, skipped,
        continues⟩
    | some container =>
    rw [isSource] at continues
    simp only at continues
    split at continues
    · exact ⟨[_], later, progress, middle, rfl, fun other _ => polled other, polls, skipped,
        continues⟩
    obtain ⟨reply, evaluating, further, ⟨genuine, _⟩, goesOn, rfl⟩ :=
      Program.call_completes continues
    have sameId := lookup_again config mapping
    generalize (config.mappings.find? (fun other => other.id = mapping.id)).getD mapping = evaluated
      at genuine goesOn sameId ⊢
    have spares : ∀ mappingId, mappingId ≠ mapping.id → ∀ reply event,
        event ∈ [(⟨.loadCancel, false⟩ : Event Effect Reply),
          ⟨.evaluate evaluated (config.tableOf mapping) (filesUnder container files), reply⟩] →
          SparesMapping mappingId event := by
      intro mappingId different reply event member
      rcases List.mem_cons.mp member with rfl | member
      · exact sparesMapping_of_quiet id
      · rw [List.mem_singleton.mp member]
        rintro _ _ _ ⟨⟩
        rw [sameId]
        exact different.symm
    have evaluates : ∀ reply event, event ∈ [(⟨.loadCancel, false⟩ : Event Effect Reply),
        ⟨.evaluate evaluated (config.tableOf mapping) (filesUnder container files), reply⟩] →
        UploadWrites pipelinePrefix progress.publishes event.1 := by
      intro reply event member
      rcases List.mem_cons.mp member with rfl | member
      · exact fun _ impossible => impossible.elim
      · rw [List.mem_singleton.mp member]
        exact fun _ impossible => impossible.elim
    cases reply with
    | failed message =>
      refine ⟨[_, _], further, _, evaluating, rfl, fun other different => spares other different _,
        evaluates _, .passed (by rfl) (fun tail _ => ?_), goesOn⟩
      simp only [List.cons_append, uploaded, sameId, ↓reduceIte]
    | panicked joinError =>
      refine ⟨[_, _], further, _, evaluating, rfl, fun other different => spares other different _,
        evaluates _, .passed (by rfl) (fun tail _ => ?_), goesOn⟩
      simp only [List.cons_append, uploaded, sameId, ↓reduceIte]
    | partitions outputs dropped =>
      obtain ⟨applying, progress', between, afterwards, applies, remaining, rfl⟩ :=
        Program.bind_completes goesOn
      have quiet := Program.calls_completes (applyMapping_calls mapping outputs dropped progress)
        applies
      have data := Program.calls_completes (applyMapping_writes dropped progress
        (evaluated_shape config mapping sameId genuine)) applies
      refine ⟨_ :: _ :: applying, afterwards, progress', between, by simp, ?_, ?_,
        applyMapping_handled isOpen (by rw [isSource, Option.isSome_some]) sameId genuine applies,
        remaining⟩
      intro mappingId different event member
      rcases List.mem_append.mp (show event ∈ [_, _] ++ applying from member) with early | late
      · exact spares mappingId different _ event early
      · exact sparesMapping_of_quiet (quiet event late)
      intro event member
      rcases List.mem_append.mp (show event ∈ [_, _] ++ applying from member) with early | late
      · exact evaluates _ event early
      · exact data event late

/-- What the mapping loop makes of the publish states, mapping by mapping. -/
inductive MappingsRun (config : PipelineConfig) (pipelinePrefix : Text) :
    List Mapping → List (Event Effect Reply) → Publishes → Publishes → Prop
  | nil (publishes : Publishes) : MappingsRun config pipelinePrefix [] [] publishes publishes
  | cons {mapping : Mapping} {rest : List Mapping} {first later : List (Event Effect Reply)}
      {before middle after : Publishes}
      (spares : ∀ mappingId, mappingId ≠ mapping.id → ∀ event ∈ first, SparesMapping mappingId event)
      (handled : Handled config pipelinePrefix mapping first before middle)
      (further : MappingsRun config pipelinePrefix rest later middle after) :
      MappingsRun config pipelinePrefix (mapping :: rest) (first ++ later) before after

/-- A mapping loop that ends has run over its mappings. -/
theorem runMappings_run {mappings : List Mapping} {progress reached : Progress}
    (isOpen : AllOpen config progress.publishes)
    (completed : Program.Completes (Given permits)
      (runMappings config pipelinePrefix files mappings progress) buckets trace
        (.ok reached) final) :
    MappingsRun config pipelinePrefix mappings trace progress.publishes reached.publishes := by
  induction mappings generalizing progress buckets trace with
  | nil =>
    cases completed
    exact .nil _
  | cons mapping rest inductionHypothesis =>
    obtain ⟨first, later, progress', middle, rfl, spares, _, handled, continues⟩ :=
      (runMappings_handled isOpen completed).resolve_left (by rintro ⟨⟨⟩, _⟩)
    exact .cons spares handled (inductionHypothesis (handled.open isOpen) continues)

/-- The mapping loop writes partitions of the open tables, also when it is cancelled. -/
theorem runMappings_writes {mappings : List Mapping} {progress : Progress}
    (isOpen : AllOpen config progress.publishes) {result : Except JobError Progress}
    (completed : Program.Completes (Given permits)
      (runMappings config pipelinePrefix files mappings progress) buckets trace result final) :
    ∀ event ∈ trace, UploadWrites pipelinePrefix progress.publishes event.1 := by
  induction mappings generalizing progress buckets trace with
  | nil =>
    cases completed
    exact fun _ impossible => absurd impossible List.not_mem_nil
  | cons mapping rest inductionHypothesis =>
    rcases runMappings_handled isOpen completed with ⟨_, rfl⟩ |
      ⟨first, later, progress', middle, rfl,
      _, writes, handled, continues⟩
    · intro event member
      rw [List.mem_singleton.mp member]
      exact fun _ impossible => impossible.elim
    · refine List.forall_mem_append.mpr ⟨writes, fun event member key isWritten => ?_⟩
      obtain ⟨tableId, entry', output, segments, mappingId, bytes, found, shaped, isKey, isPut⟩ :=
        inductionHypothesis (handled.open isOpen) continues event member key isWritten
      obtain ⟨entry, isEntry, descends⟩ := handled.origin found
      exact ⟨tableId, entry, output, segments, mappingId, bytes, isEntry, shaped,
        descends.version ▸ isKey, isPut⟩

end Loop

/-! ## The publish state of one table -/

/-- The mappings that target the table and succeeded. -/
def succeeded (tableId : Text) (trace : List (Event Effect Reply)) (mappings : List Mapping) :
    List Mapping :=
  mappings.filter (fun mapping =>
    mapping.analyticTableId = tableId ∧ (uploaded mapping.id trace).isSome = true)

/-- The files recorded for a mapping. -/
def uploadedFiles (version : Nat) (mappingId : Text) (trace : List (Event Effect Reply)) :
    List ManifestFile :=
  ((uploaded mappingId trace).getD []).map (fun put => recordedFile version mappingId put.1)

/-- The files of a table's next version: the previous ones of the mappings that did not
succeed, and the uploaded ones of those that did. -/
def nextFiles (previous : List ManifestFile) (version : Nat) (tableId : Text)
    (trace : List (Event Effect Reply)) (mappings : List Mapping) : List ManifestFile :=
  previous.filter (fun file =>
      ∀ mapping ∈ succeeded tableId trace mappings, mapping.id ≠ file.mappingId) ++
    (succeeded tableId trace mappings).flatMap (fun mapping =>
      uploadedFiles version mapping.id trace)

/-- Which mappings succeeded depends on the uploads only. -/
theorem succeeded_congr {tableId : Text} {trace trace' : List (Event Effect Reply)}
    (same : ∀ mappingId, uploaded mappingId trace = uploaded mappingId trace')
    {mappings : List Mapping} :
    succeeded tableId trace mappings = succeeded tableId trace' mappings := by
  simp only [succeeded, same]

/-- The files of the next version depend on what was uploaded for each mapping only. -/
theorem nextFiles_congr {previous : List ManifestFile} {version : Nat} {tableId : Text}
    {trace trace' : List (Event Effect Reply)}
    (same : ∀ mappingId, uploaded mappingId trace = uploaded mappingId trace')
    {mappings : List Mapping} :
    nextFiles previous version tableId trace mappings =
      nextFiles previous version tableId trace' mappings := by
  simp only [nextFiles, uploadedFiles, succeeded_congr same, same]

/-- The order of the mappings does not matter. -/
theorem nextFiles_order {previous : List ManifestFile} {version : Nat} {tableId : Text}
    {trace : List (Event Effect Reply)} {mappings order : List Mapping}
    (reordered : order.Perm mappings) :
    (nextFiles previous version tableId trace order).Perm
      (nextFiles previous version tableId trace mappings) := by
  have same : (succeeded tableId trace order).Perm (succeeded tableId trace mappings) :=
    reordered.filter _
  refine List.Perm.append (List.Perm.of_eq ?_) (same.flatMap_right _)
  refine List.filter_congr (fun file _ => ?_)
  simp only [decide_eq_decide]
  exact forall_congr' (fun mapping => by rw [same.mem_iff])

section Entry

variable {config : PipelineConfig} {pipelinePrefix tableId : Text} {version : Nat}
  {mappings rest : List Mapping} {mapping : Mapping} {first trace tail : List (Event Effect Reply)}
  {before after : Publishes}

/-- A run over other mappings does not evaluate the mapping. -/
theorem MappingsRun.spares (run : MappingsRun config pipelinePrefix mappings trace before after)
    {mappingId : Text} (absent : mappingId ∉ mappings.map Mapping.id) :
    ∀ event ∈ trace, SparesMapping mappingId event := by
  induction run with
  | nil publishes => exact fun _ impossible => absurd impossible List.not_mem_nil
  | cons spares handled further inductionHypothesis =>
    obtain ⟨different, absentLater⟩ := not_or.mp (mt List.mem_cons.mpr absent)
    intro event member
    rcases List.mem_append.mp member with early | late
    · exact spares mappingId different event early
    · exact inductionHypothesis absentLater event late

/-- A publish state after the loop was there before, with the same version. -/
theorem MappingsRun.origin (run : MappingsRun config pipelinePrefix mappings trace before after)
    {entry' : TablePublish} (found : after.lookup tableId = some entry') :
    ∃ entry, before.lookup tableId = some entry ∧ Descends entry entry' := by
  induction run with
  | nil publishes => exact ⟨entry', found, .refl entry'⟩
  | cons spares handled further inductionHypothesis =>
    obtain ⟨middle, isMiddle, later⟩ := inductionHypothesis found
    obtain ⟨entry, isEntry, earlier⟩ := handled.origin isMiddle
    exact ⟨entry, isEntry, earlier.trans later⟩

/-- The partitions of a mapping that succeeded were put under their keys. -/
theorem MappingsRun.uploads (run : MappingsRun config pipelinePrefix mappings trace before after)
    (distinct : (mappings.map Mapping.id).Nodup)
    (spared : ∀ mapping ∈ mappings, ∀ event ∈ tail, SparesMapping mapping.id event)
    (member : mapping ∈ mappings) {puts : List (PartitionOutput × Text)}
    (succeeds : uploaded mapping.id (trace ++ tail) = some puts) :
    (config.sourceOf mapping).isSome = true ∧ ∃ table entry,
      config.tableOf mapping = some table ∧ before.lookup mapping.analyticTableId = some entry ∧
      ∀ put ∈ puts, put.2 = uploadKey pipelinePrefix entry.version put.1 ∧
        ∃ segments, put.1.key = partitionKey mapping.analyticTableId segments mapping.id := by
  induction run with
  | nil publishes => exact absurd member List.not_mem_nil
  | @cons first' rest first later before middle after spares handled further
      inductionHypothesis =>
    obtain ⟨absent, restDistinct⟩ := List.nodup_cons.mp distinct
    rw [List.append_assoc] at succeeds
    rcases List.mem_cons.mp member with rfl | isLater
    · cases handled with
      | passed _ failed =>
        rw [failed (later ++ tail)] at succeeds
        · exact nomatch succeeds
        · intro event isEvent
          rcases List.mem_append.mp isEvent with late | last
          · exact further.spares absent event late
          · exact spared mapping List.mem_cons_self event last
      | replaced sourced table isTable entry found outputs shaped reads _ =>
        rw [reads] at succeeds
        obtain ⟨⟩ := succeeds
        refine ⟨sourced, table, entry, isTable, found, fun put isPut => ?_⟩
        obtain ⟨output, isOutput, rfl⟩ := List.mem_map.mp isPut
        exact ⟨rfl, shaped output isOutput⟩
    · have different : mapping.id ≠ first'.id := fun same =>
        absent (List.mem_map.mpr ⟨mapping, isLater, same⟩)
      rw [uploaded_append (spares mapping.id different)] at succeeds
      obtain ⟨sourced, table, entry, isTable, found, keyed⟩ := inductionHypothesis restDistinct
        (fun other isOther => spared other (List.mem_cons_of_mem _ isOther)) isLater succeeds
      obtain ⟨entry', found', same⟩ := handled.origin found
      refine ⟨sourced, table, entry', isTable, found', fun put isPut => ?_⟩
      rw [← same.version]
      exact keyed put isPut

/-- Earlier events of other mappings do not change who succeeded. -/
theorem succeeded_append
    (spared : ∀ other ∈ rest, ∀ event ∈ first, SparesMapping other.id event) :
    succeeded tableId (first ++ tail) rest = succeeded tableId tail rest := by
  refine List.filter_congr (fun other member => ?_)
  rw [uploaded_append (spared other member)]

/-- What a step of the loop adds to the next file list: nothing, unless its mapping
targets the table and succeeded. -/
theorem nextFiles_cons {previous : List ManifestFile}
    (spared : ∀ other ∈ rest, ∀ event ∈ first, SparesMapping other.id event) :
    nextFiles previous version tableId (first ++ tail) (mapping :: rest) =
      if mapping.analyticTableId = tableId ∧
      (uploaded mapping.id (first ++ tail)).isSome = true then
        (previous.filter (fun file => file.mappingId ≠ mapping.id)).filter (fun file =>
            ∀ other ∈ succeeded tableId tail rest, other.id ≠ file.mappingId) ++
          (uploadedFiles version mapping.id (first ++ tail) ++
            (succeeded tableId tail rest).flatMap (fun other =>
              uploadedFiles version other.id tail))
      else nextFiles previous version tableId tail rest := by
  have files : (succeeded tableId tail rest).flatMap (fun other =>
      uploadedFiles version other.id (first ++ tail)) =
        (succeeded tableId tail rest).flatMap
          (fun other => uploadedFiles version other.id tail) := by
    refine List.flatMap_congr (fun other member => ?_)
    rw [uploadedFiles, uploadedFiles,
      uploaded_append (spared other (List.mem_of_mem_filter member))]
  have cons : succeeded tableId (first ++ tail) (mapping :: rest) =
      if mapping.analyticTableId = tableId ∧
        (uploaded mapping.id (first ++ tail)).isSome = true then
        mapping :: succeeded tableId tail rest
      else succeeded tableId tail rest := by
    rw [← succeeded_append spared]
    simp only [succeeded, List.filter_cons, decide_eq_true_eq]
  rw [nextFiles, cons]
  split
  · rw [List.flatMap_cons, files, List.filter_filter]
    congr 1
    refine List.filter_congr (fun file _ => ?_)
    simp only [List.forall_mem_cons, ← Bool.decide_and, ne_comm, and_comm]
  · rw [files, nextFiles]

/-- The publish state of a table after the loop: the files are the next ones, and it is
touched exactly when a mapping that targets it succeeded. -/
structure Revised (succeeded : List Mapping) (files : List ManifestFile)
    (entry entry' : TablePublish) : Prop where
  located : entry'.tablePrefix = entry.tablePrefix
  version : entry'.version = entry.version
  untouched : succeeded = [] → entry' = entry
  touched : succeeded ≠ [] → entry'.touched = true ∧
    entry'.files.Pairwise (fun left right => left.key ≤ right.key)
  files : entry'.files.Perm files

/-- Replacing a mapping's files and then those of others comes to replacing all. -/
theorem applyMappingWrites_replaced {previous written : List ManifestFile} {mappingId : Text}
    {others : List Mapping} (own : ∀ file ∈ written, file.mappingId = mappingId)
    (absent : mappingId ∉ others.map Mapping.id) :
    ((applyMappingWrites previous mappingId written).filter (fun file =>
        ∀ other ∈ others, other.id ≠ file.mappingId)).Perm
      ((previous.filter (fun file => file.mappingId ≠ mappingId)).filter (fun file =>
        ∀ other ∈ others, other.id ≠ file.mappingId) ++ written) := by
  have kept : written.filter (fun file => ∀ other ∈ others, other.id ≠ file.mappingId) =
    written := by
    refine List.filter_eq_self.mpr
      (fun file member => decide_eq_true (fun other isOther same => ?_))
    exact absent (List.mem_map.mpr ⟨other, isOther, same.trans (own file member)⟩)
  have sorted := (List.perm_insertionSort (fun left right : ManifestFile => left.key ≤ right.key)
    (previous.filter (fun file => file.mappingId ≠ mappingId) ++ written)).filter
      (fun file => ∀ other ∈ others, other.id ≠ file.mappingId)
  rwa [List.filter_append, kept] at sorted

/-- A loop revises the publish state of each table. -/
theorem MappingsRun.entry (run : MappingsRun config pipelinePrefix mappings trace before after)
    (distinct : (mappings.map Mapping.id).Nodup)
    (spared : ∀ mapping ∈ mappings, ∀ event ∈ tail, SparesMapping mapping.id event)
    {entry : TablePublish} (found : before.lookup tableId = some entry) :
    ∃ entry', after.lookup tableId = some entry' ∧
      Revised (succeeded tableId (trace ++ tail) mappings)
        (nextFiles entry.files entry.version tableId (trace ++ tail) mappings) entry entry' := by
  induction run generalizing entry with
  | nil publishes =>
    refine ⟨entry, found, rfl, rfl, fun _ => rfl, fun impossible => absurd rfl impossible, ?_⟩
    simp [nextFiles, succeeded]
  | @cons mapping rest first later before middle after spares handled further
      inductionHypothesis =>
    obtain ⟨absent, restDistinct⟩ := List.nodup_cons.mp distinct
    have restSpared := fun other member => spared other (List.mem_cons_of_mem mapping member)
    have others : ∀ other ∈ rest, ∀ event ∈ first, SparesMapping other.id event := by
      intro other member
      refine spares other.id ?_
      intro same
      exact absent (List.mem_map.mpr ⟨other, member, same⟩)
    have passes : ∀ {entry}, middle.lookup tableId = some entry →
        ¬ (mapping.analyticTableId = tableId ∧
          (uploaded mapping.id (first ++ (later ++ tail))).isSome = true) →
        ∃ entry', after.lookup tableId = some entry' ∧
          Revised (succeeded tableId (first ++ (later ++ tail)) (mapping :: rest))
            (nextFiles entry.files entry.version tableId (first ++ (later ++ tail))
              (mapping :: rest)) entry entry' := by
      intro entry found unchanged
      rw [nextFiles_cons others, if_neg unchanged, succeeded, List.filter_cons_of_neg
        (by simpa using unchanged), ← succeeded, succeeded_append others]
      exact inductionHypothesis restDistinct restSpared found
    rw [List.append_assoc]
    cases handled with
    | passed same failed =>
      refine passes (same ▸ found) ?_
      rintro ⟨_, succeeds⟩
      rw [failed (later ++ tail)] at succeeds
      · exact nomatch succeeds
      · intro event member
        rcases List.mem_append.mp member with late | last
        · exact further.spares absent event late
        · exact spared mapping List.mem_cons_self event last
    | replaced _ table isTable old isOld outputs shaped succeeds replaces =>
      by_cases here : mapping.analyticTableId = tableId
      · subst here
        obtain ⟨⟩ := found.symm.trans isOld
        have puts := succeeds (later ++ tail)
        have written : uploadedFiles entry.version mapping.id (first ++ (later ++ tail)) =
            outputs.map (recordedFile entry.version mapping.id) := by
          rw [uploadedFiles, puts, Option.getD_some, List.map_map]
          rfl
        obtain ⟨entry', isEntry, revised⟩ := inductionHypothesis restDistinct restSpared
          (by rw [replaces, AList.lookup_insert])
        refine ⟨entry', isEntry, revised.located, revised.version, ?_, ?_, ?_⟩
        · intro none
          refine absurd ?_ (List.not_mem_nil (a := mapping))
          rw [← none]
          exact List.mem_filter.mpr ⟨List.mem_cons_self, by simp [puts]⟩
        · intro _
          by_cases last : succeeded mapping.analyticTableId (later ++ tail) rest = []
          · rw [revised.untouched last]
            exact ⟨rfl, List.pairwise_insertionSort _ _⟩
          · exact revised.touched last
        · rw [nextFiles_cons others, if_pos ⟨rfl, by rw [puts, Option.isSome_some]⟩, written,
            ← List.append_assoc]
          refine revised.files.trans (List.Perm.append_right _ (applyMappingWrites_replaced ?_ ?_))
          · intro file member
            obtain ⟨output, _, rfl⟩ := List.mem_map.mp member
            rfl
          · intro among
            obtain ⟨other, member, same⟩ := List.mem_map.mp among
            exact absent (List.mem_map.mpr ⟨other, List.mem_of_mem_filter member, same⟩)
      · refine passes ?_ (fun both => here both.1)
        rw [replaces, AList.lookup_insert_ne (Ne.symm here)]
        exact found

end Entry

end KaretWorker
