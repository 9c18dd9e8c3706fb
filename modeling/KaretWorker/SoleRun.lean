import KaretWorker.RunParts

/-!
# A run with one successful mapping

For any configuration and any of its mappings whose source and table are declared, there
is a run in which that mapping alone succeeds. The lake holds one object, under the
source; every other mapping fails in its evaluation, and this one yields one partition of
one row.

The surroundings only have to let the lake be read and data be put, so the tables may be
opened and published in any way that is given.
-/
namespace KaretWorker

open Texts Interaction

/-- The answer reports an error. -/
def Answer.fails : Answer → Bool
  | .refused _ => true
  | .lost _ => true
  | _ => false

/-- Whatever does not read the warehouse may succeed. -/
def Serves (permits : Buckets → Effect → Answer → Prop) : Prop :=
  ∀ buckets effect given, (∀ key, effect ≠ .getBytes .warehouse key) →
    (∀ lead, effect ≠ .listKeys .warehouse lead) → given.fails = false →
    permits buckets effect given

/-- The one partition of a frame of one row. -/
def samplePartition (table : AnalyticTable) (mappingId : Text) : PartitionOutput :=
  ⟨partitionKey table.id (table.partitionKeys.map (fun key => key ++ "=x".toList)) mappingId, []⟩

/-- A mapping of a declared table may yield it. -/
theorem samplePartition_genuine {mapping : Mapping} {table : AnalyticTable} {mappingId : Text}
    {files : List (Text × Object)} (sameId : mapping.id = mappingId) :
    Genuine (.evaluate mapping (some table) files)
      (.partitions [samplePartition table mappingId] 0) := by
  subst sameId
  refine ⟨table, rfl, ?_, fun unkeyed => ?_⟩
  · intro output member
    exact ⟨_, by rw [List.mem_singleton.mp member, samplePartition]⟩
  · rw [List.map_singleton, samplePartition, unkeyed, List.map_nil]

/-- A lake with one object of the source. -/
def soleLake (container : SourceContainer) : Store :=
  (∅ : Store).insert (container.pathPrefix ++ (container.format.extensions.headD [])) (.data [])

/-- The object of the sole lake is offered by the source. -/
theorem soleLake_offered (container : SourceContainer) :
    Offered (soleLake container) container
      (container.pathPrefix ++ container.format.extensions.headD []) := by
  refine ⟨List.prefix_append _ _, ?_, ?_⟩
  · rw [SourceContainer.accepts]
    cases container.format <;>
      exact List.any_eq_true.mpr ⟨_, List.mem_cons_self,
        List.isSuffixOf_iff_suffix.mpr (List.suffix_append _ _)⟩
  · rw [soleLake, AList.lookup_insert, Option.isSome_some]

/-- Only a touched table is published. -/
theorem publishTables_sole {permits : Buckets → Effect → Answer → Prop} {publishes : Publishes}
    {tableId : Text} {entry : TablePublish} (found : publishes.lookup tableId = some entry)
    (untouched : ∀ other, other ≠ tableId → ∀ state, publishes.lookup other = some state →
      state.touched = false) {before after : Buckets}
    (publishing : ∀ errors, ∃ errors',
      Ends permits (publishTable tableId entry errors) before errors'
      after)
    {order : List Text} (distinct : order.Nodup) (member : tableId ∈ order) (errors : List Text) :
    ∃ errors', Ends permits (publishTables publishes order errors) before errors' after := by
  have skipped : ∀ (rest : List Text) (buckets : Buckets) (errors : List Text), tableId ∉ rest →
      Ends permits (publishTables publishes rest errors) buckets errors buckets := by
    intro rest buckets errors absent
    induction rest with
    | nil => exact .done _ _
    | cons other rest inductionHypothesis =>
      obtain ⟨different, absentLater⟩ := not_or.mp (mt List.mem_cons.mpr absent)
      unfold publishTables
      split
      · exact inductionHypothesis absentLater
      · next state isState =>
        simp only [publishTable, untouched other (Ne.symm different) state isState,
          Bool.false_eq_true, ↓reduceIte]
        exact inductionHypothesis absentLater
  induction order generalizing errors with
  | nil => exact absurd member List.not_mem_nil
  | cons other rest inductionHypothesis =>
    obtain ⟨absent, restDistinct⟩ := List.nodup_cons.mp distinct
    by_cases here : other = tableId
    · subst here
      obtain ⟨errors', ends⟩ := publishing errors
      refine ⟨errors', ?_⟩
      simp only [publishTables, found]
      exact Program.ends_bind ends (skipped rest after errors' absent)
    · have later := (List.mem_cons.mp member).resolve_left (Ne.symm here)
      unfold publishTables
      split
      · exact inductionHypothesis restDistinct later errors
      · next state isState =>
        simp only [publishTable, untouched other here state isState, Bool.false_eq_true, ↓reduceIte]
        exact inductionHypothesis restDistinct later errors

section Sole

variable {permits : Buckets → Effect → Answer → Prop} (serves : Serves permits)
  {lake warehouse : Store}

include serves

/-- An effect that does not read the warehouse can be answered. -/
theorem Serves.given {buckets buckets' : Buckets} {effect : Effect} {reply : Reply effect}
    (given : Answer) (genuine : Genuine effect reply)
    (noGet : ∀ key, effect ≠ .getBytes .warehouse key)
    (noList : ∀ lead, effect ≠ .listKeys .warehouse lead) (succeeds : given.fails = false)
    (answered : answer buckets effect given = some (reply, buckets')) :
    Given permits buckets effect reply buckets' :=
  ⟨genuine, given, serves buckets effect given noGet noList succeeds, answered⟩

/-- The flag may be found unset. -/
theorem Serves.uncancelled (buckets : Buckets) :
    Given permits buckets .loadCancel false buckets :=
  serves.given (.flag false) trivial (by rintro _ ⟨⟩) (by rintro _ ⟨⟩) rfl rfl

/-- Reads of the lake are served. -/
theorem Serves.readsLake : ReadsLake (Given permits) ⟨lake, warehouse⟩ lake := by
  refine ⟨fun key body isBody => ?_, fun lead => ?_, fun dimension body => ?_, fun dimension => ?_⟩
  · refine serves.given .served trivial (by rintro _ ⟨⟩) (by rintro _ ⟨⟩) rfl ?_
    simp only [answer, Buckets.store, isBody, Option.map_some]
  · exact serves.given .served trivial (by rintro _ ⟨⟩) (by rintro _ ⟨⟩) rfl rfl
  · exact serves.given (.outcome (.ok ())) trivial (by rintro _ ⟨⟩) (by rintro _ ⟨⟩) rfl rfl
  · exact serves.given (.outcome (.ok ())) trivial (by rintro _ ⟨⟩) (by rintro _ ⟨⟩) rfl rfl

/-- All sources can be listed. -/
theorem Serves.lists (containers : List SourceContainer) (candidates : List Text) : ∃ found,
    Ends permits (listSources containers candidates) ⟨lake, warehouse⟩ found ⟨lake, warehouse⟩ ∧
      ∀ key, key ∈ found ↔ key ∈ candidates ∨ ∃ container ∈ containers,
        Offered lake container key := by
  induction containers generalizing candidates with
  | nil => exact ⟨candidates, .done _ _, fun key => by simp⟩
  | cons container rest inductionHypothesis =>
    obtain ⟨found, ends, members⟩ := inductionHypothesis
      (addCandidates container candidates (lake.listKeys container.pathPrefix))
    refine ⟨found, Program.ends_call (serves.readsLake.list _) ends, fun key => ?_⟩
    simp only [members, mem_addCandidates, List.mem_cons, exists_eq_or_imp, Store.mem_listKeys,
      Offered, or_assoc, and_assoc]
    tauto

/-- All stored candidates can be downloaded. -/
theorem Serves.downloads (candidates : List Text) (files : List (Text × Object))
    (present : ∀ key ∈ candidates, (lake.lookup key).isSome = true) : ∃ found,
    Ends permits (downloadAll candidates files) ⟨lake, warehouse⟩ (.ok found) ⟨lake, warehouse⟩ ∧
      (∀ file ∈ files, file ∈ found) ∧ ∀ key ∈ candidates, ∃ body, (key, body) ∈ found := by
  induction candidates generalizing files with
  | nil => exact ⟨files, .done _ _, fun _ => id,
      fun _ impossible => absurd impossible List.not_mem_nil⟩
  | cons key rest inductionHypothesis =>
    obtain ⟨body, isBody⟩ := Option.isSome_iff_exists.mp (present key List.mem_cons_self)
    obtain ⟨found, ends, kept, all⟩ := inductionHypothesis (files ++ [(key, body)])
      (fun other member => present other (List.mem_cons_of_mem _ member))
    refine ⟨found, Program.ends_call (serves.uncancelled _)
      (Program.ends_call (serves.readsLake.get key body isBody) ends),
      fun file member => kept file (List.mem_append_left _ member), fun other member => ?_⟩
    rcases List.mem_cons.mp member with rfl | member
    · exact ⟨body, kept _ (List.mem_append_right _ List.mem_cons_self)⟩
    · exact all other member

/-- Dimensions are loaded without change to the buckets. -/
theorem Serves.dimensions (dimensions : List Dimension) :
    Ends permits (loadDimensions dimensions) ⟨lake, warehouse⟩ (.ok ()) ⟨lake, warehouse⟩ :=
  Program.ends_call
    (serves.given (.outcome (.ok ())) trivial (by rintro _ ⟨⟩) (by rintro _ ⟨⟩) rfl rfl)
    (loadFileDimensions_ends serves.readsLake dimensions)

/-! ## The mappings -/

variable {config : PipelineConfig} {pipelinePrefix : Text} {files : List (Text × Object)}

/-- A mapping can be skipped, or fail in its evaluation. -/
theorem Serves.fails (mapping : Mapping) (rest : List Mapping) (progress : Progress)
    {before after : Buckets} {publishes : Publishes}
    (ends : ∀ errors, ∃ reached, reached.publishes = publishes ∧
      Ends permits (runMappings config pipelinePrefix files rest { progress with errors := errors })
        before (.ok reached) after) :
    ∃ reached, reached.publishes = publishes ∧
      Ends permits (runMappings config pipelinePrefix files (mapping :: rest) progress) before
        (.ok reached) after := by
  have failing : ∀ evaluated table handed,
      Given permits before (.evaluate evaluated table handed) (.failed []) before :=
    fun _ _ _ => serves.given (.evaluated (.failed [])) trivial (by rintro _ ⟨⟩)
      (by rintro _ ⟨⟩) rfl
      rfl
  simp only [runMappings, perform, Program.perform_bind]
  cases isSource : config.sourceOf mapping with
  | none =>
    obtain ⟨reached, same, ends⟩ := ends progress.errors
    exact ⟨reached, same, Program.ends_call (serves.uncancelled before) ends⟩
  | some container =>
    cases unfed : (filesUnder container files).isEmpty with
    | true =>
      obtain ⟨reached, same, ends⟩ := ends progress.errors
      refine ⟨reached, same, Program.ends_call (serves.uncancelled before) ?_⟩
      simp only [Bool.false_eq_true, ↓reduceIte, unfed]
      exact ends
    | false =>
      obtain ⟨reached, same, ends⟩ := ends (progress.errors ++ [[]])
      refine ⟨reached, same, Program.ends_call (serves.uncancelled before) ?_⟩
      simp only [Bool.false_eq_true, ↓reduceIte, unfed]
      exact Program.ends_call (failing _ _ _) ends

/-- All mappings can fail. -/
theorem Serves.allFail (mappings : List Mapping) (progress : Progress) (buckets : Buckets) :
    ∃ reached, reached.publishes = progress.publishes ∧
      Ends permits (runMappings config pipelinePrefix files mappings progress) buckets (.ok reached)
        buckets := by
  induction mappings generalizing progress with
  | nil => exact ⟨progress, rfl, .done _ _⟩
  | cons mapping rest inductionHypothesis =>
    exact serves.fails mapping rest progress (fun errors =>
      inductionHypothesis { progress with errors := errors })

/-- The publish state of the table after the one mapping that succeeds. -/
def soleState (entry : TablePublish) (table : AnalyticTable) (mappingId : Text) : TablePublish :=
  { entry with
    files := applyMappingWrites entry.files mappingId
      [recordedFile entry.version mappingId (samplePartition table mappingId)]
    touched := true }

/-- The warehouse after its upload. -/
def soleWarehouse (pipelinePrefix : Text) (version : Nat) (table : AnalyticTable) (mappingId : Text)
    (warehouse : Store) : Store :=
  warehouse.insert (uploadKey pipelinePrefix version (samplePartition table mappingId)) (.data [])

/-- The one partition can be uploaded. -/
theorem Serves.applies {mapping : Mapping} {table : AnalyticTable} {progress : Progress}
    {entry : TablePublish}
    (found : progress.publishes.lookup mapping.analyticTableId = some entry) :
    ∃ reached, reached.publishes = progress.publishes.insert mapping.analyticTableId
        (soleState entry table mapping.id) ∧
      Ends permits
        (applyMapping pipelinePrefix mapping [samplePartition table mapping.id] 0 progress)
        ⟨lake, warehouse⟩ reached
        ⟨lake, soleWarehouse pipelinePrefix entry.version table mapping.id warehouse⟩ := by
  obtain ⟨⟨tableId, path⟩, split⟩ := split_shaped table.id
    (table.partitionKeys.map (fun key => key ++ "=x".toList)) mapping.id
  have halves : keyHalves (samplePartition table mapping.id) = (tableId, path) := by
    rw [keyHalves, samplePartition, split, Option.getD_some]
  have isKey : uploadKey pipelinePrefix entry.version (samplePartition table mapping.id) =
      pipelinePrefix ++ tableId ++ '/' :: (versionPrefix entry.version ++ path) := by
    rw [uploadKey, halves]
  have isFile : recordedFile entry.version mapping.id (samplePartition table mapping.id) =
      ⟨versionPrefix entry.version ++ path, mapping.id, 0⟩ := by
    rw [recordedFile, halves]
    rfl
  have uploads : Ends permits (uploadPartitions pipelinePrefix entry.version mapping.id
      [samplePartition table mapping.id] []) ⟨lake, warehouse⟩
      (.ok [recordedFile entry.version mapping.id (samplePartition table mapping.id)])
      ⟨lake, soleWarehouse pipelinePrefix entry.version table mapping.id warehouse⟩ := by
    rw [soleWarehouse, isKey, isFile]
    simp only [uploadPartitions, samplePartition, split, perform, Program.perform_bind]
    exact Program.ends_call
      (serves.given .served trivial (by rintro _ ⟨⟩) (by rintro _ ⟨⟩) rfl rfl)
      (Program.ends_done _ _)
  refine ⟨{ progress with
    deduped := progress.deduped + 0
    partitions := progress.partitions + 1
    publishes := progress.publishes.insert mapping.analyticTableId
      (soleState entry table mapping.id) }, rfl, ?_⟩
  simp only [applyMapping, found]
  exact Program.ends_bind uploads (Program.ends_done _ _)

/-- One mapping with files can succeed while all others fail. -/
theorem Serves.maps {mappings : List Mapping} (distinct : (mappings.map Mapping.id).Nodup)
    {mapping : Mapping} (member : mapping ∈ mappings) {container : SourceContainer}
    (isSource : config.sourceOf mapping = some container)
    (fed : (filesUnder container files).isEmpty = false) {table : AnalyticTable}
    (isTable : config.tableOf mapping = some table) (progress : Progress) {entry : TablePublish}
    (found : progress.publishes.lookup mapping.analyticTableId = some entry) :
    ∃ reached, reached.publishes = progress.publishes.insert mapping.analyticTableId
        (soleState entry table mapping.id) ∧
      Ends permits (runMappings config pipelinePrefix files mappings progress) ⟨lake, warehouse⟩
        (.ok reached)
        ⟨lake, soleWarehouse pipelinePrefix entry.version table mapping.id warehouse⟩ := by
  induction mappings generalizing progress with
  | nil => exact absurd member List.not_mem_nil
  | cons first rest inductionHypothesis =>
    rcases List.mem_cons.mp member with rfl | later
    · obtain ⟨applied, same, applies⟩ : ∃ applied, applied.publishes = _ ∧ Ends permits
          (applyMapping pipelinePrefix mapping [samplePartition table mapping.id] 0 progress)
          ⟨lake, warehouse⟩ applied ⟨lake, _⟩ := serves.applies found
      obtain ⟨reached, same', ends⟩ := serves.allFail rest applied _
      refine ⟨reached, same'.trans same, ?_⟩
      have genuine : Genuine (.evaluate
          ((config.mappings.find? (fun other => other.id = mapping.id)).getD mapping)
          (config.tableOf mapping) (filesUnder container files))
          (.partitions [samplePartition table mapping.id] 0) := by
        rw [isTable]
        exact samplePartition_genuine (lookup_again config mapping)
      simp only [runMappings, perform, Program.perform_bind]
      refine Program.ends_call (serves.uncancelled _) ?_
      simp only [isSource, Bool.false_eq_true, ↓reduceIte, fed]
      exact Program.ends_call (serves.given (.evaluated _) genuine (by rintro _ ⟨⟩)
        (by rintro _ ⟨⟩) rfl rfl) (Program.ends_bind applies ends)
    · exact serves.fails first rest progress (fun errors => inductionHypothesis
        (List.nodup_cons.mp distinct).2 later { progress with errors := errors } found)

/-! ## The run -/

/-- A run in which the mapping alone succeeds, given how the tables are opened and how
its table is published. -/
theorem Serves.executes (distinct : (config.mappings.map Mapping.id).Nodup) {mapping : Mapping}
    (member : mapping ∈ config.mappings) {container : SourceContainer}
    (isSource : config.sourceOf mapping = some container) {table : AnalyticTable}
    (isTable : config.tableOf mapping = some table) {cleanRun : Bool} {opened : Publishes}
    (opens : Ends permits (openTables pipelinePrefix cleanRun config.analyticTables ∅)
      ⟨soleLake container, warehouse⟩ (.ok opened) ⟨soleLake container, warehouse⟩)
    (untouched : ∀ other state, opened.lookup other = some state → state.touched = false)
    {entry : TablePublish} (found : opened.lookup mapping.analyticTableId = some entry)
    {after : Buckets}
    (publishes : ∀ errors, ∃ errors', Ends permits (publishTable mapping.analyticTableId
      (soleState entry table mapping.id) errors)
      ⟨soleLake container, soleWarehouse pipelinePrefix entry.version table mapping.id warehouse⟩
      errors' after) :
    ∃ outcome, Ends permits (executeJob (.ok config) pipelinePrefix cleanRun)
      ⟨soleLake container, warehouse⟩ (.ok outcome) after := by
  obtain ⟨candidates, lists, listed⟩ : ∃ candidates, Ends permits
      (listSources config.sourceContainers []) ⟨soleLake container, warehouse⟩ candidates
      ⟨soleLake container, warehouse⟩ ∧ _ := serves.lists config.sourceContainers []
  have present : ∀ key ∈ candidates, ((soleLake container).lookup key).isSome = true := by
    intro key isCandidate
    rcases (listed key).mp isCandidate with impossible | ⟨_, _, _, _, stored⟩
    · exact absurd impossible List.not_mem_nil
    · exact stored
  obtain ⟨files, downloads, _, all⟩ : ∃ files, Ends permits (downloadAll candidates [])
      ⟨soleLake container, warehouse⟩ (.ok files) ⟨soleLake container, warehouse⟩ ∧ _ :=
    serves.downloads candidates [] present
  have declared : container ∈ config.sourceContainers := List.mem_of_find?_eq_some isSource
  obtain ⟨body, isFile⟩ := all _ ((listed _).mpr (Or.inr ⟨container, declared,
    soleLake_offered container⟩))
  have fed : (filesUnder container files).isEmpty = false :=
    List.isEmpty_eq_false_iff_exists_mem.mpr ⟨_, List.mem_filter.mpr
      ⟨isFile, List.isPrefixOf_iff_prefix.mpr (List.prefix_append _ _)⟩⟩
  have notEmpty : files.isEmpty = false := List.isEmpty_eq_false_iff_exists_mem.mpr ⟨_, isFile⟩
  obtain ⟨reached, same, maps⟩ : ∃ reached, reached.publishes = _ ∧ Ends permits
      (runMappings config pipelinePrefix files config.mappings ⟨opened, 0, 0, []⟩)
      ⟨soleLake container, warehouse⟩ (.ok reached) ⟨soleLake container, _⟩ :=
    serves.maps distinct member isSource fed isTable ⟨opened, 0, 0, []⟩ found
  have foundLater : reached.publishes.lookup mapping.analyticTableId =
      some (soleState entry table mapping.id) := by rw [same, AList.lookup_insert]
  obtain ⟨errors', publishing⟩ := publishTables_sole foundLater
    (fun other different state isState => by
      rw [same, AList.lookup_insert_ne different] at isState
      exact untouched other state isState)
    publishes reached.publishes.keys_nodup
    (AList.mem_keys.mp (AList.lookup_isSome.mp (by rw [foundLater, Option.isSome_some])))
    reached.errors
  refine ⟨⟨reached.partitions, files.length, reached.deduped, errors'⟩, ?_⟩
  refine .bind opens (.bind lists (.bind downloads ?_))
  simp only [notEmpty, Bool.false_eq_true, ↓reduceIte]
  refine .bind (serves.dimensions _) (.bind maps ?_)
  simp only [perform, Program.perform_bind]
  exact Program.ends_call (serves.given (.order _) (List.Perm.refl _) (by rintro _ ⟨⟩)
    (by rintro _ ⟨⟩) rfl rfl) (Program.ends_bind publishing (Program.ends_done _ _))

end Sole

end KaretWorker
