import KaretWorker.ConfigDocument
import KaretWorker.FileUnion
import KaretWorker.PublishedRows

/-!
# The task of one mapping

The closure that `execute_job` of `src/job.rs` runs on the blocking pool: ingest the files of
a mapping, collect their stack, look the table up, check its assertions, drop duplicates and
partition what is left. The first step that fails ends the task with a message that names the
step and the mapping; nothing is written then.

No row is lost on the way: the rows of the files that were ingested are those of the outputs,
with the key cells put back, and the duplicates that were counted. The reply is one that the
executor of `Job` expects of the mapping (`mapping_task_rows`).
-/
namespace KaretWorker

open Texts Frames

/-! ## Messages -/

/-- Texts of the data frame library's errors, and of a list of names as it is printed. -/
structure Messages where
  fault : Fault Text → Text
  names : List Text → Text

/-- The messages of `EvalError`. -/
def EvalError.message : EvalError → Text
  | .unknownDimension id => "unknown dimension `".toList ++ id ++ "`".toList
  | .unknownDimensionValue id value =>
    "dimension `".toList ++ id ++ "` has no value column `".toList ++ value ++ "`".toList

/-- The messages of `PipelineError`, as `#[error]` gives them. -/
def PipelineError.message (messages : Messages) : PipelineError → Text
  | .jsonRead key message => "JSON read failed for `".toList ++ key ++ "`: ".toList ++ message
  | .unknownSourceContainer key => "unknown source container for key `".toList ++ key ++ "`".toList
  | .missingColumns key missing =>
    "CSV `".toList ++ key ++ "` missing required columns: ".toList ++ messages.names missing
  | .eval key source => "evaluator error for key `".toList ++ key ++ "`: ".toList ++ source.message
  | .polars key source => "polars error for key `".toList ++ key ++ "`: ".toList ++ messages.fault source
  | .noFilesSucceeded => "no files succeeded during ingestion".toList
  | .partition message => "partitioning failed: ".toList ++ message

/-- A violation as it stands in the list of them. -/
def AssertionViolation.shown (violation : AssertionViolation) : Text :=
  "column `".toList ++ violation.column ++ "` ".toList ++ violation.kind ++ ": ".toList ++ violation.message

/-- A failure of a step of the task. -/
def stepFailed (step mappingId message : Text) : Text :=
  step ++ ' ' :: mappingId ++ ": ".toList ++ message

/-! ## The task -/

section Task

variable (polars : Polars) (readJsonSource : SourceContainer → List UInt8 → Except Text TypedFrame)
  (registry : Registry) (cast : FloatCast) (series : TypedFrame → SeriesFrame) (messages : Messages)

/-- The table with the id, as it is declared. -/
def Document.PipelineConfig.tableWith (config : Document.PipelineConfig) (tableId : Text) :
    Option Document.AnalyticTable :=
  config.analyticTables.find? (fun table => table.id = tableId)

/-- The columns of a table with their assertions. -/
def Document.AnalyticTable.asserted (table : Document.AnalyticTable) : List AssertedColumn :=
  table.schema.map Document.Column.toAssertedColumn

/-- Drop duplicates from a frame and partition it. -/
def writeFrame (mapping : Mapping) (table : AnalyticTable) (whole : TypedFrame) :
    Except Text (List PartitionOutput × Nat) := do
  let deduped ← (dedupRows whole.frame table).mapError (fun error =>
    stepFailed "dedup".toList mapping.id (error.message messages))
  let outputs ← (producePartitions (polars.engine whole.schema) deduped.1 mapping table).mapError (fun error =>
    stepFailed "partition".toList mapping.id (error.message messages))
  pure (outputs, deduped.2)

/-- Check a collected frame against its table, and write it. -/
def checkAndWrite (config : Document.PipelineConfig) (mapping : Mapping) (tableId : Text)
    (whole : TypedFrame) : Except Text (List PartitionOutput × Nat) :=
  match config.tableWith tableId with
  | none => .error ("table ".toList ++ tableId ++ " not found".toList)
  | some table =>
    let violations := validateAssertions cast (series whole) table.asserted
    if violations.isEmpty then writeFrame polars messages mapping table.read whole
    else .error ("; ".toList.intercalate (violations.map (fun violation =>
      stepFailed "assertion".toList mapping.id violation.shown)))

/-- The task of one mapping: its outputs and the number of rows that were dropped. -/
def mappingTask (config : Document.PipelineConfig) (mapping : Mapping) (tableId : Text)
    (files : List (Text × List UInt8)) : Except Text (List PartitionOutput × Nat) := do
  let union ← (ingestMany polars readJsonSource registry config.read mapping files).mapError (fun error =>
    stepFailed "ingest".toList mapping.id (error.message messages))
  let whole ← (polars.collect union).mapError (fun error =>
    stepFailed "collect".toList mapping.id (messages.fault (.compute error)))
  checkAndWrite polars cast series messages config mapping tableId whole

/-- What the executor is handed. -/
def taskReply : Except Text (List PartitionOutput × Nat) → Evaluation
  | .ok (outputs, dropped) => .partitions outputs dropped
  | .error message => .failed message

end Task

/-! ## What a task that ends well has done -/

/-- Two cells can be in one column. -/
def Alike : Cell → Cell → Prop
  | .null, _ => True
  | _, .null => True
  | .other _, .other _ => True
  | cell, cell' => SameKind cell cell'

/-- The cells of each column are of one type, nulls apart. -/
def Uniform (frame : DataFrame) : Prop :=
  ∀ row ∈ frame.rows, ∀ row' ∈ frame.rows, List.Forall₂ Alike row row'

/-- What is relied on for the frame of a table: dates are dates, its columns are typed, and what
is written of it is read back. -/
structure Reliable (engine : Engine) (read : List UInt8 → Option DataFrame) (frame : DataFrame)
    (table : AnalyticTable) : Prop where
  calendar : CalendarDates engine
  uniform : Uniform frame
  readsBack : ∀ deduped dropped, dedupRows frame table = .ok (deduped, dropped) → ∀ tuple bytes,
    engine.writeParquet (deduped.part table.partitionKeys tuple) = .ok bytes →
      read bytes = some (deduped.part table.partitionKeys tuple)

/-- The rows of outputs are those of a frame: each output has a tuple of key cells that its path
shows, and the rows of all outputs, with these put back, are the frame's. -/
structure HoldsRows (engine : Engine) (read : List UInt8 → Option DataFrame) (mapping : Mapping)
    (table : AnalyticTable) (frame : DataFrame) (outputs : List PartitionOutput)
    (tuples : List (List Cell)) : Prop where
  distinct : tuples.Nodup
  keys : (outputs.map PartitionOutput.key).Nodup
  parts : List.Forall₂ (fun tuple (output : PartitionOutput) =>
    splitPath mapping table output.key = some (tuple.map (cellText engine)) ∧
      read output.bytes = some (frame.part table.partitionKeys tuple)) tuples outputs
  rows : (tuples.flatMap (fun tuple => (frame.part table.partitionKeys tuple).rows.map
      (fun kept => tuple ++ kept))).Perm
    (frame.rows.map (restored id frame.names table.partitionKeys))

/-- What the task keeps of stacked frames: some of their rows in order, one for each dedup key
if there are any, all others counted. -/
structure KeepsRows (table : AnalyticTable) (frames : List TypedFrame) (whole deduped : DataFrame)
    (dropped : Nat) : Prop where
  rows : whole.rows = frames.flatMap (fun part => part.frame.rows)
  kept : deduped.rows.Sublist whole.rows
  covers : ∀ row ∈ whole.rows, ∃ row' ∈ deduped.rows,
    cells whole.names table.dedupKeys row' = cells whole.names table.dedupKeys row
  distinct : table.dedupKeys ≠ [] → (deduped.rows.map (cells whole.names table.dedupKeys)).Nodup
  counted : deduped.rows.length + dropped = (frames.map (fun part => part.frame.rows.length)).sum

section Rows

variable {engine : Engine} {read : List UInt8 → Option DataFrame} {frame deduped : DataFrame}
  {mapping : Mapping} {table : AnalyticTable} {outputs : List PartitionOutput} {dropped : Nat}

/-- Rows are dropped only for a kept row of the same dedup key, of which there is one. -/
theorem dedupRows_kept (dedups : dedupRows frame table = .ok (deduped, dropped)) :
    deduped.names = frame.names ∧ deduped.rows.Sublist frame.rows ∧
      (∀ row ∈ frame.rows, ∃ row' ∈ deduped.rows,
        cells frame.names table.dedupKeys row' = cells frame.names table.dedupKeys row) ∧
      (table.dedupKeys ≠ [] → (deduped.rows.map (cells frame.names table.dedupKeys)).Nodup) ∧
      deduped.rows.length + dropped = frame.rows.length := by
  unfold dedupRows at dedups
  split at dedups
  · next unkeyed =>
    obtain ⟨rfl, rfl⟩ := Prod.mk.inj (Except.ok.inj dedups)
    exact ⟨rfl, List.Sublist.refl _, fun row isRow => ⟨row, isRow, rfl⟩,
      fun keyed => absurd (List.isEmpty_iff.mp unkeyed) keyed, rfl⟩
  · split at dedups
    · cases dedups
    · next kept keeps =>
      obtain ⟨rfl, rfl⟩ := Prod.mk.inj (Except.ok.inj dedups)
      unfold Frame.uniqueStable at keeps
      split at keeps
      · cases keeps
      · obtain rfl := Except.ok.inj keeps
        have sublist := keepFirst_sublist (cells frame.names table.dedupKeys) [] frame.rows
        refine ⟨rfl, sublist, fun row isRow => ?_, fun _ => (keepFirst_distinct _ _ _).1,
          Nat.add_sub_cancel' sublist.length_le⟩
        have covered := (keepFirst_covers (cells frame.names table.dedupKeys) [] isRow).resolve_left
          List.not_mem_nil
        obtain ⟨row', isKept, same⟩ := List.mem_map.mp covered
        exact ⟨row', isKept, same⟩

/-- Cells that can be in one column and are supported are of one kind. -/
theorem Alike.sameKind {cell cell' : Cell} (alike : Alike cell cell')
    (supported : Supported engine cell)
    (supported' : Supported engine cell') : SameKind cell cell' := by
  cases cell with
  | null | other => exact absurd supported id
  | int | bool | date | string =>
    cases cell' with
    | null | other => exact absurd supported' id
    | int | bool | date | string => exact alike

/-- The key columns of a uniform frame are typed, if their cells are supported. -/
theorem Uniform.typed {keys : List Text} (uniform : Uniform frame)
    (supported : AllSupported engine frame keys) : Typed frame keys := by
  intro row isRow row' isRow'
  have alike : List.Forall₂ Alike (tupleOf frame.names keys row) (tupleOf frame.names keys row') :=
    tupleOf_related (uniform row isRow row' isRow')
  have supported' := supported row' isRow'
  have supported := supported row isRow
  revert supported supported'
  generalize tupleOf frame.names keys row = tuple at alike ⊢
  generalize tupleOf frame.names keys row' = tuple' at alike ⊢
  induction alike with
  | nil => exact fun _ _ => .nil
  | cons related _ inductionHypothesis =>
    intro supported' supported
    rw [List.forall_mem_cons] at supported supported'
    exact .cons (related.sameKind supported.1 supported'.1)
      (inductionHypothesis supported'.2 supported.2)

/-- A frame with fewer rows is uniform as well. -/
theorem Uniform.mono (uniform : Uniform frame) (among : deduped.rows ⊆ frame.rows) :
    Uniform deduped :=
  fun row isRow row' isRow' => uniform row (among isRow) row' (among isRow')

/-- The output of a group has the tuple in its path, and holds the rows of the tuple. -/
theorem groupOutput_holds (calendar : CalendarDates engine)
    (declared : ∀ key ∈ table.partitionKeys, key ∈ frame.names) {tuple : List Cell}
    {group : DataFrame} (isGroup : IsGroup frame table.partitionKeys tuple group)
    (width : tuple.length = table.partitionKeys.length)
    (readsBack : ∀ bytes, engine.writeParquet (frame.part table.partitionKeys tuple) = .ok bytes →
      read bytes = some (frame.part table.partitionKeys tuple))
    {output : PartitionOutput} (produced : groupOutput engine mapping table group = .ok output) :
    splitPath mapping table output.key = some (tuple.map (cellText engine)) ∧
      read output.bytes = some (frame.part table.partitionKeys tuple) := by
  rw [groupOutput, groupSegments_group declared isGroup, isGroup.part] at produced
  cases named : tupleSegments engine table.partitionKeys tuple with
  | error error =>
    rw [named] at produced
    cases produced
  | ok segments =>
    cases written : engine.writeParquet (frame.part table.partitionKeys tuple) with
    | error message =>
      rw [named, parquetBytes, written] at produced
      cases produced
    | ok bytes =>
      rw [named, parquetBytes, written] at produced
      obtain rfl := Except.ok.inj produced
      exact ⟨splitPath_partitionKey calendar mapping width named, readsBack bytes written⟩

/-- Outputs hold the rows of the frame that is partitioned. -/
theorem producePartitions_holds (calendar : CalendarDates engine) (uniform : Uniform frame)
    (readsBack : ∀ tuple bytes, engine.writeParquet (frame.part table.partitionKeys tuple) =
      .ok bytes →
      read bytes = some (frame.part table.partitionKeys tuple))
    (produces : producePartitions engine frame mapping table = .ok outputs) :
    ∃ tuples, HoldsRows engine read mapping table frame outputs tuples := by
  have declared := declared_of_produced produces
  by_cases unkeyed : table.partitionKeys = []
  · cases written : engine.writeParquet frame with
    | error message =>
      rw [producePartitions, if_pos (List.isEmpty_iff.mpr unkeyed), parquetBytes,
        written] at produces
      cases produces
    | ok bytes =>
      have single : producePartitions engine frame mapping table =
          .ok [⟨partitionKey table.id [] mapping.id, bytes⟩] :=
            producePartitions_unkeyed unkeyed written
      obtain rfl := Except.ok.inj (single.symm.trans produces)
      have path := splitPath_partitionKey calendar mapping
        (show [].length = table.partitionKeys.length by rw [unkeyed]; rfl)
        (show tupleSegments engine table.partitionKeys [] = .ok [] by rw [unkeyed]; rfl)
      have whole : frame.part table.partitionKeys [] = frame := by
        rw [unkeyed, part_nil]
      have readBack : read bytes = some (frame.part table.partitionKeys []) :=
        readsBack [] bytes (by rw [whole, written])
      refine ⟨[[]], List.nodup_singleton _, List.nodup_singleton _, .cons ⟨path, readBack⟩ .nil, ?_⟩
      exact parts_perm (List.nodup_singleton _) (fun row _ => by
        rw [unkeyed]
        exact List.mem_singleton_self _)
  · have supported : AllSupported engine frame table.partitionKeys := by
      by_contra unsupported
      obtain ⟨error, failed⟩ : ∃ error,
        producePartitions engine frame mapping table = .error error :=
        producePartitions_error declared unsupported
      cases failed.symm.trans produces
    obtain ⟨groups, tuples, parted, distinct, complete, areGroups⟩ :=
      partitionByStable_tuples declared
    have noNull : checkNulls frame table.partitionKeys = .ok () :=
      checkNulls_ok declared (fun row isRow isNull => supported row isRow _ isNull)
    rw [producePartitions_keyed unkeyed, noNull, parted] at produces
    have parts : List.Forall₂ (fun tuple (output : PartitionOutput) =>
        splitPath mapping table output.key = some (tuple.map (cellText engine)) ∧
          read output.bytes = some (frame.part table.partitionKeys tuple)) tuples outputs := by
      have areOutputs := Results.mapM_ok_iff.mp produces
      have widths : ∀ tuple ∈ tuples, tuple.length = table.partitionKeys.length :=
        fun tuple member => tuple_width declared ((complete tuple).mp member)
      clear parted distinct complete produces
      induction areGroups generalizing outputs with
      | nil =>
        cases areOutputs
        exact .nil
      | cons isGroup _ inductionHypothesis =>
        rw [List.forall_mem_cons] at widths
        cases areOutputs with
        | cons isOutput others =>
          exact .cons (groupOutput_holds calendar declared isGroup widths.1 (readsBack _) isOutput)
            (inductionHypothesis others widths.2)
    have texts := texts_injective calendar (uniform.typed supported) supported complete
    exact ⟨tuples, distinct, keys_nodup distinct texts (parts.imp (fun _ _ both => both.1)), parts,
      parts_perm distinct (fun row isRow => (complete _).mpr ⟨row, isRow, rfl⟩)⟩

end Rows

section Task

variable {polars : Polars} {readJsonSource : SourceContainer → List UInt8 → Except Text TypedFrame}
  {registry : Registry} {cast : FloatCast} {series : TypedFrame → SeriesFrame} {messages : Messages}
  {config : Document.PipelineConfig} {mapping : Mapping} {tableId : Text}
  {files : List (Text × List UInt8)} {outputs : List PartitionOutput} {dropped : Nat}

/-- The frames of one mapping that can be collected are stacked. -/
theorem stacks_of_collected {union : polars.Lazy} {whole : TypedFrame}
    (ingested : ingestMany polars readJsonSource registry config.read mapping files = .ok union)
    (collected : polars.collect union = .ok whole) :
    Stacks (ingestedFrames polars readJsonSource registry config.read mapping files) whole := by
  have collects : ingestAndCollect polars readJsonSource registry config.read mapping files =
    some whole := by
    rw [ingestAndCollect, ingested]
    simp only [collected, Except.toOption]
  have noClash : ∀ left ∈ ingestedFrames polars readJsonSource registry config.read mapping files,
      ∀ right ∈ ingestedFrames polars readJsonSource registry config.read mapping files,
        ¬ Clash left right := by
    intro left isLeft right isRight clash
    have nothing := ingestAndCollect_clash ⟨left, isLeft, right, isRight, clash⟩
    cases collects.symm.trans nothing
  have sameSchema : ∀ left ∈ ingestedFrames polars readJsonSource registry config.read
    mapping files,
      ∀ right ∈ ingestedFrames polars readJsonSource registry config.read mapping files,
        left.schema = right.schema := by
    intro left isLeft right isRight
    obtain ⟨_, _, ofFile⟩ := mem_ingestedFrames.mp isLeft
    obtain ⟨_, _, ofOther⟩ := mem_ingestedFrames.mp isRight
    obtain ⟨exprs, projected, compiled, _, isTyped⟩ := ingestFile_schema ofFile
    obtain ⟨_, otherProjected, alsoCompiled, _, isAlsoTyped⟩ := ingestFile_schema ofOther
    obtain rfl := Except.ok.inj (compiled.symm.trans alsoCompiled)
    rw [isTyped, isAlsoTyped]
    refine List.map_congr_left (fun named member => ?_)
    by_contra different
    refine noClash left isLeft right isRight ⟨named.1, polars.typeOf projected.schema named.2,
      polars.typeOf otherProjected.schema named.2, ?_, ?_, fun same => different (by rw [same])⟩
    · rw [isTyped]
      exact List.mem_map.mpr ⟨named, member, rfl⟩
    · rw [isAlsoTyped]
      exact List.mem_map.mpr ⟨named, member, rfl⟩
  rw [ingestMany] at ingested
  split at ingested
  · cases ingested
  · next present =>
    obtain ⟨union', whole', unites, collects', isStack⟩ :=
      polars.stacked _ (by simpa using present) sameSchema
    rw [unites] at ingested
    obtain rfl := Except.ok.inj ingested
    obtain rfl := Except.ok.inj (collects'.symm.trans collected)
    exact isStack

/-- The steps of a task that ends well. -/
theorem mappingTask_steps
    (done : mappingTask polars readJsonSource registry cast series messages config mapping
      tableId files =
      .ok (outputs, dropped)) :
    ∃ union whole table deduped,
      ingestMany polars readJsonSource registry config.read mapping files = .ok union ∧
      polars.collect union = .ok whole ∧ config.tableWith tableId = some table ∧
      validateAssertions cast (series whole) table.asserted = [] ∧
      dedupRows whole.frame table.read = .ok (deduped, dropped) ∧
      producePartitions (polars.engine whole.schema) deduped mapping table.read = .ok outputs := by
  rw [mappingTask] at done
  cases ingested : ingestMany polars readJsonSource registry config.read mapping files with
  | error error =>
    rw [ingested] at done
    cases done
  | ok union =>
  cases collected : polars.collect union with
  | error error =>
    rw [ingested] at done
    simp only [Except.mapError, bind, Except.bind, collected] at done
    cases done
  | ok whole =>
  rw [ingested] at done
  simp only [Except.mapError, bind, Except.bind, collected, checkAndWrite] at done
  split at done
  · cases done
  next table declared =>
  split at done
  next passed =>
    rw [writeFrame] at done
    cases dedups : dedupRows whole.frame table.read with
    | error error =>
      rw [dedups] at done
      cases done
    | ok deduped =>
    cases produces : producePartitions (polars.engine whole.schema) deduped.1 mapping
      table.read with
    | error error =>
      rw [dedups] at done
      simp only [Except.mapError, bind, Except.bind, produces] at done
      cases done
    | ok parts =>
      rw [dedups] at done
      simp only [Except.mapError, bind, Except.bind, produces] at done
      obtain ⟨rfl, rfl⟩ := Prod.mk.inj (Except.ok.inj done)
      exact ⟨union, whole, table, deduped.1, rfl, collected, declared,
        List.isEmpty_iff.mp passed, dedups,
        produces⟩
  · cases done

/-- What a task ends with is what the executor expects of an evaluated mapping. -/
theorem taskReply_genuine {target : Mapping} (isTarget : target.analyticTableId = tableId)
    (objects : List (Text × Object)) :
    Genuine (.evaluate mapping (config.read.tableOf target) objects)
      (taskReply (mappingTask polars readJsonSource registry cast series messages config
        mapping tableId
        files)) := by
  cases done : mappingTask polars readJsonSource registry cast series messages config mapping
    tableId files with
  | error message => trivial
  | ok written =>
    obtain ⟨_, _, table, _, _, _, declared, _, _, produces⟩ := mappingTask_steps done
    have isTable : config.read.tableOf target = some table.read := by
      rw [PipelineConfig.tableOf, isTarget]
      simp only [Document.PipelineConfig.read, List.find?_map]
      exact congrArg (Option.map Document.AnalyticTable.read) declared
    rw [isTable]
    exact producePartitions_genuine produces

/-- The rows of a task that ends well: those of the files that were ingested pass the assertions
of the table, all but the counted duplicates are kept, and what is kept is what the outputs
hold. The outputs are those that an executor expects of the mapping. -/
theorem mapping_task_rows (read : List UInt8 → Option DataFrame)
    (reliable : ∀ whole table, config.tableWith tableId = some table →
      ingestAndCollect polars readJsonSource registry config.read mapping files = some whole →
        Reliable (polars.engine whole.schema) read whole.frame table.read)
    (done : mappingTask polars readJsonSource registry cast series messages config mapping tableId files =
      .ok (outputs, dropped)) :
    (∃ whole table deduped tuples, config.tableWith tableId = some table ∧
      validateAssertions cast (series whole) table.asserted = [] ∧
      KeepsRows table.read (ingestedFrames polars readJsonSource registry config.read mapping files)
        whole.frame deduped dropped ∧
      HoldsRows (polars.engine whole.schema) read mapping table.read deduped outputs tuples) ∧
    ∀ target : Mapping, target.analyticTableId = tableId → ∀ objects,
      Genuine (.evaluate mapping (config.read.tableOf target) objects) (.partitions outputs dropped) := by
  constructor
  · obtain ⟨union, whole, table, deduped, ingested, collected, declared, passed, dedups,
      produces⟩ :=
      mappingTask_steps done
    have collects : ingestAndCollect polars readJsonSource registry config.read mapping files =
      some whole := by
      rw [ingestAndCollect, ingested]
      simp only [collected, Except.toOption]
    have relied := reliable whole table declared collects
    obtain ⟨_, kept, covers, distinct, counted⟩ := dedupRows_kept dedups
    have isStack := stacks_of_collected ingested collected
    obtain ⟨tuples, holds⟩ :=
      producePartitions_holds relied.calendar (relied.uniform.mono kept.subset)
      (relied.readsBack deduped dropped dedups) produces
    refine ⟨whole, table, deduped, tuples, declared, passed,
      ⟨isStack.rows, kept, covers, distinct, ?_⟩, holds⟩
    rw [counted, isStack.rows, List.length_flatMap]
  · intro target isTarget objects
    have genuine : Genuine (.evaluate mapping (config.read.tableOf target) objects)
        (taskReply (mappingTask polars readJsonSource registry cast series messages config
          mapping tableId
          files)) := taskReply_genuine isTarget objects
    rw [done] at genuine
    exact genuine

end Task

/-! ## Two equal files -/

/-- The integers of a column. -/
def integerDatum : Cell → Datum
  | .int value => if fits : value.natAbs < 2 ^ 64 then .integer value fits else .null
  | _ => .null

/-- The cell of an integer column is an integer or null. -/
theorem integerDatum_typed (cell : Cell) : (integerDatum cell).HasType .integers := by
  unfold integerDatum
  split
  · split <;> trivial
  · trivial

/-- A frame of integers as its columns. -/
def integerSeries (whole : TypedFrame) : SeriesFrame :=
  ⟨whole.frame.names.map (fun name => (name, ⟨.integers,
    (whole.frame.rows.map (fun row => row[whole.frame.names.idxOf name]?.getD .null)).map integerDatum, by
      intro datum member
      obtain ⟨cell, _, rfl⟩ := List.mem_map.mp member
      exact integerDatum_typed cell⟩))⟩

/-- A file of three rows, each with a letter or two and a number. -/
def letterFile : List UInt8 :=
  [97, 44, 118, 10, 120, 47, 121, 44, 49, 10, 122, 44, 50, 10, 120, 47, 121, 44, 51, 10]

/-- Letters with numbers, typed. -/
def letterRows : TypedFrame := ⟨letterFrame, [("a".toList, .string), ("v".toList, .int64)], rfl⟩

/-- A library that reads this file and writes small integers. -/
def letterPolars : Polars :=
  { columnPolars with
    readCsv := fun bytes => if bytes = letterFile then .ok letterRows else .error "unread".toList
    engine := fun _ => { columnEngine with writeParquet := byteEngine.writeParquet } }

/-- Both columns are mapped. -/
def letterMapping : Mapping :=
  ⟨"m".toList, "s".toList, "t".toList, [⟨"a".toList, .col "a".toList⟩, ⟨"v".toList, .col "v".toList⟩], none⟩

/-- A table in partitions by the letter, whose numbers have to be there, without duplicates. -/
def letterDocument : Document.PipelineConfig where
  version := 1
  sourceContainers := [⟨"s".toList, "S".toList, "in/".toList, .csv,
    [⟨⟨⟨"a".toList, none, "string".toList⟩, none⟩, none⟩, ⟨⟨⟨"v".toList, none, "int64".toList⟩, none⟩, none⟩], none⟩]
  dimensions := []
  mappings := [⟨letterMapping, []⟩]
  analyticTables := [⟨"t".toList, "T".toList, [⟨⟨⟨"a".toList, none, "string".toList⟩, none⟩, none⟩,
    ⟨⟨⟨"v".toList, none, "int64".toList⟩, some ⟨some true, none, none⟩⟩, none⟩],
    ["a".toList], ["a".toList, "v".toList]⟩]
  layout := ∅

/-- Two files of the same bytes. -/
def equalFiles : List (Text × List UInt8) :=
  [("in/1.csv".toList, letterFile), ("in/2.csv".toList, letterFile)]

/-- Messages without text of the engine. -/
def plainMessages : Messages := ⟨fun _ => [], fun _ => []⟩

/-- Their rows. -/
def equalRows : TypedFrame :=
  ⟨⟨["a".toList, "v".toList], letterFrame.rows ++ letterFrame.rows, letterFrame.distinct,
    List.forall_mem_append.mpr ⟨letterFrame.even, letterFrame.even⟩⟩,
    [("a".toList, .string), ("v".toList, .int64)], rfl⟩

/-- The rows of `x/y`, and that of `z`. -/
def letterOutputs : List PartitionOutput :=
  [⟨partitionKey "t".toList ["a=x%2Fy".toList] "m".toList, [1, 3]⟩,
    ⟨partitionKey "t".toList ["a=z".toList] "m".toList, [2]⟩]

/-- Three rows of the six are kept, in two partitions. -/
theorem mapping_task_rows_two : (∃ whole table deduped tuples,
    letterDocument.tableWith "t".toList = some table ∧
      validateAssertions unreadCast (integerSeries whole) table.asserted = [] ∧
      KeepsRows table.read (ingestedFrames letterPolars (fun _ _ => .error []) ∅ letterDocument.read
        letterMapping equalFiles) whole.frame deduped 3 ∧
      HoldsRows (letterPolars.engine whole.schema) readBytes letterMapping table.read deduped
        letterOutputs tuples) ∧
    Genuine (.evaluate letterMapping (letterDocument.read.tableOf letterMapping) [])
      (.partitions letterOutputs 3) := by
  have done : mappingTask letterPolars (fun _ _ => .error []) ∅ unreadCast integerSeries
    plainMessages
      letterDocument letterMapping "t".toList equalFiles = .ok (letterOutputs, 3) := by rfl
  have collects : ingestAndCollect letterPolars (fun _ _ => .error []) ∅ letterDocument.read
      letterMapping equalFiles = some equalRows := by rfl
  have pairs : ∀ row ∈ equalRows.frame.rows, ∃ text value, row = [.string text, .int value] := by
    refine List.forall_mem_append.mpr ⟨?_, ?_⟩ <;>
      exact List.forall_mem_cons.mpr ⟨⟨_, _, rfl⟩, List.forall_mem_cons.mpr ⟨⟨_, _, rfl⟩,
        List.forall_mem_cons.mpr ⟨⟨_, _, rfl⟩, List.forall_mem_nil _⟩⟩⟩
  refine (mapping_task_rows readBytes ?_ done).imp_right
    (fun genuine => genuine letterMapping rfl [])
  intro whole table declared collected
  obtain rfl := Option.some.inj declared
  obtain rfl := Option.some.inj (collects.symm.trans collected)
  refine ⟨⟨fun _ => none, fun _ _ _ impossible => (nomatch impossible), fun _ => rfl⟩, ?_, ?_⟩
  · intro row isRow row' isRow'
    obtain ⟨text, value, rfl⟩ := pairs row isRow
    obtain ⟨text', value', rfl⟩ := pairs row' isRow'
    exact .cons trivial (.cons trivial .nil)
  · intro deduped dropped' dedups tuple bytes written
    obtain ⟨names, kept, _⟩ := dedupRows_kept dedups
    have columns : (deduped.dropMany ["a".toList]).names = ["v".toList] := by
      simp only [Frame.dropMany, names]
      decide +kernel
    have small : ∀ row ∈ deduped.rows,
      byteRow (rowByte (keptCells deduped.names ["a".toList] row)) =
        keptCells deduped.names ["a".toList] row := by
      have all : ∀ row ∈ equalRows.frame.rows,
        byteRow (rowByte (keptCells equalRows.frame.names ["a".toList] row)) =
          keptCells equalRows.frame.names ["a".toList] row := by decide +kernel
      rw [names]
      exact fun row isRow => all row (kept.subset isRow)
    obtain ⟨bytes', isWritten, readsBack⟩ := byteEngine_writes columns small tuple
    rw [← Except.ok.inj (written.symm.trans isWritten)] at readsBack
    exact readsBack

end KaretWorker
