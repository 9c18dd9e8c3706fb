import KaretWorker.CleanRun
import KaretWorker.DraftRuns
import KaretWorker.Partitions

/-!
# Rows of a published table

`dedup_rows` of `src/pipeline.rs` leaves one row for each tuple of the dedup keys in a mapping's
frame, before the frame is split by the partition keys and written. A reader of the table sees
the rows of all files that the published manifest lists, with the partition keys put back from
each path.

Over any sequence of runs the rows that one mapping has in a published version differ in the
dedup keys (`dedup_by_mapping`). Rows of two mappings need not (`rows_repeat`): their frames
are deduplicated one by one.
-/
namespace KaretWorker

open Texts Interaction Frames Indexing

/-! ## What a reader sees of a file -/

/-- The texts of the partition keys in the key of a listed file, and the name of the file. -/
def readPath (keys : List Text) (key : Text) : Option (List Text × Text) := do
  let (_, path) ← splitOnce '/' key
  let (values, name) ← splitSegments keys path
  let texts ← values.mapM percentDecode
  return (texts, name)

/-- The dedup tuples of the rows of a file, its partition keys put back as strings. -/
def dedupTuples (read : List UInt8 → Option DataFrame) (partitionKeys dedupKeys : List Text)
    (key : Text) (bytes : List UInt8) : List (List (Option Cell)) :=
  match readPath partitionKeys key, read bytes with
  | some (texts, _), some frame =>
    frame.rows.map (fun row =>
      cells (partitionKeys ++ frame.names) dedupKeys (texts.map .string ++ row))
  | _, _ => []

/-- The files of a table as they are displayed: the dedup tuples of the rows, and the mapping
that the file is named for. -/
def tableDisplay (read : List UInt8 → Option DataFrame) (table : AnalyticTable) :
    Display (List (Option Cell)) where
  rows := dedupTuples read table.partitionKeys table.dedupKeys
  owner key := do
    let (_, name) ← readPath table.partitionKeys key
    name.dropSuffix? ".parquet".toList

section Files

variable {engine : Engine} {read : List UInt8 → Option DataFrame} {frame : DataFrame}
  {mapping : Mapping} {table : AnalyticTable} {outputs : List PartitionOutput}

/-- The recorded key of an output is read as the path of the output. -/
theorem readPath_recorded (plain : '/' ∉ table.id) {output : PartitionOutput} {texts : List Text}
    (path : splitPath mapping table output.key = some texts) (version : Nat) :
    readPath table.partitionKeys (recordedFile version mapping.id output).key =
      some (texts, mapping.id ++ ".parquet".toList) := by
  simp only [splitPath, Option.bind_eq_bind, Option.bind_eq_some_iff, Prod.exists] at path
  obtain ⟨rest, stripped, values, name, splits, isFile⟩ := path
  split at isFile
  · next isName =>
    have key : output.key = table.id ++ '/' :: rest := by
      rw [dropPrefix_iff.mp stripped, List.append_assoc, List.singleton_append]
    have halves : keyHalves output = (table.id, rest) := by
      rw [keyHalves, key, split_join plain, Option.getD_some]
    have directory : '/' ∉ 'v' :: decimal version := fun member =>
      (List.mem_cons.mp member).elim (by decide) (not_mem_decimal (by decide) version)
    have recorded : (recordedFile version mapping.id output).key =
        ('v' :: decimal version) ++ '/' :: rest := by
      simp [recordedFile, halves, versionPrefix]
    rw [readPath, recorded, split_join directory]
    simp only [bind, Option.bind, splits, isFile, isName, pure]
  · cases isFile

/-- A frame that is split has its partition keys. -/
theorem declared_of_produced
    (produces : producePartitions engine frame mapping table = .ok outputs) :
    ∀ key ∈ table.partitionKeys, key ∈ frame.names := by
  have checked : ∀ keys : List Text, checkNulls frame keys = .ok () →
      ∀ key ∈ keys, key ∈ frame.names := by
    intro keys
    induction keys with
    | nil => exact fun _ _ impossible => by cases impossible
    | cons key rest inductionHypothesis =>
      intro isOk
      by_cases isName : key ∈ frame.names
      · obtain ⟨column, isColumn⟩ := column_ok isName
        rw [checkNulls, keyColumn, isColumn] at isOk
        simp only [Except.mapError, bind, Except.bind] at isOk
        split at isOk
        · cases isOk
        · exact List.forall_mem_cons.mpr ⟨isName, inductionHypothesis isOk⟩
      · rw [checkNulls, keyColumn, column_missing isName] at isOk
        cases isOk
  by_cases unkeyed : table.partitionKeys = []
  · rw [unkeyed]
    exact fun _ impossible => by cases impossible
  · rw [producePartitions_keyed unkeyed] at produces
    cases isChecked : checkNulls frame table.partitionKeys with
    | error error =>
      rw [isChecked] at produces
      cases produces
    | ok _ => exact checked _ isChecked

/-- The outputs of a frame are its parts by tuples that are told apart by their paths. -/
theorem parts_of_produced (calendar : CalendarDates engine)
    (typed : Typed frame table.partitionKeys)
    (writes : Writes engine read frame table.partitionKeys)
    (produces : producePartitions engine frame mapping table = .ok outputs) :
    AllSupported engine frame table.partitionKeys ∧ ∃ tuples : List (List Cell), tuples.Nodup ∧
      (∀ tuple ∈ tuples, ∀ tuple' ∈ tuples,
        tuple.map (cellText engine) = tuple'.map (cellText engine) → tuple = tuple') ∧
      List.Forall₂ (fun tuple (output : PartitionOutput) =>
        splitPath mapping table output.key = some (tuple.map (cellText engine)) ∧
          read output.bytes = some (frame.part table.partitionKeys tuple)) tuples outputs := by
  have declared := declared_of_produced produces
  have supported : AllSupported engine frame table.partitionKeys := by
    by_contra unsupported
    have fails : ∃ error, producePartitions engine frame mapping table = .error error :=
      producePartitions_error declared unsupported
    obtain ⟨error, failed⟩ := fails
    exact nomatch failed.symm.trans produces
  refine ⟨supported, ?_⟩
  by_cases unkeyed : table.partitionKeys = []
  · obtain ⟨bytes, written, readBack⟩ := writes []
    have whole : engine.writeParquet frame = .ok bytes := by
      rwa [unkeyed, part_nil] at written
    have single : producePartitions engine frame mapping table =
        .ok [⟨partitionKey table.id [] mapping.id, bytes⟩] :=
          producePartitions_unkeyed unkeyed whole
    obtain rfl := Except.ok.inj (single.symm.trans produces)
    have path := splitPath_partitionKey calendar mapping
      (show [].length = table.partitionKeys.length by rw [unkeyed]; rfl)
      (show tupleSegments engine table.partitionKeys [] = .ok [] by rw [unkeyed]; rfl)
    refine ⟨[[]], List.nodup_singleton _, fun tuple member tuple' member' _ => ?_,
      List.Forall₂.cons ⟨path, readBack⟩ List.Forall₂.nil⟩
    rw [List.mem_singleton.mp member, List.mem_singleton.mp member']
  · obtain ⟨outputs', tuples, produces', splits⟩ :=
      producePartitions_ok mapping calendar declared writes supported
    obtain rfl := Except.ok.inj (produces'.symm.trans produces)
    have splits := splits typed (Or.inl unkeyed)
    exact ⟨tuples, splits.distinct, splits.texts, splits.parts⟩

/-- The task of one mapping ends with the partitions of a deduplicated frame, whose columns are
typed and whose parts are read back from their bytes. -/
def Computed (engine : Engine) (read : List UInt8 → Option DataFrame) :
    (effect : Effect) → Reply effect → Prop
  | .evaluate mapping (some table) _, .partitions outputs dropped =>
    ∃ frame deduped, dedupRows frame table = .ok (deduped, dropped) ∧
      producePartitions engine deduped mapping table = .ok outputs ∧
      Typed deduped table.partitionKeys ∧ Writes engine read deduped table.partitionKeys
  | _, _ => True

/-- A deduplicated frame has the dedup keys, and its rows differ in them. -/
theorem dedupRows_distinct (keyed : table.dedupKeys ≠ []) {deduped : DataFrame} {dropped : Nat}
    (dedups : dedupRows frame table = .ok (deduped, dropped)) :
    (∀ key ∈ table.dedupKeys, key ∈ deduped.names) ∧
      (deduped.rows.map (cells deduped.names table.dedupKeys)).Nodup := by
  rw [dedupRows, if_neg (fun empty => keyed (List.isEmpty_iff.mp empty))] at dedups
  split at dedups
  · cases dedups
  · next kept keeps =>
    obtain ⟨rfl, _⟩ := Prod.mk.inj (Except.ok.inj dedups)
    exact uniqueStable_distinct keeps

/-- A frame whose rows differ in the dedup keys loses none. -/
theorem dedupRows_self (named : ∀ key ∈ table.dedupKeys, key ∈ frame.names)
    (distinct : (frame.rows.map (cells frame.names table.dedupKeys)).Nodup) :
    dedupRows frame table = .ok (frame, 0) := by
  rw [dedupRows]
  split
  · rfl
  · rw [uniqueStable_self named distinct]
    exact congrArg (fun dropped => Except.ok (frame, dropped)) (Nat.sub_self _)

/-- The key cells of a frame's rows are told apart by the strings read from the paths. -/
theorem told_apart (calendar : CalendarDates engine)
    (declared : ∀ key ∈ table.partitionKeys, key ∈ frame.names)
    (typed : Typed frame table.partitionKeys)
    (supported : AllSupported engine frame table.partitionKeys) :
    ∀ row ∈ frame.rows, ∀ row' ∈ frame.rows, ∀ key ∈ table.partitionKeys, ∀ cell cell',
      tupleOf frame.names [key] row = [cell] → tupleOf frame.names [key] row' = [cell'] →
        Cell.string (cellText engine cell) = Cell.string (cellText engine cell') →
        cell = cell' := by
  intro row isRow row' isRow' key isKey cell cell' isCell isCell' same
  have sameKind := tupleOf_forall₂ declared (frame.even row isRow) (frame.even row' isRow')
    (typed row isRow row' isRow') isKey isCell isCell'
  exact cellText_injective calendar
    (supported row isRow cell (mem_tupleOf.mpr ⟨key, isKey, isCell⟩))
    (supported row' isRow' cell' (mem_tupleOf.mpr ⟨key, isKey, isCell'⟩)) sameKind
      (Cell.string.inj same)

/-- What is computed for a table with dedup keys fits: its rows, as displayed, differ. -/
theorem fits_of_computed (calendar : CalendarDates engine) (plain : '/' ∉ table.id)
    (keyed : table.dedupKeys ≠ []) {files : List (Text × Object)} {dropped : Nat}
    (computed : Computed engine read (.evaluate mapping (some table) files)
      (.partitions outputs dropped)) (version : Nat) :
    FitsDisplay (tableDisplay read table) mapping.id outputs version := by
  obtain ⟨frame, deduped, dedups, produces, typed, writes⟩ := computed
  obtain ⟨named, unique⟩ := dedupRows_distinct keyed dedups
  have declared := declared_of_produced produces
  obtain ⟨supported, tuples, distinct, texts, parts⟩ :=
    parts_of_produced calendar typed writes produces
  have paths : List.Forall₂ (fun tuple (output : PartitionOutput) =>
      readPath table.partitionKeys (recordedFile version mapping.id output).key =
          some (tuple.map (cellText engine), mapping.id ++ ".parquet".toList) ∧
        read output.bytes = some (deduped.part table.partitionKeys tuple)) tuples outputs :=
    parts.imp (fun _ _ part => ⟨readPath_recorded plain part.1 version, part.2⟩)
  clear parts produces
  refine ⟨?_, ?_, ?_⟩
  · have decoded : (outputs.map (fun output => (recordedFile version mapping.id output).key)).map
        (readPath table.partitionKeys) = tuples.map (fun tuple =>
          some (tuple.map (cellText engine), mapping.id ++ ".parquet".toList)) := by
      clear distinct texts
      induction paths with
      | nil => rfl
      | cons same _ inductionHypothesis =>
        rw [List.map_cons, List.map_cons, List.map_cons, same.1, inductionHypothesis]
    refine List.Nodup.of_map (readPath table.partitionKeys) ?_
    rw [decoded]
    exact List.Nodup.map_on (fun tuple member tuple' member' same =>
      texts tuple member tuple' member' (Prod.mk.inj (Option.some.inj same)).1) distinct
  · intro output isOutput
    obtain ⟨tuple, _, path, _⟩ := Results.forall₂_exists paths.flip isOutput
    simp only [tableDisplay, path, bind, Option.bind]
    exact dropSuffix_iff.mpr rfl
  · have shown : outputs.flatMap (fun output => (tableDisplay read table).rows
        (recordedFile version mapping.id output).key output.bytes) =
        tuples.flatMap (fun tuple => (deduped.part table.partitionKeys tuple).rows.map (fun kept =>
          cells (table.partitionKeys ++ (deduped.part table.partitionKeys tuple).names)
            table.dedupKeys
            (tuple.map (fun cell => Cell.string (cellText engine cell)) ++ kept))) := by
      clear distinct texts
      induction paths with
      | nil => rfl
      | cons same _ inductionHypothesis =>
        rw [List.flatMap_cons, List.flatMap_cons, inductionHypothesis]
        simp only [tableDisplay, dedupTuples, same.1, same.2, List.map_map, Function.comp_def]
    rw [shown]
    exact parts_distinct declared named (told_apart calendar declared typed supported)
      unique distinct

end Files

/-! ## Sequences of runs -/

/-- Every declaration of the table in a configuration has the table's keys. -/
def KeepsKeys (table : AnalyticTable) (config : PipelineConfig) : Prop :=
  ∀ declared ∈ config.analyticTables, declared.id = table.id →
    declared.partitionKeys = table.partitionKeys ∧ declared.dedupKeys = table.dedupKeys

instance (table : AnalyticTable) (config : PipelineConfig) : Decidable (KeepsKeys table config) :=
  inferInstanceAs (Decidable (∀ declared ∈ config.analyticTables, _))

/-- Runs start from accepted configurations with the table's keys, and mappings are evaluated as
the executor does it. -/
def World.Computes (engine : Engine) (read : List UInt8 → Option DataFrame) (table : AnalyticTable)
    (world : World) : Action → Prop
  | .start _ (.ok config) _ => validate config = .ok () ∧ KeepsKeys table config
  | .answer author given => ∀ event ∈ world.exchange author given,
      Genuine event.1 event.2 ∧ Computed engine read event.1 event.2
  | _ => True

/-- Runs that follow one another over one table. -/
def RowsRule (engine : Engine) (read : List UInt8 → Option DataFrame) (table : AnalyticTable)
    (world : World) (action : Action) : Prop :=
  world.Computes engine read table action ∧ world.Sequential action

/-- No configuration has another table in the table's directory. -/
def Action.Separates (id : Text) : Action → Prop
  | .start _ loaded _ => Separate id loaded
  | _ => True

instance (id : Text) : DecidablePred (Action.Separates id)
  | .start _ loaded _ => inferInstanceAs (Decidable (Separate id loaded))
  | .answer _ _ | .stop _ | .fill _ => isTrue trivial

/-- The dedup tuples that a reader of some files of a table sees. -/
def seenTuples (read : List UInt8 → Option DataFrame) (table : AnalyticTable)
    (view : Text → Option Object) (files : List ManifestFile) : List (List (Option Cell)) :=
  (tableDisplay read table).rowsIn (contentOf view) files

/-- The manifest is stored for a version up to the one that the pointer names. -/
def Published (view : Text → Option Object) (manifest : TableManifest) : Prop :=
  ∃ pointer version, view currentKey = some (.pointer pointer) ∧ version ≤ pointer.version ∧
    view (manifestKey version) = some (.manifest manifest)

/-- In every version of a new table that runs under a rule publish, the chosen ones of its files
show no tuple twice. -/
def ShowsOnce (read : List UInt8 → Option DataFrame) (pipelinePrefix : Text) (table : AnalyticTable)
    (rule : World → Action → Prop) (chosen : List ManifestFile → List ManifestFile) : Prop :=
  ∀ (buckets : Buckets) (world : World) (manifest : TableManifest),
    (∀ key, buckets.under (tablePrefix pipelinePrefix table.id) key = none) →
    Reaches pipelinePrefix (tablePrefix pipelinePrefix table.id) rule (World.initial buckets) world →
    Published (world.buckets.under (tablePrefix pipelinePrefix table.id)) manifest →
      (seenTuples read table (world.buckets.under (tablePrefix pipelinePrefix table.id))
        (chosen manifest.files)).Nodup

section Runs

variable {table : AnalyticTable} {config : PipelineConfig} {pipelinePrefix : Text}

/-- The table of an evaluation has the keys of the table it is. -/
def Declares (table : AnalyticTable) (effect : Effect) : Prop :=
  ∀ mapping declared files, effect = .evaluate mapping (some declared) files →
    declared.id = table.id →
      declared.partitionKeys = table.partitionKeys ∧ declared.dedupKeys = table.dedupKeys

/-- What evaluates nothing declares nothing. -/
theorem declares_quiet {α : Type} {job : Job α}
    (quiet : job.Calls (fun effect => ¬ effect.Evaluates)) :
    job.Calls (Declares table) := by
  refine Program.calls_mono quiet (fun effect notEvaluates mapping declared files same => ?_)
  rw [same] at notEvaluates
  exact absurd trivial notEvaluates

/-- Mappings are evaluated with tables of the configuration. -/
theorem runMappings_declares (keeps : KeepsKeys table config) (files : List (Text × Object))
    (mappings : List Mapping) (progress : Progress) :
    (runMappings config pipelinePrefix files mappings progress).Calls (Declares table) := by
  induction mappings generalizing progress with
  | nil => trivial
  | cons mapping rest inductionHypothesis =>
    simp only [runMappings, perform, Program.perform_bind]
    refine ⟨fun _ _ _ impossible => (by cases impossible), ?_⟩
    rintro (_ | _)
    · simp only [Bool.false_eq_true, ↓reduceIte]
      split
      · exact inductionHypothesis progress
      · split
        · exact inductionHypothesis progress
        · refine ⟨fun evaluated declared mappingFiles same isTable => ?_, ?_⟩
          · obtain ⟨_, isDeclared, _⟩ := Effect.evaluate.inj same
            exact keeps declared (List.mem_of_find?_eq_some isDeclared) isTable
          · rintro (⟨outputs, dropped⟩ | message | joinError)
            · exact Program.calls_bind (declares_quiet (applyMapping_calls mapping outputs dropped
                progress)) (fun _ => inductionHypothesis _)
            · exact inductionHypothesis _
            · exact inductionHypothesis _
    · trivial

/-- A run evaluates mappings of the table by the table's keys. -/
theorem executeJob_declares (keeps : KeepsKeys table config) (cleanRun : Bool) :
    (executeJob (.ok config) pipelinePrefix cleanRun).Calls (Declares table) := by
  refine Program.calls_bind (declares_quiet (Program.calls_mono (openTables_reads _ _ _ _)
    (fun _ => Effect.Reads.not_evaluates))) ?_
  rintro (error | publishes)
  · trivial
  refine Program.calls_bind (declares_quiet (Program.calls_mono (listSources_reads _ _)
    (fun _ => Effect.Reads.not_evaluates))) (fun candidates => ?_)
  refine Program.calls_bind (declares_quiet (downloadAll_quiet _ _)) ?_
  rintro (error | files)
  · trivial
  simp only
  split
  · trivial
  refine Program.calls_bind (declares_quiet (loadDimensions_quiet _)) ?_
  rintro (error | ⟨⟩)
  · trivial
  refine Program.calls_bind (runMappings_declares keeps files _ _) ?_
  rintro (error | progress)
  · trivial
  simp only [perform, Program.perform_bind]
  exact ⟨fun _ _ _ impossible => (nomatch impossible), fun order =>
    Program.calls_bind (declares_quiet (publishTables_quiet _ _ _)) (fun _ => trivial)⟩

variable {engine : Engine} {read : List UInt8 → Option DataFrame}

/-- What is computed by the table's keys is displayed with rows that differ. -/
theorem displayed_of_computed (calendar : CalendarDates engine) (plain : '/' ∉ table.id)
    (keyed : table.dedupKeys ≠ []) {effect : Effect} {reply : Reply effect}
    (declares : Declares table effect) (genuine : Genuine effect reply)
    (computed : Computed engine read effect reply) :
    Displayed (tableDisplay read table) table.id effect reply := by
  refine ⟨genuine, ?_⟩
  split
  · next mapping declared files outputs dropped =>
    intro same version
    obtain ⟨samePartitions, sameDedups⟩ := declares mapping declared files rfl same
    have fits := fits_of_computed calendar (same ▸ plain) (sameDedups ▸ keyed) computed version
    have sameDisplay : tableDisplay read declared = tableDisplay read table := by
      simp only [tableDisplay, samePartitions, sameDedups]
    rwa [sameDisplay] at fits
  · trivial

/-- The rule of one step, as the draft of the table needs it. -/
def TableRule (engine : Engine) (read : List UInt8 → Option DataFrame) (table : AnalyticTable)
    (pipelinePrefix : Text) (world : World) (action : Action) : Prop :=
  RowsRule engine read table world action ∧
    world.PointerServed (tablePrefix pipelinePrefix table.id) action ∧ action.Separates table.id

/-- In runs over one table, evaluations are by the table's keys, and outputs fit. -/
theorem reaches_displayed (calendar : CalendarDates engine) (plain : '/' ∉ table.id)
    (keyed : table.dedupKeys ≠ []) {start world : World} (idle : start.running = ∅)
    (reached : Reaches pipelinePrefix (tablePrefix pipelinePrefix table.id)
      (TableRule engine read table pipelinePrefix) start world) :
    (∀ author job, world.running.lookup author = some job → job.Calls (Declares table)) ∧
      Reaches pipelinePrefix (tablePrefix pipelinePrefix table.id)
        (DraftRule (tableDisplay read table) pipelinePrefix table.id) start world := by
  induction reached with
  | refl =>
    refine ⟨fun author job found => ?_, .refl⟩
    rw [idle] at found
    exact nomatch found
  | tail _ step inductionHypothesis =>
    obtain ⟨declares, reaches⟩ := inductionHypothesis
    obtain ⟨action, ⟨⟨computes, sequential⟩, served, separates⟩, stepped⟩ := step
    cases action with
    | start author loaded cleanRun =>
      obtain ⟨_, rfl⟩ := step_start stepped
      refine ⟨fun other job found => ?_, reaches.tail ⟨.start author loaded cleanRun,
        ⟨⟨separates, served, sequential⟩, ?_⟩, stepped⟩⟩
      · rcases lookup_of_insert found with ⟨_, rfl⟩ | ⟨_, before⟩
        · cases loaded with
          | error error => trivial
          | ok config => exact executeJob_declares computes.2 cleanRun
        · exact declares other job before
      · cases loaded with
        | error error => trivial
        | ok config =>
          have valid := validate_iff.mp computes.1
          exact ⟨valid.tables.distinct, valid.mappings.distinct⟩
    | answer author given =>
      obtain ⟨effect, next, reply, buckets, isRunning, answered, rfl⟩ := step_answer stepped
      have calls := declares author _ isRunning
      refine ⟨fun other job found => ?_, reaches.tail ⟨.answer author given,
        ⟨⟨fun event occurs => (computes event occurs).1, served, sequential⟩, ?_⟩, stepped⟩⟩
      · rcases lookup_of_insert found with ⟨_, rfl⟩ | ⟨_, before⟩
        · exact calls.2 reply
        · exact declares other job before
      · intro event occurs
        obtain ⟨genuine, computed⟩ := computes event occurs
        rw [World.exchange, isRunning] at occurs
        obtain ⟨_, _, rfl⟩ := Option.map_eq_some_iff.mp occurs
        exact displayed_of_computed calendar plain keyed calls.1 genuine computed
    | stop author =>
      obtain rfl := Option.some.inj stepped
      exact ⟨fun other job found => declares other job (lookup_of_erase found).2,
        reaches.tail ⟨.stop author, ⟨⟨trivial, served, sequential⟩, trivial⟩, stepped⟩⟩
    | fill lake =>
      obtain rfl := Option.some.inj stepped
      exact ⟨declares, reaches.tail ⟨.fill lake, ⟨⟨trivial, served, sequential⟩, trivial⟩, stepped⟩⟩

/-- In every version of a table with dedup keys that any sequence of runs has published, the
rows of one mapping differ in the dedup keys, over all the files that it has there. -/
theorem dedup_by_mapping (calendar : CalendarDates engine) (plain : '/' ∉ table.id)
    (keyed : table.dedupKeys ≠ []) (mappingId : Text) :
    ShowsOnce read pipelinePrefix table (TableRule engine read table pipelinePrefix)
      (filesOf mappingId) := by
  intro buckets world manifest blank reached published
  obtain ⟨_, displayed⟩ := reaches_displayed calendar plain keyed rfl reached
  obtain ⟨current, filed⟩ := reaches_filed plain blank displayed
  obtain ⟨pointer, version, isPointer, bounded, present⟩ := published
  have expected := filed.pointer.symm.trans isPointer
  split at expected
  · exact nomatch expected
  · obtain ⟨⟩ := expected
    obtain ⟨_, ⟨⟩, catalogued⟩ := filed.manifests version bounded _ present
    exact catalogued.distinguished mappingId

end Runs

/-! ## Rows that repeat -/

section Repeats

/-- A column of small integers. -/
def valueColumn : ColumnSchema := ⟨"v".toList, none, "int64".toList⟩

/-- A column of texts. -/
def letterColumn : ColumnSchema := ⟨"a".toList, none, "string".toList⟩

/-- A mapping that copies columns into a table. -/
def copying (id tableId : Text) (columns : List ColumnSchema) : Mapping :=
  { plainMapping tableId with
    id := id
    columns := columns.map (fun column => ⟨column.name, .col column.name⟩) }

/-- One source of the columns, feeding mappings of some tables. -/
def copies (columns : List ColumnSchema) (mappings : List Mapping) (tables : List AnalyticTable) :
    PipelineConfig :=
  ⟨[{ plainSource with schema := columns }], [], mappings, tables⟩

/-- A table of integers without repetitions. -/
def uniqueTable (id : Text) : AnalyticTable :=
  ⟨id, "T".toList, [valueColumn], [], ["v".toList]⟩

/-- A table of integers. -/
def openTable (id : Text) : AnalyticTable := ⟨id, "T".toList, [valueColumn], [], []⟩

/-- A table of letters and integers, partitioned by the letter. -/
def letterTable : AnalyticTable :=
  ⟨"t".toList, "T".toList, [letterColumn, valueColumn], ["a".toList], ["v".toList]⟩

/-- What mappings are known to evaluate to: the table, the mapping's id, and the outputs. -/
abbrev KnownOutputs : Type := List (AnalyticTable × Text × List PartitionOutput)

/-- The event is the evaluation of a mapping to known outputs, or none to outputs. -/
def AsKnown (known : KnownOutputs) : (effect : Effect) → Reply effect → Prop
  | .evaluate mapping (some table) _, .partitions outputs dropped =>
    (table, mapping.id, outputs) ∈ known ∧ dropped = 0
  | _, _ => True

instance (known : KnownOutputs) : (effect : Effect) → (reply : Reply effect) →
    Decidable (AsKnown known effect reply)
  | .evaluate _ (some _) _, .partitions _ _ => inferInstanceAs (Decidable (_ ∧ _))
  | .evaluate _ none _, .partitions _ _ => isTrue trivial
  | .evaluate _ (some _) _, .failed _ => isTrue trivial
  | .evaluate _ (some _) _, .panicked _ => isTrue trivial
  | .evaluate _ none _, .failed _ => isTrue trivial
  | .evaluate _ none _, .panicked _ => isTrue trivial
  | .getBytes _ _, _ | .listKeys _ _, _ | .putObject _ _ _, _
  | .deleteObject _ _, _ => isTrue trivial
  | .loadCancel, _ | .now, _ | .overflow, _ | .iterate _, _ => isTrue trivial
  | .buildInlineRegistry _, _ | .rowsFromCsv _ _, _ | .newMatcher _, _ => isTrue trivial

/-- The rule of runs over one table, with known outputs in place of computed ones. -/
def KnownRule (known : KnownOutputs) (table : AnalyticTable) (world : World) : Action → Prop
  | .start author (.ok config) cleanRun => validate config = .ok () ∧ KeepsKeys table config ∧
      world.Sequential (.start author (.ok config) cleanRun)
  | .answer author given => ∀ event ∈ world.exchange author given,
      Genuine event.1 event.2 ∧ AsKnown known event.1 event.2
  | action => world.Sequential action

instance (known : KnownOutputs) (table : AnalyticTable) (world : World) :
    DecidablePred (KnownRule known table world)
  | .start _ (.ok _) _ => inferInstanceAs (Decidable (_ ∧ _ ∧ _))
  | .start author (.error error) cleanRun =>
    inferInstanceAs (Decidable (world.Sequential (.start author (.error error) cleanRun)))
  | .answer author given => inferInstanceAs (Decidable (∀ event ∈ world.exchange author given, _))
  | .stop author => inferInstanceAs (Decidable (world.Sequential (.stop author)))
  | .fill lake => inferInstanceAs (Decidable (world.Sequential (.fill lake)))

/-- The mapping of the id evaluates to the outputs for the table, over some frame. -/
def Certified (table : AnalyticTable) (mappingId : Text) (outputs : List PartitionOutput) : Prop :=
  ∀ mapping files, mapping.id = mappingId →
    Computed byteEngine readBytes (.evaluate mapping (some table) files) (.partitions outputs 0)

/-- One column, one name. -/
theorem byteNames_distinct : ["v".toList].Nodup := List.nodup_singleton _

/-- Every row is one cell wide. -/
theorem byteRow_width (bytes : List UInt8) : ∀ row ∈ bytes.map byteRow, row.length = 1 := by
  simp [byteRow]

/-- A frame of small integers. -/
def byteFrame (bytes : List UInt8) : DataFrame :=
  ⟨["v".toList], bytes.map byteRow, byteNames_distinct, byteRow_width bytes⟩

/-- A mapping's integers go to one file of an unpartitioned table. -/
theorem certified_bytes {table : AnalyticTable} {mappingId : Text} {bytes : List UInt8}
    (unkeyed : table.partitionKeys = [])
    (dedups : dedupRows (byteFrame bytes) table = .ok (byteFrame bytes, 0)) :
    Certified table mappingId [⟨partitionKey table.id [] mappingId, bytes⟩] := by
  have back : ∀ byte : UInt8, rowByte (byteRow byte) = byte :=
    fun byte => by simp [byteRow, rowByte]
  have names : ((byteFrame []).dropMany []).names = ["v".toList] := by decide +kernel
  have writes : Writes byteEngine readBytes (byteFrame bytes) [] := by
    refine byteEngine_writes names (fun row isRow => ?_)
    rw [keptCells_nil isRow]
    obtain ⟨byte, _, rfl⟩ := List.mem_map.mp isRow
    rw [back]
  have written : byteEngine.writeParquet (byteFrame bytes) = .ok bytes := by
    refine congrArg Except.ok (show (bytes.map byteRow).map rowByte = bytes from ?_)
    rw [List.map_map]
    exact (List.map_congr_left (fun byte _ => back byte)).trans (List.map_id _)
  rintro mapping files rfl
  refine ⟨byteFrame bytes, byteFrame bytes, dedups,
    producePartitions_unkeyed unkeyed written, ?_, ?_⟩
  · intro row _ row' _
    rw [unkeyed]
    exact List.Forall₂.nil
  · rw [unkeyed]
    exact writes

/-- What is partitioned depends on the mapping's id only. -/
theorem producePartitions_congr {engine : Engine} {frame : DataFrame} {mapping other : Mapping}
    {table : AnalyticTable} (same : mapping.id = other.id) :
    producePartitions engine frame mapping table = producePartitions engine frame other table := by
  have outputs : groupOutput engine mapping table = groupOutput engine other table := by
    funext group
    simp only [groupOutput, same]
  simp only [producePartitions, same, outputs]

/-- Known outputs that are certified are computed. -/
theorem KnownRule.computes {known : KnownOutputs} {table : AnalyticTable} {world : World}
    {action : Action} (certified : ∀ entry ∈ known, Certified entry.1 entry.2.1 entry.2.2)
    (rule : KnownRule known table world action) :
    RowsRule byteEngine readBytes table world action := by
  have computed : ∀ (effect : Effect) (reply : Reply effect), AsKnown known effect reply →
      Computed byteEngine readBytes effect reply := by
    intro effect reply asKnown
    unfold Computed
    split
    · next mapping declared files outputs dropped =>
      obtain ⟨member, rfl⟩ := asKnown
      exact certified _ member mapping files rfl
    · trivial
  cases action with
  | start author loaded cleanRun =>
    cases loaded with
    | error error => exact ⟨trivial, rule⟩
    | ok config => exact ⟨⟨rule.1, rule.2.1⟩, rule.2.2⟩
  | answer author given =>
    exact ⟨fun event occurs => ⟨(rule event occurs).1, computed _ _ (rule event occurs).2⟩, trivial⟩
  | stop author => exact ⟨trivial, rule⟩
  | fill lake => exact ⟨trivial, rule⟩

/-- Version 1 is published with a manifest, and the chosen ones of its files show a tuple twice. -/
def ShowsTwice (table : AnalyticTable) (chosen : List ManifestFile → List ManifestFile)
    (files : List ManifestFile) (world : World) : Prop :=
  let view := world.buckets.under (tablePrefix "p/".toList table.id)
  view currentKey = some (.pointer ⟨1⟩) ∧
    view (manifestKey 1) = some (.manifest ⟨1, [], none, files⟩) ∧
      ¬ (seenTuples readBytes table view (chosen files)).Nodup

instance (table : AnalyticTable) (chosen : List ManifestFile → List ManifestFile)
    (files : List ManifestFile) : DecidablePred (ShowsTwice table chosen files) :=
  fun _ => inferInstanceAs (Decidable (_ ∧ _ ∧ _))

/-- The answers up to the mapping loop, for some tables without a pointer. -/
def toLoop (tables : Nat) : List Answer :=
  List.replicate tables (.refused []) ++ [.served, .flag false, .served, .outcome (.ok ())]

/-- The answers to one mapping. -/
def toOutputs (outputs : List PartitionOutput) : List Answer :=
  [.flag false, .evaluated (.partitions outputs 0)] ++ List.replicate outputs.length .served

/-- A run of two mappings, up to the pointer of the table that is published first. -/
def twoMappings (config : PipelineConfig) (tables : Nat) (order : List Text)
    (known : KnownOutputs) : List Action :=
  [.start 0 (.ok config) false] ++
    answers 0 (toLoop tables ++ known.flatMap (fun entry => toOutputs entry.2.2) ++
      [.order order, .clock [], .served, .served])

/-- Actions that end in a tuple shown twice refute that the rule they keep to shows it once. -/
theorem shows_twice {rule : World → Action → Prop} [∀ world, DecidablePred (rule world)]
    {table : AnalyticTable} {chosen : List ManifestFile → List ManifestFile} (known : KnownOutputs)
    (actions : List Action) (files : List ManifestFile)
    (certified : ∀ entry ∈ known, Certified entry.1 entry.2.1 entry.2.2)
    (checked : (Runs.follow (World.step "p/".toList (tablePrefix "p/".toList table.id))
      (fun world action => KnownRule known table world action ∧ rule world action)
      (World.initial smallBuckets) actions).any
        (fun world => ShowsTwice table chosen files world) = true) :
    ¬ ShowsOnce readBytes "p/".toList table
      (fun world action => RowsRule byteEngine readBytes table world action ∧ rule world action)
      chosen := by
  obtain ⟨world, reached, isPointer, isManifest, twice⟩ :=
    Runs.reaches_of_check _ _ _ actions _ checked
  intro once
  exact twice (once smallBuckets world _ (fun _ => rfl)
    (reached.mono (fun _ _ rules => ⟨rules.1.computes certified, rules.2⟩))
    ⟨⟨1⟩, 1, isPointer, Nat.le_refl _, isManifest⟩)

/-- Two mappings of one table, with the same row. -/
def sharedRow : KnownOutputs :=
  [(uniqueTable "t".toList, "m".toList, [⟨"t/m.parquet".toList, [1]⟩]),
    (uniqueTable "t".toList, "n".toList, [⟨"t/n.parquet".toList, [1]⟩])]

/-- Deduplication keeps a single row. -/
theorem single_kept (id : Text) :
    dedupRows (byteFrame [1]) (uniqueTable id) = .ok (byteFrame [1], 0) := by
  have distinct : ((byteFrame [1]).rows.map
      (cells (byteFrame [1]).names ["v".toList])).Nodup := List.nodup_singleton _
  exact dedupRows_self (show ∀ key ∈ ["v".toList], key ∈ ["v".toList] from fun _ member => member)
    distinct

/-- Two mappings of one table write the same row, and the version shows it twice. -/
theorem sharedRow_twice : ¬ ShowsOnce readBytes "p/".toList (uniqueTable "t".toList)
    (TableRule byteEngine readBytes (uniqueTable "t".toList) "p/".toList) id :=
  shows_twice sharedRow
    (twoMappings (copies [valueColumn] [copying "m".toList "t".toList [valueColumn],
      copying "n".toList "t".toList [valueColumn]] [uniqueTable "t".toList]) 1 ["t".toList]
        sharedRow)
    [⟨"v1/m.parquet".toList, "m".toList, 1⟩, ⟨"v1/n.parquet".toList, "n".toList, 1⟩]
    (List.forall_mem_cons.mpr ⟨certified_bytes rfl (single_kept _), List.forall_mem_cons.mpr
      ⟨certified_bytes rfl (single_kept _), List.forall_mem_nil _⟩⟩)
    (by decide +kernel)

/-- A mapping of one table, and a mapping of another one, of repeated rows, that is put under the
same key. -/
def sharedDirectory : KnownOutputs :=
  [(uniqueTable "t".toList, "x/m".toList, [⟨"t/x/m.parquet".toList, [1]⟩]),
    (openTable "t/x".toList, "m".toList, [⟨"t/x/m.parquet".toList, [1, 1]⟩])]

/-- A table shows a row twice when a mapping of another table is put under the key of its file. -/
theorem sharedDirectory_twice : ¬ ShowsOnce readBytes "p/".toList (uniqueTable "t".toList)
    (fun world action => RowsRule byteEngine readBytes (uniqueTable "t".toList) world action ∧
      world.PointerServed (tablePrefix "p/".toList "t".toList) action) (filesOf "x/m".toList) :=
  shows_twice sharedDirectory
    (twoMappings (copies [valueColumn] [copying "x/m".toList "t".toList [valueColumn],
      copying "m".toList "t/x".toList [valueColumn]]
      [uniqueTable "t".toList, openTable "t/x".toList]) 2 ["t".toList, "t/x".toList]
        sharedDirectory)
    [⟨"v1/x/m.parquet".toList, "x/m".toList, 1⟩]
    (List.forall_mem_cons.mpr ⟨certified_bytes rfl (single_kept _), List.forall_mem_cons.mpr
      ⟨certified_bytes rfl rfl, List.forall_mem_nil _⟩⟩)
    (by decide +kernel)

/-- A mapping of a table with a slash in its id, and one of a table around it. -/
def slashedTable : KnownOutputs :=
  [(uniqueTable "t/v1".toList, "m".toList, [⟨"t/v1/m.parquet".toList, [1]⟩]),
    (openTable "t".toList, "v1/v1/m".toList, [⟨"t/v1/v1/m.parquet".toList, [1, 1]⟩])]

/-- A table with a slash in its id shows a row twice when a mapping of the table around it is put under
the key of its file. -/
theorem slashedTable_twice : ¬ ShowsOnce readBytes "p/".toList (uniqueTable "t/v1".toList)
    (TableRule byteEngine readBytes (uniqueTable "t/v1".toList) "p/".toList) (filesOf "m".toList) :=
  shows_twice slashedTable
    (twoMappings (copies [valueColumn] [copying "m".toList "t/v1".toList [valueColumn],
      copying "v1/v1/m".toList "t".toList [valueColumn]]
      [uniqueTable "t/v1".toList, openTable "t".toList]) 2 ["t/v1".toList, "t".toList] slashedTable)
    [⟨"v1/v1/m.parquet".toList, "m".toList, 1⟩]
    (List.forall_mem_cons.mpr ⟨certified_bytes rfl (single_kept _), List.forall_mem_cons.mpr
      ⟨certified_bytes rfl rfl, List.forall_mem_nil _⟩⟩)
    (by decide +kernel)

/-- The two columns have different names. -/
theorem letterNames_distinct : ["a".toList, "v".toList].Nodup := by decide +kernel

/-- A frame of letters and integers. -/
def letters (rows : List (Text × UInt8)) : DataFrame where
  names := ["a".toList, "v".toList]
  rows := rows.map (fun row => [.string row.1, .int row.2.toNat])
  distinct := letterNames_distinct
  even := by
    intro row member
    obtain ⟨_, _, rfl⟩ := List.mem_map.mp member
    rfl

/-- Letters in one run, and another integer for the first of them in the next. -/
def rewritten : KnownOutputs :=
  [(letterTable, "m".toList, [⟨"t/a=x/m.parquet".toList, [1]⟩, ⟨"t/a=y/m.parquet".toList, [2]⟩]),
    (letterTable, "m".toList, [⟨"t/a=x/m.parquet".toList, [2]⟩])]

/-- A frame of letters is written, and its partitions are typed. -/
theorem certified_letters {rows : List (Text × UInt8)} {outputs : List PartitionOutput}
    (distinct : ((letters rows).rows.map (cells (letters rows).names ["v".toList])).Nodup)
    (writes : ∀ row ∈ (letters rows).rows,
      byteRow (rowByte (keptCells (letters rows).names ["a".toList] row)) =
        keptCells (letters rows).names ["a".toList] row)
    (strings : ∀ row ∈ (letters rows).rows, ∀ row' ∈ (letters rows).rows,
      List.Forall₂ SameKind (tupleOf (letters rows).names ["a".toList] row)
        (tupleOf (letters rows).names ["a".toList] row'))
    (produces : producePartitions byteEngine (letters rows) (plainMapping "t".toList) letterTable =
      .ok outputs) : Certified letterTable "m".toList outputs := by
  have names : ((letters []).dropMany ["a".toList]).names = ["v".toList] := by decide +kernel
  have named : ∀ key ∈ ["v".toList], key ∈ (letters []).names := by decide +kernel
  intro mapping files same
  exact ⟨letters rows, letters rows, dedupRows_self named distinct,
    (producePartitions_congr same).trans produces, strings, byteEngine_writes names writes⟩

/-- What both runs evaluate is what the mapping makes of its sources. -/
theorem rewritten_certified : ∀ entry ∈ rewritten, Certified entry.1 entry.2.1 entry.2.2 := by
  refine List.forall_mem_cons.mpr ⟨@certified_letters [("x".toList, 1), ("y".toList, 2)] _
    (by decide +kernel) (by decide +kernel) (by decide +kernel) (by decide +kernel),
    List.forall_mem_cons.mpr ⟨@certified_letters [("x".toList, 2)] _
      (by decide +kernel) (by decide +kernel) (by decide +kernel) (by decide +kernel),
      List.forall_mem_nil _⟩⟩

/-- One mapping of the table of letters. -/
def lettersConfig : PipelineConfig :=
  copies [letterColumn, valueColumn] [copying "m".toList "t".toList [letterColumn, valueColumn]]
    [letterTable]

/-- A run publishes two letters. -/
def publishing : List Action :=
  [.start 0 (.ok lettersConfig) false] ++
    answers 0 (toLoop 1 ++ toOutputs [⟨"t/a=x/m.parquet".toList, [1]⟩, ⟨"t/a=y/m.parquet".toList, [2]⟩] ++
      toPublish 2)

/-- The files of the first version. -/
def letterFiles : List ManifestFile :=
  [⟨"v1/a=x/m.parquet".toList, "m".toList, 1⟩, ⟨"v1/a=y/m.parquet".toList, "m".toList, 1⟩]

/-- The letters are shown in two files, and no tuple twice. -/
theorem dedup_by_mapping_letters : ∃ world : World,
    Published (world.buckets.under (tablePrefix "p/".toList "t".toList)) ⟨1, [], none, letterFiles⟩ ∧
      (seenTuples readBytes letterTable (world.buckets.under (tablePrefix "p/".toList "t".toList))
        letterFiles).length = 2 ∧
      (seenTuples readBytes letterTable (world.buckets.under (tablePrefix "p/".toList "t".toList))
        (filesOf "m".toList letterFiles)).Nodup := by
  let view := fun world : World => world.buckets.under (tablePrefix "p/".toList "t".toList)
  obtain ⟨world, reached, isPointer, isManifest, two⟩ := Runs.reaches_of_check
    (World.step "p/".toList (tablePrefix "p/".toList "t".toList))
    (fun world action => KnownRule rewritten letterTable world action ∧
      world.PointerServed (tablePrefix "p/".toList "t".toList) action ∧ action.Separates "t".toList)
    (World.initial smallBuckets) publishing
    (fun world => view world currentKey = some (.pointer ⟨1⟩) ∧
      view world (manifestKey 1) = some (.manifest ⟨1, [], none, letterFiles⟩) ∧
        (seenTuples readBytes letterTable (view world) letterFiles).length = 2) (by decide +kernel)
  have published : Published (view world) ⟨1, [], none, letterFiles⟩ :=
    ⟨⟨1⟩, 1, isPointer, Nat.le_refl _, isManifest⟩
  have once : ShowsOnce readBytes "p/".toList letterTable
      (TableRule byteEngine readBytes letterTable "p/".toList) (filesOf "m".toList) :=
    dedup_by_mapping byteEngine_calendar (by decide +kernel) (by decide +kernel) "m".toList
  exact ⟨world, published, two, once smallBuckets world _ (fun _ => rfl)
    (reached.mono (fun _ _ rules => ⟨rules.1.computes rewritten_certified, rules.2⟩)) published⟩

/-- The next run fails to read the pointer, takes version 1 again, and stops after it has put a
file of the published version. -/
def rereading : List Action :=
  publishing ++ [.stop 0, .start 1 (.ok lettersConfig) false] ++
    answers 1 (toLoop 1 ++ toOutputs [⟨"t/a=x/m.parquet".toList, [2]⟩])

/-- A run whose pointer was not read writes over a file of the published version, which then shows a
row twice. -/
theorem rewritten_twice : ¬ ShowsOnce readBytes "p/".toList letterTable
    (fun world action => RowsRule byteEngine readBytes letterTable world action ∧
      action.Separates "t".toList) (filesOf "m".toList) :=
  shows_twice rewritten rereading
    letterFiles rewritten_certified (by decide +kernel)

/-- Rows of a published version may agree in the dedup keys. Two mappings of a table may have
the same row. The rows of one mapping may agree when another table is put into the table's
directory, when the table's id has a slash, or when an existing pointer is not read. -/
theorem rows_repeat :
    (∃ table, '/' ∉ table.id ∧ table.dedupKeys ≠ [] ∧ ¬ ShowsOnce readBytes "p/".toList table
      (TableRule byteEngine readBytes table "p/".toList) id) ∧
    (∃ table mappingId, '/' ∉ table.id ∧ table.dedupKeys ≠ [] ∧ ¬ ShowsOnce readBytes "p/".toList table
      (fun world action => RowsRule byteEngine readBytes table world action ∧
        world.PointerServed (tablePrefix "p/".toList table.id) action) (filesOf mappingId)) ∧
    (∃ table mappingId, table.dedupKeys ≠ [] ∧ ¬ ShowsOnce readBytes "p/".toList table
      (TableRule byteEngine readBytes table "p/".toList) (filesOf mappingId)) ∧
    ∃ table mappingId, '/' ∉ table.id ∧ table.dedupKeys ≠ [] ∧ ¬ ShowsOnce readBytes "p/".toList table
      (fun world action => RowsRule byteEngine readBytes table world action ∧
        action.Separates table.id) (filesOf mappingId) :=
  ⟨⟨_, by decide +kernel, by decide +kernel, sharedRow_twice⟩,
    ⟨_, _, by decide +kernel, by decide +kernel, sharedDirectory_twice⟩,
    ⟨_, _, by decide +kernel, slashedTable_twice⟩,
    ⟨_, _, by decide +kernel, by decide +kernel, rewritten_twice⟩⟩

end Repeats

end KaretWorker
