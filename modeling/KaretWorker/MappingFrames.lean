import KaretWorker.Effects
import KaretWorker.Evaluator
import KaretWorker.Library.Frame
import KaretWorker.Library.Results

/-!
# Frames of a mapping

What becomes of the rows of a mapping in `src/pipeline.rs`: the column expressions are
selected and filtered in `ingest_file`, duplicate rows are dropped, and the rest is split
into one output for each tuple of the partition keys.

The data frame library, its Parquet writer and the calendar are parameters of a run. An
output has the key that the executor expects of it (`producePartitions_genuine`).
-/
namespace KaretWorker

open Texts Frames

/-- A cell of a frame, as a partition key is read. -/
inductive Cell where
  | null
  | int (value : Int)
  | bool (value : Bool)
  | date (days : Int)
  | string (value : Text)
  | other (shown : Text)
  deriving DecidableEq, Repr

/-- The frames of a mapping, with columns by name. -/
abbrev DataFrame : Type := Frame Text Cell

/-- What is computed outside: expressions and predicates over a frame, a frame's Parquet
bytes, and the date of a number of days, if it is in range. -/
structure Engine where
  evaluate : (exprs : List Expr) → DataFrame → Except Text (RowsOf Cell exprs.length)
  mask : Expr → DataFrame → Except Text (List Bool)
  writeParquet : DataFrame → Except Text (List UInt8)
  isoDate : Int → Option Text

/-- How a mapping fails, one constructor a variant of `PipelineError`. -/
inductive PipelineError where
  | jsonRead (key message : Text)
  | unknownSourceContainer (key : Text)
  | missingColumns (key : Text) (missing : List Text)
  | eval (key : Text) (source : EvalError)
  | polars (key : Text) (source : Fault Text)
  | noFilesSucceeded
  | partition (message : Text)
  deriving DecidableEq, Repr

/-! ## Evaluation -/

/-- Compile the columns of a mapping under their output names. -/
def compileColumns (registry : Registry) :
    List MappingColumn → Except EvalError (List (Text × Expr))
  | [] => pure []
  | column :: rest => do
    let expr ← compile registry column.expr
    let exprs ← compileColumns registry rest
    pure ((column.name, expr) :: exprs)

/-- What compiled columns consist of. -/
theorem mem_compileColumns {registry : Registry} {columns : List MappingColumn}
    {exprs : List (Text × Expr)} (compiled : compileColumns registry columns = .ok exprs)
    {name : Text} {expr : Expr} : (name, expr) ∈ exprs ↔
      ∃ column ∈ columns, column.name = name ∧ compile registry column.expr = .ok expr := by
  induction columns generalizing exprs with
  | nil =>
    obtain rfl := Except.ok.inj compiled
    simp
  | cons column rest inductionHypothesis =>
    rw [compileColumns] at compiled
    cases first : compile registry column.expr with
    | error error =>
      rw [first] at compiled
      exact nomatch compiled
    | ok own =>
      cases others : compileColumns registry rest with
      | error error =>
        rw [first, others] at compiled
        exact nomatch compiled
      | ok later =>
        rw [first, others] at compiled
        obtain rfl := Except.ok.inj compiled
        simp only [List.mem_cons, Prod.mk.injEq, inductionHypothesis others,
          exists_eq_or_imp, first,
          Except.ok.injEq]
        exact or_congr_left (and_congr eq_comm eq_comm)

section Evaluation

variable (engine : Engine) (registry : Registry)

/-- Select the compiled columns from the projected frame. -/
def selectColumns (projected : DataFrame) (exprs : List (Text × Expr)) :
    Except (Fault Text) DataFrame :=
  projected.select Expr.columnNames engine.evaluate exprs

/-- The second half of `ingest_file`: select the columns of a mapping from the projected
frame, and keep the rows of its predicate. -/
def evaluateMapping (key : Text) (mapping : Mapping) (projected : DataFrame) :
    Except PipelineError DataFrame :=
  match compileColumns registry mapping.columns with
  | .error error => .error (.eval key error)
  | .ok exprs =>
    match mapping.where_ with
    | none => (selectColumns engine projected exprs).mapError (.polars key)
    | some predicate =>
      match compile registry predicate with
      | .error error => .error (.eval key error)
      | .ok expr =>
        match selectColumns engine projected exprs with
        | .error fault => .error (.polars key fault)
        | .ok selected => (selected.filter expr.columnNames (engine.mask expr)).mapError (.polars key)

variable {engine registry}

/-- A mapping's frame has its compiled columns. -/
theorem evaluateMapping_names {key : Text} {mapping : Mapping} {projected frame : DataFrame}
    {exprs : List (Text × Expr)} (compiled : compileColumns registry mapping.columns = .ok exprs)
    (evaluated : evaluateMapping engine registry key mapping projected = .ok frame) :
    frame.names = exprs.map Prod.fst := by
  have selects : ∀ {selected}, selectColumns engine projected exprs = .ok selected →
      selected.names = exprs.map Prod.fst := fun isSelected => select_names isSelected
  simp only [evaluateMapping, compiled] at evaluated
  split at evaluated
  · cases selected : selectColumns engine projected exprs with
    | error fault =>
      rw [selected] at evaluated
      exact nomatch evaluated
    | ok whole =>
      rw [selected] at evaluated
      rw [← Except.ok.inj evaluated, selects selected]
  · split at evaluated
    · exact nomatch evaluated
    · split at evaluated
      · exact nomatch evaluated
      · next selected isSelected =>
        cases kept : selected.filter _ _ with
        | error fault =>
          rw [kept] at evaluated
          exact nomatch evaluated
        | ok rest =>
          rw [kept] at evaluated
          rw [← Except.ok.inj evaluated, filter_names kept, selects isSelected]

end Evaluation

/-! ## Deduplication -/

/-- Keep the first row of each tuple of the dedup keys, and count the others. -/
def dedupRows (frame : DataFrame) (table : AnalyticTable) :
    Except PipelineError (DataFrame × Nat) :=
  if table.dedupKeys.isEmpty then .ok (frame, 0)
  else
    match frame.uniqueStable table.dedupKeys with
    | .error fault => .error (.polars "<dedup>".toList fault)
    | .ok deduped => .ok (deduped, frame.rows.length - deduped.rows.length)

/-! ## Partitions -/

/-- An upper-case hexadecimal digit. -/
def hexDigit (value : Nat) : Char :=
  if value < 10 then Char.ofNat ('0'.toNat + value) else Char.ofNat ('A'.toNat + value - 10)

/-- A byte of a path segment: itself, or percent-escaped. -/
def encodeByte (byte : UInt8) : Text :=
  let character := Char.ofNat byte.toNat
  if character.isAlphanum || character = '.' || character = '_' || character = '-' then [character]
  else ['%', hexDigit (byte.toNat / 16), hexDigit (byte.toNat % 16)]

/-- Percent-encode a partition value for use as a path segment. -/
def encodeSegment (value : Text) : Text :=
  (value.flatMap String.utf8EncodeChar).flatMap encodeByte

/-- An integer in decimal. -/
def integer : Int → Text
  | .ofNat value => decimal value
  | .negSucc value => '-' :: decimal (value + 1)

section Partitions

variable (engine : Engine)

/-- One partition-key cell as its path segment. -/
def segmentValue : Cell → Except PipelineError Text
  | .int value => .ok (integer value)
  | .bool value => .ok (if value then "true".toList else "false".toList)
  | .date days =>
    match engine.isoDate days with
    | some date => .ok date
    | none => .error (.partition ("date value ".toList ++ integer days ++ " out of range".toList))
  | .string value => .ok (encodeSegment value)
  | .null => .error (.partition "unsupported partition key value: Null".toList)
  | .other shown => .error (.partition ("unsupported partition key value: ".toList ++ shown))

/-- The place that errors of a partitioning name. -/
def partitionPlace : Text := "<partition>".toList

/-- Read a column for the partitioning. -/
def keyColumn (frame : DataFrame) (key : Text) : Except PipelineError (List Cell) :=
  (frame.column key).mapError (.polars partitionPlace)

/-- Fail on the first key column with a null. -/
def checkNulls (frame : DataFrame) : List Text → Except PipelineError Unit
  | [] => pure ()
  | key :: rest => do
    let column ← keyColumn frame key
    let nulls := column.countP (· = .null)
    if 0 < nulls then
      throw (.partition ("partition key `".toList ++ key ++ "` has ".toList ++ decimal nulls ++
        " null value(s); rows cannot be assigned to a partition ".toList ++
        "(coalesce in the expression to supply a default)".toList))
    else checkNulls frame rest

/-- The path segment of each key, from the first row of a group. -/
def groupSegments (group : DataFrame) : List Text → Except PipelineError (List Text)
  | [] => pure []
  | key :: rest => do
    let column ← keyColumn group key
    match column with
    | [] => throw (.polars partitionPlace (.compute "index 0 is out of bounds".toList))
    | cell :: _ =>
      let value ← segmentValue engine cell
      let segments ← groupSegments group rest
      pure ((key ++ '=' :: value) :: segments)

/-- The Parquet bytes of a frame. -/
def parquetBytes (frame : DataFrame) : Except PipelineError (List UInt8) :=
  (engine.writeParquet frame).mapError (fun message => .polars partitionPlace (.compute message))

/-- The output of one group: its key columns are in the path only. -/
def groupOutput (mapping : Mapping) (table : AnalyticTable) (group : DataFrame) :
    Except PipelineError PartitionOutput := do
  let segments ← groupSegments engine group table.partitionKeys
  let bytes ← parquetBytes engine (group.dropMany table.partitionKeys)
  pure ⟨partitionKey table.id segments mapping.id, bytes⟩

/-- One output for each distinct tuple of the partition keys; without keys, one for the
whole frame. What the source asserts at its start holds of every call
(`PipelineConfig.tableOf_id`). -/
def producePartitions (frame : DataFrame) (mapping : Mapping) (table : AnalyticTable) :
    Except PipelineError (List PartitionOutput) :=
  if table.partitionKeys.isEmpty then do
    let bytes ← parquetBytes engine frame
    pure [⟨partitionKey table.id [] mapping.id, bytes⟩]
  else do
    checkNulls frame table.partitionKeys
    let groups ← (frame.partitionByStable table.partitionKeys).mapError (.polars partitionPlace)
    groups.mapM (groupOutput engine mapping table)

variable {engine}

/-- The outputs have the keys that the executor expects of an evaluated mapping. -/
theorem producePartitions_genuine {frame : DataFrame} {mapping : Mapping} {table : AnalyticTable}
    {outputs : List PartitionOutput} {files : List (Text × Object)} {dropped : Nat}
    (produces : producePartitions engine frame mapping table = .ok outputs) :
    Genuine (.evaluate mapping (some table) files) (.partitions outputs dropped) := by
  refine ⟨table, rfl, ?_⟩
  rw [producePartitions] at produces
  split at produces
  · next none =>
    cases written : parquetBytes engine frame with
    | error error =>
      rw [written] at produces
      exact nomatch produces
    | ok bytes =>
      rw [written] at produces
      obtain rfl := Except.ok.inj produces
      refine ⟨fun output member => ⟨[], ?_⟩, fun _ => rfl⟩
      rw [List.mem_singleton.mp member]
  · next some =>
    refine ⟨fun output member => ?_, fun none => absurd (List.isEmpty_iff.mpr none) some⟩
    cases checked : checkNulls frame table.partitionKeys with
    | error error =>
      rw [checked] at produces
      exact nomatch produces
    | ok _ =>
    cases parted : frame.partitionByStable table.partitionKeys with
    | error fault =>
      rw [checked, parted] at produces
      exact nomatch produces
    | ok groups =>
      rw [checked, parted] at produces
      obtain ⟨group, _, isOutput⟩ := Results.mapM_mem produces member
      rw [groupOutput] at isOutput
      cases named : groupSegments engine group table.partitionKeys with
      | error error =>
        rw [named] at isOutput
        exact nomatch isOutput
      | ok segments =>
        cases written : parquetBytes engine (group.dropMany table.partitionKeys) with
        | error error =>
          rw [named, written] at isOutput
          exact nomatch isOutput
        | ok bytes =>
          rw [named, written] at isOutput
          rw [← Except.ok.inj isOutput]
          exact ⟨segments, rfl⟩

end Partitions

end KaretWorker
