import KaretWorker.MappingFrames

/-!
# Ingestion of source files

`ingest_file` and `ingest_many` of `src/pipeline.rs`. A file is read with the format and
the schema of the first container whose prefix its key has, projected to that schema, and
run through the mapping. A file that fails is skipped; the frames of the others are
stacked.

Columns have types here. What the data frame library makes of bytes, expressions and
stacks of frames is given by `Polars`, whose fields say what is relied on: a column
expression keeps the type of its column, frames of one schema are stacked, and frames
that disagree on the type of a column are not.
-/
namespace KaretWorker

open Texts Frames

/-- The type of a column of a frame. -/
inductive ColumnType where
  | null
  | boolean
  | int64
  | float64
  | string
  | date
  | datetimeMillis
  deriving DecidableEq, Repr

/-- Columns with their types. -/
abbrev Schema : Type := List (Text × ColumnType)

/-- A frame with the types of its columns. -/
structure TypedFrame where
  frame : DataFrame
  schema : Schema
  named : schema.map Prod.fst = frame.names

/-- Two frames have a column of one name but of different types. -/
def Clash (left right : TypedFrame) : Prop :=
  ∃ name leftType rightType, (name, leftType) ∈ left.schema ∧ (name, rightType) ∈ right.schema ∧
    leftType ≠ rightType

/-- The rows of frames, one frame after the other, under the schema of each of them. -/
structure Stacks (frames : List TypedFrame) (whole : TypedFrame) : Prop where
  rows : whole.frame.rows = frames.flatMap (fun part => part.frame.rows)
  schema : ∀ part ∈ frames, whole.schema = part.schema

/-- What is used of the data frame library. Computations may depend on the types of the
columns they are given. -/
structure Polars where
  readCsv : List UInt8 → Except Text TypedFrame
  engine : Schema → Engine
  typeOf : Schema → Expr → ColumnType
  Lazy : Type
  concat : List TypedFrame → Except Text Lazy
  collect : Lazy → Except Text TypedFrame
  stacked : ∀ frames : List TypedFrame, frames ≠ [] →
    (∀ left ∈ frames, ∀ right ∈ frames, left.schema = right.schema) →
      ∃ union whole, concat frames = .ok union ∧ collect union = .ok whole ∧ Stacks frames whole
  mismatch : ∀ frames : List TypedFrame, (∃ left ∈ frames, ∃ right ∈ frames, Clash left right) →
    ∀ union, concat frames = .ok union → ∃ message, collect union = .error message

/-! ## One file -/

/-- The first container whose prefix the key has. -/
def resolveSourceContainer (key : Text) (config : PipelineConfig) :
    Except PipelineError SourceContainer :=
  match config.sourceContainers.find? (fun container => container.pathPrefix.isPrefixOf key) with
  | some container => .ok container
  | none => .error (.unknownSourceContainer key)

/-- The columns of the schema that the headers lack are the error. -/
def validateCsvHeaders (headers : List Text) (schema : List ColumnSchema) :
    Except (List Text) Unit :=
  let missing := (schema.filter (fun column => column.name ∉ headers)).map ColumnSchema.name
  if missing.isEmpty then .ok () else .error missing

/-- The cells of each row in some columns. -/
def projectRows (names : List Text) (frame : DataFrame) : Except Text (RowsOf Cell names.length) :=
  .ok ⟨frame.rows.map (fun row => names.map (fun name => row[frame.names.idxOf name]?.getD .null)),
    fun row member => by
      obtain ⟨whole, _, rfl⟩ := List.mem_map.mp member
      exact List.length_map _⟩

/-- The type of a column, if it is there. -/
def Schema.typeAt (schema : Schema) (name : Text) : ColumnType :=
  ((schema.find? (fun column => column.1 = name)).map Prod.snd).getD .null

/-- Project a frame to the columns of a schema, in declaration order. -/
def projectSchemaColumns (source : TypedFrame) (schema : List ColumnSchema) :
    Except (Fault Text) TypedFrame :=
  match projects : source.frame.select (fun name => [name]) projectRows
      (schema.map (fun column => (column.name, column.name))) with
  | .error fault => .error fault
  | .ok frame => .ok ⟨frame, schema.map (fun column => (column.name, source.schema.typeAt column.name)),
      by rw [select_names projects, List.map_map, List.map_map]; rfl⟩

section Ingestion

variable (polars : Polars) (readJsonSource : SourceContainer → List UInt8 → Except Text TypedFrame)
  (registry : Registry)

/-- Read a CSV file and project it to the container's schema. -/
def readCsvSource (key : Text) (container : SourceContainer) (bytes : List UInt8) :
    Except PipelineError TypedFrame :=
  match polars.readCsv bytes with
  | .error message => .error (.polars key (.compute message))
  | .ok source =>
    match validateCsvHeaders source.frame.names container.schema with
    | .error missing => .error (.missingColumns key missing)
    | .ok () => (projectSchemaColumns source container.schema).mapError (.polars key)

/-- Keep the records of a JSON file that the container's filter is true of. -/
def filterRecords (key : Text) (container : SourceContainer) (source : TypedFrame) :
    Except PipelineError TypedFrame :=
  match container.recordFilter with
  | none => .ok source
  | some filter =>
    match compile registry filter with
    | .error error => .error (.eval key error)
    | .ok expr =>
      match kept : source.frame.filter expr.columnNames
          ((polars.engine source.schema).mask expr) with
      | .error fault => .error (.polars key fault)
      | .ok frame => .ok ⟨frame, source.schema, by rw [source.named, filter_names kept]⟩

/-- Read a JSON file, whose paths bind the columns of the schema. -/
def readJsonRecords (key : Text) (container : SourceContainer) (bytes : List UInt8) :
    Except PipelineError TypedFrame :=
  match readJsonSource container bytes with
  | .error message => .error (.jsonRead key message)
  | .ok source => filterRecords polars registry key container source

/-- Read a file in the format of its container. -/
def readProjected (key : Text) (container : SourceContainer) (bytes : List UInt8) :
    Except PipelineError TypedFrame :=
  match container.format with
  | .csv => readCsvSource polars key container bytes
  | .ndjson => readJsonRecords polars readJsonSource registry key container bytes

/-- The types of compiled columns. -/
def typedColumns (schema : Schema) (exprs : List (Text × Expr)) : Schema :=
  exprs.map (fun column => (column.1, polars.typeOf schema column.2))

/-- The engine that selects over the source's columns and filters over the outputs. -/
def mappingEngine (schema outputs : Schema) : Engine :=
  { polars.engine schema with mask := (polars.engine outputs).mask }

/-- The outputs of a mapping over a projected file. -/
def evaluateTyped (key : Text) (mapping : Mapping) (projected : TypedFrame) :
    Except PipelineError TypedFrame :=
  match compiled : compileColumns registry mapping.columns with
  | .error error => .error (.eval key error)
  | .ok exprs =>
    match evaluated : evaluateMapping (mappingEngine polars projected.schema
        (typedColumns polars projected.schema exprs)) registry key mapping projected.frame with
    | .error error => .error error
    | .ok frame => .ok ⟨frame, typedColumns polars projected.schema exprs, by
        rw [evaluateMapping_names compiled evaluated, typedColumns, List.map_map]; rfl⟩

/-- Ingest a file with the format and the schema of a container. -/
def ingestFrom (key : Text) (container : SourceContainer) (mapping : Mapping) (bytes : List UInt8) :
    Except PipelineError TypedFrame :=
  match readProjected polars readJsonSource registry key container bytes with
  | .error error => .error error
  | .ok projected => evaluateTyped polars registry key mapping projected

/-- Ingest one source file through one mapping. -/
def ingestFile (config : PipelineConfig) (mapping : Mapping) (key : Text) (bytes : List UInt8) :
    Except PipelineError TypedFrame :=
  match resolveSourceContainer key config with
  | .error error => .error error
  | .ok container => ingestFrom polars readJsonSource registry key container mapping bytes

/-! ## Many files -/

/-- The frames of the files that are ingested, in order; a file that fails is skipped. -/
def ingestedFrames (config : PipelineConfig) (mapping : Mapping) (files : List (Text × List UInt8)) :
    List TypedFrame :=
  files.filterMap (fun file =>
    (ingestFile polars readJsonSource registry config mapping file.1 file.2).toOption)

/-- Ingest files through a mapping and stack their frames. -/
def ingestMany (config : PipelineConfig) (mapping : Mapping) (files : List (Text × List UInt8)) :
    Except PipelineError polars.Lazy :=
  let frames := ingestedFrames polars readJsonSource registry config mapping files
  if frames.isEmpty then .error .noFilesSucceeded
  else (polars.concat frames).mapError (fun message => .polars "<multi>".toList (.compute message))

/-- The stack once it is collected, if that succeeds. -/
def ingestAndCollect (config : PipelineConfig) (mapping : Mapping)
    (files : List (Text × List UInt8)) : Option TypedFrame :=
  match ingestMany polars readJsonSource registry config mapping files with
  | .error _ => none
  | .ok union => (polars.collect union).toOption

end Ingestion

end KaretWorker
