import KaretWorker.Ast

/-!
# Pipeline configuration

The records of `src/config.rs` with the fields that the validator, the compiler, the
dimension matcher and the executor read. Below them are the lookups of the executor, by
id, and the shape of the object keys of a mapping's output.
-/
namespace KaretWorker

open Texts

/-- Source wire format. -/
inductive SourceFormat where
  | csv
  | ndjson
  deriving DecidableEq, Repr

/-- File extensions accepted when listing the lake for this format. -/
def SourceFormat.extensions : SourceFormat → List Text
  | .csv => [".csv".toList]
  | .ndjson => [".json".toList, ".jsonl".toList, ".ndjson".toList]

/-- A column of a source or a table; its path is used by JSON sources only. -/
structure ColumnSchema where
  name : Text
  path : Option Text
  type : Text
  deriving DecidableEq, Repr

/-- Where the objects of a source lie in the lake, and how they are read. -/
structure SourceContainer where
  id : Text
  name : Text
  pathPrefix : Text
  format : SourceFormat
  schema : List ColumnSchema
  recordFilter : Option AstNode

/-- The object's name ends in one of the container's extensions. -/
def SourceContainer.accepts (container : SourceContainer) (key : Text) : Bool :=
  container.format.extensions.any (fun extension => extension.isSuffixOf key)

/-- How an input is matched against row patterns. -/
inductive MatchMode where
  | exact
  | keywordSubstring
  deriving DecidableEq, Repr

/-- Result for an input that matches no row. -/
inductive OnMiss where
  | null
  | passthrough
  | literal (text : Text)
  deriving DecidableEq, Repr

/-- A row of a dimension that the configuration itself holds. -/
structure InlineDimensionRow where
  patterns : List Text
  values : List Text
  priority : Int
  deriving DecidableEq, Repr

/-- Where a dimension's rows come from. -/
inductive DimensionRows where
  | inline (values : List Text) (rows : List InlineDimensionRow)
  | file (pathPrefix key : Text) (values : List Text) (priorityColumn : Option Text)
  deriving DecidableEq, Repr

/-- A lookup table by id, with how its inputs match and what a miss gives. -/
structure Dimension where
  id : Text
  match_ : MatchMode
  caseInsensitive : Option Bool
  onMiss : OnMiss
  rows : DimensionRows
  deriving DecidableEq, Repr

/-- Value column names in declaration order. -/
def Dimension.valueColumns (dimension : Dimension) : List Text :=
  match dimension.rows with
  | .inline values _ => values
  | .file _ _ values _ => values

/-- An output column of a mapping. -/
structure MappingColumn where
  name : Text
  expr : AstNode

/-- The predicate of a mapping names its output columns. -/
structure Mapping where
  id : Text
  sourceContainerId : Text
  analyticTableId : Text
  columns : List MappingColumn
  where_ : Option AstNode

/-- An output table, with the keys that part and deduplicate its rows. -/
structure AnalyticTable where
  id : Text
  name : Text
  schema : List ColumnSchema
  partitionKeys : List Text
  dedupKeys : List Text
  deriving DecidableEq, Repr

/-- Sources, dimensions, mappings and tables, each in the order of the document. -/
structure PipelineConfig where
  sourceContainers : List SourceContainer
  dimensions : List Dimension
  mappings : List Mapping
  analyticTables : List AnalyticTable

/-- The container a mapping reads from: the first with the id it names. -/
def PipelineConfig.sourceOf (config : PipelineConfig) (mapping : Mapping) :
    Option SourceContainer :=
  config.sourceContainers.find? (fun container => container.id = mapping.sourceContainerId)

/-- The table a mapping writes to: the first with the id it names. -/
def PipelineConfig.tableOf (config : PipelineConfig) (mapping : Mapping) : Option AnalyticTable :=
  config.analyticTables.find? (fun table => table.id = mapping.analyticTableId)

/-- The table found for a mapping has the id that the mapping names, as `produce_partitions`
asserts. -/
theorem PipelineConfig.tableOf_id {config : PipelineConfig} {mapping : Mapping}
    {table : AnalyticTable} (found : config.tableOf mapping = some table) :
    table.id = mapping.analyticTableId := by
  simpa using List.find?_some found

/-- The object key of one partition's output: the table, one segment for each
partition key, and a file named for the mapping. -/
def partitionKey (tableId : Text) (segments : List Text) (mappingId : Text) : Text :=
  tableId ++ '/' :: (segments.flatMap (fun segment => segment ++ ['/']) ++
    mappingId ++ ".parquet".toList)

/-- The middle of an object key, between the table and the file: nothing, or
segments that each end in a slash. -/
def Segmented (middle : Text) : Prop := middle = [] ∨ middle.getLast? = some '/'

instance (middle : Text) : Decidable (Segmented middle) := inferInstanceAs (Decidable (_ ∨ _))

/-- Joined segments are segmented, and whatever is segmented is a join. -/
theorem segmented_iff {middle : Text} :
    Segmented middle ↔ ∃ segments : List Text,
      middle = segments.flatMap (fun segment => segment ++ ['/']) := by
  constructor
  · rintro (rfl | last)
    · exact ⟨[], rfl⟩
    · refine ⟨[middle.dropLast], ?_⟩
      obtain ⟨front, rfl⟩ := List.getLast?_eq_some_iff.mp last
      simp
  · rintro ⟨segments, rfl⟩
    rcases List.eq_nil_or_concat segments with rfl | ⟨front, last, rfl⟩
    · exact Or.inl rfl
    · right
      rw [List.concat_eq_append, List.flatMap_append, List.flatMap_singleton, ← List.append_assoc]
      exact List.getLast?_concat

/-- A key is some partition's exactly when it has the table, the file and a
segmented middle. -/
theorem partitionKey_iff {tableId mappingId key : Text} :
    (∃ rest ∈ key.dropPrefix? (tableId ++ ['/']),
        ∃ middle ∈ rest.dropSuffix? (mappingId ++ ".parquet".toList), Segmented middle) ↔
      ∃ segments, key = partitionKey tableId segments mappingId := by
  simp only [Option.mem_def, dropPrefix_iff, dropSuffix_iff, segmented_iff, partitionKey]
  constructor
  · rintro ⟨_, rfl, _, rfl, segments, rfl⟩
    exact ⟨segments, by simp⟩
  · rintro ⟨segments, rfl⟩
    exact ⟨_, by simp, _, List.append_assoc _ _ _, segments, rfl⟩

/-- The key of a partition splits at its first slash. -/
theorem split_shaped (tableId : Text) (segments : List Text) (mappingId : Text) :
    ∃ halves, splitOnce '/' (partitionKey tableId segments mappingId) = some halves := by
  cases split : splitOnce '/' (partitionKey tableId segments mappingId) with
  | none => exact absurd (by simp [partitionKey]) (not_mem_of_unsplit split)
  | some halves => exact ⟨halves, rfl⟩

/-! ## A small configuration -/

/-- A CSV source with one column. -/
def plainSource : SourceContainer :=
  ⟨"s".toList, "S".toList, "in/".toList, .csv, [⟨"a".toList, none, "string".toList⟩], none⟩

/-- A mapping that copies the column into a table. -/
def plainMapping (tableId : Text) : Mapping :=
  ⟨"m".toList, "s".toList, tableId, [⟨"a".toList, .col "a".toList⟩], none⟩

/-- A table of that column, without partitions and without dedup. -/
def plainTable (id : Text) : AnalyticTable :=
  ⟨id, "T".toList, [⟨"a".toList, none, "string".toList⟩], [], []⟩

/-- The same table, partitioned by its column. Without rows it has no partition. -/
def partitionedTable (id : Text) : AnalyticTable :=
  { plainTable id with partitionKeys := ["a".toList] }

end KaretWorker
