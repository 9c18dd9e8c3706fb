import KaretWorker.JsonSource
import KaretWorker.FileUnion
import KaretWorker.SourceRouting

/-!
# Ingestion of JSON files

What `read_json_source` of `src/json_source.rs` hands to `ingest_file` of `src/pipeline.rs`: each
builder becomes a column, whose type is the declared one whatever the file holds.

So the files of a JSON source agree on the types of their columns, and a mapping over them is
never lost to a type mismatch between files (`json_files_unite`), as one over CSV files may be.
-/
namespace KaretWorker

open Texts Frames

/-- The type of a builder's column. -/
def Builder.columnType : Builder → ColumnType
  | .str _ => .string
  | .i64 _ => .int64
  | .f64 _ => .float64
  | .bool _ => .boolean

section Typed

-- Floats and JSON are shown and parsed by a library.
variable (fromStr : Text → Option Json.Value) (showFloat : BitVec 64 → Text)
  (utf8Error : List UInt8 → Text) (frameError : List Text → Text) (showCell : BitVec 64 → Text)

/-- A value as a cell of a frame. -/
def frameCell : Option JsonCell → Cell
  | none => .null
  | some (.str text) => .string text
  | some (.i64 value) => .int value
  | some (.f64 bits) => .other (showCell bits)
  | some (.bool value) => .bool value

/-- A frame from its finished columns. -/
def JsonFrame.typed (frame : JsonFrame) : TypedFrame where
  frame := ⟨frame.columns.map Prod.fst, (List.range frame.height).map (fun place =>
      frame.columns.map (fun column => frameCell showCell column.2.cells[place]?.join)), frame.distinct, by
    intro row member
    obtain ⟨place, _, rfl⟩ := List.mem_map.mp member
    rw [List.length_map, List.length_map]⟩
  schema := frame.columns.map (fun column => (column.1, column.2.columnType))
  named := by rw [List.map_map]; rfl

/-- Read a JSON source file as a frame; the count of skipped records is only logged. -/
def readJsonTyped (source : SourceContainer) (bytes : List UInt8) : Except Text TypedFrame :=
  (readJsonSource fromStr showFloat utf8Error frameError source bytes).map (fun read => read.1.typed showCell)

/-- The types that a schema declares. -/
def declaredTypes (schema : List ColumnSchema) : Schema :=
  schema.map (fun column => (column.name, (Builder.forType column.type).columnType))

end Typed

section Union

variable {fromStr : Text → Option Json.Value} {showFloat : BitVec 64 → Text}
  {utf8Error : List UInt8 → Text} {frameError : List Text → Text} {showCell : BitVec 64 → Text}
  {polars : Polars} {registry : Registry} {config : PipelineConfig} {container : SourceContainer}

/-- A builder keeps its type over all pushes. -/
theorem columnType_foldl (builder : Builder) (values : List (Option Json.Value)) :
    (values.foldl (fun built value => built.push showFloat value) builder).columnType =
      builder.columnType := by
  induction values generalizing builder with
  | nil => rfl
  | cons value rest inductionHypothesis =>
    rw [List.foldl_cons, inductionHypothesis]
    cases builder <;> rfl

/-- A file that is read has the declared types. -/
theorem readJsonTyped_schema {bytes : List UInt8} {frame : TypedFrame}
    (reads : readJsonTyped fromStr showFloat utf8Error frameError showCell container bytes =
      .ok frame) :
    frame.schema = declaredTypes container.schema := by
  unfold readJsonTyped at reads
  cases read : readJsonSource fromStr showFloat utf8Error frameError container bytes with
  | error message =>
    rw [read] at reads
    exact nomatch reads
  | ok found =>
    rw [read] at reads
    obtain rfl := Except.ok.inj reads
    obtain ⟨records, _, _, _, columns⟩ := readJsonSource_ok read
    simp only [JsonFrame.typed, columns, foldl_pushRecord, List.zip_map', List.map_map,
      declaredTypes]
    refine List.map_congr_left (fun column _ => ?_)
    simp only [Function.comp_apply, columnType_foldl]

/-- A filter of records keeps the columns. -/
theorem filterRecords_schema {key : Text} {source kept : TypedFrame}
    (filters : filterRecords polars registry key container source = .ok kept) :
    kept.schema = source.schema := by
  unfold filterRecords at filters
  split at filters
  · rw [← Except.ok.inj filters]
  · split at filters
    · exact nomatch filters
    · split at filters
      · exact nomatch filters
      · rw [← Except.ok.inj filters]

/-- Under a JSON source every file has the declared types. -/
theorem projectsTo_declared (valid : config.Valid)
    (isContainer : container ∈ config.sourceContainers)
    (isJson : container.format = .ndjson) {file : Text × List UInt8}
    (around : container.pathPrefix <+: file.1) {projected : TypedFrame}
    (projects :
      ProjectsTo polars (readJsonTyped fromStr showFloat utf8Error frameError showCell) registry
      config file projected) : projected.schema = declaredTypes container.schema := by
  obtain ⟨other, resolved, reads⟩ := projects
  obtain rfl := Except.ok.inj
    ((resolve_around valid (List.Subset.refl _) isContainer around).symm.trans resolved)
  rw [readProjected, isJson] at reads
  simp only [readJsonRecords] at reads
  split at reads
  · exact nomatch reads
  · next source isSource =>
    rw [filterRecords_schema reads, readJsonTyped_schema isSource]

/-- Every file of a JSON source that can be read has the declared type in each column, and the
files are collected as the union of those that are ingested, unless none is. -/
theorem json_files_unite {mapping : Mapping} (accepted : validate config = .ok ())
    (reads : config.sourceOf mapping = some container) (isJson : container.format = .ndjson)
    (files : List (Text × List UInt8)) :
    (∀ file ∈ files.filter (fun file => container.pathPrefix.isPrefixOf file.1), ∀ projected,
      ProjectsTo polars (readJsonTyped fromStr showFloat utf8Error frameError showCell) registry config
        file projected → projected.schema = declaredTypes container.schema) ∧
    IsUnion polars (readJsonTyped fromStr showFloat utf8Error frameError showCell) registry config mapping
      (files.filter (fun file => container.pathPrefix.isPrefixOf file.1)) := by
  have valid := validate_iff.mp accepted
  have isContainer : container ∈ config.sourceContainers := List.mem_of_find?_eq_some reads
  refine ⟨fun file isFile projected projects => projectsTo_declared valid isContainer isJson
    (List.isPrefixOf_iff_prefix.mp (List.mem_filter.mp isFile).2) projects, ?_⟩
  refine isUnion_of_agree ?_
  intro file isFile other isOther _ _ left right ofFile ofOther column _ expr _
  have around := List.isPrefixOf_iff_prefix.mp (List.mem_filter.mp isFile).2
  have alsoAround := List.isPrefixOf_iff_prefix.mp (List.mem_filter.mp isOther).2
  rw [projectsTo_declared valid isContainer isJson around ofFile,
    projectsTo_declared valid isContainer isJson alsoAround ofOther]

end Union

/-! ## A number and a word -/

/-- A mapping that copies the column of integers. -/
def countConfig : PipelineConfig :=
  ⟨[countSource], [], [plainMapping "t".toList], [plainTable "t".toList]⟩

/-- How an object with a number and one with a word are parsed. -/
def parseEither (entry : Text) : Option Json.Value :=
  if entry = "\x7b\"a\":1\x7d".toList then some (.object [("a".toList, .number (.integer 1))])
  else if entry = "\x7b\"a\":\"x\"\x7d".toList then some (.object [("a".toList, .string "x".toList)])
  else none

/-- A file of a number, a file of a word and a file of an array. -/
def eitherFiles : List (Text × List UInt8) :=
  [("logs/1".toList, "\x7b\"a\":1\x7d\n".toList.flatMap String.utf8EncodeChar),
    ("logs/2".toList, "\x7b\"a\":\"x\"\x7d\n".toList.flatMap String.utf8EncodeChar),
    ("logs/3".toList, "[1]".toList.flatMap String.utf8EncodeChar)]

/-- The first two are read as integers, and their union is collected. -/
theorem json_files_unite_either :
    (∀ file ∈ eitherFiles.filter (fun file => countSource.pathPrefix.isPrefixOf file.1), ∀ projected,
      ProjectsTo columnPolars (readJsonTyped parseEither (fun _ => []) (fun _ => []) (fun _ => [])
        (fun _ => [])) ∅ countConfig file projected →
        projected.schema = declaredTypes countSource.schema) ∧
    IsUnion columnPolars (readJsonTyped parseEither (fun _ => []) (fun _ => []) (fun _ => []) (fun _ => []))
      ∅ countConfig (plainMapping "t".toList)
      (eitherFiles.filter (fun file => countSource.pathPrefix.isPrefixOf file.1)) :=
  json_files_unite (by decide +kernel) rfl rfl eitherFiles

end KaretWorker
