import KaretWorker.JsonCells
import KaretWorker.Compilation

/-!
# Frames of JSON files

`parse_records` and `read_json_source` of `src/json_source.rs`. A file has one JSON object
per line; blank lines are passed over and lines that cannot be parsed are skipped and
counted. Each column of the schema binds to a path inside the record.

Every line that parses becomes a record, an object or not. So rows and objects correspond
one to one, and the count of skipped lines is right, exactly for the files in which each
line that parses holds an object (`readJsonSource_iff`).
-/
namespace KaretWorker

open Texts Csv

/-- A text without the white space at its ends. -/
def trim (text : Text) : Text := (text.dropWhile isWhiteSpace).rdropWhile isWhiteSpace

/-- A frame with typed columns, all of one length and no two of one name. -/
structure JsonFrame where
  height : Nat
  columns : List (Text × Builder)
  even : ∀ column ∈ columns, column.2.cells.length = height
  distinct : (columns.map Prod.fst).Nodup

section Source

-- JSON is parsed and floats are shown by a library; the texts of some errors are not ours.
variable (fromStr : Text → Option Json.Value) (showFloat : BitVec 64 → Text)
  (utf8Error : List UInt8 → Text) (frameError : List Text → Text)

/-- Read lines: what parses is a record, and what does not is counted. -/
def parseLines : List Text → List Json.Value → Nat → List Json.Value × Nat
  | [], records, skipped => (records, skipped)
  | line :: rest, records, skipped =>
    if (trim line).isEmpty then parseLines rest records skipped
    else
      match fromStr (trim line) with
      | some value => parseLines rest (records ++ [value]) skipped
      | none => parseLines rest records (skipped + 1)

/-- Split file bytes into records. -/
def parseRecords (format : SourceFormat) (bytes : List UInt8) :
    Except Text (List Json.Value × Nat) :=
  match format with
  | .ndjson =>
    match bytes.toByteArray.utf8Decode? with
    | none => .error ("invalid UTF-8: ".toList ++ utf8Error bytes)
    | some text =>
      if (text.toList.dropWhile isWhiteSpace).head? = some '[' then
        .error ("file looks like a single JSON array; this source reads one JSON object " ++
          "per line (NDJSON)").toList
      else .ok (parseLines fromStr (lines text.toList) [] 0)
  | .csv => .error "read_json called for a CSV source".toList

/-- Push what each path resolves to in a record to the column's builder. -/
def pushRecord (compiled : List (List PathStep)) (builders : List Builder) (record : Json.Value) :
    List Builder :=
  List.zipWith (fun steps builder => builder.push showFloat (resolvePath record steps))
    compiled builders

/-- Build a frame, whose columns must be as long as it is high and have different names. -/
def JsonFrame.new (height : Nat) (columns : List (Text × Builder)) : Except Text JsonFrame :=
  if fits : (∀ column ∈ columns, column.2.cells.length = height) ∧ (columns.map Prod.fst).Nodup then
    .ok ⟨height, columns, fits.1, fits.2⟩
  else .error ("frame build failed: ".toList ++ frameError (columns.map Prod.fst))

/-- Read a JSON source file, with the number of records that were skipped. -/
def readJsonSource (source : SourceContainer) (bytes : List UInt8) :
    Except Text (JsonFrame × Nat) := do
  let (records, skipped) ← parseRecords fromStr utf8Error source.format bytes
  let compiled ← source.schema.mapM (fun column => compilePath column.recordPath)
  let builders := source.schema.map (fun column => Builder.forType column.type)
  let filled := records.foldl (pushRecord showFloat compiled) builders
  let columns := (source.schema.map ColumnSchema.name).zip filled
  let frame ← JsonFrame.new frameError records.length columns
  return (frame, skipped)

/-! ## What a file holds -/

/-- The lines of a file that are not blank, trimmed. -/
def entries (text : Text) : List Text := ((lines text).map trim).filter (fun line => !line.isEmpty)

/-- The object that an entry holds. -/
def readObject (entry : Text) : Option Json.Value :=
  match fromStr entry with
  | some (.object members) => some (.object members)
  | _ => none

/-- The column of a schema over some records: for each of them the coercion of what the
path resolves to. -/
def ColumnOf (records : List Json.Value) (column : ColumnSchema) (built : Text × Builder) : Prop :=
  built.1 = column.name ∧ ∃ steps, compilePath column.recordPath = .ok steps ∧
    built.2.cells = records.map (fun record =>
      (Builder.forType column.type).cell showFloat (resolvePath record steps))

/-- A frame has a row for each of some records, and a column for each one of the schema. -/
structure FrameOf (records : List Json.Value) (source : SourceContainer) (frame : JsonFrame) : Prop where
  height : frame.height = records.length
  columns : List.Forall₂ (ColumnOf showFloat records) source.schema frame.columns

/-- The rows of a frame are the objects of a file, in order, and what was skipped are the
entries that hold no object. -/
structure RowsCorrespond (source : SourceContainer) (text : Text) (frame : JsonFrame) (skipped : Nat) :
    Prop where
  rows : FrameOf showFloat ((entries text).filterMap (readObject fromStr)) source frame
  skips : skipped = (entries text).countP (fun entry => (readObject fromStr entry).isNone)

end Source

/-! ## Reading lines -/

section Reading

variable {fromStr : Text → Option Json.Value} {showFloat : BitVec 64 → Text}
  {utf8Error : List UInt8 → Text} {frameError : List Text → Text}

/-- Reading lines collects the entries that parse and counts the others. -/
theorem parseLines_entries (unread : List Text) (records : List Json.Value) (skipped : Nat) :
    parseLines fromStr unread records skipped =
      (records ++ ((unread.map trim).filter (fun line => !line.isEmpty)).filterMap fromStr,
        skipped + ((unread.map trim).filter (fun line => !line.isEmpty)).countP
          (fun entry => (fromStr entry).isNone)) := by
  induction unread generalizing records skipped with
  | nil => simp [parseLines]
  | cons line rest inductionHypothesis =>
    rw [parseLines]
    by_cases blank : (trim line).isEmpty = true
    · rw [if_pos blank, inductionHypothesis]
      simp [blank]
    · rw [if_neg blank]
      cases parsed : fromStr (trim line) with
      | none =>
        simp only [inductionHypothesis]
        simp [blank, parsed, Nat.add_assoc, Nat.add_comm 1]
      | some value =>
        simp only [inductionHypothesis]
        simp [blank, parsed]

/-- A file that is read is NDJSON, and its records are the entries that parse. -/
theorem parseRecords_ok {format : SourceFormat} {bytes : List UInt8} {text : Array Char}
    (decoded : bytes.toByteArray.utf8Decode? = some text) {records : List Json.Value}
    {skipped : Nat}
    (parses : parseRecords fromStr utf8Error format bytes = .ok (records, skipped)) :
    records = (entries text.toList).filterMap fromStr ∧
      skipped = (entries text.toList).countP (fun entry => (fromStr entry).isNone) := by
  cases format with
  | csv => exact nomatch parses
  | ndjson =>
    simp only [parseRecords, decoded] at parses
    split at parses
    · exact nomatch parses
    · rw [Except.ok.injEq, parseLines_entries, Prod.mk.injEq, List.nil_append,
        Nat.zero_add] at parses
      exact ⟨parses.1.symm, parses.2.symm⟩

/-! ## Filling columns -/

/-- A builder keeps its type, and so the cell it would append. -/
theorem cell_push (builder : Builder) (pushed value : Option Json.Value) :
    (builder.push showFloat pushed).cell showFloat value = builder.cell showFloat value := by
  cases builder <;> rfl

/-- Pushing values one after another appends their cells. -/
theorem cells_foldl (builder : Builder) (values : List (Option Json.Value)) :
    (values.foldl (fun builder value => builder.push showFloat value) builder).cells =
      builder.cells ++ values.map (fun value => builder.cell showFloat value) := by
  induction values generalizing builder with
  | nil => simp
  | cons value rest inductionHypothesis =>
    rw [List.foldl_cons, inductionHypothesis, push_cells]
    simp [cell_push]

/-- Pushing records one after another fills each column on its own. -/
theorem foldl_pushRecord {α : Type} (columns : List α) (steps : α → List PathStep)
    (builder : α → Builder) (records : List Json.Value) :
    records.foldl (pushRecord showFloat (columns.map steps)) (columns.map builder) =
      columns.map (fun column =>
        (records.map (fun record => resolvePath record (steps column))).foldl
          (fun builder value => builder.push showFloat value) (builder column)) := by
  induction records generalizing builder with
  | nil => rfl
  | cons record rest inductionHypothesis =>
    have pushed : pushRecord showFloat (columns.map steps) (columns.map builder) record =
        columns.map (fun column =>
          (builder column).push showFloat (resolvePath record (steps column))) := by
      rw [pushRecord, List.zipWith_map, List.zipWith_self]
    rw [List.foldl_cons, pushed, inductionHypothesis]
    rfl

/-- The steps of a column's path. -/
def ColumnSchema.steps (column : ColumnSchema) : List PathStep :=
  ((compilePath column.recordPath).toOption).getD []

/-- Paths that compile are the steps of each column. -/
theorem mapM_compilePath {schema : List ColumnSchema} {compiled : List (List PathStep)}
    (compiles : schema.mapM (fun column => compilePath column.recordPath) = .ok compiled) :
    compiled = schema.map ColumnSchema.steps ∧
      ∀ column ∈ schema, compilePath column.recordPath = .ok column.steps := by
  have known : ∀ (column : ColumnSchema) steps, compilePath column.recordPath = .ok steps →
      column.steps = steps := by
    intro column steps isSteps
    rw [ColumnSchema.steps, isSteps]
    rfl
  refine ⟨Results.mapM_ok_map known compiles, fun column member => ?_⟩
  obtain ⟨steps, _, isSteps⟩ := Results.forall₂_exists (Results.mapM_ok_iff.mp compiles) member
  rw [isSteps, known column steps isSteps]

/-- The builder of a column before anything is pushed is empty. -/
theorem forType_cells (type : Text) : (Builder.forType type).cells = [] := by
  unfold Builder.forType
  split_ifs <;> rfl

/-- A file is read when its lines are, all paths compile and the frame is built. -/
theorem readJsonSource_ok {source : SourceContainer} {bytes : List UInt8} {frame : JsonFrame}
    {skipped : Nat}
    (reads : readJsonSource fromStr showFloat utf8Error frameError source bytes =
      .ok (frame, skipped)) :
    ∃ records, parseRecords fromStr utf8Error source.format bytes = .ok (records, skipped) ∧
      (∀ column ∈ source.schema, compilePath column.recordPath = .ok column.steps) ∧
      frame.height = records.length ∧
      frame.columns = (source.schema.map ColumnSchema.name).zip
        (records.foldl (pushRecord showFloat (source.schema.map ColumnSchema.steps))
          (source.schema.map (fun column => Builder.forType column.type))) := by
  unfold readJsonSource at reads
  cases parses : parseRecords fromStr utf8Error source.format bytes with
  | error message =>
    rw [parses] at reads
    exact nomatch reads
  | ok read =>
  obtain ⟨records, count⟩ := read
  cases compiles : source.schema.mapM (fun column => compilePath column.recordPath) with
  | error message =>
    simp only [parses, compiles] at reads
    exact nomatch reads
  | ok compiled =>
  obtain ⟨rfl, eachCompiles⟩ := mapM_compilePath compiles
  simp only [parses, compiles, bind, Except.bind, JsonFrame.new] at reads
  split at reads
  · exact nomatch reads
  · next built isBuilt =>
    split at isBuilt
    · obtain rfl := Except.ok.inj isBuilt
      obtain ⟨⟩ := reads
      exact ⟨records, rfl, eachCompiles, rfl, rfl⟩
    · exact nomatch isBuilt

/-- A column that is filled has the coercion of what its path resolves to in each record. -/
theorem columnOf_filled {schema : List ColumnSchema} (records : List Json.Value)
    (compile : ∀ column ∈ schema, compilePath column.recordPath = .ok column.steps) :
    List.Forall₂ (ColumnOf showFloat records) schema ((schema.map ColumnSchema.name).zip
      (records.foldl (pushRecord showFloat (schema.map ColumnSchema.steps))
        (schema.map (fun column => Builder.forType column.type)))) := by
  rw [foldl_pushRecord, List.zip_map', List.forall₂_map_right_iff, List.forall₂_same]
  intro column member
  refine ⟨rfl, column.steps, compile column member, ?_⟩
  rw [cells_foldl, forType_cells, List.nil_append, List.map_map]
  rfl

/-- A file that is read has a row for each entry that parses. -/
theorem readJsonSource_rows {source : SourceContainer} {bytes : List UInt8} {text : Array Char}
    {frame : JsonFrame} {skipped : Nat} (decoded : bytes.toByteArray.utf8Decode? = some text)
    (reads : readJsonSource fromStr showFloat utf8Error frameError source bytes =
      .ok (frame, skipped)) :
    FrameOf showFloat ((entries text.toList).filterMap fromStr) source frame ∧
      skipped = (entries text.toList).countP (fun entry => (fromStr entry).isNone) := by
  obtain ⟨records, parses, compile, height, columns⟩ := readJsonSource_ok reads
  obtain ⟨rfl, isCount⟩ := parseRecords_ok decoded parses
  refine ⟨⟨height, ?_⟩, isCount⟩
  rw [columns]
  exact columnOf_filled _ compile

/-- The objects of a file are those of its records that are objects. -/
theorem objects_records (fromStr : Text → Option Json.Value) (found : List Text) :
    found.filterMap (readObject fromStr) = (found.filterMap fromStr).filter
      (fun value => match value with | .object _ => true | _ => false) := by
  rw [List.filter_filterMap]
  refine List.filterMap_congr (fun entry _ => ?_)
  unfold readObject
  rcases fromStr entry with _ | (_ | _ | _ | _ | _ | _) <;> rfl

/-- Rows and objects correspond one to one, with the right count of skipped entries, exactly
when every entry that parses holds an object. -/
theorem readJsonSource_iff {source : SourceContainer} {bytes : List UInt8} {text : Array Char}
    {frame : JsonFrame} {skipped : Nat} (decoded : bytes.toByteArray.utf8Decode? = some text)
    (reads : readJsonSource fromStr showFloat utf8Error frameError source bytes = .ok (frame, skipped)) :
    RowsCorrespond fromStr showFloat source text.toList frame skipped ↔
      ∀ entry ∈ entries text.toList, ∀ value, fromStr entry = some value →
        ∃ members, value = .object members := by
  obtain ⟨rows, isCount⟩ := readJsonSource_rows decoded reads
  constructor
  · intro corresponds
    have sameLength := rows.height.symm.trans corresponds.rows.height
    rw [objects_records] at sameLength
    have allObjects := List.length_filter_eq_length_iff.mp sameLength.symm
    intro entry isEntry value parsed
    have isObject := allObjects value (List.mem_filterMap.mpr ⟨entry, isEntry, parsed⟩)
    split at isObject
    · next members => exact ⟨members, rfl⟩
    · exact nomatch isObject
  · intro onlyObjects
    have same : ∀ entry ∈ entries text.toList, readObject fromStr entry = fromStr entry := by
      intro entry isEntry
      unfold readObject
      split
      · next members parsed => exact parsed.symm
      · next notObject =>
        cases parsed : fromStr entry with
        | none => rfl
        | some value =>
          obtain ⟨members, rfl⟩ := onlyObjects entry isEntry value parsed
          exact absurd parsed (notObject members)
    constructor
    · rw [List.filterMap_congr same]
      exact rows
    · rw [isCount]
      refine List.countP_congr (fun entry isEntry => ?_)
      rw [same entry isEntry]

/-- The bytes of a text are read as that text. -/
theorem parseRecords_utf8 (text : Text) :
    parseRecords fromStr utf8Error .ndjson (text.flatMap String.utf8EncodeChar) =
      if (text.dropWhile isWhiteSpace).head? = some '[' then
        .error ("file looks like a single JSON array; this source reads one JSON object " ++
          "per line (NDJSON)").toList
      else .ok (parseLines fromStr (lines text) [] 0) := by
  have decoded : (text.flatMap String.utf8EncodeChar).toByteArray.utf8Decode? = some text.toArray :=
    List.utf8Decode?_utf8Encode
  rw [parseRecords]
  simp only [decoded]

end Reading

/-! ## Two files -/

/-- A source with one column of integers. -/
def countSource : SourceContainer where
  id := "s".toList
  name := "S".toList
  pathPrefix := "logs/".toList
  format := .ndjson
  schema := [⟨"a".toList, none, "int64".toList⟩]
  recordFilter := none

/-- How three entries are parsed; anything else is no JSON here. -/
def parseCounts (entry : Text) : Option Json.Value :=
  if entry = "42".toList then some (.number (.integer 42))
  else if entry = "\x7b\"a\":1\x7d".toList then some (.object [("a".toList, .number (.integer 1))])
  else if entry = "\x7b\"a\":3\x7d".toList then some (.object [("a".toList, .number (.integer 3))])
  else none

/-- A line with a number becomes a row that no object is behind, and is not counted. -/
theorem number_becomes_row : ∃ frame, readJsonSource parseCounts (fun _ => []) (fun _ => [])
      (fun _ => []) countSource ("42\n".toList.flatMap String.utf8EncodeChar) = .ok (frame, 0) ∧
    frame.height = 1 ∧ ¬ RowsCorrespond parseCounts (fun _ => []) countSource "42\n".toList frame 0 := by
  refine ⟨⟨1, [("a".toList, .i64 [none])], by decide, by decide⟩, ?_, rfl, ?_⟩
  · rw [readJsonSource, countSource, parseRecords_utf8]
    rfl
  · intro corresponds
    have height : 1 = ((entries "42\n".toList).filterMap (readObject parseCounts)).length :=
      corresponds.rows.height
    exact absurd height (by decide +kernel)

/-- A file with two objects, a blank line and one that is no JSON. -/
def countFile : Text := "\x7b\"a\":1\x7d\nnot json at all\n\n\x7b\"a\":3\x7d\n".toList

/-- A file of one record, read with a column for its count. -/
theorem readJsonSource_iff_counts : ∃ frame, readJsonSource parseCounts (fun _ => []) (fun _ => [])
      (fun _ => []) countSource (countFile.flatMap String.utf8EncodeChar) = .ok (frame, 1) ∧
    RowsCorrespond parseCounts (fun _ => []) countSource countFile frame 1 := by
  have reads : readJsonSource parseCounts (fun _ => []) (fun _ => []) (fun _ => []) countSource
      (countFile.flatMap String.utf8EncodeChar) =
        .ok (⟨2, [("a".toList, .i64 [some 1, some 3])], by decide, by decide⟩, 1) := by
    rw [readJsonSource, countSource, parseRecords_utf8]
    rfl
  have decoded : (countFile.flatMap String.utf8EncodeChar).toByteArray.utf8Decode? =
      some countFile.toArray := List.utf8Decode?_utf8Encode
  refine ⟨_, reads, (readJsonSource_iff decoded reads).mpr ?_⟩
  have onlyObjects : ∀ entry ∈ entries countFile, (parseCounts entry).all (fun value =>
      match value with | .object _ => true | _ => false) = true := by decide +kernel
  intro entry isEntry value parsed
  have isObject := onlyObjects entry isEntry
  rw [parsed] at isObject
  cases value with
  | object members => exact ⟨members, rfl⟩
  | null | bool | number | string | array => exact nomatch isObject

end KaretWorker
