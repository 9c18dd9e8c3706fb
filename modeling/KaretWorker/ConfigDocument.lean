import KaretWorker.Assertions
import KaretWorker.AstJson
import KaretWorker.StoredRecords

/-!
# Configuration documents

A configuration as it is stored: the records of `src/config.rs` with all their fields, and the
codec that `serde` derives for them from their attributes, one member a field. The records of
the rest of the development are what a run reads of them (`Document.PipelineConfig.read`).

What is stored is read back, and whatever document is accepted is stored as one that reads as
the same configuration (`config_document_round_trip`); so it is with the pointers and manifests
of tables.
-/
namespace KaretWorker

open Texts Json Binary64

/-! ## Expressions from documents -/

/-- Every literal of a tree can be stored. -/
def AstNode.Storable (tree : AstNode) : Prop := ∀ node ∈ walkAst tree, node.Literal

instance (tree : AstNode) : Decidable tree.Storable :=
  inferInstanceAs (Decidable (∀ node ∈ walkAst tree, node.Literal))

/-- What the fields of a node hold comes from a document. -/
structure Fields.Stored (fields : Fields) : Prop where
  raw : ∀ field json, fields.raw field = some json → json.Proper
  node : ∀ field tree, fields.node field = some tree → tree.Storable
  nodes : ∀ field trees, fields.nodes field = some trees → ∀ node ∈ walkArgs trees, node.Literal

section Trees

variable {fields : Fields} {tree : AstNode}

/-- A node without subtrees can be stored if its literal can. -/
theorem storable_leaf (literal : tree.Literal) (walks : walkAst tree = [tree]) : tree.Storable := by
  intro node member
  rw [walks, List.mem_singleton] at member
  exact member ▸ literal

/-- A node over one stored tree can be stored. -/
theorem storable_unary (stored : fields.Stored) {make : AstNode → AstNode}
    (read : fields.unary make = some tree) (literal : ∀ input, (make input).Literal)
    (walks : ∀ input, walkAst (make input) = make input :: walkAst input) : tree.Storable := by
  obtain ⟨input, isInput, same⟩ := Option.bind_eq_some_iff.mp read
  obtain rfl := Option.some.inj same
  intro node member
  rw [walks, List.mem_cons] at member
  rcases member with rfl | inside
  · exact literal input
  · exact stored.node _ input isInput node inside

/-- A node over two stored trees can be stored. -/
theorem storable_binary (stored : fields.Stored) {make : AstNode → AstNode → AstNode}
    (read : fields.binary make = some tree) (literal : ∀ left right, (make left right).Literal)
    (walks : ∀ left right, walkAst (make left right) =
      make left right :: (walkAst left ++ walkAst right)) : tree.Storable := by
  obtain ⟨left, isLeft, further⟩ := Option.bind_eq_some_iff.mp read
  obtain ⟨right, isRight, same⟩ := Option.bind_eq_some_iff.mp further
  obtain rfl := Option.some.inj same
  intro node member
  rw [walks, List.mem_cons, List.mem_append] at member
  rcases member with rfl | inLeft | inRight
  · exact literal left right
  · exact stored.node _ left isLeft node inLeft
  · exact stored.node _ right isRight node inRight

/-- An integer or a float of a document is a finite double. -/
theorem readFloat_finite {json : Json.Value} (proper : json.Proper) {bits : BitVec 64}
    (read : readFloat ofInteger json = some bits) : Finite bits := by
  cases proper with
  | integer fits =>
    rw [← Option.some.inj read]
    exact ofInteger_finite (by omega)
  | float isFinite =>
    rw [← Option.some.inj read]
    exact isFinite
  | _ => exact nomatch read

/-- Whatever is read as an `i64` fits one. -/
theorem readInteger_signed {json : Json.Value} {value : Int}
    (read : readInteger json = some value) :
    Signed value := by
  unfold readInteger at read
  split at read
  · split at read
    · next isSigned => exact Option.some.inj read ▸ isSigned
    · exact nomatch read
  · exact nomatch read

/-- A node made of stored fields can be stored. -/
theorem readNode_storable (stored : fields.Stored) (kind : AstKind)
    (read : readNode fields ofInteger kind = some tree) : tree.Storable := by
  cases kind with
  | add | sub | mul | div | eq | ne | gt | lt | ge | le | and | or =>
    exact storable_binary stored read (fun _ _ => trivial) (fun _ _ => rfl)
  | upper | lower | trim | not | year | month | day =>
    exact storable_unary stored read (fun _ => trivial) (fun _ => rfl)
  | null =>
    obtain rfl := Option.some.inj read
    exact storable_leaf trivial rfl
  | col | str =>
    simp only [readNode, bind, Option.bind_eq_some_iff, pure, Option.some.injEq] at read
    obtain ⟨_, _, rfl⟩ := read
    exact storable_leaf trivial rfl
  | bool =>
    simp only [readNode, bind, Option.bind_eq_some_iff, pure, Option.some.injEq] at read
    obtain ⟨_, _, rfl⟩ := read
    exact storable_leaf trivial rfl
  | num =>
    simp only [readNode, bind, Option.bind_eq_some_iff, pure, Option.some.injEq] at read
    obtain ⟨bits, ⟨json, isJson, isFloat⟩, rfl⟩ := read
    exact storable_leaf (readFloat_finite (stored.raw _ json isJson) isFloat) rfl
  | concat =>
    simp only [readNode, bind, Option.bind_eq_some_iff, pure, Option.some.injEq] at read
    obtain ⟨_, _, args, areArgs, rfl⟩ := read
    exact List.forall_mem_cons.mpr ⟨trivial, stored.nodes _ args areArgs⟩
  | coalesce =>
    simp only [readNode, bind, Option.bind_eq_some_iff, pure, Option.some.injEq] at read
    obtain ⟨args, areArgs, rfl⟩ := read
    exact List.forall_mem_cons.mpr ⟨trivial, stored.nodes _ args areArgs⟩
  | substring =>
    simp only [readNode, bind, Option.bind_eq_some_iff, pure, Option.some.injEq] at read
    obtain ⟨input, isInput, start, ⟨_, _, isStart⟩, length, isLength, rfl⟩ := read
    refine List.forall_mem_cons.mpr ⟨⟨readInteger_signed isStart, ?_⟩, stored.node _ input isInput⟩
    rintro characters rfl
    unfold readOptional at isLength
    split at isLength
    · exact nomatch isLength
    · exact nomatch isLength
    · obtain ⟨other, isOther, same⟩ := Option.map_eq_some_iff.mp isLength
      exact Option.some.inj same ▸ readInteger_signed isOther
  | contains =>
    simp only [readNode, bind, Option.bind_eq_some_iff, pure, Option.some.injEq] at read
    obtain ⟨input, isInput, pattern, isPattern, rfl⟩ := read
    exact List.forall_mem_cons.mpr ⟨trivial, List.forall_mem_append.mpr
      ⟨stored.node _ input isInput, stored.node _ pattern isPattern⟩⟩
  | fromUnix =>
    simp only [readNode, bind, Option.bind_eq_some_iff, pure, Option.some.injEq] at read
    obtain ⟨input, isInput, _, _, rfl⟩ := read
    exact List.forall_mem_cons.mpr ⟨trivial, stored.node _ input isInput⟩
  | ifElse =>
    simp only [readNode, bind, Option.bind_eq_some_iff, pure, Option.some.injEq] at read
    obtain ⟨cond, isCond, thenBranch, isThen, elseBranch, isElse, rfl⟩ := read
    exact List.forall_mem_cons.mpr ⟨trivial, List.forall_mem_append.mpr ⟨List.forall_mem_append.mpr
      ⟨stored.node _ cond isCond, stored.node _ thenBranch isThen⟩,
      stored.node _ elseBranch isElse⟩⟩
  | parseDate =>
    simp only [readNode, bind, Option.bind_eq_some_iff, pure, Option.some.injEq] at read
    obtain ⟨input, isInput, _, _, rfl⟩ := read
    exact List.forall_mem_cons.mpr ⟨trivial, stored.node _ input isInput⟩
  | dimRef =>
    simp only [readNode, bind, Option.bind_eq_some_iff, pure, Option.some.injEq] at read
    obtain ⟨_, _, _, _, input, isInput, rfl⟩ := read
    exact List.forall_mem_cons.mpr ⟨trivial, stored.node _ input isInput⟩
  | cast =>
    simp only [readNode, bind, Option.bind_eq_some_iff, pure, Option.some.injEq] at read
    obtain ⟨input, isInput, _, _, rfl⟩ := read
    exact List.forall_mem_cons.mpr ⟨trivial, stored.node _ input isInput⟩

mutual

/-- Whatever tree a document holds can be stored. -/
theorem decodeBuffered_storable : (json : Json.Value) → json.Proper → ∀ tree : AstNode,
    decodeBuffered ofInteger json = some tree → tree.Storable
  | .object members, proper, tree, decoded => by
    cases proper with
    | object _ properMembers =>
      obtain ⟨kind, _, read⟩ := Option.bind_eq_some_iff.mp decoded
      have each := decodeMembers_storable members properMembers
      refine readNode_storable
        ⟨fun field json found => properMembers _ (mem_of_lookup found), ?_, ?_⟩ kind read
      · intro field tree found
        obtain ⟨both, isBoth, isTree⟩ := Option.bind_eq_some_iff.mp found
        exact (each _ _ isBoth).1 tree isTree
      · intro field trees found
        obtain ⟨both, isBoth, areTrees⟩ := Option.bind_eq_some_iff.mp found
        exact (each _ _ isBoth).2 trees areTrees
  | .array (tag :: elements), proper, tree, decoded => by
    cases proper with
    | array properElements =>
      rw [List.forall_mem_cons] at properElements
      obtain ⟨kind, _, read⟩ := Option.bind_eq_some_iff.mp decoded
      have each := decodePlaces_storable elements properElements.2
      split at read
      · refine readNode_storable ⟨fun field json found => ?_, ?_, ?_⟩ kind read
        · exact properElements.2 json (List.of_mem_zip (mem_of_lookup found)).2
        · intro field tree found
          obtain ⟨both, isBoth, isTree⟩ := Option.bind_eq_some_iff.mp found
          exact (each both (List.of_mem_zip (mem_of_lookup isBoth)).2).1 tree isTree
        · intro field trees found
          obtain ⟨both, isBoth, areTrees⟩ := Option.bind_eq_some_iff.mp found
          exact (each both (List.of_mem_zip (mem_of_lookup isBoth)).2).2 trees areTrees
      · cases read
  | .array [], _, _, decoded => nomatch decoded
  | .null, _, _, decoded => nomatch decoded
  | .bool _, _, _, decoded => nomatch decoded
  | .number _, _, _, decoded => nomatch decoded
  | .string _, _, _, decoded => nomatch decoded

/-- Whatever trees a list holds can be stored. -/
theorem decodeElements_storable :
    (elements : List Json.Value) → (∀ element ∈ elements, element.Proper) →
    ∀ trees : List AstNode, decodeElements ofInteger elements = some trees →
      ∀ node ∈ walkArgs trees, node.Literal
  | [], _, trees, decoded => by
    obtain rfl := Option.some.inj decoded
    exact List.forall_mem_nil _
  | element :: rest, proper, trees, decoded => by
    rw [List.forall_mem_cons] at proper
    obtain ⟨tree, isTree, further⟩ := Option.bind_eq_some_iff.mp decoded
    obtain ⟨others, areOthers, same⟩ := Option.bind_eq_some_iff.mp further
    obtain rfl := Option.some.inj same
    exact List.forall_mem_append.mpr ⟨decodeBuffered_storable element proper.1 tree isTree,
      decodeElements_storable rest proper.2 others areOthers⟩

/-- A list of trees, read as the value of a field. -/
theorem decodeArgs_storable : (json : Json.Value) → json.Proper → ∀ trees : List AstNode,
    decodeArgs ofInteger json = some trees → ∀ node ∈ walkArgs trees, node.Literal
  | .array elements, proper, trees, decoded => by
    cases proper with
    | array properElements => exact decodeElements_storable elements properElements trees decoded
  | .object _, _, _, decoded => nomatch decoded
  | .null, _, _, decoded => nomatch decoded
  | .bool _, _, _, decoded => nomatch decoded
  | .number _, _, _, decoded => nomatch decoded
  | .string _, _, _, decoded => nomatch decoded

/-- The members of an object hold trees that can be stored. -/
theorem decodeMembers_storable : (members : List (Text × Json.Value)) →
    (∀ member ∈ members, member.2.Proper) → ∀ key both,
      (decodeMembers ofInteger members).lookup key = some both →
        (∀ tree, both.1 = some tree → AstNode.Storable tree) ∧
          ∀ trees, both.2 = some trees → ∀ node ∈ walkArgs trees, node.Literal
  | [], _, _, _, found => nomatch found
  | (name, json) :: rest, proper, key, both, found => by
    rw [List.forall_mem_cons] at proper
    rw [decodeMembers, List.lookup_cons] at found
    split at found
    · obtain rfl := Option.some.inj found
      exact ⟨decodeBuffered_storable json proper.1, decodeArgs_storable json proper.1⟩
    · exact decodeMembers_storable rest proper.2 key both found

/-- The places of an array hold trees that can be stored. -/
theorem decodePlaces_storable : (elements : List Json.Value) →
    (∀ element ∈ elements, element.Proper) → ∀ both ∈ decodePlaces ofInteger elements,
      (∀ tree, both.1 = some tree → AstNode.Storable tree) ∧
        ∀ trees, both.2 = some trees → ∀ node ∈ walkArgs trees, node.Literal
  | [], _, _, member => nomatch member
  | json :: rest, proper, both, member => by
    rw [List.forall_mem_cons] at proper
    rcases List.mem_cons.mp member with rfl | later
    · exact ⟨decodeBuffered_storable json proper.1, decodeArgs_storable json proper.1⟩
    · exact decodePlaces_storable rest proper.2 both later

end

/-- Whatever tree a document is can be stored. -/
theorem decodeAst_storable {json : Json.Value} (proper : json.Proper)
    (decoded : decodeAst ofInteger json = some tree) : tree.Storable := by
  unfold decodeAst at decoded
  split at decoded
  · exact decodeBuffered_storable json proper tree decoded
  · cases decoded

/-- Expressions as they are stored. -/
def expression : Codec AstNode := ⟨encodeAst, decodeAst ofInteger⟩

/-- Expressions read back, are never null, and hold finite numbers only. -/
theorem expression_lawful : expression.Lawful AstNode.Storable := by
  refine ⟨fun tree storable =>
      (decodeAst_encodeAst ofInteger tree).trans (decode_encode tree storable),
    fun tree _ isNull => ?_, fun json proper tree read => decodeAst_storable proper read⟩
  obtain ⟨members, isObject, _⟩ := readKind_encodeAst tree
  exact nomatch isObject.symm.trans isNull

end Trees

/-! ## Keys -/

/-- The fields of the records. -/
inductive ConfigKey where
  | version | sourceContainers | dimensions | mappings | analyticTables | layout
  | id | name | pathPrefix | format | schema | recordFilter
  | path | type | nullable | assertions
  | notNull | min | max
  | match_ | caseInsensitive | onMiss | rows
  | values | key | priorityColumn
  | patterns | priority
  | sourceContainerId | analyticTableId | columns | where_
  | expr
  | partitionKeys | dedupKeys
  | x | y
  deriving DecidableEq, Repr

/-- The name of a field as it is written. -/
def ConfigKey.text : ConfigKey → Text
  | .version => "version".toList
  | .sourceContainers => "source_containers".toList
  | .dimensions => "dimensions".toList
  | .mappings => "mappings".toList
  | .analyticTables => "analytic_tables".toList
  | .layout => "layout".toList
  | .id => "id".toList
  | .name => "name".toList
  | .pathPrefix => "path_prefix".toList
  | .format => "format".toList
  | .schema => "schema".toList
  | .recordFilter => "record_filter".toList
  | .path => "path".toList
  | .type => "type".toList
  | .nullable => "nullable".toList
  | .assertions => "assertions".toList
  | .notNull => "not_null".toList
  | .min => "min".toList
  | .max => "max".toList
  | .match_ => "match".toList
  | .caseInsensitive => "case_insensitive".toList
  | .onMiss => "on_miss".toList
  | .rows => "rows".toList
  | .values => "values".toList
  | .key => "key".toList
  | .priorityColumn => "priority_column".toList
  | .patterns => "patterns".toList
  | .priority => "priority".toList
  | .sourceContainerId => "source_container_id".toList
  | .analyticTableId => "analytic_table_id".toList
  | .columns => "columns".toList
  | .where_ => "where".toList
  | .expr => "expr".toList
  | .partitionKeys => "partition_keys".toList
  | .dedupKeys => "dedup_keys".toList
  | .x => "x".toList
  | .y => "y".toList

/-- All fields. -/
def ConfigKey.all : List ConfigKey :=
  [.version, .sourceContainers, .dimensions, .mappings, .analyticTables, .layout, .id, .name,
    .pathPrefix, .format, .schema, .recordFilter, .path, .type, .nullable, .assertions, .notNull,
    .min, .max, .match_, .caseInsensitive, .onMiss, .rows, .values, .key, .priorityColumn, .patterns,
    .priority, .sourceContainerId, .analyticTableId, .columns, .where_, .expr, .partitionKeys,
    .dedupKeys, .x, .y]

/-- Different fields have different names. -/
theorem ConfigKey.text_injective : Function.Injective ConfigKey.text := by
  have distinct : (ConfigKey.all.map ConfigKey.text).Nodup := by decide +kernel
  have complete : ∀ field, field ∈ ConfigKey.all := by
    intro field
    cases field <;> decide
  exact fun first second same =>
    List.inj_on_of_nodup_map distinct (complete first) (complete second) same

/-! ## Enumerations -/

/-- The name of a format. -/
def SourceFormat.tag : SourceFormat → Text
  | .csv => "csv".toList
  | .ndjson => "ndjson".toList

/-- `SourceFormat`, in snake case. -/
def SourceFormat.codec : Codec SourceFormat := .named [.csv, .ndjson] SourceFormat.tag

/-- The name of a mode. -/
def MatchMode.tag : MatchMode → Text
  | .exact => "exact".toList
  | .keywordSubstring => "keyword_substring".toList

/-- `MatchMode`, in snake case. -/
def MatchMode.codec : Codec MatchMode := .named [.exact, .keywordSubstring] MatchMode.tag

/-- The name of a variant. -/
def OnMiss.tag : OnMiss → Text
  | .null => "null".toList
  | .passthrough => "passthrough".toList
  | .literal _ => "literal".toList

/-- A literal is an object with its text; the others are names. -/
def OnMiss.codec : Codec OnMiss where
  write
    | .literal shown => .object [("literal".toList, .string shown)]
    | onMiss => .string onMiss.tag
  read
    | .object [(name, json)] =>
      if name = "literal".toList then (readText json).map .literal
      else (Codec.named [OnMiss.null, .passthrough] OnMiss.tag).read (.object [(name, json)])
    | json => (Codec.named [OnMiss.null, .passthrough] OnMiss.tag).read json

/-- Both formats read back. -/
theorem SourceFormat.codec_lawful : SourceFormat.codec.Lawful (fun _ => True) := by
  refine named_lawful (fun format => ?_) (fun first second same => ?_)
  · cases format <;> decide
  · cases first <;> cases second <;> first | rfl | exact absurd same (by decide)

/-- Both modes read back. -/
theorem MatchMode.codec_lawful : MatchMode.codec.Lawful (fun _ => True) := by
  refine named_lawful (fun mode => ?_) (fun first second same => ?_)
  · cases mode <;> decide
  · cases first <;> cases second <;> first | rfl | exact absurd same (by decide)

/-- All three variants read back, a literal with its text. -/
theorem OnMiss.codec_lawful : OnMiss.codec.Lawful (fun _ => True) := by
  refine ⟨fun onMiss _ => ?_, fun onMiss _ isNull => ?_, fun _ _ _ _ => trivial⟩
  · cases onMiss with
    | null | passthrough => decide
    | literal shown => rfl
  · cases onMiss <;> exact nomatch isNull

/-! ## Records -/

namespace Document

/-- A column with its assertions and whether it is declared nullable. -/
structure Column extends AssertedColumn where
  nullable : Option Bool

/-- A source whose columns have all their fields. -/
structure SourceContainer where
  id : Text
  name : Text
  pathPrefix : Text
  format : SourceFormat
  schema : List Column
  recordFilter : Option AstNode

/-- A dimension with its name. -/
structure Dimension extends KaretWorker.Dimension where
  name : Option Text

/-- A mapping with its name. -/
structure Mapping extends KaretWorker.Mapping where
  name : Text

/-- A table whose columns have all their fields. -/
structure AnalyticTable where
  id : Text
  name : Text
  schema : List Column
  partitionKeys : List Text
  dedupKeys : List Text

/-- Where the canvas shows a node. -/
structure LayoutPosition where
  x : Bound
  y : Bound

/-- The whole document, with its version and the layout of the canvas. -/
structure PipelineConfig where
  version : Nat
  sourceContainers : List SourceContainer
  dimensions : List Dimension
  mappings : List Mapping
  analyticTables : List AnalyticTable
  layout : AList (fun _ : Text => LayoutPosition)

/-! ### What a run reads of them -/

/-- A source as a run reads it. -/
def SourceContainer.read (container : SourceContainer) : KaretWorker.SourceContainer :=
  ⟨container.id, container.name, container.pathPrefix, container.format,
    container.schema.map (fun column => column.toColumnSchema), container.recordFilter⟩

/-- A table as a run reads it. -/
def AnalyticTable.read (table : AnalyticTable) : KaretWorker.AnalyticTable :=
  ⟨table.id, table.name, table.schema.map (fun column => column.toColumnSchema), table.partitionKeys,
    table.dedupKeys⟩

/-- The configuration as a run reads it: version and layout are passed over. -/
def PipelineConfig.read (config : PipelineConfig) : KaretWorker.PipelineConfig :=
  ⟨config.sourceContainers.map SourceContainer.read, config.dimensions.map Dimension.toDimension,
    config.mappings.map Mapping.toMapping, config.analyticTables.map AnalyticTable.read⟩

/-! ### Shapes -/

open Shape

/-- `ColumnAssertions`: an assertion that is not there is not written. -/
def assertionsShape : Shape ConfigKey ColumnAssertions :=
  ((field .notNull (.omitted .boolean)).and <|
    (field .min (.omitted .finite)).and <|
    (field .max (.omitted .finite))).record
  (fun (notNull, min, max) => ⟨notNull, min, max⟩)
  (fun assertions => (assertions.notNull, assertions.min, assertions.max))

/-- `ColumnAssertions` denies unknown fields. -/
def assertionsCodec : Codec ColumnAssertions := assertionsShape.codec ConfigKey.text true

/-- `ColumnSchema`: a path that is not there is written as null, assertions are left out. -/
def columnShape : Shape ConfigKey Column :=
  ((field .name (.required .text)).and <|
    (field .path (.optional .text)).and <|
    (field .type (.required .text)).and <|
    (field .nullable (.optional .boolean)).and <|
    (field .assertions (.omitted assertionsCodec))).record
  (fun (name, path, type, nullable, assertions) => ⟨⟨⟨name, path, type⟩, assertions⟩, nullable⟩)
  (fun column => (column.name, column.path, column.type, column.nullable, column.assertions))

/-- Columns as they are stored. -/
def columnCodec : Codec Column := columnShape.codec ConfigKey.text false

/-- `SourceContainer`: without a format it reads CSV. -/
def containerShape : Shape ConfigKey SourceContainer :=
  ((field .id (.required .text)).and <|
    (field .name (.required .text)).and <|
    (field .pathPrefix (.required .text)).and <|
    (field .format (.defaulted SourceFormat.codec .csv)).and <|
    (field .schema (.required (.list columnCodec))).and <|
    (field .recordFilter (.optional expression))).record
  (fun (id, name, pathPrefix, format, schema, recordFilter) =>
    ⟨id, name, pathPrefix, format, schema, recordFilter⟩)
  (fun container => (container.id, container.name, container.pathPrefix, container.format,
    container.schema, container.recordFilter))

/-- Sources as they are stored. -/
def containerCodec : Codec SourceContainer := containerShape.codec ConfigKey.text false

/-- `InlineDimensionRow`: without a priority it has zero. -/
def rowShape : Shape ConfigKey InlineDimensionRow :=
  ((field .patterns (.required (.list .text))).and <|
    (field .values (.required (.list .text))).and <|
    (field .priority (.defaulted .signed 0))).record
  (fun (patterns, values, priority) => ⟨patterns, values, priority⟩)
  (fun row => (row.patterns, row.values, row.priority))

/-- Rows as they are stored. -/
def rowCodec : Codec InlineDimensionRow := rowShape.codec ConfigKey.text false

/-- Rows written in the configuration. -/
def inlineShape : Shape ConfigKey (List Text × List InlineDimensionRow) :=
  (field .values (.required (.list .text))).and (field .rows (.required (.list rowCodec)))

/-- Rows read from files of the lake. -/
def fileShape : Shape ConfigKey (Text × Text × List Text × Option Text) :=
  (field .pathPrefix (.required .text)).and <|
    (field .key (.required .text)).and <|
    (field .values (.required (.list .text))).and <|
    (field .priorityColumn (.optional .text))

/-- Without a tag, whatever reads as inline rows is. -/
def rowsCodec : Codec DimensionRows where
  write
    | .inline values rows => (inlineShape.objects ConfigKey.text).write (values, rows)
    | .file pathPrefix key values priorityColumn =>
      (fileShape.objects ConfigKey.text).write (pathPrefix, key, values, priorityColumn)
  read json :=
    match (inlineShape.objects ConfigKey.text).read json with
    | some (values, rows) => some (.inline values rows)
    | none => ((fileShape.objects ConfigKey.text).read json).map
        (fun (pathPrefix, key, values, priorityColumn) => .file pathPrefix key values priorityColumn)

/-- `Dimension`: matched exactly and missed as null, unless it says otherwise. -/
def dimensionShape : Shape ConfigKey Dimension :=
  ((field .id (.required .text)).and <|
    (field .name (.optional .text)).and <|
    (field .match_ (.defaulted MatchMode.codec .exact)).and <|
    (field .caseInsensitive (.optional .boolean)).and <|
    (field .onMiss (.defaulted OnMiss.codec .null)).and <|
    (field .rows (.required rowsCodec))).record
  (fun (id, name, match_, caseInsensitive, onMiss, rows) =>
    ⟨⟨id, match_, caseInsensitive, onMiss, rows⟩, name⟩)
  (fun dimension => (dimension.id, dimension.name, dimension.match_, dimension.caseInsensitive,
    dimension.onMiss, dimension.rows))

/-- Dimensions as they are stored. -/
def dimensionCodec : Codec Dimension := dimensionShape.codec ConfigKey.text false

/-- `MappingColumn`: a name and an expression. -/
def mappingColumnShape : Shape ConfigKey MappingColumn :=
  ((field .name (.required .text)).and (field .expr (.required expression))).record
  (fun (name, expr) => ⟨name, expr⟩) (fun column => (column.name, column.expr))

/-- Output columns as they are stored. -/
def mappingColumnCodec : Codec MappingColumn := mappingColumnShape.codec ConfigKey.text false

/-- `Mapping`: its name may be missing, and the predicate is a member called `where`. -/
def mappingShape : Shape ConfigKey Mapping :=
  ((field .id (.required .text)).and <|
    (field .name (.defaulted .text [])).and <|
    (field .sourceContainerId (.required .text)).and <|
    (field .analyticTableId (.required .text)).and <|
    (field .columns (.required (.list mappingColumnCodec))).and <|
    (field .where_ (.optional expression))).record
  (fun (id, name, sourceContainerId, analyticTableId, columns, where_) =>
    ⟨⟨id, sourceContainerId, analyticTableId, columns, where_⟩, name⟩)
  (fun mapping => (mapping.id, mapping.name, mapping.sourceContainerId, mapping.analyticTableId,
    mapping.columns, mapping.where_))

/-- `Mapping` denies unknown fields. -/
def mappingCodec : Codec Mapping := mappingShape.codec ConfigKey.text true

/-- `AnalyticTable`: keys are left out where there are none. -/
def tableShape : Shape ConfigKey AnalyticTable :=
  ((field .id (.required .text)).and <|
    (field .name (.required .text)).and <|
    (field .schema (.required (.list columnCodec))).and <|
    (field .partitionKeys (.omittedList .text)).and <|
    (field .dedupKeys (.omittedList .text))).record
  (fun (id, name, schema, partitionKeys, dedupKeys) => ⟨id, name, schema, partitionKeys, dedupKeys⟩)
  (fun table => (table.id, table.name, table.schema, table.partitionKeys, table.dedupKeys))

/-- Tables as they are stored. -/
def tableCodec : Codec AnalyticTable := tableShape.codec ConfigKey.text false

/-- `LayoutPosition`: two finite numbers. -/
def positionShape : Shape ConfigKey LayoutPosition :=
  ((field .x (.required .finite)).and (field .y (.required .finite))).record
  (fun (x, y) => ⟨x, y⟩) (fun position => (position.x, position.y))

/-- Positions as they are stored. -/
def positionCodec : Codec LayoutPosition := positionShape.codec ConfigKey.text false

/-- `PipelineConfig`: only the layout may be missing. -/
def configShape : Shape ConfigKey PipelineConfig :=
  ((field .version (.required (.unsigned (2 ^ 32)))).and <|
    (field .sourceContainers (.required (.list containerCodec))).and <|
    (field .dimensions (.required (.list dimensionCodec))).and <|
    (field .mappings (.required (.list mappingCodec))).and <|
    (field .analyticTables (.required (.list tableCodec))).and <|
    (field .layout (.defaulted (.dictionary positionCodec) ∅))).record
  (fun (version, sourceContainers, dimensions, mappings, analyticTables, layout) =>
    ⟨version, sourceContainers, dimensions, mappings, analyticTables, layout⟩)
  (fun config => (config.version, config.sourceContainers, config.dimensions, config.mappings,
    config.analyticTables, config.layout))

/-- Whole configurations as they are stored. -/
def configCodec : Codec PipelineConfig := configShape.codec ConfigKey.text false

/-! ### Lawful records -/

/-- Assertions read back, whatever is asserted. -/
theorem assertionsShape_lawful : assertionsShape.Lawful (fun _ => True) := by
  refine (Shape.Lawful.record ((field_lawful (omitted_lawful boolean_lawful)).and
    ((field_lawful (omitted_lawful finite_lawful)).and
      (field_lawful (omitted_lawful finite_lawful)) (by decide)) (by decide))
    (fun _ => rfl) (fun _ => rfl)).congr (fun _ => ?_)
  simp [IfPresent]

/-- Columns read back with all their fields. -/
theorem columnShape_lawful : columnShape.Lawful (fun _ => True) := by
  have assertions := assertionsShape_lawful.codec ConfigKey.text_injective true
  refine (Shape.Lawful.record ((field_lawful (required_lawful text_lawful)).and
    ((field_lawful (optional_lawful text_lawful)).and
      ((field_lawful (required_lawful text_lawful)).and
        ((field_lawful (optional_lawful boolean_lawful)).and
          (field_lawful (omitted_lawful assertions)) (by decide)) (by decide)) (by decide))
            (by decide))
    (fun _ => rfl) (fun _ => rfl)).congr (fun _ => ?_)
  simp [IfPresent]

/-- Columns read back from their object. -/
theorem columnCodec_lawful : columnCodec.Lawful (fun _ => True) :=
  columnShape_lawful.codec ConfigKey.text_injective false

/-- Sources read back if their filter can be stored. -/
theorem containerShape_lawful :
    containerShape.Lawful (fun container => IfPresent AstNode.Storable container.recordFilter) := by
  refine (Shape.Lawful.record ((field_lawful (required_lawful text_lawful)).and
    ((field_lawful (required_lawful text_lawful)).and
      ((field_lawful (required_lawful text_lawful)).and
        ((field_lawful (defaulted_lawful SourceFormat.codec_lawful trivial)).and
          ((field_lawful (required_lawful (list_lawful columnCodec_lawful))).and
            (field_lawful (optional_lawful expression_lawful)) (by decide)) (by decide))
              (by decide))
      (by decide)) (by decide))
    (fun _ => rfl) (fun _ => rfl)).congr (fun _ => ?_)
  simp

/-- Rows read back if their priority fits. -/
theorem rowShape_lawful : rowShape.Lawful (fun row => Signed row.priority) := by
  refine (Shape.Lawful.record ((field_lawful (required_lawful (list_lawful text_lawful))).and
    ((field_lawful (required_lawful (list_lawful text_lawful))).and
      (field_lawful (defaulted_lawful signed_lawful (by decide))) (by decide)) (by decide))
    (fun _ => rfl) (fun _ => rfl)).congr (fun _ => ?_)
  simp

/-- Rows in the configuration read back if their priorities fit. -/
theorem inlineShape_lawful :
    inlineShape.Lawful (fun both => ∀ row ∈ both.2, Signed row.priority) := by
  refine ((field_lawful (required_lawful (list_lawful text_lawful))).and
    (field_lawful
      (required_lawful (list_lawful (rowShape_lawful.codec ConfigKey.text_injective false))))
    (by decide)).congr (fun _ => ?_)
  simp

/-- Rows from files read back. -/
theorem fileShape_lawful : fileShape.Lawful (fun _ => True) := by
  refine ((field_lawful (required_lawful text_lawful)).and
    ((field_lawful (required_lawful text_lawful)).and
      ((field_lawful (required_lawful (list_lawful text_lawful))).and
        (field_lawful (optional_lawful text_lawful)) (by decide)) (by decide)) (by decide)).congr
    (fun _ => ?_)
  simp [IfPresent]

/-- The priorities of rows in the configuration can be stored. -/
def RowsStorable : DimensionRows → Prop
  | .inline _ rows => ∀ row ∈ rows, Signed row.priority
  | .file _ _ _ _ => True

/-- Neither kind of rows is read as the other: only inline ones have a member `rows`. -/
theorem rowsCodec_lawful : rowsCodec.Lawful RowsStorable := by
  have inline := inlineShape_lawful.objects ConfigKey.text_injective
  have file := fileShape_lawful.objects ConfigKey.text_injective
  refine ⟨fun dimensionRows storable => ?_, fun dimensionRows _ isNull => ?_,
    fun json proper dimensionRows read => ?_⟩
  · cases dimensionRows with
    | inline values rows =>
      simp only [rowsCodec, inline.readsBack (values, rows) storable]
    | file pathPrefix key values priorityColumn =>
      -- Rows from files are written without a member for rows in the configuration.
      have notInline : (inlineShape.objects ConfigKey.text).read
        ((fileShape.objects ConfigKey.text).write
          (pathPrefix, key, values, priorityColumn)) = none := by
        have noRows : ((fileShape.write (pathPrefix, key, values, priorityColumn)).lookup
            ConfigKey.rows) = none :=
          fileShape_lawful.lookup_none (by decide) _
        simp only [Shape.objects, inlineShape, Shape.and, Shape.field, Member.required,
          lookup_members ConfigKey.text_injective, noRows, Option.bind_none]
        cases (((fileShape.write (pathPrefix, key, values, priorityColumn)).lookup
          ConfigKey.values).bind (Codec.list .text).read) <;> rfl
      simp only [rowsCodec, notInline, file.readsBack _ trivial, Option.map_some]
  · cases dimensionRows <;> cases isNull
  · simp only [rowsCodec] at read
    split at read
    · next values rows isInline =>
      obtain rfl := Option.some.inj read
      exact inline.reads json proper (values, rows) isInline
    · obtain ⟨_, _, rfl⟩ := Option.map_eq_some_iff.mp read
      trivial

/-- Dimensions read back if their rows can be stored. -/
theorem dimensionShape_lawful :
    dimensionShape.Lawful (fun dimension => RowsStorable dimension.rows) := by
  refine (Shape.Lawful.record ((field_lawful (required_lawful text_lawful)).and
    ((field_lawful (optional_lawful text_lawful)).and
      ((field_lawful (defaulted_lawful MatchMode.codec_lawful trivial)).and
        ((field_lawful (optional_lawful boolean_lawful)).and
          ((field_lawful (defaulted_lawful OnMiss.codec_lawful trivial)).and
            (field_lawful (required_lawful rowsCodec_lawful)) (by decide)) (by decide)) (by decide))
      (by decide)) (by decide))
    (fun _ => rfl) (fun _ => rfl)).congr (fun _ => ?_)
  simp [IfPresent]

/-- Output columns read back if their expression can be stored. -/
theorem mappingColumnShape_lawful :
    mappingColumnShape.Lawful (fun column => column.expr.Storable) := by
  refine (Shape.Lawful.record ((field_lawful (required_lawful text_lawful)).and
    (field_lawful (required_lawful expression_lawful)) (by decide))
    (fun _ => rfl) (fun _ => rfl)).congr (fun _ => ?_)
  simp

/-- The expressions of a mapping can be stored. -/
structure Mapping.Storable (mapping : Mapping) : Prop where
  columns : ∀ column ∈ mapping.columns, column.expr.Storable
  predicate : IfPresent AstNode.Storable mapping.where_

/-- Mappings read back if all their expressions can be stored. -/
theorem mappingShape_lawful : mappingShape.Lawful Mapping.Storable := by
  refine (Shape.Lawful.record ((field_lawful (required_lawful text_lawful)).and
    ((field_lawful (defaulted_lawful text_lawful trivial)).and
      ((field_lawful (required_lawful text_lawful)).and
        ((field_lawful (required_lawful text_lawful)).and
          ((field_lawful (required_lawful (list_lawful
              (mappingColumnShape_lawful.codec ConfigKey.text_injective false)))).and
            (field_lawful (optional_lawful expression_lawful)) (by decide)) (by decide))
              (by decide))
      (by decide)) (by decide))
    (fun _ => rfl) (fun _ => rfl)).congr (fun mapping => ?_)
  constructor
  · rintro ⟨_, _, _, _, columns, predicate⟩
    exact ⟨columns, predicate⟩
  · rintro ⟨columns, predicate⟩
    exact ⟨trivial, trivial, trivial, trivial, columns, predicate⟩

/-- Tables read back. -/
theorem tableShape_lawful : tableShape.Lawful (fun _ => True) := by
  refine (Shape.Lawful.record ((field_lawful (required_lawful text_lawful)).and
    ((field_lawful (required_lawful text_lawful)).and
      ((field_lawful (required_lawful (list_lawful columnCodec_lawful))).and
        ((field_lawful (omittedList_lawful text_lawful)).and
          (field_lawful (omittedList_lawful text_lawful)) (by decide)) (by decide)) (by decide))
      (by decide))
    (fun _ => rfl) (fun _ => rfl)).congr (fun _ => ?_)
  simp

/-- Positions read back. -/
theorem positionShape_lawful : positionShape.Lawful (fun _ => True) := by
  refine (Shape.Lawful.record ((field_lawful (required_lawful finite_lawful)).and
    (field_lawful (required_lawful finite_lawful)) (by decide))
    (fun _ => rfl) (fun _ => rfl)).congr (fun _ => ?_)
  simp

/-- What a configuration holds fits the numbers of a document. -/
structure PipelineConfig.Storable (config : PipelineConfig) : Prop where
  version : config.version < 2 ^ 32
  filters : ∀ container ∈ config.sourceContainers, IfPresent AstNode.Storable container.recordFilter
  dimensions : ∀ dimension ∈ config.dimensions, RowsStorable dimension.rows
  mappings : ∀ mapping ∈ config.mappings, mapping.Storable

/-- A configuration reads back if its numbers fit, and whatever is read has such numbers. -/
theorem configCodec_lawful : configCodec.Lawful PipelineConfig.Storable := by
  have containers := list_lawful (containerShape_lawful.codec ConfigKey.text_injective false)
  have dimensions := list_lawful (dimensionShape_lawful.codec ConfigKey.text_injective false)
  have mappings := list_lawful (mappingShape_lawful.codec ConfigKey.text_injective true)
  have tables := list_lawful (tableShape_lawful.codec ConfigKey.text_injective false)
  have layout := dictionary_lawful (positionShape_lawful.codec ConfigKey.text_injective false)
  refine ((Shape.Lawful.record ((field_lawful (required_lawful (unsigned_lawful (2 ^ 32)))).and
    ((field_lawful (required_lawful containers)).and
      ((field_lawful (required_lawful dimensions)).and
        ((field_lawful (required_lawful mappings)).and
          ((field_lawful (required_lawful tables)).and
            (field_lawful (defaulted_lawful layout (by simp))) (by decide)) (by decide))
              (by decide))
      (by decide)) (by decide))
    (fun _ => rfl) (fun _ => rfl)).codec ConfigKey.text_injective false).congr (fun config => ?_)
  constructor
  · rintro ⟨version, filters, dimensions, mappings, _, _⟩
    exact ⟨version, filters, dimensions, mappings⟩
  · rintro ⟨version, filters, dimensions, mappings⟩
    exact ⟨version, filters, dimensions, mappings, fun _ _ => trivial, fun _ _ => trivial⟩

end Document

/-! ## Round trip -/

/-- Configurations are stored faithfully, and so are the pointers and the manifests of tables:
what fits the numbers of a document is read back as it was stored, different values are stored
differently, and whatever document is accepted, in whatever order and with whatever defaults left
out, holds such a value, which is then read back the same. -/
theorem config_document_round_trip :
    Document.configCodec.Faithful Document.PipelineConfig.Storable ∧
    pointerCodec.Faithful (fun pointer => pointer.version < u64Bound) ∧
    manifestCodec.Faithful TableManifest.Storable :=
  ⟨Document.configCodec_lawful.faithful, pointerCodec_lawful.faithful,
    manifestCodec_lawful.faithful⟩

/-- One hundred, as a double. -/
theorem finite_hundred : Binary64.Finite 0x4059000000000000#64 := by decide

/-- Minus one hundred, as a double. -/
theorem finite_minusHundred : Binary64.Finite 0xC059000000000000#64 := by decide

/-- Zero, as a double. -/
theorem finite_zero : Binary64.Finite 0 := by decide

/-- One source with a filter, one dimension, one mapping into one table, and its place. -/
def smallDocument : Document.PipelineConfig where
  version := 1
  sourceContainers := [⟨"s".toList, "S".toList, "in/".toList, .ndjson,
    [⟨⟨⟨"a".toList, none, "number".toList⟩, none⟩, none⟩],
    some (.gt (.col "a".toList) (.num 0x3FF0000000000000#64))⟩]
  dimensions := [⟨⟨"d".toList, .exact, none, .literal "other".toList,
    .inline ["v".toList] [⟨["k".toList], ["w".toList], -1⟩]⟩, none⟩]
  mappings := [⟨⟨"m".toList, "s".toList, "t".toList, [⟨"a".toList, .col "a".toList⟩], none⟩, []⟩]
  analyticTables := [⟨"t".toList, "T".toList, [⟨⟨⟨"a".toList, none, "number".toList⟩,
    some ⟨some true, none, some ⟨0x4059000000000000#64, finite_hundred⟩⟩⟩, some false⟩], [], []⟩]
  layout := AList.singleton "m".toList ⟨⟨0, finite_zero⟩, ⟨0xC059000000000000#64, finite_minusHundred⟩⟩

/-- A configuration that uses every record, with a filter, a dimension, assertions and a layout, is
read back as it was written. -/
theorem config_document_round_trip_small :
    Document.configCodec.read (Document.configCodec.write smallDocument) = some smallDocument := by
  refine config_document_round_trip.1.readsBack smallDocument ⟨by decide, ?_, ?_, ?_⟩
  · refine List.forall_mem_singleton.mpr (fun filter isFilter => ?_)
    rw [← Option.some.inj isFilter]
    decide
  · exact List.forall_mem_singleton.mpr (List.forall_mem_singleton.mpr (by decide))
  · refine List.forall_mem_singleton.mpr
      ⟨List.forall_mem_singleton.mpr ?_, fun _ impossible => nomatch impossible⟩
    decide

end KaretWorker
