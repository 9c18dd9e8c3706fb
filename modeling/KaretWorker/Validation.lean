import KaretWorker.Config

/-!
# Validation of a configuration

`validate` of `src/config.rs`. It collects every error, in the order in which the
source reports them; each error names the place in the document it is about. A
configuration is accepted if there is none.

`validate_iff` says once what an accepted configuration satisfies, in the terms of the
configuration alone. Later modules use the fields of `Valid`, not the checks.
-/
namespace KaretWorker

open Texts

/-- A single validation error. The path is a JSON pointer into the document. -/
inductive ConfigError where
  | duplicateId (path kind id : Text)
  | danglingReference (path kind target : Text)
  | schema (path message : Text)
  | missingField (path field : Text)
  deriving DecidableEq, Repr

/-- The text an error is shown as. -/
def ConfigError.display : ConfigError → Text
  | .duplicateId path kind id =>
    "duplicate ".toList ++ kind ++ " id `".toList ++ id ++ "` at ".toList ++ path
  | .danglingReference path kind target =>
    "dangling ".toList ++ kind ++ " reference to `".toList ++ target ++ "` at ".toList ++ path
  | .schema path message => "schema error at ".toList ++ path ++ ": ".toList ++ message
  | .missingField path field => "missing field `".toList ++ field ++ "` at ".toList ++ path

/-- The pointer to a field of an item of a collection. -/
def pointer (collection : String) (index : Nat) (field : String) : Text :=
  '/' :: collection.toList ++ '/' :: decimal index ++ '/' :: field.toList

/-! ## Ids and names -/

/-- Verify that ids are non-empty and unique, and names non-empty. -/
def checkUniqueAndRequiredIds {α : Type} (collection kind : String) (idOf : α → Text)
    (nameOf : α → Option Text) : Nat → List Text → List α → List ConfigError
  | _, _, [] => []
  | index, seen, item :: rest =>
    (if (idOf item).isEmpty then [.missingField (pointer collection index "id") "id".toList]
      else if seen.contains (idOf item) then
        [.duplicateId (pointer collection index "id") kind.toList (idOf item)]
      else []) ++
    (if nameOf item = some [] then
        [.missingField (pointer collection index "name") "name".toList]
      else []) ++
    checkUniqueAndRequiredIds collection kind idOf nameOf (index + 1)
      (if (idOf item).isEmpty then seen else idOf item :: seen) rest

/-! ## Mappings -/

/-- Resolve a dimension by id. -/
def resolveDimension (id : Text) (dimensions : List Dimension) : Option Dimension :=
  dimensions.find? (fun dimension => dimension.id = id)

/-- A reference that is not empty must name one of the given ids. -/
def checkReference (path : Text) (kind : String) (target : Text) (ids : List Text) :
    List ConfigError :=
  if !target.isEmpty && !ids.contains target then
    [.danglingReference path kind.toList target]
  else []

/-- The dimension of a node of a column expression, and the value column it asks for. -/
def checkDimension (config : PipelineConfig) (path : Text) : AstNode → List ConfigError
  | .dimRef dimId value _ =>
    match resolveDimension dimId config.dimensions with
    | none => [.danglingReference path "dimension".toList dimId]
    | some dimension =>
      match value with
      | some column =>
        if dimension.valueColumns.any (· = column) then []
        else [.danglingReference path "dimension_value".toList (dimId ++ '.' :: column)]
      | none => []
  | _ => []

/-- A node of a `where` predicate: its dimension, or the output column it names. Unlike
in a column expression, the value column of a dimension is not looked at. -/
def checkWhereNode (config : PipelineConfig) (mapping : Mapping) (path : Text) :
    AstNode → List ConfigError
  | .dimRef dimId _ _ =>
    if (resolveDimension dimId config.dimensions).isNone then
      [.danglingReference path "dimension".toList dimId]
    else []
  | .col name =>
    if (mapping.columns.map MappingColumn.name).contains name then []
    else [.danglingReference path "mapping_column".toList (mapping.id ++ '.' :: name)]
  | _ => []

/-- A column a node names must be in the schema of the source. -/
def checkSourceColumn (source : SourceContainer) (path : Text) : AstNode → List ConfigError
  | .col name =>
    if (source.schema.map ColumnSchema.name).contains name then []
    else [.danglingReference path "source_column".toList (source.id ++ '.' :: name)]
  | _ => []

/-- The pointer to a field of a column of a mapping. -/
def columnPointer (index column : Nat) (field : String) : Text :=
  pointer "mappings" index "columns" ++ '/' :: decimal column ++ '/' :: field.toList

/-- The checks of one mapping. -/
def checkMapping (config : PipelineConfig) (index : Nat) (mapping : Mapping) : List ConfigError :=
  checkReference (pointer "mappings" index "source_container_id") "source_container"
    mapping.sourceContainerId (config.sourceContainers.map SourceContainer.id) ++
  checkReference (pointer "mappings" index "analytic_table_id") "analytic_table"
    mapping.analyticTableId (config.analyticTables.map AnalyticTable.id) ++
  mapping.columns.zipIdx.flatMap (fun column =>
    (walkAst column.1.expr).flatMap (checkDimension config (columnPointer index column.2 "expr"))) ++
  (match mapping.where_ with
    | some predicate =>
      (walkAst predicate).flatMap (checkWhereNode config mapping (pointer "mappings" index "where"))
    | none => []) ++
  -- Output columns must appear in the table, and columns read in the source.
  (match config.tableOf mapping with
    | some table => mapping.columns.zipIdx.flatMap (fun column =>
      if (table.schema.map ColumnSchema.name).contains column.1.name then []
      else [.danglingReference (columnPointer index column.2 "name") "analytic_table_column".toList
        (table.id ++ '.' :: column.1.name)])
    | none => []) ++
  (match config.sourceOf mapping with
    | some source => mapping.columns.zipIdx.flatMap (fun column =>
      (walkAst column.1.expr).flatMap
        (checkSourceColumn source (columnPointer index column.2 "expr")))
    | none => [])

/-! ## Tables -/

/-- The logical type of a column of a table; of several columns with the name, that of
the last one. -/
def AnalyticTable.typeOf (table : AnalyticTable) (name : Text) : Option Text :=
  (table.schema.reverse.find? (fun column => column.name = name)).map ColumnSchema.type

/-- Keys must be distinct, and each must pass its own check. -/
def checkKeys (path : Text) (kind : String) (check : Text → List ConfigError) :
    List Text → List Text → List ConfigError
  | _, [] => []
  | seen, key :: rest =>
    (if seen.contains key then
        [.schema path ("duplicate ".toList ++ kind.toList ++ " key `".toList ++ key ++ "`".toList)]
      else check key) ++
    checkKeys path kind check (key :: seen) rest

/-- A partition key names a column that is not float-capable. -/
def checkPartitionKey (table : AnalyticTable) (path key : Text) : List ConfigError :=
  match table.typeOf key with
  | none => [.danglingReference path "schema_column".toList key]
  | some type =>
    if type = "float64".toList ∨ type = "number".toList then
      [.schema path ("partition key `".toList ++ key ++
        "` is float-capable; floats make unstable path segments".toList)]
    else []

/-- A dedup key names a column. -/
def checkDedupKey (table : AnalyticTable) (path key : Text) : List ConfigError :=
  if (table.typeOf key).isSome then []
  else [.danglingReference path "schema_column".toList key]

/-- The errors of one table: of its partition keys, of which two are supported, and of its dedup
keys. -/
def checkTable (index : Nat) (table : AnalyticTable) : List ConfigError :=
  let partitionPath := pointer "analytic_tables" index "partition_keys"
  let dedupPath := pointer "analytic_tables" index "dedup_keys"
  (if 2 < table.partitionKeys.length then
      [.schema partitionPath (decimal table.partitionKeys.length ++
        " partition keys; at most 2 are supported".toList)]
    else []) ++
  checkKeys partitionPath "partition" (checkPartitionKey table partitionPath) [] table.partitionKeys ++
  checkKeys dedupPath "dedup" (checkDedupKey table dedupPath) [] table.dedupKeys

/-! ## Source prefixes -/

/-- A source prefix is relative, ends in a slash, and has no `..` segment. -/
def wellFormedPrefix (text : Text) : Bool :=
  text.head? != some '/' && text.getLast? == some '/' && !(text.splitOn '/').contains "..".toList

/-- The error of a source whose prefix is missing or not well formed. -/
def checkPathPrefix (index : Nat) (source : SourceContainer) : List ConfigError :=
  let path := pointer "source_containers" index "path_prefix"
  if source.pathPrefix.isEmpty then [.missingField path "path_prefix".toList]
  else if wellFormedPrefix source.pathPrefix then []
  else [.schema path ("path_prefix `".toList ++ source.pathPrefix ++
    "` must be a relative key prefix ending in `/` without `..` segments".toList)]

/-- No source's prefix may be a prefix of another's. -/
def checkOverlap (outer inner : SourceContainer × Nat) : List ConfigError :=
  if outer.2 ≠ inner.2 ∧ !outer.1.pathPrefix.isEmpty ∧
      outer.1.pathPrefix.isPrefixOf inner.1.pathPrefix then
    [.schema (pointer "source_containers" inner.2 "path_prefix")
      ("prefix `".toList ++ inner.1.pathPrefix ++ "` is nested under `".toList ++
        outer.1.pathPrefix ++ "` (source `".toList ++ outer.1.id ++
        "`); source prefixes must not overlap".toList)]
  else []

/-! ## The whole configuration -/

/-- Every error of a configuration. -/
def configErrors (config : PipelineConfig) : List ConfigError :=
  checkUniqueAndRequiredIds "source_containers" "source_container" SourceContainer.id
    (fun source => some source.name) 0 [] config.sourceContainers ++
  checkUniqueAndRequiredIds "dimensions" "lookup_mapping" Dimension.id
    (fun _ => none) 0 [] config.dimensions ++
  checkUniqueAndRequiredIds "mappings" "mapping" Mapping.id
    (fun _ => none) 0 [] config.mappings ++
  checkUniqueAndRequiredIds "analytic_tables" "analytic_table" AnalyticTable.id
    (fun table => some table.name) 0 [] config.analyticTables ++
  config.mappings.zipIdx.flatMap (fun mapping => checkMapping config mapping.2 mapping.1) ++
  config.analyticTables.zipIdx.flatMap (fun table => checkTable table.2 table.1) ++
  config.sourceContainers.zipIdx.flatMap (fun source => checkPathPrefix source.2 source.1) ++
  config.sourceContainers.zipIdx.flatMap (fun outer =>
    config.sourceContainers.zipIdx.flatMap (fun inner => checkOverlap outer inner))

/-- Validate a configuration. -/
def validate (config : PipelineConfig) : Except (List ConfigError) Unit :=
  if (configErrors config).isEmpty then .ok () else .error (configErrors config)

/-! ## What an accepted configuration satisfies -/

/-- What a dimension reference must name: a dimension, and a value column of it if it
names one. -/
def Resolves (dimensions : List Dimension) (dimId : Text) (value : Option Text) : Prop :=
  ∃ dimension, resolveDimension dimId dimensions = some dimension ∧
    ∀ column, value = some column → column ∈ dimension.valueColumns

/-- An accepted mapping. -/
structure Mapping.Valid (config : PipelineConfig) (mapping : Mapping) : Prop where
  source : mapping.sourceContainerId ≠ [] →
    mapping.sourceContainerId ∈ config.sourceContainers.map SourceContainer.id
  table : mapping.analyticTableId ≠ [] →
    mapping.analyticTableId ∈ config.analyticTables.map AnalyticTable.id
  dimensions : ∀ column ∈ mapping.columns, ∀ dimId value input,
    .dimRef dimId value input ∈ walkAst column.expr → Resolves config.dimensions dimId value
  whereDimensions : ∀ predicate, mapping.where_ = some predicate → ∀ dimId value input,
    .dimRef dimId value input ∈ walkAst predicate → Resolves config.dimensions dimId none
  whereColumns : ∀ predicate, mapping.where_ = some predicate → ∀ name,
    .col name ∈ walkAst predicate → name ∈ mapping.columns.map MappingColumn.name
  outputs : ∀ table, config.tableOf mapping = some table →
    ∀ column ∈ mapping.columns, column.name ∈ table.schema.map ColumnSchema.name
  inputs : ∀ source, config.sourceOf mapping = some source → ∀ column ∈ mapping.columns, ∀ name,
    .col name ∈ walkAst column.expr → name ∈ source.schema.map ColumnSchema.name

/-- An accepted table. -/
structure AnalyticTable.Valid (table : AnalyticTable) : Prop where
  few : table.partitionKeys.length ≤ 2
  distinctPartitions : table.partitionKeys.Nodup
  partitions : ∀ key ∈ table.partitionKeys, ∃ type, table.typeOf key = some type ∧
    type ≠ "float64".toList ∧ type ≠ "number".toList
  distinctDedups : table.dedupKeys.Nodup
  dedups : ∀ key ∈ table.dedupKeys, ∃ type, table.typeOf key = some type

/-- Ids are distinct and not empty, and so are the names that are required. -/
structure Identified {α : Type} (idOf : α → Text) (nameOf : α → Option Text) (items : List α) :
    Prop where
  distinct : (items.map idOf).Nodup
  required : ∀ item ∈ items, idOf item ≠ []
  named : ∀ item ∈ items, nameOf item ≠ some []

/-- A source has a prefix, and it is well formed. -/
def SourceContainer.Placed (source : SourceContainer) : Prop :=
  source.pathPrefix ≠ [] ∧ wellFormedPrefix source.pathPrefix = true

/-- An accepted configuration. -/
structure PipelineConfig.Valid (config : PipelineConfig) : Prop where
  sources : Identified SourceContainer.id (fun source => some source.name) config.sourceContainers
  dimensions : Identified Dimension.id (fun _ => none) config.dimensions
  mappings : Identified Mapping.id (fun _ => none) config.mappings
  tables : Identified AnalyticTable.id (fun table => some table.name) config.analyticTables
  mapping : ∀ mapping ∈ config.mappings, mapping.Valid config
  table : ∀ table ∈ config.analyticTables, table.Valid
  placed : ∀ source ∈ config.sourceContainers, source.Placed
  apart : config.sourceContainers.Pairwise (fun left right =>
    ¬ left.pathPrefix <+: right.pathPrefix ∧ ¬ right.pathPrefix <+: left.pathPrefix)

section Checks

variable {α : Type}

/-- Checks that do not depend on the position report nothing exactly when no item is
at fault. -/
theorem flatMap_zipIdx_nil {β : Type} {items : List α} {check : α × Nat → List β}
    {sound : α → Prop} (decides : ∀ item index, check (item, index) = [] ↔ sound item) :
    items.zipIdx.flatMap check = [] ↔ ∀ item ∈ items, sound item := by
  rw [List.flatMap_eq_nil_iff]
  constructor
  · intro silent item member
    obtain ⟨index, bound, rfl⟩ := List.mem_iff_getElem.mp member
    exact (decides _ _).mp (silent _ (List.mk_mem_zipIdx_iff_getElem?.mpr
      (List.getElem?_eq_getElem bound)))
  · rintro sound ⟨item, index⟩ member
    have listed := List.mk_mem_zipIdx_iff_getElem?.mp member
    exact (decides _ _).mpr (sound item (List.mem_of_getElem? listed))

/-- An error is reported exactly when its condition holds. -/
theorem report_nil {β : Type} {fault : Prop} [Decidable fault] {error : β} :
    (if fault then [error] else []) = [] ↔ ¬ fault := by
  by_cases holds : fault
  · simp only [holds, ↓reduceIte, reduceCtorEq, not_true_eq_false]
  · simp only [holds, ↓reduceIte, not_false_eq_true]

/-- A check reports nothing exactly if what it checks holds. -/
theorem otherwise_nil {β : Type} {sound : Prop} [Decidable sound] {error : β} :
    (if sound then [] else [error]) = [] ↔ sound := by
  by_cases holds : sound
  · simp only [holds, ↓reduceIte]
  · simp only [holds, ↓reduceIte, reduceCtorEq]

/-- No error exactly if the ids are not empty and do not repeat, and each item has its name. -/
theorem checkIds_nil {collection kind : String} {idOf : α → Text} {nameOf : α → Option Text}
    {index : Nat} {seen : List Text} {items : List α} :
    checkUniqueAndRequiredIds collection kind idOf nameOf index seen items = [] ↔
      Identified idOf nameOf items ∧ ∀ item ∈ items, idOf item ∉ seen := by
  induction items generalizing index seen with
  | nil => exact ⟨fun _ => ⟨⟨List.nodup_nil, by simp, by simp⟩, by simp⟩, fun _ => rfl⟩
  | cons item rest inductionHypothesis =>
    rw [checkUniqueAndRequiredIds, List.append_eq_nil_iff, List.append_eq_nil_iff,
      inductionHypothesis]
    by_cases missing : idOf item = []
    · constructor
      · rintro ⟨⟨impossible, _⟩, _⟩
        simp [missing] at impossible
      · rintro ⟨identified, _⟩
        exact absurd missing (identified.required item List.mem_cons_self)
    · have present : (idOf item).isEmpty = false := by simpa using missing
      simp only [present, Bool.false_eq_true, ↓reduceIte, List.contains_eq_mem, decide_eq_true_eq,
        ite_eq_right_iff, reduceCtorEq, imp_false]
      constructor
      · rintro ⟨⟨fresh, hasName⟩, identified, restFresh⟩
        have apart : ∀ other ∈ rest, idOf item ≠ idOf other := by
          rintro other member same
          exact restFresh other member (by rw [← same]; exact List.mem_cons_self)
        refine ⟨⟨?_, ?_, ?_⟩, ?_⟩
        · rw [List.map_cons, List.nodup_cons]
          refine ⟨?_, identified.distinct⟩
          intro again
          obtain ⟨other, member, same⟩ := List.mem_map.mp again
          exact apart other member same.symm
        · simpa [missing] using identified.required
        · simpa [hasName] using identified.named
        · intro other member
          rcases List.mem_cons.mp member with rfl | member
          · exact fresh
          · exact fun isSeen => restFresh other member (List.mem_cons_of_mem _ isSeen)
      · rintro ⟨identified, fresh⟩
        obtain ⟨notAgain, distinct⟩ := List.nodup_cons.mp identified.distinct
        refine ⟨⟨fresh item List.mem_cons_self, identified.named item List.mem_cons_self⟩,
          ⟨distinct, fun other member => identified.required other (List.mem_cons_of_mem _ member),
            fun other member => identified.named other (List.mem_cons_of_mem _ member)⟩, ?_⟩
        intro other member isSeen
        rcases List.mem_cons.mp isSeen with same | isSeen
        · exact notAgain (List.mem_map.mpr ⟨other, member, same⟩)
        · exact fresh other (List.mem_cons_of_mem _ member) isSeen

/-- An empty reference passes, any other has to resolve. -/
theorem checkReference_nil {path : Text} {kind : String} {target : Text} {ids : List Text} :
    checkReference path kind target ids = [] ↔ (target ≠ [] → target ∈ ids) := by
  rw [checkReference, report_nil]
  simp only [Bool.and_eq_true, Bool.not_eq_true', List.isEmpty_eq_false_iff, List.contains_eq_mem,
    decide_eq_false_iff_not, not_and, not_not, ne_eq]

/-- A node passes exactly if it refers to no dimension or to one that resolves. -/
theorem checkDimension_nil {config : PipelineConfig} {path : Text} {node : AstNode} :
    checkDimension config path node = [] ↔
      ∀ dimId value input, node = .dimRef dimId value input →
        Resolves config.dimensions dimId value := by
  unfold checkDimension
  split
  · next dimId value input =>
    constructor
    · intro silent dimId' value' input' same
      obtain ⟨rfl, rfl, rfl⟩ := AstNode.dimRef.inj same
      split at silent
      · exact nomatch silent
      · next dimension resolved =>
        refine ⟨dimension, resolved, ?_⟩
        rintro column rfl
        obtain ⟨declared, member, same⟩ := List.any_eq_true.mp (otherwise_nil.mp silent)
        exact of_decide_eq_true same ▸ member
    · intro resolves
      obtain ⟨dimension, resolved, declared⟩ := resolves dimId value input rfl
      rw [resolved]
      cases value with
      | none => rfl
      | some column =>
        exact otherwise_nil.mpr (List.any_eq_true.mpr
          ⟨column, declared column rfl, decide_eq_true rfl⟩)
  · next other =>
    exact ⟨fun _ dimId value input same => absurd same (other dimId value input), fun _ => rfl⟩

/-- In a predicate, dimensions resolve without their value column, and columns are the mapping's
own. -/
theorem checkWhereNode_nil {config : PipelineConfig} {mapping : Mapping} {path : Text}
    {node : AstNode} :
    checkWhereNode config mapping path node = [] ↔
      (∀ dimId value input, node = .dimRef dimId value input →
        Resolves config.dimensions dimId none) ∧
      ∀ name, node = .col name → name ∈ mapping.columns.map MappingColumn.name := by
  unfold checkWhereNode
  split
  · next dimId value input =>
    constructor
    · intro silent
      refine ⟨?_, fun _ impossible => nomatch impossible⟩
      intro dimId' value' input' same
      obtain ⟨rfl, rfl, rfl⟩ := AstNode.dimRef.inj same
      cases resolved : resolveDimension dimId config.dimensions with
      | none =>
        rw [resolved] at silent
        exact nomatch silent
      | some dimension => exact ⟨dimension, resolved, fun _ impossible => nomatch impossible⟩
    · rintro ⟨resolves, _⟩
      obtain ⟨dimension, resolved, _⟩ := resolves dimId value input rfl
      rw [resolved]
      rfl
  · next name =>
    constructor
    · intro silent
      refine ⟨fun _ _ _ impossible => (nomatch impossible), ?_⟩
      rintro other same
      obtain rfl := AstNode.col.inj same
      exact List.contains_iff_mem.mp (otherwise_nil.mp silent)
    · rintro ⟨_, declared⟩
      exact otherwise_nil.mpr (List.contains_iff_mem.mpr (declared name rfl))
  · next notReference notColumn =>
    exact ⟨fun _ => ⟨fun dimId value input same => absurd same (notReference dimId value input),
      fun name same => absurd same (notColumn name)⟩, fun _ => rfl⟩

/-- A column of an expression is one of its source. -/
theorem checkSourceColumn_nil {source : SourceContainer} {path : Text} {node : AstNode} :
    checkSourceColumn source path node = [] ↔
      ∀ name, node = .col name → name ∈ source.schema.map ColumnSchema.name := by
  unfold checkSourceColumn
  split
  · next name =>
    constructor
    · rintro silent other same
      obtain rfl := AstNode.col.inj same
      exact List.contains_iff_mem.mp (otherwise_nil.mp silent)
    · intro declared
      exact otherwise_nil.mpr (List.contains_iff_mem.mpr (declared name rfl))
  · next other => exact ⟨fun _ name same => absurd same (other name), fun _ => rfl⟩

/-- A mapping is accepted exactly when none of its checks reports an error. -/
theorem checkMapping_nil {config : PipelineConfig} {index : Nat} {mapping : Mapping} :
    checkMapping config index mapping = [] ↔ mapping.Valid config := by
  have expressions : mapping.columns.zipIdx.flatMap (fun column =>
      (walkAst column.1.expr).flatMap
        (checkDimension config (columnPointer index column.2 "expr"))) = [] ↔
      ∀ column ∈ mapping.columns, ∀ dimId value input,
        .dimRef dimId value input ∈ walkAst column.expr →
          Resolves config.dimensions dimId value := by
    refine flatMap_zipIdx_nil (fun column position => ?_)
    rw [List.flatMap_eq_nil_iff]
    constructor
    · intro silent dimId value input member
      exact checkDimension_nil.mp (silent _ member) dimId value input rfl
    · intro resolves node member
      refine checkDimension_nil.mpr ?_
      rintro dimId value input rfl
      exact resolves dimId value input member
  have predicate : (match mapping.where_ with
      | some predicate => (walkAst predicate).flatMap
          (checkWhereNode config mapping (pointer "mappings" index "where"))
      | none => []) = [] ↔
      (∀ predicate, mapping.where_ = some predicate → ∀ dimId value input,
        .dimRef dimId value input ∈ walkAst predicate → Resolves config.dimensions dimId none) ∧
      ∀ predicate, mapping.where_ = some predicate → ∀ name,
        .col name ∈ walkAst predicate → name ∈ mapping.columns.map MappingColumn.name := by
    cases mapping.where_ with
    | none => exact ⟨fun _ => ⟨fun _ impossible => (nomatch impossible),
        fun _ impossible => nomatch impossible⟩, fun _ => rfl⟩
    | some predicate =>
      simp only [List.flatMap_eq_nil_iff, checkWhereNode_nil, Option.some.injEq, forall_eq']
      constructor
      · intro sound
        exact ⟨fun dimId value input member => (sound _ member).1 dimId value input rfl,
          fun name member => (sound _ member).2 name rfl⟩
      · rintro ⟨resolves, declared⟩ node member
        refine ⟨?_, ?_⟩
        · rintro dimId value input rfl
          exact resolves dimId value input member
        · rintro name rfl
          exact declared name member
  have outputs : (match config.tableOf mapping with
      | some table => mapping.columns.zipIdx.flatMap (fun column =>
        if (table.schema.map ColumnSchema.name).contains column.1.name then []
        else [.danglingReference (columnPointer index column.2 "name")
          "analytic_table_column".toList (table.id ++ '.' :: column.1.name)])
      | none => []) = ([] : List ConfigError) ↔
      ∀ table, config.tableOf mapping = some table →
        ∀ column ∈ mapping.columns, column.name ∈ table.schema.map ColumnSchema.name := by
    cases config.tableOf mapping with
    | none => exact ⟨fun _ _ impossible => (nomatch impossible), fun _ => rfl⟩
    | some table =>
      simp only [Option.some.injEq, forall_eq']
      refine flatMap_zipIdx_nil (fun column position => ?_)
      rw [otherwise_nil, List.contains_iff_mem]
  have inputs : (match config.sourceOf mapping with
      | some source => mapping.columns.zipIdx.flatMap (fun column =>
        (walkAst column.1.expr).flatMap
          (checkSourceColumn source (columnPointer index column.2 "expr")))
      | none => []) = [] ↔
      ∀ source, config.sourceOf mapping = some source → ∀ column ∈ mapping.columns, ∀ name,
        .col name ∈ walkAst column.expr → name ∈ source.schema.map ColumnSchema.name := by
    cases config.sourceOf mapping with
    | none => exact ⟨fun _ _ impossible => (nomatch impossible), fun _ => rfl⟩
    | some source =>
      simp only [Option.some.injEq, forall_eq']
      refine flatMap_zipIdx_nil (fun column position => ?_)
      rw [List.flatMap_eq_nil_iff]
      constructor
      · intro silent name member
        exact checkSourceColumn_nil.mp (silent _ member) name rfl
      · intro declared node member
        refine checkSourceColumn_nil.mpr ?_
        rintro name rfl
        exact declared name member
  simp only [checkMapping, List.append_eq_nil_iff, checkReference_nil, expressions, predicate,
    outputs, inputs]
  constructor
  · rintro ⟨⟨⟨⟨⟨source, table⟩, dimensions⟩, whereDimensions, whereColumns⟩, outputs⟩, inputs⟩
    exact ⟨source, table, dimensions, whereDimensions, whereColumns, outputs, inputs⟩
  · intro valid
    exact ⟨⟨⟨⟨⟨valid.source, valid.table⟩, valid.dimensions⟩, valid.whereDimensions,
      valid.whereColumns⟩, valid.outputs⟩, valid.inputs⟩

/-- Keys pass exactly if none repeats and each passes its check. -/
theorem checkKeys_nil {path : Text} {kind : String} {check : Text → List ConfigError}
    {seen keys : List Text} :
    checkKeys path kind check seen keys = [] ↔
      keys.Nodup ∧ ∀ key ∈ keys, key ∉ seen ∧ check key = [] := by
  induction keys generalizing seen with
  | nil => exact ⟨fun _ => ⟨List.nodup_nil, fun _ impossible => nomatch impossible⟩, fun _ => rfl⟩
  | cons key rest inductionHypothesis =>
    rw [checkKeys, List.append_eq_nil_iff, inductionHypothesis]
    have here : (if seen.contains key then
          [.schema path
            ("duplicate ".toList ++ kind.toList ++ " key `".toList ++ key ++ "`".toList)]
        else check key) = [] ↔ key ∉ seen ∧ check key = [] := by
      by_cases again : key ∈ seen
      · rw [if_pos (List.contains_iff_mem.mpr again)]
        exact ⟨fun impossible => (nomatch impossible), fun fresh => absurd again fresh.1⟩
      · rw [if_neg (fun isSeen => again (List.contains_iff_mem.mp isSeen))]
        exact ⟨fun silent => ⟨again, silent⟩, And.right⟩
    rw [here]
    constructor
    · rintro ⟨sound, distinct, restSound⟩
      refine ⟨List.nodup_cons.mpr ⟨fun member => (restSound key member).1 List.mem_cons_self,
        distinct⟩, ?_⟩
      intro other member
      rcases List.mem_cons.mp member with rfl | member
      · exact sound
      · exact ⟨fun isSeen => (restSound other member).1 (List.mem_cons_of_mem _ isSeen),
          (restSound other member).2⟩
    · rintro ⟨distinct, sound⟩
      obtain ⟨notAgain, restDistinct⟩ := List.nodup_cons.mp distinct
      refine ⟨sound key List.mem_cons_self, restDistinct, ?_⟩
      intro other member
      refine ⟨?_, (sound other (List.mem_cons_of_mem _ member)).2⟩
      intro isSeen
      rcases List.mem_cons.mp isSeen with rfl | isSeen
      · exact notAgain member
      · exact (sound other (List.mem_cons_of_mem _ member)).1 isSeen

/-- A partition key is a column of the table, and not of floats. -/
theorem checkPartitionKey_nil {table : AnalyticTable} {path key : Text} :
    checkPartitionKey table path key = [] ↔ ∃ type, table.typeOf key = some type ∧
      type ≠ "float64".toList ∧ type ≠ "number".toList := by
  unfold checkPartitionKey
  cases table.typeOf key with
  | none => exact ⟨fun impossible => (nomatch impossible),
      fun ⟨_, impossible, _⟩ => nomatch impossible⟩
  | some type =>
    rw [report_nil, not_or]
    constructor
    · exact fun stable => ⟨type, rfl, stable⟩
    · rintro ⟨other, same, stable⟩
      obtain rfl := Option.some.inj same
      exact stable

/-- A dedup key is a column of the table. -/
theorem checkDedupKey_nil {table : AnalyticTable} {path key : Text} :
    checkDedupKey table path key = [] ↔ ∃ type, table.typeOf key = some type := by
  rw [checkDedupKey, otherwise_nil, Option.isSome_iff_exists]

/-- A table passes exactly if it is valid. -/
theorem checkTable_nil {index : Nat} {table : AnalyticTable} :
    checkTable index table = [] ↔ table.Valid := by
  simp only [checkTable, List.append_eq_nil_iff, report_nil, checkKeys_nil, List.not_mem_nil,
    not_false_eq_true, true_and, checkPartitionKey_nil, checkDedupKey_nil, Nat.not_lt]
  constructor
  · rintro ⟨⟨few, distinctPartitions, partitions⟩, distinctDedups, dedups⟩
    exact ⟨few, distinctPartitions, partitions, distinctDedups, dedups⟩
  · intro valid
    exact ⟨⟨valid.few, valid.distinctPartitions, valid.partitions⟩, valid.distinctDedups,
      valid.dedups⟩

/-- A source passes exactly if it has a well-formed prefix. -/
theorem checkPathPrefix_nil {index : Nat} {source : SourceContainer} :
    checkPathPrefix index source = [] ↔ source.Placed := by
  rw [checkPathPrefix, SourceContainer.Placed]
  by_cases missing : source.pathPrefix = []
  · rw [missing]
    exact ⟨fun impossible => (nomatch impossible), fun ⟨present, _⟩ => absurd rfl present⟩
  · rw [if_neg (by simpa using missing), otherwise_nil]
    exact ⟨fun wellFormed => ⟨missing, wellFormed⟩, And.right⟩

/-- Two sources pass exactly if neither prefix begins the other's. -/
theorem checkOverlap_nil {outer inner : SourceContainer × Nat} :
    checkOverlap outer inner = [] ↔ (outer.2 ≠ inner.2 → outer.1.pathPrefix ≠ [] →
      ¬ outer.1.pathPrefix <+: inner.1.pathPrefix) := by
  rw [checkOverlap, report_nil, not_and, not_and, List.isPrefixOf_iff_prefix]
  simp only [Bool.not_eq_true', List.isEmpty_eq_false_iff, ne_eq]

/-- Prefixes that are not empty overlap nowhere exactly when no two do. -/
theorem overlaps_nil {sources : List SourceContainer}
    (present : ∀ source ∈ sources, source.pathPrefix ≠ []) :
    sources.zipIdx.flatMap (fun outer =>
        sources.zipIdx.flatMap (fun inner => checkOverlap outer inner)) = [] ↔
      sources.Pairwise (fun left right =>
        ¬ left.pathPrefix <+: right.pathPrefix ∧ ¬ right.pathPrefix <+: left.pathPrefix) := by
  simp only [List.flatMap_eq_nil_iff, checkOverlap_nil]
  rw [List.pairwise_iff_getElem]
  have listed : ∀ index (bound : index < sources.length),
    (sources[index], index) ∈ sources.zipIdx :=
    fun index bound => List.mk_mem_zipIdx_iff_getElem?.mpr (List.getElem?_eq_getElem bound)
  constructor
  · intro apart left right leftBound rightBound before
    exact ⟨apart _ (listed left leftBound) _ (listed right rightBound) (Nat.ne_of_lt before)
        (present _ (List.getElem_mem leftBound)),
      apart _ (listed right rightBound) _ (listed left leftBound) (Nat.ne_of_gt before)
        (present _ (List.getElem_mem rightBound))⟩
  · rintro apart ⟨outer, left⟩ isOuter ⟨inner, right⟩ isInner different _
    obtain ⟨leftBound, rfl⟩ := List.getElem?_eq_some_iff.mp
      (List.mk_mem_zipIdx_iff_getElem?.mp isOuter)
    obtain ⟨rightBound, rfl⟩ := List.getElem?_eq_some_iff.mp
      (List.mk_mem_zipIdx_iff_getElem?.mp isInner)
    rcases Nat.lt_or_gt_of_ne different with before | before
    · exact (apart left right leftBound rightBound before).1
    · exact (apart right left rightBound leftBound before).2

end Checks

/-- The validator accepts exactly the valid configurations. -/
theorem validate_iff {config : PipelineConfig} : validate config = .ok () ↔ config.Valid := by
  have silent : validate config = .ok () ↔ configErrors config = [] := by
    rw [validate]
    cases configErrors config with
    | nil => exact ⟨fun _ => rfl, fun _ => rfl⟩
    | cons error rest =>
        exact ⟨fun impossible => (nomatch impossible), fun impossible => nomatch impossible⟩
  rw [silent]
  simp only [configErrors, List.append_eq_nil_iff, checkIds_nil, List.not_mem_nil,
    not_false_eq_true,
    implies_true, and_true]
  rw [flatMap_zipIdx_nil (fun mapping index => checkMapping_nil),
    flatMap_zipIdx_nil (fun table index => checkTable_nil),
    flatMap_zipIdx_nil (fun source index => checkPathPrefix_nil)]
  constructor
  · rintro ⟨⟨⟨⟨⟨⟨⟨sources, dimensions⟩, mappings⟩, tables⟩, mapping⟩, table⟩, placed⟩, overlaps⟩
    exact ⟨sources, dimensions, mappings, tables, mapping, table, placed,
      (overlaps_nil (fun source member => (placed source member).1)).mp overlaps⟩
  · intro valid
    exact ⟨⟨⟨⟨⟨⟨⟨valid.sources, valid.dimensions⟩, valid.mappings⟩, valid.tables⟩, valid.mapping⟩,
      valid.table⟩, valid.placed⟩,
      (overlaps_nil (fun source member => (valid.placed source member).1)).mpr valid.apart⟩

end KaretWorker
