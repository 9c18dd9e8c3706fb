import KaretWorker.Evaluator
import KaretWorker.JsonPath

/-!
# Compilation of a validated configuration

The executor compiles three kinds of expressions and, for JSON sources, a path for each
column. The validator looks at the expressions of mapping columns and at the names in
predicates. It does not look at the value column that a predicate asks of a dimension,
at record filters, or at paths.

So a configuration that the validator accepts compiles exactly when these are sound as
well (`compiles_iff`), and `undeclared_value_fails` is one that does not.
-/
namespace KaretWorker

open Texts

/-- Where a column is found in a record: at its path, or at its name. -/
def ColumnSchema.recordPath (column : ColumnSchema) : Text := column.path.getD column.name

/-- An expression compiles, and reads columns of the frame only. -/
def CompilesOver (registry : Registry) (node : AstNode) (names : List Text) : Prop :=
  ∃ expr, compile registry node = .ok expr ∧ ∀ name ∈ expr.columnNames, name ∈ names

/-- Every expression that a job evaluates compiles over the frame it is evaluated on, and
so does the path of every column of a JSON source. -/
structure Compiles (config : PipelineConfig) (registry : Registry) : Prop where
  columns : ∀ mapping ∈ config.mappings, ∀ column ∈ mapping.columns,
    ∃ expr, compile registry column.expr = .ok expr
  inputs : ∀ mapping ∈ config.mappings, ∀ source, config.sourceOf mapping = some source →
    ∀ column ∈ mapping.columns,
      CompilesOver registry column.expr (source.schema.map ColumnSchema.name)
  predicates : ∀ mapping ∈ config.mappings, ∀ predicate, mapping.where_ = some predicate →
    CompilesOver registry predicate (mapping.columns.map MappingColumn.name)
  filters : ∀ source ∈ config.sourceContainers, ∀ filter, source.recordFilter = some filter →
    CompilesOver registry filter (source.schema.map ColumnSchema.name)
  paths : ∀ source ∈ config.sourceContainers, source.format = .ndjson →
    ∀ column ∈ source.schema, ∃ steps, compilePath column.recordPath = .ok steps

/-- The dimension references of an expression, and the columns it names. -/
structure SoundOver (dimensions : List Dimension) (names : List Text) (node : AstNode) : Prop where
  dimensions : ∀ dimId value input, .dimRef dimId value input ∈ walkAst node →
    Resolves dimensions dimId value
  columns : ∀ name, .col name ∈ walkAst node → name ∈ names

/-- What the validator leaves open: the value columns in predicates, the record filters,
and the paths. -/
structure Compilable (config : PipelineConfig) : Prop where
  values : ∀ mapping ∈ config.mappings, ∀ predicate, mapping.where_ = some predicate →
    ∀ dimId column input, .dimRef dimId (some column) input ∈ walkAst predicate →
      Resolves config.dimensions dimId (some column)
  filters : ∀ source ∈ config.sourceContainers, ∀ filter, source.recordFilter = some filter →
    SoundOver config.dimensions (source.schema.map ColumnSchema.name) filter
  paths : ∀ source ∈ config.sourceContainers, source.format = .ndjson →
    ∀ column ∈ source.schema, WellFormedPath column.recordPath

section Agreement

variable {registry : Registry} {dimensions : List Dimension} {node : AstNode} {names : List Text}

/-- In a registry that covers the dimensions, references resolve as among them. -/
theorem resolved_iff (covers : Covers registry dimensions) :
    (∀ inner ∈ walkAst node, inner.Resolved registry) ↔ ∀ dimId value input,
      .dimRef dimId value input ∈ walkAst node → Resolves dimensions dimId value := by
  have reference : ∀ dimId value input, (AstNode.dimRef dimId value input).Resolved registry ↔
      Resolves dimensions dimId value := by
    intro dimId value input
    have same := covers dimId
    rw [AstNode.Resolved, Resolves]
    cases found : registry.lookup dimId with
    | none =>
      cases declared : resolveDimension dimId dimensions with
      | none => simp
      | some dimension => simp [found, declared] at same
    | some matcher =>
      cases declared : resolveDimension dimId dimensions with
      | none => simp [found, declared] at same
      | some dimension =>
        simp only [found, declared, Option.map_some, Option.some.injEq] at same
        simp only [Option.some.injEq, exists_eq_left', same]
  rw [resolved_references]
  constructor
  · intro resolved dimId value input member
    exact (reference dimId value input).mp (resolved dimId value input member)
  · intro resolves dimId value input member
    exact (reference dimId value input).mpr (resolves dimId value input member)

/-- An expression compiles over a frame exactly when it is sound. -/
theorem compilesOver_iff (covers : Covers registry dimensions) :
    CompilesOver registry node names ↔ SoundOver dimensions names node := by
  have agrees := compile_agrees registry node
  constructor
  · rintro ⟨expr, compiled, within⟩
    refine ⟨(resolved_iff covers).mp (agrees.succeeds.mp ⟨expr, compiled⟩), fun name member => ?_⟩
    refine within name ?_
    rw [agrees.columns expr compiled, mem_ownColumns]
    exact member
  · intro sound
    obtain ⟨expr, compiled⟩ := agrees.succeeds.mpr ((resolved_iff covers).mpr sound.dimensions)
    refine ⟨expr, compiled, fun name member => ?_⟩
    rw [agrees.columns expr compiled, mem_ownColumns] at member
    exact sound.columns name member

end Agreement

/-- A configuration that the validator accepts compiles with the registry of its
dimensions if and only if the value columns in predicates, the record filters and the
paths of JSON sources are sound. -/
theorem compiles_iff {config : PipelineConfig} {registry : Registry} {toLowercase : Text → Text}
    {fileRows : Dimension → List MatcherRow} (accepted : validate config = .ok ())
    (built : buildRegistry toLowercase fileRows config.dimensions = .ok registry) :
    Compiles config registry ↔ Compilable config := by
  have valid := validate_iff.mp accepted
  have covers := buildRegistry_covers valid.dimensions.distinct built
  constructor
  · intro compiles
    refine ⟨?_, ?_, ?_⟩
    · intro mapping member predicate isPredicate dimId column input occurs
      have sound := (compilesOver_iff covers).mp
        (compiles.predicates mapping member predicate isPredicate)
      exact sound.dimensions dimId (some column) input occurs
    · intro source member filter isFilter
      exact (compilesOver_iff covers).mp (compiles.filters source member filter isFilter)
    · intro source member isJson column isColumn
      exact compilePath_ok.mp (compiles.paths source member isJson column isColumn)
  · intro compilable
    have compilesColumn : ∀ mapping ∈ config.mappings, ∀ column ∈ mapping.columns,
        ∀ inner ∈ walkAst column.expr, inner.Resolved registry := by
      intro mapping member column isColumn
      exact (resolved_iff covers).mpr ((valid.mapping mapping member).dimensions column isColumn)
    refine ⟨?_, ?_, ?_, ?_, ?_⟩
    · intro mapping member column isColumn
      exact (compile_agrees registry column.expr).succeeds.mpr
        (compilesColumn mapping member column isColumn)
    · intro mapping member source isSource column isColumn
      exact (compilesOver_iff covers).mpr
        ⟨(valid.mapping mapping member).dimensions column isColumn,
        (valid.mapping mapping member).inputs source isSource column isColumn⟩
    · intro mapping member predicate isPredicate
      refine (compilesOver_iff covers).mpr ⟨?_,
        (valid.mapping mapping member).whereColumns predicate isPredicate⟩
      intro dimId value input occurs
      cases value with
      | none =>
        exact (valid.mapping mapping member).whereDimensions predicate isPredicate dimId none input
          occurs
      | some column =>
        exact compilable.values mapping member predicate isPredicate dimId column input occurs
    · intro source member filter isFilter
      exact (compilesOver_iff covers).mpr (compilable.filters source member filter isFilter)
    · intro source member isJson column isColumn
      exact compilePath_ok.mpr (compilable.paths source member isJson column isColumn)

/-! ## Two configurations -/

/-- A JSON source with one column. -/
def jsonSource : SourceContainer :=
  ⟨"s".toList, "S".toList, "in/".toList, .ndjson,
    [⟨"a".toList, some "r.a[0]".toList, "string".toList⟩], some (.eq (.col "a".toList) (.str []))⟩

/-- A configuration whose predicate asks a dimension for a value column. -/
def askingFor (value : Text) : PipelineConfig :=
  ⟨[jsonSource], [letterDimension],
    [{ plainMapping "t".toList with
        where_ := some (.dimRef "d".toList (some value) (.col "a".toList)) }],
    [plainTable "t".toList]⟩

/-- With a declared value column it compiles. -/
theorem compiles_iff_declared : ∃ registry,
    buildRegistry id (fun _ => []) (askingFor "v".toList).dimensions = .ok registry ∧
      (Compiles (askingFor "v".toList) registry ↔ Compilable (askingFor "v".toList)) := by
  obtain ⟨registry, built⟩ : ∃ registry,
      buildRegistry id (fun _ => []) (askingFor "v".toList).dimensions = .ok registry := ⟨_, rfl⟩
  exact ⟨registry, built, compiles_iff (by decide +kernel) built⟩

/-- A predicate may ask for a value column that the dimension does not have: the
configuration is accepted, and the predicate does not compile. -/
theorem undeclared_value_fails : validate (askingFor "w".toList) = .ok () ∧ ∃ registry,
    buildRegistry id (fun _ => []) (askingFor "w".toList).dimensions = .ok registry ∧
      ¬ Compiles (askingFor "w".toList) registry := by
  obtain ⟨registry, built⟩ : ∃ registry,
      buildRegistry id (fun _ => []) (askingFor "w".toList).dimensions = .ok registry := ⟨_, rfl⟩
  refine ⟨by decide +kernel, registry, built, ?_⟩
  intro compiles
  have covers := buildRegistry_covers (by decide) built
  have sound := (compilesOver_iff covers).mp (compiles.predicates _ List.mem_cons_self _ rfl)
  obtain ⟨dimension, found, declared⟩ := sound.dimensions _ _ _ List.mem_cons_self
  have isLetter : resolveDimension "d".toList (askingFor "w".toList).dimensions =
      some letterDimension := by decide
  obtain rfl := Option.some.inj (found.symm.trans isLetter)
  exact absurd (declared "w".toList rfl) (by decide)

end KaretWorker
