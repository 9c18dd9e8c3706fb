import KaretWorker.Library.Index
import KaretWorker.Library.Selection
import KaretWorker.Validation
import Mathlib.Data.List.FinRange
import Mathlib.Data.List.Infix

/-!
# Dimension matchers

The matchers of `src/dimension.rs`: rows with folded patterns, an index of the patterns
of an exact dimension, and the lookup of an input. The index holds positions of rows
that exist. Above them is the registry of a job, the inline dimensions first and then
those read from files.

Folding is the lower case of the standard library. Nothing below depends on which
function of texts it is, so it is a parameter.
-/
namespace KaretWorker

open Texts Indexing Selection

/-- Hard cap on dimension rows. -/
def maxDimensionRows : Nat := 1000000

/-- One row of a matcher: the keys or patterns it matches, one entry for each value
column, and its priority. -/
structure MatcherRow where
  patterns : List Text
  values : List (Option Text)
  priority : Int
  deriving DecidableEq, Repr

/-- Failure while building a dimension. -/
inductive DimensionError where
  | duplicateKey (id key : Text)
  | tooManyRows (id : Text) (rows max : Nat)
  | missingColumn (id column : Text)
  | fileRead (id message : Text)
  deriving DecidableEq, Repr

/-- The text an error is shown as. -/
def DimensionError.display : DimensionError → Text
  | .duplicateKey id key =>
    "dimension `".toList ++ id ++ "` has duplicate key `".toList ++ key ++ "`".toList
  | .tooManyRows id rows max => "dimension `".toList ++ id ++ "` exceeds the ".toList ++
      decimal max ++ "-row cap (".toList ++ decimal rows ++ " rows)".toList
  | .missingColumn id column =>
    "dimension `".toList ++ id ++ "` file is missing column `".toList ++ column ++ "`".toList
  | .fileRead id message =>
    "dimension `".toList ++ id ++ "` file could not be read: ".toList ++ message

/-- A dimension ready for lookups. The index gives the row of an exact pattern. -/
structure DimensionMatcher where
  rows : List MatcherRow
  valueColumns : List Text
  matchMode : MatchMode
  caseInsensitive : Bool
  onMiss : OnMiss
  exactIndex : AList (fun _ : Text => Fin rows.length)

/-- Each pattern of each row, with the row's position. -/
def patternsByRow (rows : List MatcherRow) : List (Text × Fin rows.length) :=
  (List.finRange rows.length).flatMap (fun position =>
    (rows.get position).patterns.map (fun pattern => (pattern, position)))

section Folding

variable (toLowercase : Text → Text)

/-- Case-insensitive dimensions fold patterns and inputs alike. -/
def foldCase (caseInsensitive : Bool) (text : Text) : Text :=
  if caseInsensitive then toLowercase text else text

/-- A row with its patterns folded. -/
def MatcherRow.folded (caseInsensitive : Bool) (row : MatcherRow) : MatcherRow :=
  { row with patterns := row.patterns.map (foldCase toLowercase caseInsensitive) }

/-- Compile a dimension whose rows are resolved. In an exact dimension a repeated key
is an error. -/
def DimensionMatcher.new (dimension : Dimension) (rows : List MatcherRow) :
    Except DimensionError DimensionMatcher :=
  if maxDimensionRows < rows.length then
    .error (.tooManyRows dimension.id rows.length maxDimensionRows)
  else
    let caseInsensitive := dimension.caseInsensitive.getD false
    let compiled := rows.map (MatcherRow.folded toLowercase caseInsensitive)
    match dimension.match_ with
    | .exact =>
      match indexUnique (patternsByRow compiled) ∅ with
      | .error key => .error (.duplicateKey dimension.id key)
      | .ok exactIndex => .ok ⟨compiled, dimension.valueColumns, .exact, caseInsensitive,
          dimension.onMiss, exactIndex⟩
    | .keywordSubstring => .ok ⟨compiled, dimension.valueColumns, .keywordSubstring,
        caseInsensitive, dimension.onMiss, ∅⟩

/-- Index of a value column. -/
def DimensionMatcher.valueIndex (matcher : DimensionMatcher) : Option Text → Option Nat
  | none => some 0
  | some name => matcher.valueColumns.findIdx? (· = name)

/-- Some pattern of the row occurs in the text. -/
def MatcherRow.occursIn (text : Text) (row : MatcherRow) : Bool :=
  row.patterns.any (fun pattern => pattern <:+: text)

/-- The row of a folded input: the one with the key, or the first one of the highest
priority among those with a keyword in it. -/
def DimensionMatcher.hit (matcher : DimensionMatcher) (text : Text) : Option MatcherRow :=
  match matcher.matchMode with
  | .exact => (matcher.exactIndex.lookup text).map matcher.rows.get
  | .keywordSubstring => firstGreatest (MatcherRow.occursIn text) MatcherRow.priority matcher.rows

/-- What an input that hits no row produces. -/
def OnMiss.apply (onMiss : OnMiss) (input : Text) : Option Text :=
  match onMiss with
  | .null => none
  | .passthrough => some input
  | .literal text => some text

/-- Resolve an input to the value at an index. -/
def DimensionMatcher.lookup (matcher : DimensionMatcher) (input : Text) (valueIndex : Nat) :
    Option Text :=
  match matcher.hit (foldCase toLowercase matcher.caseInsensitive input) with
  | some row => row.values[valueIndex]?.join
  | none => matcher.onMiss.apply input

/-! ## Building a matcher -/

variable {toLowercase}

/-- The patterns by row are those of the rows, each with its row's position. -/
theorem mem_patternsByRow {rows : List MatcherRow} {pattern : Text} {position : Fin rows.length} :
    (pattern, position) ∈ patternsByRow rows ↔ pattern ∈ (rows.get position).patterns := by
  simp only [patternsByRow, List.mem_flatMap, List.mem_finRange, true_and, List.mem_map,
    Prod.mk.injEq]
  constructor
  · rintro ⟨_, _, member, rfl, rfl⟩
    exact member
  · exact fun member => ⟨position, pattern, member, rfl, rfl⟩

/-- Without their positions, the patterns are those of the rows in order. -/
theorem map_patternsByRow (rows : List MatcherRow) :
    (patternsByRow rows).map Prod.fst = rows.flatMap MatcherRow.patterns := by
  have positions : (List.finRange rows.length).flatMap (fun position =>
      (rows.get position).patterns) = rows.flatMap MatcherRow.patterns := by
    rw [← List.flatMap_map rows.get, List.map_get_finRange]
  rw [← positions, patternsByRow, List.map_flatMap]
  simp only [List.map_map, Function.comp_def, List.map_id']

/-- The patterns of rows, folded as the dimension folds them. -/
def Dimension.foldedPatterns (toLowercase : Text → Text) (dimension : Dimension)
    (rows : List MatcherRow) : List Text :=
  rows.flatMap (fun row =>
    row.patterns.map (foldCase toLowercase (dimension.caseInsensitive.getD false)))

/-- What a matcher is built of. -/
structure Built (toLowercase : Text → Text) (dimension : Dimension) (rows : List MatcherRow)
    (matcher : DimensionMatcher) : Prop where
  rows : matcher.rows =
    rows.map (MatcherRow.folded toLowercase (dimension.caseInsensitive.getD false))
  valueColumns : matcher.valueColumns = dimension.valueColumns
  matchMode : matcher.matchMode = dimension.match_
  caseInsensitive : matcher.caseInsensitive = dimension.caseInsensitive.getD false
  onMiss : matcher.onMiss = dimension.onMiss
  indexed : dimension.match_ = .exact → ∀ pattern position,
    matcher.exactIndex.lookup pattern = some position ↔
      pattern ∈ (matcher.rows.get position).patterns

/-- A matcher that could be built is the one its rows describe. -/
theorem new_built {dimension : Dimension} {rows : List MatcherRow} {matcher : DimensionMatcher}
    (built : DimensionMatcher.new toLowercase dimension rows = .ok matcher) :
    Built toLowercase dimension rows matcher := by
  simp only [DimensionMatcher.new] at built
  split at built
  · exact nomatch built
  split at built
  · next exact =>
    split at built
    · exact nomatch built
    · next exactIndex fills =>
      obtain rfl := Except.ok.inj built
      refine ⟨rfl, rfl, exact.symm, rfl, rfl, fun _ pattern position => ?_⟩
      rw [indexUnique_lookup fills, mem_patternsByRow]
      exact ⟨fun held => held.resolve_right (by simp), Or.inl⟩
  · next keyword =>
    obtain rfl := Except.ok.inj built
    exact ⟨rfl, rfl, keyword.symm, rfl, rfl, fun exact => nomatch keyword.symm.trans exact⟩

/-- A matcher is built exactly within the cap and, in an exact dimension, without a
repeated key. -/
theorem new_ok {dimension : Dimension} {rows : List MatcherRow} :
    (∃ matcher, DimensionMatcher.new toLowercase dimension rows = .ok matcher) ↔
      rows.length ≤ maxDimensionRows ∧
        (dimension.match_ = .exact → (dimension.foldedPatterns toLowercase rows).Nodup) := by
  have patterns : ((rows.map (MatcherRow.folded toLowercase
        (dimension.caseInsensitive.getD false))).flatMap MatcherRow.patterns) =
      dimension.foldedPatterns toLowercase rows := by
    rw [List.flatMap_map]
    rfl
  have distinct : (∃ filled, indexUnique (patternsByRow (rows.map (MatcherRow.folded toLowercase
        (dimension.caseInsensitive.getD false)))) ∅ = .ok filled) ↔
      (dimension.foldedPatterns toLowercase rows).Nodup := by
    rw [indexUnique_ok, map_patternsByRow, patterns]
    exact and_iff_left (fun key _ => AList.notMem_empty key)
  simp only [DimensionMatcher.new]
  by_cases many : maxDimensionRows < rows.length
  · rw [if_pos many]
    exact ⟨fun ⟨_, impossible⟩ => (nomatch impossible),
      fun ⟨atMost, _⟩ => absurd atMost (Nat.not_le.mpr many)⟩
  · rw [if_neg many, ← distinct, and_iff_right (Nat.not_lt.mp many)]
    cases mode : dimension.match_ with
    | keywordSubstring => exact ⟨fun _ impossible => (nomatch impossible), fun _ => ⟨_, rfl⟩⟩
    | exact =>
      simp only [forall_const]
      cases indexUnique (patternsByRow (rows.map (MatcherRow.folded toLowercase
          (dimension.caseInsensitive.getD false)))) ∅ with
      | error key => exact ⟨fun ⟨_, impossible⟩ => (nomatch impossible),
          fun ⟨_, impossible⟩ => nomatch impossible⟩
      | ok index => exact ⟨fun _ => ⟨index, rfl⟩, fun _ => ⟨_, rfl⟩⟩

/-- A matcher that is not built has too many rows or, in an exact dimension, a key that comes
twice, which is the error. -/
theorem new_error {dimension : Dimension} {rows : List MatcherRow} {error : DimensionError}
    (fails : DimensionMatcher.new toLowercase dimension rows = .error error) :
    maxDimensionRows < rows.length ∨ (dimension.match_ = .exact ∧
      ∃ key, error = .duplicateKey dimension.id key ∧
        (dimension.foldedPatterns toLowercase rows).Duplicate key) := by
  simp only [DimensionMatcher.new] at fails
  split at fails
  · next many => exact Or.inl many
  split at fails
  · next exact =>
    split at fails
    · next key repeats =>
      refine Or.inr ⟨exact, key, (Except.error.inj fails).symm, ?_⟩
      have twice :=
        (indexUnique_error repeats).resolve_right (fun held => AList.notMem_empty key held.1)
      rw [map_patternsByRow, List.flatMap_map] at twice
      exact twice
    · cases fails
  · cases fails

/-! ## The registry of a job -/

/-- The matchers of a job by the id of their dimension. -/
abbrev Registry : Type := AList (fun _ : Text => DimensionMatcher)

/-- Register the matchers of those dimensions that have one. -/
def registerAll (matcherOf : Dimension → Option (Except DimensionError DimensionMatcher)) :
    List Dimension → Registry → Except DimensionError Registry
  | [], registry => .ok registry
  | dimension :: rest, registry =>
    match matcherOf dimension with
    | none => registerAll matcherOf rest registry
    | some (.error error) => .error error
    | some (.ok matcher) => registerAll matcherOf rest (registry.insert dimension.id matcher)

/-- An inline row, which has an entry for each value it lists. -/
def InlineDimensionRow.resolved (row : InlineDimensionRow) : MatcherRow :=
  ⟨row.patterns, row.values.map some, row.priority⟩

variable (toLowercase)

/-- The matcher of a dimension whose rows stand in the configuration. -/
def inlineMatcher (dimension : Dimension) : Option (Except DimensionError DimensionMatcher) :=
  match dimension.rows with
  | .inline _ rows =>
    some (DimensionMatcher.new toLowercase dimension (rows.map InlineDimensionRow.resolved))
  | .file _ _ _ _ => none

/-- Compile every dimension whose rows are inline. -/
def buildInlineRegistry (dimensions : List Dimension) : Except DimensionError Registry :=
  registerAll (inlineMatcher toLowercase) dimensions ∅

/-- The matcher of a dimension whose rows were read from files. -/
def fileMatcher (fileRows : Dimension → List MatcherRow) (dimension : Dimension) :
    Option (Except DimensionError DimensionMatcher) :=
  match dimension.rows with
  | .inline _ _ => none
  | .file _ _ _ _ => some (DimensionMatcher.new toLowercase dimension (fileRows dimension))

/-- The registry of a job: inline dimensions first, then those read from files. -/
def buildRegistry (fileRows : Dimension → List MatcherRow) (dimensions : List Dimension) :
    Except DimensionError Registry :=
  match buildInlineRegistry toLowercase dimensions with
  | .error error => .error error
  | .ok registry => registerAll (fileMatcher toLowercase fileRows) dimensions registry

variable {toLowercase}

section Registering

variable {matcherOf : Dimension → Option (Except DimensionError DimensionMatcher)}
  {dimensions : List Dimension} {registry filled : Registry}

/-- Registration succeeds exactly when every matcher is built. -/
theorem registerAll_ok :
    (∃ filled, registerAll matcherOf dimensions registry = .ok filled) ↔
      ∀ dimension ∈ dimensions, ∀ result, matcherOf dimension = some result →
        ∃ matcher, result = .ok matcher := by
  induction dimensions generalizing registry with
  | nil => exact ⟨fun _ _ impossible => (nomatch impossible), fun _ => ⟨registry, rfl⟩⟩
  | cons dimension rest inductionHypothesis =>
    simp only [registerAll, List.forall_mem_cons]
    cases matcherOf dimension with
    | none => simp only [inductionHypothesis, reduceCtorEq, false_implies, implies_true, true_and]
    | some result =>
      cases result with
      | error error => simp
      | ok matcher => simp [inductionHypothesis]

/-- The error of a registration is that of some dimension. -/
theorem registerAll_error {error : DimensionError}
    (fails : registerAll matcherOf dimensions registry = .error error) :
    ∃ dimension ∈ dimensions, matcherOf dimension = some (.error error) := by
  induction dimensions generalizing registry with
  | nil => cases fails
  | cons dimension rest inductionHypothesis =>
    simp only [registerAll] at fails
    split at fails
    · obtain ⟨other, member, isError⟩ := inductionHypothesis fails
      exact ⟨other, List.mem_cons_of_mem _ member, isError⟩
    · next isError =>
      obtain rfl := Except.error.inj fails
      exact ⟨dimension, List.mem_cons_self, isError⟩
    · obtain ⟨other, member, isError⟩ := inductionHypothesis fails
      exact ⟨other, List.mem_cons_of_mem _ member, isError⟩

/-- Where no dimension of the id has a matcher, registration leaves what was there. -/
theorem registerAll_other (registers : registerAll matcherOf dimensions registry = .ok filled)
    {id : Text} (none : ∀ dimension ∈ dimensions, dimension.id = id → matcherOf dimension = none) :
    filled.lookup id = registry.lookup id := by
  induction dimensions generalizing registry with
  | nil => rw [Except.ok.inj registers]
  | cons dimension rest inductionHypothesis =>
    rw [List.forall_mem_cons] at none
    simp only [registerAll] at registers
    cases built : matcherOf dimension with
    | none =>
      rw [built] at registers
      exact inductionHypothesis registers none.2
    | some result =>
      cases result with
      | error error => simp only [built, reduceCtorEq] at registers
      | ok matcher =>
        rw [built] at registers
        rw [inductionHypothesis registers none.2, AList.lookup_insert_ne]
        rintro rfl
        exact nomatch (none.1 rfl).symm.trans built

/-- If ids are distinct, each matcher is registered under its dimension. -/
theorem registerAll_lookup (distinct : (dimensions.map Dimension.id).Nodup)
    (registers : registerAll matcherOf dimensions registry = .ok filled) {dimension : Dimension}
    (member : dimension ∈ dimensions) {result : Except DimensionError DimensionMatcher}
    (built : matcherOf dimension = some result) :
    ∃ matcher, result = .ok matcher ∧ filled.lookup dimension.id = some matcher := by
  induction dimensions generalizing registry with
  | nil => exact absurd member List.not_mem_nil
  | cons first rest inductionHypothesis =>
    obtain ⟨fresh, distinct⟩ := List.nodup_cons.mp distinct
    simp only [registerAll] at registers
    rcases List.mem_cons.mp member with rfl | later
    · rw [built] at registers
      cases result with
      | error error => exact nomatch registers
      | ok matcher =>
        refine ⟨matcher, rfl, ?_⟩
        rw [registerAll_other registers, AList.lookup_insert]
        intro other isLater same
        exact absurd (List.mem_map.mpr ⟨other, isLater, same⟩) fresh
    · cases ofFirst : matcherOf first with
      | none =>
        rw [ofFirst] at registers
        exact inductionHypothesis distinct registers later
      | some firstResult =>
        cases firstResult with
        | error error => simp only [ofFirst, reduceCtorEq] at registers
        | ok matcher =>
          rw [ofFirst] at registers
          exact inductionHypothesis distinct registers later

end Registering

/-- A registry has the matchers of the dimensions, with their value columns, and no
others. -/
def Covers (registry : Registry) (dimensions : List Dimension) : Prop :=
  ∀ id, (registry.lookup id).map DimensionMatcher.valueColumns =
    (resolveDimension id dimensions).map Dimension.valueColumns

/-- What an id resolves to is a dimension with that id. -/
theorem resolveDimension_sound {id : Text} {dimensions : List Dimension} {dimension : Dimension}
    (found : resolveDimension id dimensions = some dimension) :
    dimension ∈ dimensions ∧ dimension.id = id := by
  rw [resolveDimension] at found
  have named := List.find?_some found
  exact ⟨List.mem_of_find?_eq_some found, of_decide_eq_true named⟩

/-- The registry that a job builds covers its dimensions. -/
theorem buildRegistry_covers {fileRows : Dimension → List MatcherRow} {dimensions : List Dimension}
    {registry : Registry} (distinct : (dimensions.map Dimension.id).Nodup)
    (built : buildRegistry toLowercase fileRows dimensions = .ok registry) :
    Covers registry dimensions := by
  simp only [buildRegistry] at built
  split at built
  · exact nomatch built
  next inline inlineBuilt =>
  intro id
  cases found : resolveDimension id dimensions with
  | none =>
    have undeclared : ∀ dimension ∈ dimensions, dimension.id ≠ id := fun dimension member same =>
      absurd (decide_eq_true same) (List.find?_eq_none.mp found dimension member)
    rw [registerAll_other built (fun dimension member same => absurd same (undeclared _ member)),
      registerAll_other inlineBuilt
        (fun dimension member same => absurd same (undeclared _ member)),
      AList.lookup_empty]
    rfl
  | some dimension =>
    obtain ⟨member, rfl⟩ := resolveDimension_sound found
    cases rows : dimension.rows with
    | inline values inlineRows =>
      have isInline : inlineMatcher toLowercase dimension = some (DimensionMatcher.new toLowercase
          dimension (inlineRows.map InlineDimensionRow.resolved)) := by
        simp only [inlineMatcher, rows]
      obtain ⟨matcher, isMatcher, registered⟩ :=
        registerAll_lookup distinct inlineBuilt member isInline
      have kept : registry.lookup dimension.id = inline.lookup dimension.id := by
        refine registerAll_other built (fun other isOther same => ?_)
        rw [List.inj_on_of_nodup_map distinct isOther member same]
        simp only [fileMatcher, rows]
      rw [kept, registered, Option.map_some, Option.map_some, (new_built isMatcher).valueColumns]
    | file pathPrefix key values priorityColumn =>
      have isFile : fileMatcher toLowercase fileRows dimension =
          some (DimensionMatcher.new toLowercase dimension (fileRows dimension)) := by
        simp only [fileMatcher, rows]
      obtain ⟨matcher, isMatcher, registered⟩ := registerAll_lookup distinct built member isFile
      rw [registered, Option.map_some, Option.map_some, (new_built isMatcher).valueColumns]

end Folding

/-- A dimension that maps `a` to one value. -/
def letterDimension : Dimension :=
  ⟨"d".toList, .exact, none, .null, .inline ["v".toList] [⟨["a".toList], ["x".toList], 0⟩]⟩

end KaretWorker
