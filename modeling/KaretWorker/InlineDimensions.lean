import KaretWorker.Dimensions

/-!
# Inline dimensions

The rows of an inline dimension reach the matcher as they stand in the configuration.
The validator does not look at them: neither at the keys of an exact dimension, which
the matcher wants distinct, nor at the number of values of a row.

So within the row cap the registry is built exactly when the folded keys of each exact
dimension are distinct, and an input that matches some row is given what the matching
row supplies for the value column (`inline_registry`).
-/
namespace KaretWorker

open Texts Selection

section Inline

variable (toLowercase : Text → Text)

/-- A pattern of the row matches the input: as a whole, or by occurring in it. -/
def InlineDimensionRow.isMatch (dimension : Dimension) (input : Text) (row : InlineDimensionRow) :
    Bool :=
  let fold := foldCase toLowercase (dimension.caseInsensitive.getD false)
  match dimension.match_ with
  | .exact => row.patterns.any (fun pattern => fold pattern = fold input)
  | .keywordSubstring => row.patterns.any (fun pattern => fold pattern <:+: fold input)

/-- The matching row: in an exact dimension whichever matches, otherwise the first of
those with the highest priority. -/
def IsMatchingRow (dimension : Dimension) (rows : List InlineDimensionRow) (input : Text)
    (row : InlineDimensionRow) : Prop :=
  match dimension.match_ with
  | .exact => row ∈ rows ∧ row.isMatch toLowercase dimension input = true
  | .keywordSubstring =>
    Leads (InlineDimensionRow.isMatch toLowercase dimension input) InlineDimensionRow.priority rows row

variable {toLowercase}

/-- An input that matches some row has a matching row. -/
theorem exists_matchingRow {dimension : Dimension} {rows : List InlineDimensionRow} {input : Text}
    (some : ∃ row ∈ rows, row.isMatch toLowercase dimension input = true) :
    ∃ row, IsMatchingRow toLowercase dimension rows input row := by
  obtain ⟨row, member, isMatch⟩ := some
  unfold IsMatchingRow
  split
  · exact ⟨row, member, isMatch⟩
  · rcases firstGreatest_ends (InlineDimensionRow.isMatch toLowercase dimension input)
      InlineDimensionRow.priority rows with ⟨_, none⟩ | ⟨leader, _, leads⟩
    · exact Bool.noConfusion ((none row member).symm.trans isMatch)
    · exact ⟨leader, leads⟩

section Matcher

variable {dimension : Dimension} {rows : List InlineDimensionRow} {matcher : DimensionMatcher}
  {input : Text} {row : InlineDimensionRow}

/-- In an exact dimension the row with the pattern is hit. -/
theorem hit_exact {resolved : List MatcherRow}
    (built : Built toLowercase dimension resolved matcher)
    (exact : dimension.match_ = .exact) {found : MatcherRow} (member : found ∈ matcher.rows)
    {text : Text} (has : text ∈ found.patterns) : matcher.hit text = some found := by
  obtain ⟨position, rfl⟩ := List.mem_iff_get.mp member
  have indexed := (built.indexed exact text position).mpr has
  simp only [DimensionMatcher.hit, built.matchMode, exact, indexed, Option.map_some]

/-- The matcher hits the matching row. -/
theorem hit_matchingRow
    (built : Built toLowercase dimension (rows.map InlineDimensionRow.resolved) matcher)
    (isMatching : IsMatchingRow toLowercase dimension rows input row) :
    matcher.hit (foldCase toLowercase matcher.caseInsensitive input) =
      some (row.resolved.folded toLowercase (dimension.caseInsensitive.getD false)) := by
  have matcherRows : matcher.rows = rows.map (fun row =>
      row.resolved.folded toLowercase (dimension.caseInsensitive.getD false)) := by
    rw [built.rows, List.map_map]
    rfl
  rw [built.caseInsensitive]
  unfold IsMatchingRow at isMatching
  split at isMatching
  · next exact =>
    obtain ⟨member, isMatch⟩ := isMatching
    simp only [InlineDimensionRow.isMatch, exact, List.any_eq_true, decide_eq_true_eq] at isMatch
    obtain ⟨pattern, isPattern, same⟩ := isMatch
    refine hit_exact built exact ?_ ?_
    · rw [matcherRows]
      exact List.mem_map.mpr ⟨row, member, rfl⟩
    · rw [← same]
      exact List.mem_map.mpr ⟨pattern, isPattern, rfl⟩
  · next keyword =>
    have isMatch : InlineDimensionRow.isMatch toLowercase dimension input =
        MatcherRow.occursIn (foldCase toLowercase (dimension.caseInsensitive.getD false) input) ∘
          fun row => row.resolved.folded toLowercase (dimension.caseInsensitive.getD false) := by
      funext other
      simp only [InlineDimensionRow.isMatch, keyword, Function.comp_apply, MatcherRow.occursIn,
        MatcherRow.folded, InlineDimensionRow.resolved, List.any_map]
      rfl
    rw [isMatch] at isMatching
    simp only [DimensionMatcher.hit, built.matchMode, keyword, matcherRows]
    exact firstGreatest_iff.mpr (Leads.map isMatching)

/-- A lookup gives the entry of the matching row, if the row has one for the column. -/
theorem lookup_matchingRow
    (built : Built toLowercase dimension (rows.map InlineDimensionRow.resolved) matcher)
    (isMatching : IsMatchingRow toLowercase dimension rows input row) {valueIndex : Nat}
    {value : Text} (supplies : row.values[valueIndex]? = some value) :
    matcher.lookup toLowercase input valueIndex = some value := by
  rw [DimensionMatcher.lookup, hit_matchingRow built isMatching]
  simp only [MatcherRow.folded, InlineDimensionRow.resolved, List.getElem?_map, supplies,
    Option.map_some, Option.join_some]

end Matcher

/-- Position of a declared value column; the first one if none is named. -/
def columnIndex (values : List Text) : Option Text → Nat
  | none => 0
  | some name => values.idxOf name

/-- A declared column has its position as index. -/
theorem valueIndex_declared {matcher : DimensionMatcher} {values : List Text}
    (columns : matcher.valueColumns = values) {column : Option Text}
    (declared : ∀ name, column = some name → name ∈ values) :
    matcher.valueIndex column = some (columnIndex values column) := by
  cases column with
  | none => rfl
  | some name =>
    have member := declared name rfl
    rw [DimensionMatcher.valueIndex, columns, columnIndex, List.idxOf,
      List.findIdx?_eq_some_of_exists]
    · congr 2
      funext other
      exact (beq_eq_decide other name).symm
    · exact ⟨name, member, decide_eq_true rfl⟩

/-- What is promised of the inline dimensions of a configuration. -/
structure InlineLoads (toLowercase : Text → Text) (dimensions : List Dimension) : Prop where
  succeeds : (∃ registry, buildInlineRegistry toLowercase dimensions = .ok registry) ↔
    ∀ dimension ∈ dimensions, ∀ values rows, dimension.rows = .inline values rows →
      dimension.match_ = .exact →
        (dimension.foldedPatterns toLowercase (rows.map InlineDimensionRow.resolved)).Nodup
  repeats : ∀ error, buildInlineRegistry toLowercase dimensions = .error error →
    ∃ dimension ∈ dimensions, ∃ values rows key, dimension.rows = .inline values rows ∧
      dimension.match_ = .exact ∧ error = .duplicateKey dimension.id key ∧
        (dimension.foldedPatterns toLowercase (rows.map InlineDimensionRow.resolved)).Duplicate key
  hits : ∀ registry, buildInlineRegistry toLowercase dimensions = .ok registry →
    ∀ dimension ∈ dimensions, ∀ values rows, dimension.rows = .inline values rows →
      ∃ matcher, registry.lookup dimension.id = some matcher ∧
        ∀ column, (∀ name, column = some name → name ∈ values) →
          matcher.valueIndex column = some (columnIndex values column) ∧
          ∀ input, (∃ row ∈ rows, row.isMatch toLowercase dimension input = true) →
            (∃ row, IsMatchingRow toLowercase dimension rows input row) ∧
            ∀ row, IsMatchingRow toLowercase dimension rows input row →
              ∀ value, row.values[columnIndex values column]? = some value →
                matcher.lookup toLowercase input (columnIndex values column) = some value

/-- In a configuration that the validator accepts, with no more inline rows than the cap,
the inline dimensions load exactly when the folded keys of each exact one are distinct,
the error otherwise is a repeated key, and a hit gives the value that the matching row supplies
for the column. -/
theorem inline_registry {config : PipelineConfig} (toLowercase : Text → Text)
    (accepted : validate config = .ok ())
    (capped : ∀ dimension ∈ config.dimensions, ∀ values rows,
      dimension.rows = .inline values rows → rows.length ≤ maxDimensionRows) :
    InlineLoads toLowercase config.dimensions := by
  have distinct := (validate_iff.mp accepted).dimensions.distinct
  have matcherOf : ∀ {dimension : Dimension} {values rows}, dimension.rows = .inline values rows →
      inlineMatcher toLowercase dimension = some (DimensionMatcher.new toLowercase dimension
        (rows.map InlineDimensionRow.resolved)) := by
    intro dimension values rows isInline
    simp only [inlineMatcher, isInline]
  constructor
  · rw [buildInlineRegistry, registerAll_ok]
    refine forall₂_congr (fun dimension member => ?_)
    constructor
    · intro builds values rows isInline
      obtain ⟨matcher, built⟩ := builds _ (matcherOf isInline)
      exact (new_ok.mp ⟨matcher, built⟩).2
    · intro keys result isResult
      cases isInline : dimension.rows with
      | file pathPrefix key values priorityColumn =>
        simp only [inlineMatcher, isInline, reduceCtorEq] at isResult
      | inline values rows =>
        obtain rfl := Option.some.inj ((matcherOf isInline).symm.trans isResult)
        refine new_ok.mpr ⟨?_, keys values rows isInline⟩
        rw [List.length_map]
        exact capped dimension member values rows isInline
  · intro error fails
    obtain ⟨dimension, member, isError⟩ := registerAll_error fails
    cases isInline : dimension.rows with
    | file pathPrefix key values priorityColumn =>
      simp only [inlineMatcher, isInline, reduceCtorEq] at isError
    | inline values rows =>
      have ofRows := Option.some.inj ((matcherOf isInline).symm.trans isError)
      rcases new_error ofRows with many | ⟨exact, key, isKey, twice⟩
      · rw [List.length_map] at many
        exact absurd (capped dimension member values rows isInline) (Nat.not_le.mpr many)
      · exact ⟨dimension, member, values, rows, key, isInline, exact, isKey, twice⟩
  · intro registry loads dimension member values rows isInline
    obtain ⟨matcher, isMatcher, registered⟩ :=
      registerAll_lookup distinct loads member (matcherOf isInline)
    have built := new_built isMatcher
    have columns : matcher.valueColumns = values := by
      rw [built.valueColumns, Dimension.valueColumns, isInline]
    refine ⟨matcher, registered, fun column declared => ⟨valueIndex_declared columns declared, ?_⟩⟩
    intro input someRow
    exact ⟨exists_matchingRow someRow,
      fun row isMatching value supplies => lookup_matchingRow built isMatching supplies⟩

end Inline

/-! ## Three dimensions -/

/-- A configuration of dimensions only. -/
def dimensionsOnly (dimensions : List Dimension) : PipelineConfig := ⟨[], dimensions, [], []⟩

/-- Keys in whatever case, two of them in one row. -/
def foldedDimension : Dimension :=
  ⟨"f".toList, .exact, some true, .passthrough, .inline ["v".toList, "w".toList]
    [⟨["A".toList, "b".toList], ["x".toList, "y".toList], 0⟩, ⟨["C".toList], ["z".toList], 0⟩]⟩

/-- Keywords that occur together, of different priorities. -/
def keywordDimension : Dimension :=
  ⟨"k".toList, .keywordSubstring, none, .null, .inline ["v".toList]
    [⟨["a".toList], ["low".toList], 1⟩, ⟨["ab".toList, "ba".toList], ["high".toList], 2⟩]⟩

/-- Lowercase of the letters A to Z, a folding to run the example with. -/
def lowerAscii (text : Text) : Text := text.map Char.toLower

/-- Both dimensions load. The upper and the lower case of a key give the value of its row, and of
two keywords that occur the one with the higher priority does. -/
theorem inline_registry_letter :
    InlineLoads lowerAscii (dimensionsOnly [foldedDimension, keywordDimension]).dimensions ∧
    ∃ registry folded keyword,
      buildInlineRegistry lowerAscii [foldedDimension, keywordDimension] = .ok registry ∧
      registry.lookup "f".toList = some folded ∧ registry.lookup "k".toList = some keyword ∧
      folded.lookup lowerAscii "B".toList 1 = some "y".toList ∧
      keyword.lookup lowerAscii "cab".toList 0 = some "high".toList := by
  have loads :
    InlineLoads lowerAscii (dimensionsOnly [foldedDimension, keywordDimension]).dimensions := by
    refine inline_registry lowerAscii (by decide +kernel) ?_
    refine List.forall_mem_cons.mpr ⟨?_, List.forall_mem_singleton.mpr ?_⟩ <;>
    · rintro values rows ⟨⟩
      decide
  exact ⟨loads, _, _, _, rfl, rfl, rfl, rfl, rfl⟩

/-- An exact dimension with a key twice in one row. -/
def repeatedDimension : Dimension :=
  { letterDimension with
    rows := .inline ["v".toList] [⟨["a".toList, "a".toList], ["x".toList], 0⟩] }

/-- A dimension whose row has no value. -/
def valuelessDimension : Dimension :=
  { letterDimension with rows := .inline ["v".toList] [⟨["a".toList], [], 0⟩] }

/-- Both are accepted. The first does not load; the second loads, and an input that
matches its row is given no value. -/
theorem inline_rows_unchecked :
    (validate (dimensionsOnly [repeatedDimension]) = .ok () ∧
      buildInlineRegistry id [repeatedDimension] =
        .error (.duplicateKey "d".toList "a".toList)) ∧
    validate (dimensionsOnly [valuelessDimension]) = .ok () ∧
      ∃ registry matcher, buildInlineRegistry id [valuelessDimension] = .ok registry ∧
        registry.lookup "d".toList = some matcher ∧ matcher.valueIndex none = some 0 ∧
        (∃ row, IsMatchingRow id valuelessDimension [⟨["a".toList], [], 0⟩] "a".toList row) ∧
        matcher.lookup id "a".toList 0 = none := by
  refine ⟨⟨by decide +kernel, rfl⟩, by decide +kernel, _, _, rfl, rfl, rfl, ?_, rfl⟩
  exact ⟨_, List.mem_cons_self, by decide⟩

end KaretWorker
