import KaretWorker.Dimensions

/-!
# Lookups in a dimension

What a matcher answers, in terms of the rows it was built of. A keyword dimension gives
the value of the first row among the matching ones of the highest priority, and an exact
one the value of the only row with the key. The index of an exact dimension therefore
agrees with a scan of its rows, in whatever order they are.

An input that matches no row is handed on unfolded.
-/
namespace KaretWorker

open Texts Selection

section Lookup

variable {toLowercase : Text → Text} {dimension : Dimension} {rows : List MatcherRow}
  {matcher : DimensionMatcher}

/-- A value of a row, if the row has it. -/
def MatcherRow.value (row : MatcherRow) (valueIndex : Nat) : Option Text :=
  row.values[valueIndex]?.join

/-- A lookup in terms of the row that is hit. -/
theorem lookup_eq (built : Built toLowercase dimension rows matcher) (input : Text)
    (valueIndex : Nat) : matcher.lookup toLowercase input valueIndex =
      match matcher.hit (foldCase toLowercase (dimension.caseInsensitive.getD false) input) with
      | some row => row.value valueIndex
      | none => dimension.onMiss.apply input := by
  rw [DimensionMatcher.lookup, built.caseInsensitive, built.onMiss]
  rfl

/-! ## Keywords -/

/-- Some folded pattern of the row occurs in the folded input. -/
def MatcherRow.HasKeyword (toLowercase : Text → Text) (dimension : Dimension) (input : Text)
    (row : MatcherRow) : Prop :=
  ∃ pattern ∈ row.patterns, foldCase toLowercase (dimension.caseInsensitive.getD false) pattern <:+:
    foldCase toLowercase (dimension.caseInsensitive.getD false) input

/-- The position of a matching row with maximal priority, the earliest of those. -/
structure Picked (matching : MatcherRow → Prop) (rows : List MatcherRow) (position : Fin rows.length) :
    Prop where
  isMatch : matching (rows.get position)
  greatest : ∀ other, matching (rows.get other) →
    (rows.get other).priority ≤ (rows.get position).priority
  earliest : ∀ other, matching (rows.get other) →
    (rows.get other).priority = (rows.get position).priority → position ≤ other

/-- There is at most one such position. -/
theorem Picked.unique {matching : MatcherRow → Prop} {position other : Fin rows.length}
    (left : Picked matching rows position) (right : Picked matching rows other) :
    position = other := by
  have same : (rows.get other).priority = (rows.get position).priority :=
    le_antisymm (left.greatest other right.isMatch) (right.greatest position left.isMatch)
  exact le_antisymm (left.earliest other right.isMatch same)
    (right.earliest position left.isMatch same.symm)

/-- The leader of the rows stands at the picked position. -/
theorem picked_of_leads {matching : MatcherRow → Bool} {row : MatcherRow}
    (leads : Leads matching MatcherRow.priority rows row) :
    ∃ position, rows.get position = row ∧
    Picked (fun row => matching row = true) rows position := by
  obtain ⟨earlier, later, rfl, isMatch, before, after⟩ := leads
  have inside : earlier.length < (earlier ++ row :: later).length := by
    rw [List.length_append, List.length_cons]
    omega
  have isRow : (earlier ++ row :: later).get ⟨earlier.length, inside⟩ = row := by simp
  have leads : Leads matching MatcherRow.priority (earlier ++ row :: later) row :=
    ⟨earlier, later, rfl, isMatch, before, after⟩
  refine ⟨⟨earlier.length, inside⟩, isRow, ?_, ?_, ?_⟩
  · rwa [isRow]
  · intro other otherMatches
    rw [isRow]
    exact leads.greatest (List.get_mem _ other) otherMatches
  · intro other otherMatches samePriority
    rw [isRow] at samePriority
    by_contra notAfter
    have isBefore : other.val < earlier.length := Nat.lt_of_not_le notAfter
    have isOther : (earlier ++ row :: later).get other = earlier.get ⟨other.val, isBefore⟩ := by
      simp [List.getElem_append_left isBefore]
    rw [isOther] at otherMatches samePriority
    exact absurd (before _ (List.get_mem _ _) otherMatches)
      (by rw [samePriority]; exact lt_irrefl _)

/-- The row that a keyword matcher hits was folded from the picked row. -/
theorem hit_keyword (built : Built toLowercase dimension rows matcher)
    (keyword : dimension.match_ = .keywordSubstring) (input : Text) :
    (matcher.hit (foldCase toLowercase (dimension.caseInsensitive.getD false) input) = none ∧
      ∀ row ∈ rows, ¬ row.HasKeyword toLowercase dimension input) ∨
    ∃ position, Picked (MatcherRow.HasKeyword toLowercase dimension input) rows position ∧
      matcher.hit (foldCase toLowercase (dimension.caseInsensitive.getD false) input) =
        some ((rows.get position).folded toLowercase (dimension.caseInsensitive.getD false)) := by
  have occurs : ∀ row : MatcherRow, (MatcherRow.occursIn (foldCase toLowercase
        (dimension.caseInsensitive.getD false) input) ∘
        MatcherRow.folded toLowercase (dimension.caseInsensitive.getD false)) row = true ↔
      row.HasKeyword toLowercase dimension input := by
    intro row
    simp [MatcherRow.occursIn, MatcherRow.folded, MatcherRow.HasKeyword]
  have scans : matcher.hit (foldCase toLowercase (dimension.caseInsensitive.getD false) input) =
      firstGreatest (MatcherRow.occursIn (foldCase toLowercase
        (dimension.caseInsensitive.getD false) input)) MatcherRow.priority
        (rows.map (MatcherRow.folded toLowercase (dimension.caseInsensitive.getD false))) := by
    simp only [DimensionMatcher.hit, built.matchMode, keyword, built.rows]
  rw [scans]
  -- The loop over the unfolded rows decides which row leads.
  rcases firstGreatest_ends (MatcherRow.occursIn (foldCase toLowercase
      (dimension.caseInsensitive.getD false) input) ∘ MatcherRow.folded toLowercase
      (dimension.caseInsensitive.getD false)) MatcherRow.priority rows with
    ⟨_, none⟩ | ⟨row, _, leads⟩
  · refine Or.inl ⟨firstGreatest_none.mpr (List.forall_mem_map.mpr none), fun row member has => ?_⟩
    exact Bool.noConfusion ((none row member).symm.trans ((occurs row).mpr has))
  · obtain ⟨position, rfl, picked⟩ := picked_of_leads leads
    refine Or.inr ⟨position, ⟨(occurs _).mp picked.isMatch,
      fun other has => picked.greatest other ((occurs _).mpr has),
      fun other has => picked.earliest other ((occurs _).mpr has)⟩, ?_⟩
    exact firstGreatest_iff.mpr (Leads.map leads)

/-- If some row has a keyword in the input, a keyword dimension gives the value of the
one such row that has maximal priority and is the earliest with it. Otherwise it gives
what a miss produces for the unfolded input. -/
theorem keyword_lookup (keyword : dimension.match_ = .keywordSubstring)
    (isMatcher : DimensionMatcher.new toLowercase dimension rows = .ok matcher) (input : Text)
    (valueIndex : Nat) :
    ((∃ row ∈ rows, row.HasKeyword toLowercase dimension input) →
      ∃ position, Picked (MatcherRow.HasKeyword toLowercase dimension input) rows position ∧
        (∀ other, Picked (MatcherRow.HasKeyword toLowercase dimension input) rows other →
          other = position) ∧
        matcher.lookup toLowercase input valueIndex = (rows.get position).value valueIndex) ∧
    ((∀ row ∈ rows, ¬ row.HasKeyword toLowercase dimension input) →
      matcher.lookup toLowercase input valueIndex = dimension.onMiss.apply input) := by
  have built := new_built isMatcher
  rw [lookup_eq built]
  rcases hit_keyword built keyword input with ⟨missed, none⟩ | ⟨position, picked, hit⟩
  · rw [missed]
    exact ⟨fun ⟨row, member, has⟩ => absurd has (none row member), fun _ => rfl⟩
  · rw [hit]
    refine ⟨fun _ => ⟨position, picked, fun other isOther => isOther.unique picked, rfl⟩, ?_⟩
    exact fun none => absurd picked.isMatch (none _ (List.get_mem _ _))

/-- Rows whose keywords overlap: the last has the highest priority, the first wins a
tie, and the second has no pattern. -/
def overlappingRows : List MatcherRow :=
  [⟨["a".toList], [some "x".toList], 1⟩, ⟨[], [some "y".toList], 9⟩,
    ⟨[[]], [some "z".toList], 1⟩, ⟨["ab".toList], [none], 2⟩]

/-- The rule in a dimension of overlapping keywords: the input has the keyword of a row
without a value, so nothing is found, and the miss is not applied. -/
theorem keyword_lookup_overlapping :
    (∃ position, Picked (MatcherRow.HasKeyword id
        { letterDimension with match_ := .keywordSubstring, onMiss := .passthrough } "ab".toList)
        overlappingRows position ∧
      (overlappingRows.get position).value 0 = none) ∧
    (⟨overlappingRows, ["v".toList], .keywordSubstring, false, .passthrough, ∅⟩ :
      DimensionMatcher).lookup id "ab".toList 0 = none := by
  have isMatcher : DimensionMatcher.new id
      { letterDimension with match_ := .keywordSubstring, onMiss := .passthrough } overlappingRows =
      .ok ⟨overlappingRows, ["v".toList], .keywordSubstring, false, .passthrough, ∅⟩ := rfl
  obtain ⟨position, picked, _, found⟩ := (keyword_lookup rfl isMatcher "ab".toList 0).1
    ⟨_, List.mem_cons_self, "a".toList, List.mem_cons_self, by decide⟩
  have nothing : (⟨overlappingRows, ["v".toList], .keywordSubstring, false, .passthrough, ∅⟩ :
      DimensionMatcher).lookup id "ab".toList 0 = none := by decide
  exact ⟨⟨position, picked, found.symm.trans nothing⟩, nothing⟩

/-! ## Exact keys -/

/-- Some folded pattern of the row is the folded input. -/
def MatcherRow.HasKey (toLowercase : Text → Text) (dimension : Dimension) (input : Text)
    (row : MatcherRow) : Prop :=
  ∃ pattern ∈ row.patterns, foldCase toLowercase (dimension.caseInsensitive.getD false) pattern =
    foldCase toLowercase (dimension.caseInsensitive.getD false) input

instance (input : Text) : DecidablePred (MatcherRow.HasKey toLowercase dimension input) :=
  fun row => inferInstanceAs (Decidable (∃ pattern ∈ row.patterns, _))

/-- Scan the rows for the first with the key. -/
def scanLookup (toLowercase : Text → Text) (dimension : Dimension) (rows : List MatcherRow)
    (input : Text) (valueIndex : Nat) : Option Text :=
  match rows.find? (fun row => row.HasKey toLowercase dimension input) with
  | some row => row.value valueIndex
  | none => dimension.onMiss.apply input

/-- The index hits what the scan finds. -/
theorem hit_exact_scan (built : Built toLowercase dimension rows matcher)
    (exact : dimension.match_ = .exact) (input : Text) :
    matcher.hit (foldCase toLowercase (dimension.caseInsensitive.getD false) input) =
      (rows.find? (fun row => row.HasKey toLowercase dimension input)).map
        (MatcherRow.folded toLowercase (dimension.caseInsensitive.getD false)) := by
  have indexed := built.indexed exact
    (foldCase toLowercase (dimension.caseInsensitive.getD false) input)
  have hits : matcher.hit (foldCase toLowercase (dimension.caseInsensitive.getD false) input) =
      (matcher.exactIndex.lookup (foldCase toLowercase (dimension.caseInsensitive.getD false)
        input)).map matcher.rows.get := by
    simp only [DimensionMatcher.hit, built.matchMode, exact]
  have holds : ∀ row : MatcherRow,
      foldCase toLowercase (dimension.caseInsensitive.getD false) input ∈
          (row.folded toLowercase (dimension.caseInsensitive.getD false)).patterns ↔
        row.HasKey toLowercase dimension input := by
    intro row
    simp only [MatcherRow.folded, MatcherRow.HasKey, List.mem_map]
  rw [hits]
  cases found : rows.find? (fun row => row.HasKey toLowercase dimension input) with
  | none =>
    cases lookup : matcher.exactIndex.lookup
        (foldCase toLowercase (dimension.caseInsensitive.getD false) input) with
    | none => rfl
    | some position =>
      have has := (indexed position).mp lookup
      have isFolded : matcher.rows.get position ∈ rows.map
          (MatcherRow.folded toLowercase (dimension.caseInsensitive.getD false)) :=
        (congrArg (matcher.rows.get position ∈ ·) built.rows).mp (List.get_mem _ position)
      obtain ⟨row, member, same⟩ := List.mem_map.mp isFolded
      rw [← same, holds] at has
      exact absurd (decide_eq_true has) (List.find?_eq_none.mp found row member)
  | some row =>
    have has : row.HasKey toLowercase dimension input := by
      have picked := List.find?_some found
      exact of_decide_eq_true picked
    have member : row.folded toLowercase (dimension.caseInsensitive.getD false) ∈ matcher.rows := by
      rw [built.rows]
      exact List.mem_map_of_mem (List.mem_of_find?_eq_some found)
    obtain ⟨position, isPosition⟩ := List.mem_iff_get.mp member
    have lookup := (indexed position).mpr (by rw [isPosition]; exact (holds row).mpr has)
    rw [lookup, Option.map_some, Option.map_some, isPosition]

/-- A lookup in an exact dimension is a scan of its rows. -/
theorem exact_lookup_scan (exact : dimension.match_ = .exact)
    (isMatcher : DimensionMatcher.new toLowercase dimension rows = .ok matcher) (input : Text)
    (valueIndex : Nat) : matcher.lookup toLowercase input valueIndex =
      scanLookup toLowercase dimension rows input valueIndex := by
  have built := new_built isMatcher
  rw [lookup_eq built, hit_exact_scan built exact, scanLookup]
  cases rows.find? (fun row => row.HasKey toLowercase dimension input) <;> rfl

/-- Where folded keys are distinct, at most one row has a given key. -/
theorem hasKey_unique (distinct : (dimension.foldedPatterns toLowercase rows).Nodup) {input : Text}
    {row other : MatcherRow} (isRow : row ∈ rows) (isOther : other ∈ rows)
    (has : row.HasKey toLowercase dimension input)
    (otherHas : other.HasKey toLowercase dimension input) : row = other := by
  obtain ⟨pattern, isPattern, same⟩ := has
  obtain ⟨otherPattern, isOtherPattern, otherSame⟩ := otherHas
  by_contra different
  have symmetric : Std.Symm (Function.onFun List.Disjoint (fun row : MatcherRow =>
      row.patterns.map (foldCase toLowercase (dimension.caseInsensitive.getD false)))) :=
    ⟨fun _ _ disjoint text member other => disjoint other member⟩
  have disjoint := (List.nodup_flatMap.mp distinct).2.forall isRow isOther different
  exact disjoint (List.mem_map.mpr ⟨pattern, isPattern, same⟩)
    (List.mem_map.mpr ⟨otherPattern, isOtherPattern, otherSame⟩)

/-- The scan finds the same row in whatever order the rows are. -/
theorem scanLookup_perm (distinct : (dimension.foldedPatterns toLowercase rows).Nodup)
    {reordered : List MatcherRow} (perm : reordered.Perm rows) (input : Text) (valueIndex : Nat) :
    scanLookup toLowercase dimension reordered input valueIndex =
      scanLookup toLowercase dimension rows input valueIndex := by
  have sameRow : reordered.find? (fun row => row.HasKey toLowercase dimension input) =
      rows.find? (fun row => row.HasKey toLowercase dimension input) := by
    cases found : rows.find? (fun row => row.HasKey toLowercase dimension input) with
    | none =>
      refine List.find?_eq_none.mpr (fun row member => ?_)
      exact List.find?_eq_none.mp found row (perm.subset member)
    | some row =>
      have isRow := List.mem_of_find?_eq_some found
      have has := List.find?_some found
      cases again : reordered.find? (fun row => row.HasKey toLowercase dimension input) with
      | none => exact absurd has (List.find?_eq_none.mp again row (perm.symm.subset isRow))
      | some other =>
        have isOther := perm.subset (List.mem_of_find?_eq_some again)
        have otherHas := List.find?_some again
        rw [hasKey_unique distinct isRow isOther (of_decide_eq_true has)
          (of_decide_eq_true otherHas)]
  rw [scanLookup, scanLookup, sameRow]

/-- Within the cap an exact dimension has a matcher exactly when no two occurrences of
patterns are equal once folded. Its lookups then are scans of the rows, and a matcher of
the rows in any other order gives the same results. -/
theorem exact_index (exact : dimension.match_ = .exact) (within : rows.length ≤ maxDimensionRows) :
    ((∃ matcher, DimensionMatcher.new toLowercase dimension rows = .ok matcher) ↔
      (dimension.foldedPatterns toLowercase rows).Nodup) ∧
    ∀ matcher, DimensionMatcher.new toLowercase dimension rows = .ok matcher →
      (∀ input valueIndex, matcher.lookup toLowercase input valueIndex =
        scanLookup toLowercase dimension rows input valueIndex) ∧
      ∀ reordered : List MatcherRow, reordered.Perm rows →
        ∃ again, DimensionMatcher.new toLowercase dimension reordered = .ok again ∧
          ∀ input valueIndex, again.lookup toLowercase input valueIndex =
            matcher.lookup toLowercase input valueIndex := by
  constructor
  · rw [new_ok, and_iff_right within]
    exact ⟨fun distinct => distinct exact, fun distinct _ => distinct⟩
  intro matcher isMatcher
  have distinct := (new_ok.mp ⟨matcher, isMatcher⟩).2 exact
  refine ⟨exact_lookup_scan exact isMatcher, fun reordered perm => ?_⟩
  obtain ⟨again, isAgain⟩ : ∃ again,
      DimensionMatcher.new toLowercase dimension reordered = .ok again := by
    refine new_ok.mpr ⟨?_, fun _ => ?_⟩
    · rw [perm.length_eq]
      exact within
    · exact (perm.flatMap_right _).nodup_iff.mpr distinct
  refine ⟨again, isAgain, fun input valueIndex => ?_⟩
  rw [exact_lookup_scan exact isAgain, exact_lookup_scan exact isMatcher,
    scanLookup_perm distinct perm]

/-- Rows with two keys and with one, and without a value. -/
def letterRowsOf : List MatcherRow :=
  [⟨["A".toList, "b".toList], [some "x".toList], 0⟩, ⟨["C".toList], [some "z".toList], 3⟩, ⟨["d".toList], [none], 1⟩]

/-- The dimension of these rows, in whatever case. -/
def anyCase : Dimension := { letterDimension with caseInsensitive := some true, onMiss := .passthrough }

/-- Keys are found in either case and in either order of the rows, what no row has is handed on as it
is, and a key in both cases is refused. -/
theorem exact_index_letter :
    (∃ matcher, DimensionMatcher.new (List.map Char.toLower) anyCase letterRowsOf = .ok matcher ∧
      matcher.lookup (List.map Char.toLower) "B".toList 0 = some "x".toList ∧
      matcher.lookup (List.map Char.toLower) "E".toList 0 = some "E".toList ∧
      ∃ again, DimensionMatcher.new (List.map Char.toLower) anyCase letterRowsOf.reverse = .ok again ∧
        ∀ input valueIndex, again.lookup (List.map Char.toLower) input valueIndex =
          matcher.lookup (List.map Char.toLower) input valueIndex) ∧
    ¬ ∃ matcher, DimensionMatcher.new (List.map Char.toLower) anyCase
      (⟨["a".toList], [some "y".toList], 0⟩ :: letterRowsOf) = .ok matcher := by
  have index := fun (rows : List MatcherRow) (within : rows.length ≤ maxDimensionRows) =>
    @exact_index (List.map Char.toLower) anyCase rows rfl within
  constructor
  · obtain ⟨matcher, isMatcher⟩ := (index letterRowsOf (by decide)).1.mpr (by decide +kernel)
    obtain ⟨scans, reorders⟩ := (index letterRowsOf (by decide)).2 matcher isMatcher
    refine ⟨matcher, isMatcher, ?_, ?_, reorders _ (List.reverse_perm _)⟩
    · rw [scans]
      decide +kernel
    · rw [scans]
      decide +kernel
  · rw [(index _ (by decide)).1]
    decide +kernel

end Lookup

end KaretWorker
