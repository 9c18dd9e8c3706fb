import KaretWorker.Config
import KaretWorker.Library.Binary64

/-!
# Column assertions

`src/assertions.rs`: what a mapping computed is checked against the assertions on the
columns of its table, before anything is written. A column may have to be there, to hold
no null, and to hold values between two bounds; for the bounds it is cast to doubles.

The gate decides by the cast. A value that the cast makes null or NaN is compared with no
bound, and an integer is rounded first, so a bad value of these kinds is let through
(`validateAssertions_exact`).
-/
namespace KaretWorker

open Texts Binary64

/-! ## Columns -/

/-- A value of a column. Integers are those of the integer types, signed or not. -/
inductive Datum where
  | null
  | integer (value : Int) (fits : value.natAbs < 2 ^ 64)
  | float (bits : BitVec 64)
  | text (value : Text)
  | other (shown : Text)
  deriving DecidableEq

/-- What the values of a column are, nulls apart. -/
inductive SeriesType where
  | integers
  | floats
  | texts
  | others (name : Text)

/-- What a column of a type holds: a null, or a value of that type. -/
def Datum.HasType : SeriesType → Datum → Prop
  | _, .null => True
  | .integers, .integer _ _ => True
  | .floats, .float _ => True
  | .texts, .text _ => True
  | .others _, .other _ => True
  | _, _ => False

/-- A column: its type and its cells, each of that type. -/
structure Series where
  type : SeriesType
  data : List Datum
  typed : ∀ datum ∈ data, datum.HasType type

/-- Columns under their names. -/
structure SeriesFrame where
  columns : List (Text × Series)

/-- The column of a name, if the frame has one. -/
def SeriesFrame.column (frame : SeriesFrame) (name : Text) : Option Series :=
  frame.columns.lookup name

/-- What is used of the cast to doubles, which is not strict: the number a text reads as,
and how the values of another type are read, if they can be. -/
structure FloatCast where
  readText : Text → Option (BitVec 64)
  readOther : Text → Except Text (Text → Option (BitVec 64))
  /-- An optional double as messages show it. -/
  showBound : Option (BitVec 64) → Text

/-- A bound of an assertion. A configuration is JSON, whose numbers are finite. -/
abbrev Bound : Type := { bits : BitVec 64 // Finite bits }

/-- What may be asserted of a column; what is left out is not checked. -/
structure ColumnAssertions where
  notNull : Option Bool
  min : Option Bound
  max : Option Bound

/-- A column of a table's schema with its assertions. -/
structure AssertedColumn extends ColumnSchema where
  assertions : Option ColumnAssertions

/-- A violated assertion: the column, which one it was, and the message. -/
structure AssertionViolation where
  column : Text
  kind : Text
  message : Text
  deriving DecidableEq, Repr

/-! ## The gate -/

section Gate

variable (cast : FloatCast)

/-- How a type's other values are read; the number types have none. -/
def FloatCast.reader : SeriesType → Except Text (Text → Option (BitVec 64))
  | .others name => cast.readOther name
  | .integers | .floats | .texts => .ok (fun _ => none)

/-- A value as a double, if it is one. -/
def Datum.reading (readOther : Text → Option (BitVec 64)) : Datum → Option (BitVec 64)
  | .null => none
  | .integer value _ => some (ofInteger value)
  | .float bits => some bits
  | .text value => cast.readText value
  | .other shown => readOther shown

/-- Cast a column to doubles. -/
def Series.castFloat (series : Series) : Except Text (List (Option (BitVec 64))) :=
  (cast.reader series.type).map (fun readOther => series.data.map (Datum.reading cast readOther))

/-- The double is below the lower bound. -/
def ColumnAssertions.below (assertions : ColumnAssertions) (bits : BitVec 64) : Bool :=
  assertions.min.any (fun bound => Less bits bound.val)

/-- Above the maximum; nothing is where there is no maximum. -/
def ColumnAssertions.above (assertions : ColumnAssertions) (bits : BitVec 64) : Bool :=
  assertions.max.any (fun bound => Less bound.val bits)

/-- Count the doubles below the lower bound, and those above the upper bound among the
others. -/
def countBeyond (assertions : ColumnAssertions) :
    List (Option (BitVec 64)) → (below above : Nat) → Nat × Nat
  | [], below, above => (below, above)
  | none :: rest, below, above => countBeyond assertions rest below above
  | some bits :: rest, below, above =>
    if assertions.below bits then countBeyond assertions rest (below + 1) above
    else if assertions.above bits then countBeyond assertions rest below (above + 1)
    else countBeyond assertions rest below above

/-- The column is to lie between bounds. -/
def ColumnAssertions.Ranged (assertions : ColumnAssertions) : Prop :=
  assertions.min.isSome ∨ assertions.max.isSome

instance (assertions : ColumnAssertions) : Decidable assertions.Ranged :=
  inferInstanceAs (Decidable (_ ∨ _))

/-- The violation for a column with nulls, where it was declared without. -/
def checkNotNull (name : Text) (series : Series) (assertions : ColumnAssertions) :
    List AssertionViolation :=
  let nulls := series.data.count .null
  if assertions.notNull = some true ∧ 0 < nulls then
    [⟨name, "not_null".toList, decimal nulls ++ " null value(s) found".toList⟩]
  else []

/-- The violation for a column with values outside the bounds. -/
def checkRange (name : Text) (series : Series) (assertions : ColumnAssertions) :
    List AssertionViolation :=
  if assertions.Ranged then
    match series.castFloat cast with
    | .error error => [⟨name, "range".toList, "cast to float64 failed: ".toList ++ error⟩]
    | .ok floats =>
      let (below, above) := countBeyond assertions floats 0 0
      if 0 < below ∨ 0 < above then
        [⟨name, "range".toList, decimal below ++ " below min, ".toList ++ decimal above ++
          " above max (min=".toList ++ cast.showBound (assertions.min.map Subtype.val) ++
          ", max=".toList ++ cast.showBound (assertions.max.map Subtype.val) ++ ")".toList⟩]
      else []
  else []

/-- Check one column. -/
def checkColumn (name : Text) (series : Series) (assertions : ColumnAssertions) :
    List AssertionViolation :=
  checkNotNull name series assertions ++ checkRange cast name series assertions

/-- The violations of a column of the schema. -/
def columnViolations (frame : SeriesFrame) (column : AssertedColumn) : List AssertionViolation :=
  match column.assertions with
  | none => []
  | some assertions =>
    match frame.column column.name with
    | none => [⟨column.name, "missing_column".toList,
        "column not present in produced DataFrame".toList⟩]
    | some series => checkColumn cast column.name series assertions

/-- Run every column assertion of a schema. -/
def validateAssertions (frame : SeriesFrame) (schema : List AssertedColumn) :
    List AssertionViolation :=
  schema.flatMap (columnViolations cast frame)

/-! ## What the assertions say -/

/-- The number a value is, in units of a double. -/
def Datum.number : Datum → Option Int
  | .integer value _ => some (unitsOf value)
  | .float bits => if IsNaN bits then none else some (units bits)
  | .text value => (cast.readText value).bind (fun bits =>
      if IsNaN bits then none else some (units bits))
  | .null | .other _ => none

/-- A number of units lies between the bounds. -/
structure ColumnAssertions.InRange (assertions : ColumnAssertions) (number : Int) : Prop where
  atLeast : ∀ bound, assertions.min = some bound → units bound.val ≤ number
  atMost : ∀ bound, assertions.max = some bound → number ≤ units bound.val

/-- What assertions say of a column. -/
structure ColumnAssertions.Hold (assertions : ColumnAssertions) (series : Series) : Prop where
  noNull : assertions.notNull = some true → .null ∉ series.data
  numbers : assertions.Ranged → ∀ datum ∈ series.data, datum ≠ .null →
    ∃ number, datum.number cast = some number ∧ assertions.InRange number

/-- Every column with assertions is there and as they say. -/
def AssertionsHold (frame : SeriesFrame) (schema : List AssertedColumn) : Prop :=
  ∀ column ∈ schema, ∀ assertions, column.assertions = some assertions →
    ∃ series, frame.column column.name = some series ∧ assertions.Hold cast series

/-! ## What the gate decides -/

/-- A double is beyond a bound. -/
def ColumnAssertions.Beyond (assertions : ColumnAssertions) (bits : BitVec 64) : Prop :=
  assertions.below bits = true ∨ assertions.above bits = true

variable {cast} {assertions : ColumnAssertions}

/-- A double that is a number is between the bounds or beyond one. -/
theorem inRange_iff_not_beyond {bits : BitVec 64} (number : ¬ IsNaN bits) :
    assertions.InRange (units bits) ↔ ¬ assertions.Beyond bits := by
  have minimum : assertions.below bits = true ↔
      ∃ bound, assertions.min = some bound ∧ units bits < units bound.val := by
    rw [ColumnAssertions.below, Option.any_eq_true]
    exact exists_congr (fun bound => and_congr_right (fun _ => by
      simp [Less, number, bound.property.not_isNaN]))
  have maximum : assertions.above bits = true ↔
      ∃ bound, assertions.max = some bound ∧ units bound.val < units bits := by
    rw [ColumnAssertions.above, Option.any_eq_true]
    exact exists_congr (fun bound => and_congr_right (fun _ => by
      simp [Less, number, bound.property.not_isNaN]))
  rw [ColumnAssertions.Beyond, minimum, maximum]
  constructor
  · rintro ⟨atLeast, atMost⟩ (⟨bound, isBound, below⟩ | ⟨bound, isBound, above⟩)
    · exact absurd (atLeast bound isBound) (Int.not_le.mpr below)
    · exact absurd (atMost bound isBound) (Int.not_le.mpr above)
  · intro within
    exact ⟨fun bound isBound => Int.not_lt.mp
      (fun below => within (Or.inl ⟨bound, isBound, below⟩)),
      fun bound isBound => Int.not_lt.mp (fun above => within (Or.inr ⟨bound, isBound, above⟩))⟩

/-- An integer between the bounds is rounded to a double between them. -/
theorem inRange_ofInteger {value : Int} (fits : value.natAbs < 2 ^ 64)
    (inRange : assertions.InRange (unitsOf value)) : assertions.InRange (units (ofInteger value)) :=
  ⟨fun bound isBound => le_ofInteger fits (inRange.atLeast bound isBound),
    fun bound isBound => ofInteger_le fits (inRange.atMost bound isBound)⟩

/-- The two counts together are those of the doubles beyond a bound. -/
theorem countBeyond_total (floats : List (Option (BitVec 64))) (below above : Nat) :
    (countBeyond assertions floats below above).1 + (countBeyond assertions floats below above).2 =
      below + above + floats.countP (fun float => float.any (fun bits =>
        assertions.below bits || assertions.above bits)) := by
  induction floats generalizing below above with
  | nil => simp [countBeyond]
  | cons float rest inductionHypothesis =>
    cases float with
    | none => simp [countBeyond, inductionHypothesis]
    | some bits =>
      rw [countBeyond, List.countP_cons, Option.any_some]
      split
      · next isBelow =>
        rw [inductionHypothesis, isBelow, Bool.true_or, if_pos rfl]
        omega
      · next notBelow =>
        rw [Bool.not_eq_true] at notBelow
        rw [notBelow, Bool.false_or]
        split <;> rw [inductionHypothesis] <;> omega

/-- A column passes exactly if it has no null where none is allowed. -/
theorem checkNotNull_nil {name : Text} {series : Series} :
    checkNotNull name series assertions = [] ↔
      (assertions.notNull = some true → .null ∉ series.data) := by
  rw [checkNotNull]
  split
  · next found =>
    simp only [List.cons_ne_nil, false_iff]
    exact fun absent => absent found.1 (List.count_pos_iff.mp found.2)
  · next none =>
    simp only [true_iff]
    exact fun required member => none ⟨required, List.count_pos_iff.mpr member⟩

/-- No violation of a range: the column is not to lie in one, or it is cast and none of
its doubles is beyond a bound. -/
theorem checkRange_nil {name : Text} {series : Series} :
    checkRange cast name series assertions = [] ↔ (assertions.Ranged →
      ∃ readOther, cast.reader series.type = .ok readOther ∧ ∀ datum ∈ series.data, ∀ bits,
        datum.reading cast readOther = some bits → ¬ assertions.Beyond bits) := by
  rw [checkRange]
  split
  · next ranged =>
    simp only [ranged, forall_const, Series.castFloat]
    cases cast.reader series.type with
    | error error => simp [Except.map]
    | ok readOther =>
      have total :=
        @countBeyond_total assertions (series.data.map (Datum.reading cast readOther)) 0 0
      simp only [Except.map, Except.ok.injEq, exists_eq_left']
      rw [Nat.zero_add] at total
      have noneBeyond :
        (countBeyond assertions (series.data.map (Datum.reading cast readOther)) 0 0).1 +
            (countBeyond assertions (series.data.map (Datum.reading cast readOther)) 0 0).2 = 0 ↔
          ∀ datum ∈ series.data, ∀ bits, datum.reading cast readOther = some bits →
            ¬ assertions.Beyond bits := by
        rw [total, List.countP_eq_zero, List.forall_mem_map]
        simp only [Option.any_eq_true, Bool.or_eq_true, not_exists, not_and]
        rfl
      rw [← noneBeyond]
      split
      · next some =>
        simp only [List.cons_ne_nil, false_iff]
        omega
      · next none =>
        simp only [true_iff]
        omega
  · next free => simp [free]

/-! ## Where the gate is exact -/

/-- A value that is not a number between the bounds, and that the cast takes for one or
does not compare: an integer beyond a bound that is rounded onto it, NaN, a text that
reads as no number, or a value of another type. -/
def Datum.Slips (cast : FloatCast) (readOther : Text → Option (BitVec 64))
    (assertions : ColumnAssertions) : Datum → Prop
  | .null => False
  | .integer value _ =>
    ¬ assertions.InRange (unitsOf value) ∧ assertions.InRange (units (ofInteger value))
  | .float bits => IsNaN bits
  | .text value => ∀ bits, cast.readText value = some bits → IsNaN bits
  | .other shown => ∀ bits, readOther shown = some bits →
      IsNaN bits ∨ assertions.InRange (units bits)

/-- The column has a null it must not have, or a value that the gate sees to be bad: its
double is beyond a bound, or its type is not cast. -/
def Caught (cast : FloatCast) (assertions : ColumnAssertions) (series : Series) : Prop :=
  (assertions.notNull = some true ∧ .null ∈ series.data) ∨
    (assertions.Ranged ∧ ∃ datum ∈ series.data, datum ≠ .null ∧
      ∀ readOther, cast.reader series.type = .ok readOther →
        ∃ bits, datum.reading cast readOther = some bits ∧ assertions.Beyond bits)

/-- The column is to lie in a range and is of a type that is not cast. -/
def Refused (cast : FloatCast) (assertions : ColumnAssertions) (series : Series) : Prop :=
  assertions.Ranged ∧ ∃ error, cast.reader series.type = .error error

/-- The column is to lie in a range and has a value that slips through. -/
def LetThrough (cast : FloatCast) (assertions : ColumnAssertions) (series : Series) : Prop :=
  assertions.Ranged ∧ ∃ datum ∈ series.data, ∃ readOther,
    cast.reader series.type = .ok readOther ∧ datum.Slips cast readOther assertions

/-- A value that is not seen to be bad is a number between the bounds unless it slips. -/
theorem number_iff_not_slips {readOther : Text → Option (BitVec 64)} {datum : Datum}
    (present : datum ≠ .null)
    (unseen : ∀ bits, datum.reading cast readOther = some bits → ¬ assertions.Beyond bits) :
    (∃ number, datum.number cast = some number ∧ assertions.InRange number) ↔
      ¬ datum.Slips cast readOther assertions := by
  have seen : ∀ bits, datum.reading cast readOther = some bits → ¬ IsNaN bits →
      assertions.InRange (units bits) :=
    fun bits reads number => (inRange_iff_not_beyond number).mpr (unseen bits reads)
  cases datum with
  | null => exact absurd rfl present
  | integer value fits =>
    have rounded := seen _ rfl (ofInteger_fields fits).1
    simp [Datum.number, Datum.Slips, rounded]
  | float bits =>
    by_cases nan : IsNaN bits
    · simp [Datum.number, Datum.Slips, nan]
    · simp [Datum.number, Datum.Slips, nan, seen bits rfl nan]
  | text value =>
    cases reads : cast.readText value with
    | none => simp [Datum.number, Datum.Slips, reads]
    | some bits =>
      by_cases nan : IsNaN bits
      · simp [Datum.number, Datum.Slips, reads, nan]
      · simp [Datum.number, Datum.Slips, reads, nan, seen bits reads nan]
  | other shown =>
    simp only [Datum.number, Datum.Slips, reduceCtorEq, false_and, exists_false, false_iff, not_not]
    exact fun bits reads => (em (IsNaN bits)).imp_right (seen bits reads)

/-- A number between the bounds is of a type that is cast, and its double is beyond none. -/
theorem number_reading {type : SeriesType} {datum : Datum} {number : Int}
    (typed : datum.HasType type) (isNumber : datum.number cast = some number)
    (inRange : assertions.InRange number) : ∃ readOther, cast.reader type = .ok readOther ∧
      ∀ bits, datum.reading cast readOther = some bits → ¬ assertions.Beyond bits := by
  have ofBits : ∀ bits, (if IsNaN bits then none else some (units bits)) = some number →
      ¬ assertions.Beyond bits := by
    intro bits same
    split at same
    · exact nomatch same
    · next isNumber => exact (inRange_iff_not_beyond isNumber).mp (Option.some.inj same ▸ inRange)
  cases datum with
  | null => exact nomatch isNumber
  | integer value fits =>
    cases type with
    | integers =>
      refine ⟨_, rfl, fun bits reads => ?_⟩
      rw [← Option.some.inj reads]
      rw [← Option.some.inj isNumber] at inRange
      exact (inRange_iff_not_beyond (ofInteger_fields fits).1).mp (inRange_ofInteger fits inRange)
    | floats | texts | others => exact absurd typed id
  | float bits =>
    cases type with
    | floats =>
      refine ⟨_, rfl, fun other reads => ?_⟩
      rw [← Option.some.inj reads]
      exact ofBits bits isNumber
    | integers | texts | others => exact absurd typed id
  | text value =>
    cases type with
    | texts =>
      refine ⟨_, rfl, fun bits reads => ofBits bits ?_⟩
      simp only [Datum.reading] at reads
      simpa only [Datum.number, reads, Option.bind_some] using isNumber
    | integers | floats | others => exact absurd typed id
  | other shown => exact nomatch isNumber

/-- A column at fault that is caught is at fault for the gate and for the assertions. -/
theorem caught_both {name : Text} {series : Series} (caught : Caught cast assertions series) :
    checkColumn cast name series assertions ≠ [] ∧ ¬ assertions.Hold cast series := by
  rw [checkColumn, Ne, List.append_eq_nil_iff, checkNotNull_nil, checkRange_nil]
  rcases caught with ⟨required, isNull⟩ | ⟨ranged, datum, member, present, seen⟩
  · exact ⟨fun passes => passes.1 required isNull, fun holds => holds.noNull required isNull⟩
  · constructor
    · rintro ⟨-, passes⟩
      obtain ⟨readOther, isReader, within⟩ := passes ranged
      obtain ⟨bits, reads, beyond⟩ := seen readOther isReader
      exact within datum member bits reads beyond
    · intro holds
      obtain ⟨number, isNumber, inRange⟩ := holds.numbers ranged datum member present
      obtain ⟨readOther, isReader, within⟩ :=
        number_reading (series.typed datum member) isNumber inRange
      obtain ⟨bits, reads, beyond⟩ := seen readOther isReader
      exact within bits reads beyond

section Uncaught

variable {series : Series} (uncaught : ¬ Caught cast assertions series)

include uncaught

/-- Where all assertions pass, a column declared without nulls has none. -/
theorem uncaught_noNull : assertions.notNull = some true → .null ∉ series.data :=
  fun required isNull => uncaught (Or.inl ⟨required, isNull⟩)

/-- No double of a column that is not caught is beyond a bound. -/
theorem uncaught_within (ranged : assertions.Ranged) {readOther : Text → Option (BitVec 64)}
    (isReader : cast.reader series.type = .ok readOther) {datum : Datum}
    (member : datum ∈ series.data) {bits : BitVec 64}
    (reads : datum.reading cast readOther = some bits) : ¬ assertions.Beyond bits := by
  intro beyond
  refine uncaught (Or.inr ⟨ranged, datum, member, ?_, fun other isOther => ⟨bits, ?_, beyond⟩⟩)
  · rintro rfl
    exact nomatch reads
  · rw [isReader] at isOther
    rw [← Except.ok.inj isOther]
    exact reads

/-- Of the columns that are not caught the gate refuses those that it cannot cast. -/
theorem uncaught_checkColumn {name : Text} :
    checkColumn cast name series assertions = [] ↔ ¬ Refused cast assertions series := by
  rw [checkColumn, List.append_eq_nil_iff, checkNotNull_nil, checkRange_nil,
    and_iff_right (uncaught_noNull uncaught)]
  constructor
  · rintro passes ⟨ranged, error, fails⟩
    obtain ⟨readOther, isReader, -⟩ := passes ranged
    rw [fails] at isReader
    exact nomatch isReader
  · intro notRefused ranged
    cases isReader : cast.reader series.type with
    | error error => exact absurd ⟨ranged, error, isReader⟩ notRefused
    | ok readOther => exact ⟨readOther, rfl, fun datum member bits reads =>
        uncaught_within uncaught ranged isReader member reads⟩

/-- Of the columns that are not caught those with a value that slips are at fault. -/
theorem uncaught_hold : assertions.Hold cast series ↔ ¬ LetThrough cast assertions series := by
  constructor
  · rintro holds ⟨ranged, datum, member, readOther, isReader, slips⟩
    have present : datum ≠ .null := by
      rintro rfl
      exact slips
    exact (number_iff_not_slips present (fun bits reads =>
      uncaught_within uncaught ranged isReader member reads)).mp
        (holds.numbers ranged datum member present) slips
  · refine fun clean => ⟨uncaught_noNull uncaught, fun ranged datum member present => ?_⟩
    cases isReader : cast.reader series.type with
    | error error =>
      refine absurd (Or.inr ⟨ranged, datum, member, present, fun other isOther => ?_⟩) uncaught
      rw [isReader] at isOther
      exact nomatch isOther
    | ok readOther =>
      exact (number_iff_not_slips present (fun bits reads =>
        uncaught_within uncaught ranged isReader member reads)).mpr (fun slips =>
          clean ⟨ranged, datum, member, readOther, isReader, slips⟩)

end Uncaught

/-- Some asserted column of the schema is there and satisfies the predicate. -/
def Somewhere (frame : SeriesFrame) (schema : List AssertedColumn)
    (satisfies : ColumnAssertions → Series → Prop) : Prop :=
  ∃ column ∈ schema, ∃ assertions series, column.assertions = some assertions ∧
    frame.column column.name = some series ∧ satisfies assertions series

/-- Some asserted column of the schema is not there. -/
def Missing (frame : SeriesFrame) (schema : List AssertedColumn) : Prop :=
  ∃ column ∈ schema, column.assertions ≠ none ∧ frame.column column.name = none

variable {frame : SeriesFrame} {schema : List AssertedColumn}

/-- The gate passes a column exactly when it is there and passes its checks. -/
theorem columnViolations_nil {column : AssertedColumn} :
    columnViolations cast frame column = [] ↔ ∀ assertions, column.assertions = some assertions →
      ∃ series, frame.column column.name = some series ∧
        checkColumn cast column.name series assertions = [] := by
  rw [columnViolations]
  cases column.assertions with
  | none => simp
  | some assertions => cases frame.column column.name with
    | none => simp
    | some series => simp

/-- A missing or a caught column is at fault for the gate and for the assertions. -/
theorem fault_both (fault : Missing frame schema ∨ Somewhere frame schema (Caught cast)) :
    validateAssertions cast frame schema ≠ [] ∧ ¬ AssertionsHold cast frame schema := by
  rw [validateAssertions, Ne, List.flatMap_eq_nil_iff]
  rcases fault with ⟨column, member, asserted, absent⟩ |
    ⟨column, member, assertions, series, asserted, found, caught⟩
  · obtain ⟨assertions, asserted⟩ := Option.ne_none_iff_exists'.mp asserted
    constructor
    · intro passes
      obtain ⟨series, found, -⟩ :=
        columnViolations_nil.mp (passes column member) assertions asserted
      exact nomatch absent.symm.trans found
    · intro holds
      obtain ⟨series, found, -⟩ := holds column member assertions asserted
      exact nomatch absent.symm.trans found
  · have both : checkColumn cast column.name series assertions ≠ [] ∧
      ¬ assertions.Hold cast series :=
      caught_both caught
    constructor
    · intro passes
      obtain ⟨other, isOther, passesOther⟩ :=
        columnViolations_nil.mp (passes column member) assertions asserted
      obtain rfl := Option.some.inj (found.symm.trans isOther)
      exact both.1 passesOther
    · intro holds
      obtain ⟨other, isOther, holdsOther⟩ := holds column member assertions asserted
      obtain rfl := Option.some.inj (found.symm.trans isOther)
      exact both.2 holdsOther

/-- If no asserted column is missing, what fails on none of them holds on all. -/
theorem everywhere_iff (passes : Text → ColumnAssertions → Series → Prop)
    {fails : ColumnAssertions → Series → Prop} (complete : ¬ Missing frame schema)
    (decided : ∀ column ∈ schema, ∀ assertions series, column.assertions = some assertions →
      frame.column column.name = some series →
        (passes column.name assertions series ↔ ¬ fails assertions series)) :
    (∀ column ∈ schema, ∀ assertions, column.assertions = some assertions →
      ∃ series, frame.column column.name = some series ∧ passes column.name assertions series) ↔
      ¬ Somewhere frame schema fails := by
  constructor
  · rintro all ⟨column, member, assertions, series, asserted, found, fault⟩
    obtain ⟨other, isOther, passesOther⟩ := all column member assertions asserted
    obtain rfl := Option.some.inj (found.symm.trans isOther)
    exact (decided column member assertions series asserted found).mp passesOther fault
  · intro clean column member assertions asserted
    cases found : frame.column column.name with
    | none => exact absurd ⟨column, member, by simp [asserted], found⟩ complete
    | some series =>
      exact ⟨series, rfl, (decided column member assertions series asserted found).mpr (fun fault =>
        clean ⟨column, member, assertions, series, asserted, found, fault⟩)⟩

/-- The gate is exact on a frame exactly when some asserted column is missing or caught, or
else some column is refused exactly when some column has a value that slips through. -/
theorem validateAssertions_exact :
    (validateAssertions cast frame schema = [] ↔ AssertionsHold cast frame schema) ↔
      Missing frame schema ∨ Somewhere frame schema (Caught cast) ∨
        (Somewhere frame schema (Refused cast) ↔ Somewhere frame schema (LetThrough cast)) := by
  rw [← or_assoc]
  by_cases fault : Missing frame schema ∨ Somewhere frame schema (Caught cast)
  · obtain ⟨violated, broken⟩ := fault_both fault
    simp [fault, violated, broken]
  · rw [or_iff_right fault]
    obtain ⟨complete, uncaught⟩ := not_or.mp fault
    have uncaughtColumn : ∀ column ∈ schema, ∀ assertions series,
        column.assertions = some assertions → frame.column column.name = some series →
          ¬ Caught cast assertions series :=
      fun column member assertions series asserted found caught =>
        uncaught ⟨column, member, assertions, series, asserted, found, caught⟩
    have gate : validateAssertions cast frame schema = [] ↔
      ¬ Somewhere frame schema (Refused cast) := by
      rw [validateAssertions, List.flatMap_eq_nil_iff, ← everywhere_iff
        (fun name assertions series => checkColumn cast name series assertions = []) complete
        (fun column member assertions series asserted found =>
          uncaught_checkColumn (uncaughtColumn column member assertions series asserted found))]
      exact forall₂_congr (fun _ _ => columnViolations_nil)
    have holds : AssertionsHold cast frame schema ↔ ¬ Somewhere frame schema (LetThrough cast) :=
      everywhere_iff (fun _ assertions series => assertions.Hold cast series) complete
        (fun column member assertions series asserted found =>
          uncaught_hold (uncaughtColumn column member assertions series asserted found))
    rw [gate, holds, not_iff_not]

/-! ## A text that is no number -/

/-- The cast at a text that is no number. -/
def unreadCast : FloatCast where
  readText _ := none
  readOther _ := .error []
  showBound _ := []

/-- A column of texts. -/
def textColumn : Series where
  type := .texts
  data := [.text "x".toList]
  typed := by simp [Datum.HasType]

/-- A column that is to be zero or more. -/
def fromZero : AssertedColumn where
  name := "a".toList
  path := none
  type := "float64".toList
  assertions := some ⟨none, some ⟨0, by decide⟩, none⟩

/-- The text `x` passes for a number from zero up. -/
theorem unread_text_passes : ¬ ∀ cast frame schema,
    validateAssertions cast frame schema = [] ↔ AssertionsHold cast frame schema := by
  intro claim
  have passes : validateAssertions unreadCast ⟨[("a".toList, textColumn)]⟩ [fromZero] = [] := by
    decide +kernel
  obtain ⟨series, found, holds⟩ :=
    (claim _ _ _).mp passes fromZero (List.mem_singleton_self _) _ rfl
  obtain rfl : textColumn = series := by
    simpa [SeriesFrame.column, fromZero] using found
  obtain ⟨number, isNumber, -⟩ := holds.numbers (Or.inl rfl) _ (List.mem_singleton_self _) (by simp)
  exact nomatch isNumber

end Gate

end KaretWorker
