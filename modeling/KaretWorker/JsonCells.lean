import KaretWorker.JsonPath
import KaretWorker.DimensionFile
import KaretWorker.Library.FloatText

/-!
# Cells of JSON columns

The column builders of `src/json_source.rs`. A builder appends one cell for each record:
a JSON value that fits the type of its column is kept, numbers and texts are coerced, and
everything else becomes null.

What a cell denotes is stated with exact rationals. A coercion means to be lossless or null,
but a number that is no 64-bit integer is still cast to one, and a number or a text is read
as the nearest double; `push_exact_iff` says for which values a cell denotes its value.
-/
namespace KaretWorker

open Texts Binary64

/-- One typed vector per schema column. -/
inductive Builder where
  | str (cells : List (Option Text))
  | i64 (cells : List (Option Int))
  | f64 (cells : List (Option (BitVec 64)))
  | bool (cells : List (Option Bool))
  deriving DecidableEq

/-- The builder of a type; any other type is a text. -/
def Builder.forType (type : Text) : Builder :=
  if type = "int64".toList then .i64 []
  else if type = "number".toList ∨ type = "float64".toList then .f64 []
  else if type = "bool".toList then .bool []
  else .str []

/-- An integer in decimal digits. -/
def integerText (value : Int) : Text :=
  if value < 0 then '-' :: decimal value.natAbs else decimal value.natAbs

/-- `true` or `false`. -/
def boolText (value : Bool) : Text := if value then "true".toList else "false".toList

/-- A number as a 64-bit integer, if it is held as an integer in range. -/
def asI64 : Json.Number → Option Int
  | .integer value => if Json.Signed value then some value else none
  | .float _ => none

/-- A number as a double. -/
def asF64 : Json.Number → Option (BitVec 64)
  | .integer value => some (ofInteger value)
  | .float bits => some bits

section Push

variable (showFloat : BitVec 64 → Text)

/-- A number as it is shown. -/
def numberText : Json.Number → Text
  | .integer value => integerText value
  | .float bits => showFloat bits

/-- What a text column takes from a value. -/
def strCell : Option Json.Value → Option Text
  | some (.string text) => some text
  | some (.number number) => some (numberText showFloat number)
  | some (.bool value) => some (boolText value)
  | _ => none

/-- What an integer column takes from a value: a float is truncated, a text has to be an integer. -/
def i64Cell : Option Json.Value → Option Int
  | some (.number number) => (asI64 number).or ((asF64 number).map toSigned)
  | some (.string text) => parseInteger text
  | _ => none

/-- What a float column takes from a value. -/
def f64Cell : Option Json.Value → Option (BitVec 64)
  | some (.number number) => asF64 number
  | some (.string text) => parse text
  | _ => none

/-- What a boolean column takes from a value; texts are not booleans. -/
def boolCell : Option Json.Value → Option Bool
  | some (.bool value) => some value
  | _ => none

/-- Append one JSON value, coercing when lossless and nulling otherwise. -/
def Builder.push (value : Option Json.Value) : Builder → Builder
  | .str cells => .str (cells ++ [strCell showFloat value])
  | .i64 cells => .i64 (cells ++ [i64Cell value])
  | .f64 cells => .f64 (cells ++ [f64Cell value])
  | .bool cells => .bool (cells ++ [boolCell value])

/-! ## What a cell denotes -/

/-- The value of a number. -/
def exactValue : Json.Number → ℚ
  | .integer value => value
  | .float bits => Binary64.value bits

/-- The numbers a value can hold: 64-bit integers with or without a sign, and finite
doubles. -/
def Genuine64 : Json.Value → Prop
  | .number (.integer value) => -2 ^ 63 ≤ value ∧ value < 2 ^ 64
  | .number (.float bits) => Binary64.Finite bits
  | _ => True

/-- A text writes an integer, with a sign or without one. -/
def WritesInteger (text : Text) (value : Int) : Prop :=
  ∃ digits, digits ≠ [] ∧ digits.all Char.isDigit = true ∧
    ((text = digits ∨ text = '+' :: digits) ∧ value = Nat.ofDigitChars 10 digits 0 ∨
      text = '-' :: digits ∧ value = -(Nat.ofDigitChars 10 digits 0 : Int))

/-- A cell that is not null. -/
inductive JsonCell where
  | str (text : Text)
  | i64 (value : Int)
  | f64 (bits : BitVec 64)
  | bool (value : Bool)

/-- The cells that a builder has so far. -/
def Builder.cells : Builder → List (Option JsonCell)
  | .str cells => cells.map (Option.map .str)
  | .i64 cells => cells.map (Option.map .i64)
  | .f64 cells => cells.map (Option.map .f64)
  | .bool cells => cells.map (Option.map .bool)

/-- A cell denotes exactly a JSON value: the same number as a rational, the number that its
text writes, or its rendering. -/
def JsonCell.Denotes : JsonCell → Json.Value → Prop
  | .str text, .string value => text = value
  | .str text, .number number => text = numberText showFloat number
  | .str text, .bool value => text = boolText value
  | .i64 value, .number number => exactValue number = value
  | .i64 value, .string text => WritesInteger text value
  | .f64 bits, .number number => Binary64.Finite bits ∧ Binary64.value bits = exactValue number
  | .f64 bits, .string text => ∃ written, readWritten text = some written ∧ written.Denotes bits
  | .bool cell, .bool value => cell = value
  | _, _ => False

/-- A builder appends one cell, which is null or denotes exactly the value. -/
def PushesExactly (builder : Builder) (value : Option Json.Value) : Prop :=
  ∃ cell, (builder.push showFloat value).cells = builder.cells ++ [cell] ∧
    ∀ content, cell = some content → ∃ given, value = some given ∧ content.Denotes showFloat given

end Push

/-- A value that the builder would have to change: a number that is no 64-bit integer in a
column of integers, or one that is no double, held or written, in a column of doubles. -/
def Builder.Loses : Builder → Option Json.Value → Prop
  | .i64 _, some (.number number) => ¬ ∃ value, Json.Signed value ∧ exactValue number = value
  | .f64 _, some (.number number) => ¬ ∃ bits, Binary64.Finite bits ∧ Binary64.value bits = exactValue number
  | .f64 _, some (.string text) =>
    ∃ written, readWritten text = some written ∧ ¬ ∃ bits, written.Denotes bits
  | _, _ => False

/-! ## Coercions -/

/-- An integer is parsed only from a text that writes it. -/
theorem writesInteger_parse {text : Text} {value : Int} (parsed : parseInteger text = some value) :
    WritesInteger text value := by
  unfold parseInteger at parsed
  split at parsed
  · next digits =>
    split at parsed
    · next fits => exact ⟨digits, fits.1, fits.2.1, Or.inr ⟨rfl, (Option.some.inj parsed).symm⟩⟩
    · cases parsed
  · obtain ⟨digits, parses, rfl⟩ := Option.map_eq_some_iff.mp parsed
    simp only [parseUnsigned] at parses
    split at parses
    · next fits =>
      refine ⟨dropSign text, fits.1, fits.2.1, Or.inl ⟨?_, ?_⟩⟩
      · unfold dropSign
        split
        · exact Or.inr rfl
        · exact Or.inl rfl
      · rw [← Option.some.inj parses]
        rfl
    · cases parses

/-- A number is cast to an integer of its value exactly when it has one. -/
theorem i64Cell_number {number : Json.Number} (genuine : Genuine64 (.number number)) :
    ∃ cell, i64Cell (some (.number number)) = some cell ∧
      (exactValue number = cell ↔ ∃ value, Json.Signed value ∧ exactValue number = value) := by
  cases number with
  | integer held =>
    by_cases signed : Json.Signed held
    · refine ⟨held, by simp [i64Cell, asI64, signed], ?_⟩
      exact ⟨fun same => ⟨held, signed, same⟩, fun _ => rfl⟩
    · refine ⟨toSigned (ofInteger held), by simp [i64Cell, asI64, asF64, signed], ?_⟩
      have bounds := toSigned_bounds (ofInteger held)
      constructor
      · exact fun same => ⟨_, bounds, same⟩
      · rintro ⟨value, isSigned, same⟩
        obtain rfl : held = value := Int.cast_injective (show (held : ℚ) = value from same)
        exact absurd isSigned signed
  | float bits =>
    refine ⟨toSigned bits, by simp [i64Cell, asI64, asF64], ?_⟩
    constructor
    · exact fun same => ⟨_, toSigned_bounds bits, same⟩
    · rintro ⟨value, isSigned, same⟩
      have finite : Binary64.Finite bits := genuine
      rw [toSigned_exact finite isSigned.1 isSigned.2 same]
      exact same

/-- A number is kept as a double of its value exactly when there is one. -/
theorem f64Cell_number {number : Json.Number} (genuine : Genuine64 (.number number)) :
    ∃ cell, f64Cell (some (.number number)) = some cell ∧
      (Binary64.Finite cell ∧ Binary64.value cell = exactValue number ↔
        ∃ bits, Binary64.Finite bits ∧ Binary64.value bits = exactValue number) := by
  cases number with
  | integer held =>
    have fits : held.natAbs < 2 ^ 64 := by
      obtain ⟨least, most⟩ : -2 ^ 63 ≤ held ∧ held < 2 ^ 64 := genuine
      omega
    exact ⟨ofInteger held, rfl, ofInteger_exact fits⟩
  | float bits =>
    have finite : Binary64.Finite bits := genuine
    exact ⟨bits, rfl, fun exact => ⟨bits, exact⟩, fun _ => ⟨finite, rfl⟩⟩

/-! ## Pushing -/

section Exact

variable {showFloat : BitVec 64 → Text} {builder : Builder} {value : Option Json.Value}

/-- The cell that is appended. -/
def Builder.cell (showFloat : BitVec 64 → Text) (value : Option Json.Value) :
    Builder → Option JsonCell
  | .str _ => (strCell showFloat value).map .str
  | .i64 _ => (i64Cell value).map .i64
  | .f64 _ => (f64Cell value).map .f64
  | .bool _ => (boolCell value).map .bool

/-- A push appends one cell. -/
theorem push_cells : (builder.push showFloat value).cells =
    builder.cells ++ [builder.cell showFloat value] := by
  cases builder <;> simp [Builder.push, Builder.cells, Builder.cell]

/-- What is pushed exactly is read off the cell. -/
theorem pushesExactly_cell : PushesExactly showFloat builder value ↔
    ∀ content, builder.cell showFloat value = some content →
      ∃ given, value = some given ∧ content.Denotes showFloat given := by
  simp only [PushesExactly, push_cells, List.append_cancel_left_eq, List.cons.injEq, and_true]
  constructor
  · rintro ⟨cell, rfl, exactly⟩
    exact exactly
  · exact fun exactly => ⟨_, rfl, exactly⟩

/-- A cell that is null says nothing wrong. -/
theorem pushesExactly_null (isNull : builder.cell showFloat value = none) :
    PushesExactly showFloat builder value :=
  pushesExactly_cell.mpr (fun _ impossible => nomatch isNull.symm.trans impossible)

/-- Where a cell is stored, the push is exact exactly if the cell denotes the value. -/
theorem pushesExactly_some {given : Json.Value} {content : JsonCell}
    (isCell : builder.cell showFloat (some given) = some content) :
    PushesExactly showFloat builder (some given) ↔ content.Denotes showFloat given := by
  rw [pushesExactly_cell, isCell]
  constructor
  · intro exactly
    obtain ⟨_, same, denotes⟩ := exactly content rfl
    exact Option.some.inj same ▸ denotes
  · rintro denotes _ ⟨⟩
    exact ⟨given, rfl, denotes⟩

/-- A push that stores a cell denoting the value is exact. -/
theorem pushesExactly_of_denotes {given : Json.Value} (content : JsonCell)
    (isCell : builder.cell showFloat (some given) = some content)
    (denotes : content.Denotes showFloat given) : PushesExactly showFloat builder (some given) :=
  (pushesExactly_some isCell).mpr denotes

/-- The cell that a builder appends is null or denotes exactly the JSON value, except that
a column of integers changes every number that is no 64-bit integer, and a column of doubles
every number, held or written, that is no double. -/
theorem push_exact_iff (builder : Builder) (value : Option Json.Value)
    (genuine : ∀ given, value = some given → Genuine64 given) :
    PushesExactly showFloat builder value ↔ ¬ builder.Loses value := by
  cases value with
  | none =>
    have isNull : builder.cell showFloat none = none := by cases builder <;> rfl
    exact iff_of_true (pushesExactly_null isNull) (by cases builder <;> exact id)
  | some given =>
    have isGenuine := genuine given rfl
    cases builder with
    | str cells =>
      refine iff_of_true ?_ id
      cases given with
      | null | array | object => exact pushesExactly_null rfl
      | bool truth => exact pushesExactly_of_denotes (.str (boolText truth)) rfl rfl
      | number number => exact pushesExactly_of_denotes (.str (numberText showFloat number)) rfl rfl
      | string text => exact pushesExactly_of_denotes (.str text) rfl rfl
    | i64 cells =>
      cases given with
      | number number =>
        obtain ⟨cell, isCell, exactly⟩ := i64Cell_number isGenuine
        rw [pushesExactly_some (by rw [Builder.cell, isCell]; rfl)]
        exact exactly.trans not_not.symm
      | string text =>
        refine iff_of_true ?_ id
        cases parsed : parseInteger text with
        | none => exact pushesExactly_null (by rw [Builder.cell, i64Cell, parsed]; rfl)
        | some read =>
          rw [pushesExactly_some (by rw [Builder.cell, i64Cell, parsed]; rfl)]
          exact writesInteger_parse parsed
      | null | bool | array | object => exact iff_of_true (pushesExactly_null rfl) id
    | f64 cells =>
      cases given with
      | number number =>
        obtain ⟨cell, isCell, exactly⟩ := f64Cell_number isGenuine
        rw [pushesExactly_some (by rw [Builder.cell, isCell]; rfl)]
        exact exactly.trans not_not.symm
      | string text =>
        cases written : readWritten text with
        | none =>
          refine iff_of_true (pushesExactly_null ?_) ?_
          · rw [Builder.cell, f64Cell, parse, written]
            rfl
          · rintro ⟨_, isWritten, _⟩
            exact nomatch written.symm.trans isWritten
        | some read =>
          rw [pushesExactly_some (by rw [Builder.cell, f64Cell, parse, written]; rfl)]
          constructor
          · rintro ⟨_, isWritten, denotes⟩ ⟨_, isWritten', impossible⟩
            obtain rfl := Option.some.inj (isWritten.symm.trans isWritten')
            exact impossible ⟨_, denotes⟩
          · intro notLost
            refine ⟨read, written, Written.denotes_bits.mpr ?_⟩
            by_contra impossible
            exact notLost ⟨read, written, impossible⟩
      | null | bool | array | object => exact iff_of_true (pushesExactly_null rfl) id
    | bool cells =>
      refine iff_of_true ?_ id
      cases given with
      | bool truth => exact pushesExactly_of_denotes (.bool truth) rfl rfl
      | null | number | string | array | object => exact pushesExactly_null rfl

end Exact

/-- The bits of one and a half. -/
def oneAndAHalf : BitVec 64 := 0x3FF8000000000000#64

/-- One and a half is stored as 1 in a column of integers, and `2 ^ 63`, which is held without
a sign, as the largest 64-bit integer. -/
theorem fraction_truncated :
    (Builder.i64 []).push (fun _ => "1.5".toList) (some (.number (.float oneAndAHalf))) =
      .i64 [some 1] ∧
    ¬ PushesExactly (fun _ => "1.5".toList) (.i64 []) (some (.number (.float oneAndAHalf))) ∧
    (Builder.i64 []).push (fun _ => "1.5".toList) (some (.number (.integer (2 ^ 63)))) =
      .i64 [some (2 ^ 63 - 1)] ∧
    ¬ PushesExactly (fun _ => "1.5".toList) (.i64 []) (some (.number (.integer (2 ^ 63)))) := by
  have stored : i64Cell (some (.number (.float oneAndAHalf))) = some 1 := by decide +kernel
  have clamped : i64Cell (some (.number (.integer (2 ^ 63)))) =
    some (2 ^ 63 - 1) := by decide +kernel
  refine ⟨?_, ?_, ?_, ?_⟩
  · rw [Builder.push, stored]
    rfl
  · rw [pushesExactly_some (by rw [Builder.cell, stored]; rfl)]
    intro same
    have units : units oneAndAHalf = unitsOf 1 := value_eq_iff.mp same
    exact absurd units (by decide +kernel)
  · rw [Builder.push, clamped]
    rfl
  · rw [pushesExactly_some (by rw [Builder.cell, clamped]; rfl)]
    intro same
    have equal : (2 ^ 63 : Int) = 2 ^ 63 - 1 :=
      Int.cast_injective (show ((2 ^ 63 : Int) : ℚ) = _ from same)
    exact absurd equal (by decide)

/-- The largest 64-bit integer is kept exactly in a column of integers, and so is one and a half in a
column of doubles. -/
theorem push_exact_iff_text :
    PushesExactly (fun _ => []) (.i64 [none]) (some (.number (.integer (2 ^ 63 - 1)))) ∧
    PushesExactly (fun _ => []) (.f64 []) (some (.number (.float oneAndAHalf))) := by
  have isFinite : Binary64.Finite oneAndAHalf := by decide +kernel
  constructor
  · refine (push_exact_iff (.i64 [none]) (some (.number (.integer (2 ^ 63 - 1)))) ?_).mpr ?_
    · rintro _ ⟨⟩
      exact ⟨by decide, by decide⟩
    · exact fun lost => lost ⟨2 ^ 63 - 1, ⟨by decide, by decide⟩, rfl⟩
  · refine (push_exact_iff (.f64 []) (some (.number (.float oneAndAHalf))) ?_).mpr ?_
    · rintro _ ⟨⟩
      exact isFinite
    · exact fun lost => lost ⟨oneAndAHalf, isFinite, rfl⟩

end KaretWorker
