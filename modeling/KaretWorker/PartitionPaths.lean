import KaretWorker.MappingFrames
import KaretWorker.Library.IsoDate

/-!
# Paths of partitions

The object keys that `produce_partitions` makes from partition key cells, and how a hive
reader gets the cells back: it takes the path apart at the table and the key names, a value
ending at the next slash, and undoes the percent escapes (`percentDecode_encodeSegment`).

An integer, a truth value and a date are written without escapes and a string with them,
and none of them has a slash (`segmentValue_decodes`). So cells of one kind with equal
texts are equal (`cellText_injective`). Of the calendar it is used that different days have
different dates.
-/
namespace KaretWorker

open Texts Frames IsoDate

/-! ## Percent escapes -/

/-- The value of an upper-case hexadecimal digit. -/
def hexValue (digit : Char) : Option Nat :=
  if digit.isDigit then some (digit.toNat - '0'.toNat)
  else if 'A' ≤ digit ∧ digit ≤ 'F' then some (digit.toNat - 'A'.toNat + 10)
  else none

/-- The bytes of an escaped text. -/
def decodeBytes : Text → Option (List UInt8)
  | [] => some []
  | '%' :: high :: low :: rest => do
    let highValue ← hexValue high
    let lowValue ← hexValue low
    return UInt8.ofNat (16 * highValue + lowValue) :: (← decodeBytes rest)
  | character :: rest =>
    if character = '%' ∨ 127 < character.toNat then none
    else (decodeBytes rest).map (UInt8.ofNat character.toNat :: ·)

/-- The text that was escaped. -/
def percentDecode (segment : Text) : Option Text :=
  (decodeBytes segment).bind (fun bytes => bytes.toByteArray.utf8Decode?.map Array.toList)

/-- Hexadecimal digits have their values. -/
theorem hexValue_hexDigit {value : Nat} (small : value < 16) :
    hexValue (hexDigit value) = some value := by
  have all : ∀ value < 16, hexValue (hexDigit value) = some value := by decide +kernel
  exact all value small

/-- The characters that stand for themselves. -/
def Unescaped (character : Char) : Prop :=
  character.isAlphanum = true ∨ character = '.' ∨ character = '_' ∨ character = '-'

instance (character : Char) : Decidable (Unescaped character) := inferInstanceAs (Decidable (_ ∨ _))

/-- A byte stands for itself or is escaped. -/
theorem encodeByte_cases (byte : UInt8) :
    (∃ character, encodeByte byte = [character] ∧ character.toNat = byte.toNat ∧
      byte.toNat < 128 ∧ Unescaped character) ∨
    encodeByte byte = ['%', hexDigit (byte.toNat / 16), hexDigit (byte.toNat % 16)] := by
  have all : ∀ value < 256, Unescaped (Char.ofNat value) →
      (Char.ofNat value).toNat = value ∧ value < 128 := by decide +kernel
  unfold encodeByte
  simp only
  split
  · next unescaped =>
    have unescaped : Unescaped (Char.ofNat byte.toNat) := by
      simpa [Unescaped, or_assoc] using unescaped
    obtain ⟨sameValue, ascii⟩ := all byte.toNat byte.toNat_lt unescaped
    exact Or.inl ⟨_, rfl, sameValue, ascii, unescaped⟩
  · exact Or.inr rfl

/-- A character without an escape is its own byte. -/
theorem decodeBytes_plain {character : Char} (noEscape : character ≠ '%')
    (ascii : character.toNat < 128) (rest : Text) :
    decodeBytes (character :: rest) = (decodeBytes rest).map
      (UInt8.ofNat character.toNat :: ·) := by
  rw [decodeBytes]
  · rw [if_neg (not_or.mpr ⟨noEscape, by omega⟩)]
  · rintro _ _ _ rfl
    exact absurd rfl noEscape

/-- An escaped byte is decoded as itself. -/
theorem decodeBytes_encodeByte (byte : UInt8) (rest : Text) :
    decodeBytes (encodeByte byte ++ rest) = (decodeBytes rest).map (byte :: ·) := by
  rcases encodeByte_cases byte with ⟨character, same, sameValue, ascii, unescaped⟩ | escaped
  · have noEscape : character ≠ '%' := by
      rintro rfl
      exact absurd unescaped (by decide)
    rw [same, List.singleton_append, decodeBytes_plain noEscape (by omega), sameValue,
      UInt8.ofNat_toNat]
  · have small := byte.toNat_lt
    have high : hexValue (hexDigit (byte.toNat / 16)) = some (byte.toNat / 16) :=
      hexValue_hexDigit (by omega)
    have low : hexValue (hexDigit (byte.toNat % 16)) = some (byte.toNat % 16) :=
      hexValue_hexDigit (by omega)
    have whole : 16 * (byte.toNat / 16) + byte.toNat % 16 = byte.toNat := Nat.div_add_mod _ _
    rw [escaped]
    simp only [List.cons_append, List.nil_append, decodeBytes, high, low]
    cases decodeBytes rest with
    | none => rfl
    | some bytes =>
      simp only [bind, Option.bind, whole, UInt8.ofNat_toNat]
      rfl

/-- Escapes are undone. -/
theorem percentDecode_encodeSegment (value : Text) :
    percentDecode (encodeSegment value) = some value := by
  have bytes : ∀ bytes : List UInt8, decodeBytes (bytes.flatMap encodeByte) = some bytes := by
    intro bytes
    induction bytes with
    | nil => rfl
    | cons byte rest inductionHypothesis =>
      rw [List.flatMap_cons, decodeBytes_encodeByte, inductionHypothesis]
      rfl
  have decoded : (value.flatMap String.utf8EncodeChar).toByteArray.utf8Decode? =
    some value.toArray :=
    List.utf8Decode?_utf8Encode
  rw [percentDecode, encodeSegment, bytes, Option.bind_some, decoded]
  rfl

/-- Escaping loses nothing. -/
theorem encodeSegment_injective : Function.Injective encodeSegment := by
  intro value value' same
  have decoded := percentDecode_encodeSegment value
  rw [same, percentDecode_encodeSegment] at decoded
  exact (Option.some.inj decoded).symm

/-- An escaped text has no character that separates segments or keys from values. -/
theorem not_mem_encodeSegment {character : Char} (separates : character = '/' ∨ character = '=')
    (value : Text) : character ∉ encodeSegment value := by
  have digits : ∀ value < 16, hexDigit value ≠ '/' ∧ hexDigit value ≠ '=' := by decide +kernel
  intro member
  obtain ⟨byte, -, isByte⟩ := List.mem_flatMap.mp member
  rcases encodeByte_cases byte with ⟨own, same, -, -, unescaped⟩ | escaped
  · rw [same, List.mem_singleton] at isByte
    rw [← isByte] at unescaped
    rcases separates with rfl | rfl <;> exact absurd unescaped (by decide)
  · have small := byte.toNat_lt
    have high := digits (byte.toNat / 16) (by omega)
    have low := digits (byte.toNat % 16) (by omega)
    rw [escaped] at isByte
    simp only [List.mem_cons, List.not_mem_nil, or_false] at isByte
    rcases separates with rfl | rfl
    · exact isByte.elim (by decide) (fun digit => digit.elim (fun same => high.1 same.symm)
        (fun same => low.1 same.symm))
    · exact isByte.elim (by decide) (fun digit => digit.elim (fun same => high.2 same.symm)
        (fun same => low.2 same.symm))

/-! ## Texts of cells -/

/-- Dates are those of a calendar: different days have different dates. -/
def CalendarDates (engine : Engine) : Prop :=
  ∃ civil : Int → Option CivilDate,
    (∀ days days' date, civil days = some date → civil days' = some date → days = days') ∧
      ∀ days, engine.isoDate days = (civil days).map isoText

/-- Cells of a column of integers, truth values, dates or strings. -/
def SameKind : Cell → Cell → Prop
  | .int _, .int _ | .bool _, .bool _ | .date _, .date _ | .string _, .string _ => True
  | _, _ => False

instance (cell cell' : Cell) : Decidable (SameKind cell cell') := by
  unfold SameKind
  split <;> infer_instance

section Cells

variable (engine : Engine)

/-- A partition key cell as a text, before escaping. -/
def cellText : Cell → Text
  | .int value => integer value
  | .bool value => if value then "true".toList else "false".toList
  | .date days => (engine.isoDate days).getD []
  | .string value => value
  | .null | .other _ => []

/-- The cell can be a partition key: it is neither null nor of another type, and a date is
in range. -/
def Supported : Cell → Prop
  | .int _ | .bool _ | .string _ => True
  | .date days => engine.isoDate days ≠ none
  | .null | .other _ => False

variable {engine}

/-- A cell has a segment exactly when it is supported. -/
theorem segmentValue_supported {cell : Cell} :
    (∃ value, segmentValue engine cell = .ok value) ↔ Supported engine cell := by
  cases cell with
  | int | bool | string => simp [segmentValue, Supported]
  | null | other => simp [segmentValue, Supported]
  | date days => cases inRange : engine.isoDate days <;> simp [segmentValue, Supported, inRange]

/-- The characters of integers, truth values and dates. -/
def Plain (character : Char) : Prop :=
  character.toNat < 128 ∧ character ≠ '%' ∧ character ≠ '/' ∧ character ≠ '='

instance (character : Char) : Decidable (Plain character) := inferInstanceAs (Decidable (_ ∧ _))

/-- A text of such characters has no escapes. -/
theorem percentDecode_plain {text : Text} (plain : ∀ character ∈ text, Plain character) :
    percentDecode text = some text := by
  have bytes : decodeBytes text = some (text.flatMap String.utf8EncodeChar) := by
    induction text with
    | nil => rfl
    | cons character rest inductionHypothesis =>
      rw [List.forall_mem_cons] at plain
      obtain ⟨⟨ascii, noEscape, -⟩, plainRest⟩ := plain
      have single : String.utf8EncodeChar character = [UInt8.ofNat character.toNat] :=
        if_pos (show character.val.toNat ≤ 127 from Nat.le_of_lt_succ ascii)
      rw [decodeBytes_plain noEscape ascii, inductionHypothesis plainRest,
        List.flatMap_cons, single]
      rfl
  have decoded : (text.flatMap String.utf8EncodeChar).toByteArray.utf8Decode? = some text.toArray :=
    List.utf8Decode?_utf8Encode
  rw [percentDecode, bytes, Option.bind_some, decoded]
  rfl

/-- Digits need no escape. -/
theorem plain_of_isDigit {character : Char} (isDigit : character.isDigit = true) :
    Plain character := by
  have range : 48 ≤ character.toNat ∧ character.toNat ≤ 57 := by
    simpa [Char.isDigit, UInt32.le_iff_toNat_le] using isDigit
  have differs : ∀ other : Char, other.toNat < 48 ∨ 57 < other.toNat → character ≠ other := by
    rintro other outside rfl
    omega
  exact ⟨by omega, differs _ (by decide), differs _ (by decide), differs _ (by decide)⟩

/-- An integer is written in plain characters. -/
theorem integer_plain {value : Int} {character : Char} (member : character ∈ integer value) :
    Plain character := by
  cases value with
  | ofNat value => exact plain_of_isDigit (decimal_digits value character member)
  | negSucc value =>
    rcases List.mem_cons.mp member with rfl | digit
    · decide
    · exact plain_of_isDigit (decimal_digits _ character digit)

/-- Different integers are written differently. -/
theorem integer_injective : Function.Injective integer := by
  have notNegative : ∀ value value', decimal value ≠ '-' :: decimal value' := by
    intro value value' same
    exact not_mem_decimal (by decide) value (same ▸ List.mem_cons_self)
  intro value value' same
  cases value with
  | ofNat value => cases value' with
    | ofNat value' => rw [decimal_injective same]
    | negSucc value' => exact absurd same (notNegative _ _)
  | negSucc value => cases value' with
    | ofNat value' => exact absurd same.symm (notNegative _ _)
    | negSucc value' => rw [Nat.succ.inj (decimal_injective (List.cons.inj same).2)]

/-- A segment is the text of its cell after escaping, and has no character that separates. -/
theorem segmentValue_decodes (calendar : CalendarDates engine) {cell : Cell} {value : Text}
    (isSegment : segmentValue engine cell = .ok value) :
    percentDecode value = some (cellText engine cell) ∧ '/' ∉ value := by
  have plainText : ∀ {text : Text}, (∀ character ∈ text, Plain character) →
      percentDecode text = some text ∧ '/' ∉ text :=
    fun plain => ⟨percentDecode_plain plain, fun member => (plain _ member).2.2.1 rfl⟩
  cases cell with
  | null | other => cases isSegment
  | int number =>
    obtain rfl := Except.ok.inj isSegment
    exact plainText (fun _ => integer_plain)
  | bool truth =>
    obtain rfl := Except.ok.inj isSegment
    cases truth <;> exact plainText (by simp [Plain])
  | string text =>
    obtain rfl := Except.ok.inj isSegment
    exact ⟨percentDecode_encodeSegment text, not_mem_encodeSegment (Or.inl rfl) text⟩
  | date days =>
    obtain ⟨civil, -, formats⟩ := calendar
    rw [segmentValue, formats] at isSegment
    rw [cellText, formats]
    cases isDate : civil days with
    | none =>
      rw [isDate] at isSegment
      cases isSegment
    | some date =>
      rw [isDate] at isSegment
      obtain rfl := Except.ok.inj isSegment
      refine plainText (fun character member => ?_)
      rcases isoText_characters member with digit | rfl | rfl
      · exact plain_of_isDigit digit
      · decide
      · decide

/-- Supported cells of one kind with one text are equal. -/
theorem cellText_injective (calendar : CalendarDates engine) {cell cell' : Cell}
    (supported : Supported engine cell) (supported' : Supported engine cell')
    (sameKind : SameKind cell cell') (sameText : cellText engine cell = cellText engine cell') :
    cell = cell' := by
  cases cell with
  | null | other => exact absurd supported id
  | int value => cases cell' with
    | int value' => exact congrArg Cell.int (integer_injective sameText)
    | null | bool | date | string | other => exact absurd sameKind id
  | bool value => cases cell' with
    | bool value' =>
      refine congrArg Cell.bool ?_
      have differs : "true".toList ≠ "false".toList := by decide +kernel
      cases value <;> cases value'
      · rfl
      · exact absurd sameText.symm differs
      · exact absurd sameText differs
      · rfl
    | null | int | date | string | other => exact absurd sameKind id
  | date days => cases cell' with
    | date days' =>
      obtain ⟨civil, different, formats⟩ := calendar
      rw [Supported, formats] at supported supported'
      rw [cellText, cellText, formats, formats] at sameText
      cases isDate : civil days with
      | none => exact absurd (by rw [isDate]; rfl) supported
      | some date =>
        cases isDate' : civil days' with
        | none => exact absurd (by rw [isDate']; rfl) supported'
        | some date' =>
          rw [isDate, isDate'] at sameText
          obtain rfl := isoText_injective sameText
          rw [different days days' date isDate isDate']
    | null | int | bool | string | other => exact absurd sameKind id
  | string text => cases cell' with
    | string text' => exact congrArg Cell.string sameText
    | null | int | bool | date | other => exact absurd sameKind id

end Cells

/-! ## Taking a path apart -/

/-- The values of the keys at the head of a path, and the rest. A value ends at a slash. -/
def splitSegments : (keys : List Text) → Text → Option (List Text × Text)
  | [], rest => some ([], rest)
  | key :: keys, path => do
    let segment ← path.dropPrefix? (key ++ ['='])
    let (value, rest) ← splitOnce '/' segment
    let (values, file) ← splitSegments keys rest
    return (value :: values, file)

/-- The values of the partition keys in a path of a mapping's output. -/
def splitPath (mapping : Mapping) (table : AnalyticTable) (path : Text) : Option (List Text) := do
  let rest ← path.dropPrefix? (table.id ++ ['/'])
  let (values, file) ← splitSegments table.partitionKeys rest
  if file = mapping.id ++ ".parquet".toList then values.mapM percentDecode else none

section Paths

variable {engine : Engine}

/-- The path segments of a tuple of key cells. -/
def tupleSegments (engine : Engine) : (keys : List Text) → (tuple : List Cell) →
    Except PipelineError (List Text)
  | key :: keys, cell :: tuple => do
    let value ← segmentValue engine cell
    let segments ← tupleSegments engine keys tuple
    pure ((key ++ '=' :: value) :: segments)
  | _, _ => pure []

/-- A tuple has its segments when its cells are supported. -/
theorem tupleSegments_ok (keys : List Text) {tuple : List Cell}
    (supported : ∀ cell ∈ tuple, Supported engine cell) :
    ∃ segments, tupleSegments engine keys tuple = .ok segments := by
  induction keys generalizing tuple with
  | nil => exact ⟨[], rfl⟩
  | cons key keys inductionHypothesis =>
    cases tuple with
    | nil => exact ⟨[], rfl⟩
    | cons cell rest =>
      rw [List.forall_mem_cons] at supported
      obtain ⟨value, isValue⟩ := segmentValue_supported.mpr supported.1
      obtain ⟨segments, areSegments⟩ := inductionHypothesis supported.2
      exact ⟨(key ++ '=' :: value) :: segments, by rw [tupleSegments, isValue, areSegments]; rfl⟩

/-- The path of a tuple's output gives back the texts of its cells. -/
theorem splitPath_partitionKey (calendar : CalendarDates engine) (mapping : Mapping)
    {table : AnalyticTable} {tuple : List Cell} {segments : List Text}
    (width : tuple.length = table.partitionKeys.length)
    (areSegments : tupleSegments engine table.partitionKeys tuple = .ok segments) :
    splitPath mapping table (partitionKey table.id segments mapping.id) =
      some (tuple.map (cellText engine)) := by
  have whole : ∀ (keys : List Text) (tuple : List Cell) (segments : List Text) (file : Text),
      tuple.length = keys.length → tupleSegments engine keys tuple = .ok segments →
        ∃ values, splitSegments keys (segments.flatMap (fun segment => segment ++ ['/']) ++ file) =
          some (values, file) ∧ values.mapM percentDecode = some (tuple.map (cellText engine)) := by
    intro keys
    induction keys with
    | nil =>
      intro tuple segments file width areSegments
      obtain rfl := List.eq_nil_of_length_eq_zero width
      obtain rfl := Except.ok.inj areSegments
      exact ⟨[], rfl, rfl⟩
    | cons key keys inductionHypothesis =>
      intro tuple segments file width areSegments
      cases tuple with
      | nil => exact nomatch width
      | cons cell rest =>
        rw [tupleSegments] at areSegments
        cases isValue : segmentValue engine cell with
        | error error =>
          rw [isValue] at areSegments
          exact nomatch areSegments
        | ok value =>
          cases areOthers : tupleSegments engine keys rest with
          | error error =>
            rw [isValue, areOthers] at areSegments
            exact nomatch areSegments
          | ok others =>
            rw [isValue, areOthers] at areSegments
            obtain rfl := Except.ok.inj areSegments
            obtain ⟨decodes, noSlash⟩ := segmentValue_decodes calendar isValue
            obtain ⟨values, splits, decodeOthers⟩ :=
              inductionHypothesis rest others file (Nat.succ.inj width) areOthers
            refine ⟨value :: values, ?_, ?_⟩
            · have headed : ((key ++ '=' :: value) :: others).flatMap
                (fun segment => segment ++ ['/']) ++
                  file = (key ++ ['=']) ++ (value ++ '/' :: (others.flatMap (fun segment =>
                    segment ++ ['/']) ++ file)) := by simp
              rw [headed, splitSegments, dropPrefix_iff.mpr rfl]
              simp only [bind, Option.bind, split_join noSlash, splits]
              rfl
            · rw [List.mapM_cons, decodes, decodeOthers]
              rfl
  obtain ⟨values, splits, decodes⟩ := whole table.partitionKeys tuple segments
    (mapping.id ++ ".parquet".toList) width areSegments
  have headed : partitionKey table.id segments mapping.id = (table.id ++ ['/']) ++
      (segments.flatMap (fun segment => segment ++ ['/']) ++
        (mapping.id ++ ".parquet".toList)) := by
    simp only [partitionKey, List.append_assoc, List.cons_append, List.nil_append]
  rw [headed, splitPath, dropPrefix_iff.mpr rfl]
  simp only [bind, Option.bind, splits, if_true]
  exact decodes

end Paths

end KaretWorker
