import KaretWorker.Dimensions
import KaretWorker.Library.Csv
import KaretWorker.Library.Results
import Mathlib.Data.List.DropRight

/-!
# Dimension files

`rows_from_csv` of `src/dimension.rs`: a reference file is read line by line. Blank lines
are passed over, the first other line is the header, and each line is split at the commas
outside quotes. A row has the key, the declared value columns and a priority; lines
without a key are passed over as well.

A file that is written field by field with quotes where they are needed is read back
(`rowsFromCsv_document`), as long as no field has a line feed: the reader works on
physical lines, so a line break inside quotes ends its record.
-/
namespace KaretWorker

open Texts Csv

/-! ## Lines -/

/-- White space of the standard library's `trim`. -/
def isWhiteSpace (character : Char) : Bool :=
  let code := character.toNat
  (9 ≤ code && code ≤ 13) || code == 0x20 || code == 0x85 || code == 0xA0 || code == 0x1680 ||
    (0x2000 ≤ code && code ≤ 0x200A) || code == 0x2028 || code == 0x2029 || code == 0x202F ||
    code == 0x205F || code == 0x3000

/-- Trimming leaves nothing of the line. -/
def isBlank (line : Text) : Bool := line.all isWhiteSpace

/-- A field without the carriage returns at its end. -/
def trimReturns (field : Text) : Text := field.rdropWhile (· = '\r')

/-- The fields of the rest of a line, after what was read of the current one. A quote inside
quotes is written twice. -/
def splitChars : (inQuotes : Bool) → (field : Text) → Text → List Text
  | true, field, '"' :: '"' :: rest => splitChars true (field ++ ['"']) rest
  | inQuotes, field, '"' :: rest => splitChars (!inQuotes) field rest
  | false, field, ',' :: rest => field :: splitChars false [] rest
  | inQuotes, field, character :: rest => splitChars inQuotes (field ++ [character]) rest
  | _, field, [] => [trimReturns field]

/-- Split one CSV line, honouring double-quoted fields with `""` escapes. -/
def splitCsvLine (line : Text) : List Text := splitChars false [] line

/-! ## Rows -/

/-- Parse a signed 64-bit integer. -/
def parseInteger : Text → Option Int
  | '-' :: digits =>
    if digits ≠ [] ∧ digits.all Char.isDigit ∧ Nat.ofDigitChars 10 digits 0 ≤ 2 ^ 63 then
      some (-(Nat.ofDigitChars 10 digits 0 : Int))
    else none
  | text => (parseUnsigned (2 ^ 63) text).map Int.ofNat

/-- The row of the fields of a line, if there is a key. -/
def fieldsRow (keyIndex : Nat) (valueIndices : List Nat) (priorityIndex : Option Nat)
    (fields : List Text) : Option MatcherRow :=
  let keyValue := fields[keyIndex]?.getD []
  if keyValue.isEmpty then none
  else some ⟨[keyValue], valueIndices.map (fun index => fields[index]?),
    ((priorityIndex.bind (fun index => fields[index]?)).bind parseInteger).getD 0⟩

/-- Read the rows of lines, up to the cap. -/
def readLines (dimension : Dimension) (row : Text → Option MatcherRow) :
    List Text → (out : List MatcherRow) → Except DimensionError (List MatcherRow)
  | [], out => .ok out
  | line :: rest, out =>
    match row line with
    | none => readLines dimension row rest out
    | some row' =>
      if maxDimensionRows < (out ++ [row']).length then
        .error (.tooManyRows dimension.id (out ++ [row']).length maxDimensionRows)
      else readLines dimension row rest (out ++ [row'])

/-- Position of a column in the header. -/
def indexOf (dimension : Dimension) (header : List Text) (name : Text) :
    Except DimensionError Nat :=
  match header.idxOf? name with
  | some index => .ok index
  | none => .error (.missingColumn dimension.id name)

/-- Position of a column that need not be declared. -/
def optionalIndex (dimension : Dimension) (header : List Text) :
    Option Text → Except DimensionError (Option Nat)
  | none => .ok none
  | some name => (indexOf dimension header name).map some

/-- Read the rows of a file's text. -/
def readText (dimension : Dimension) (key : Text) (values : List Text)
    (priorityColumn : Option Text) (text : Text) : Except DimensionError (List MatcherRow) :=
  match (lines text).filter (fun line => !isBlank line) with
  | [] => .error (.fileRead dimension.id "file is empty".toList)
  | first :: rest => do
    let header := splitCsvLine first
    let keyIndex ← indexOf dimension header key
    let valueIndices ← values.mapM (indexOf dimension header)
    let priorityIndex ← optionalIndex dimension header priorityColumn
    readLines dimension (fun line =>
      fieldsRow keyIndex valueIndices priorityIndex (splitCsvLine line)) rest []

section Reader

-- How the standard library reports bytes that are no UTF-8.
variable (utf8Error : List UInt8 → Text)

/-- Parse a CSV reference file into rows. -/
def rowsFromCsv (dimension : Dimension) (key : Text) (values : List Text)
    (priorityColumn : Option Text) (bytes : List UInt8) : Except DimensionError (List MatcherRow) :=
  match bytes.toByteArray.utf8Decode? with
  | none => .error (.fileRead dimension.id ("invalid UTF-8: ".toList ++ utf8Error bytes))
  | some text => readText dimension key values priorityColumn text.toList

/-- The bytes of a text are read as that text. -/
theorem rowsFromCsv_utf8 (dimension : Dimension) (key : Text) (values : List Text)
    (priorityColumn : Option Text) (text : Text) :
    rowsFromCsv utf8Error dimension key values priorityColumn (text.flatMap String.utf8EncodeChar) =
      readText dimension key values priorityColumn text := by
  have decoded : (text.flatMap String.utf8EncodeChar).toByteArray.utf8Decode? = some text.toArray :=
    List.utf8Decode?_utf8Encode
  rw [rowsFromCsv, decoded]

end Reader

/-! ## What a file says -/

/-- The field of a record under a column of the header. -/
def fieldUnder (header record : List Text) (name : Text) : Option Text :=
  (header.zip record).lookup name

/-- The row of a record, if its key is not empty. -/
def recordRow (header : List Text) (key : Text) (values : List Text) (priorityColumn : Option Text)
    (record : List Text) : Option MatcherRow :=
  match fieldUnder header record key with
  | none => none
  | some [] => none
  | some keyValue => some ⟨[keyValue], values.map (fieldUnder header record),
      ((priorityColumn.bind (fieldUnder header record)).bind parseInteger).getD 0⟩

/-! ## Splitting a written record -/

/-- A character that is neither a quote nor a comma is part of the field. -/
theorem splitChars_plain {character : Char} (notQuote : character ≠ '"')
    (notComma : character ≠ ',') (field rest : Text) :
    splitChars false field (character :: rest) = splitChars false (field ++ [character]) rest := by
  rw [splitChars] <;> simp [notQuote, notComma]

/-- Between quotes every other character belongs to the field. -/
theorem splitChars_inside {character : Char} (notQuote : character ≠ '"') (field rest : Text) :
    splitChars true field (character :: rest) = splitChars true (field ++ [character]) rest := by
  rw [splitChars] <;> simp [notQuote]

/-- A closing quote is one that no other quote follows. -/
theorem splitChars_close {rest : Text} (closes : rest.head? ≠ some '"') (field : Text) :
    splitChars true field ('"' :: rest) = splitChars false field rest := by
  rw [splitChars]
  · rfl
  · rintro following _ rfl
    exact closes rfl

/-- What is between quotes is read with its quotes halved. -/
theorem splitChars_doubled {rest : Text} (closes : rest.head? ≠ some '"') (content field : Text) :
    splitChars true field (doubled content ++ '"' :: rest) = splitChars false (field ++ content)
      rest := by
  induction content generalizing field with
  | nil => rw [doubled, List.flatMap_nil, List.nil_append, splitChars_close closes, List.append_nil]
  | cons character others inductionHypothesis =>
    rw [doubled_cons, List.append_assoc]
    split
    · next isQuote =>
      rw [isQuote, List.cons_append, List.singleton_append, splitChars, inductionHypothesis,
        List.append_assoc]
      rfl
    · next notQuote =>
      rw [List.singleton_append, splitChars_inside notQuote, inductionHypothesis, List.append_assoc]
      rfl

/-- Outside quotes a run of plain characters belongs to the field. -/
theorem splitChars_bare {content : Text} (bare : ∀ character ∈ content, ¬ Special character)
    (field rest : Text) :
    splitChars false field (content ++ rest) = splitChars false (field ++ content) rest := by
  induction content generalizing field with
  | nil => rw [List.nil_append, List.append_nil]
  | cons character others inductionHypothesis =>
    rw [List.forall_mem_cons] at bare
    have notQuote : character ≠ '"' := fun same => bare.1 (Or.inr (Or.inl same))
    have notComma : character ≠ ',' := fun same => bare.1 (Or.inl same)
    rw [List.cons_append, splitChars_plain notQuote notComma, inductionHypothesis bare.2,
      List.append_assoc]
    rfl

/-- A written field is read back when a comma or the end of the line follows. -/
theorem splitChars_field {field text rest : Text} (isField : FieldText field text)
    (closes : rest.head? ≠ some '"') :
    splitChars false [] (text ++ rest) = splitChars false field rest := by
  cases isField with
  | plain bare => exact splitChars_bare bare [] rest
  | quoted =>
    have opened : splitChars false [] ('"' :: (doubled field ++ '"' :: rest)) =
        splitChars true [] (doubled field ++ '"' :: rest) := by
      rw [splitChars] <;> simp
    rw [List.append_assoc, List.cons_append, List.singleton_append, opened,
      splitChars_doubled closes]
    rfl

/-- The record's last field does not end with a carriage return. -/
def Closed (record : List Text) : Prop :=
  ∀ field, record.getLast? = some field → field.getLast? ≠ some '\r'

instance (record : List Text) : Decidable (Closed record) :=
  inferInstanceAs (Decidable (∀ field ∈ record.getLast?, field.getLast? ≠ some '\r'))

/-- Only carriage returns at the end are trimmed. -/
theorem trimReturns_closed {field : Text} (closed : field.getLast? ≠ some '\r') :
    trimReturns field = field := by
  rw [trimReturns, List.rdropWhile_eq_self_iff]
  intro present isReturn
  exact closed (by rw [List.getLast?_eq_some_getLast present, of_decide_eq_true isReturn])

/-- A written record is split into its fields. -/
theorem splitCsvLine_record {record : List Text} {line : Text} (isRecord : RecordText record line)
    (closed : Closed record) : splitCsvLine line = record := by
  unfold splitCsvLine
  induction isRecord with
  | @last field text isField =>
    have read := splitChars_field isField (show ([] : Text).head? ≠ some '"' by simp)
    have closedField : field.getLast? ≠ some '\r' := closed field rfl
    rw [List.append_nil] at read
    rw [read, splitChars, trimReturns_closed closedField]
  | @next field text line fields isField others inductionHypothesis =>
    have closedRest : Closed fields := by
      intro last isLast
      refine closed last ?_
      rw [List.getLast?_cons, isLast]
      rfl
    rw [splitChars_field isField (by simp), splitChars, inductionHypothesis closedRest]

/-- Splitting a line undoes quoting: it gives the fields back that were joined with commas,
whichever of them were quoted besides those that had to be. -/
theorem splitCsvLine_writeRecord (fields : List (Text × Bool)) (present : fields ≠ [])
    (unbroken : ∀ entry ∈ fields, '\r' ∉ entry.1 ∧ '\n' ∉ entry.1)
    (quotes : ∀ entry ∈ fields, ',' ∈ entry.1 ∨ '"' ∈ entry.1 → entry.2 = true) :
    splitCsvLine (writeRecord fields) = fields.map Prod.fst := by
  apply splitCsvLine_record
  · apply recordText_writeRecord present
    rintro entry member ⟨character, inside, rfl | rfl | rfl | rfl⟩
    · exact quotes entry member (Or.inl inside)
    · exact quotes entry member (Or.inr inside)
    · exact absurd inside (unbroken entry member).1
    · exact absurd inside (unbroken entry member).2
  · intro field isLast endsWithReturn
    obtain ⟨entry, member, rfl⟩ := List.mem_map.mp (List.mem_of_getLast? isLast)
    exact (unbroken entry member).1 (List.mem_of_getLast? endsWithReturn)

/-- A field in quotes with quotes at both ends, an empty one in quotes, and an empty one
without. -/
theorem splitCsvLine_writeRecord_quotes :
    splitCsvLine (writeRecord [("\"a\",b".toList, true), ([], true), ([], false)]) =
      ["\"a\",b".toList, [], []] :=
  splitCsvLine_writeRecord [("\"a\",b".toList, true), ([], true), ([], false)] (by decide)
    (by decide) (by decide)

/-! ## The rows of a file -/

/-- Below the cap every row is kept. -/
theorem readLines_rows {dimension : Dimension} {row : Text → Option MatcherRow} {rest : List Text}
    {out : List MatcherRow} (capped : (out ++ rest.filterMap row).length ≤ maxDimensionRows) :
    readLines dimension row rest out = .ok (out ++ rest.filterMap row) := by
  induction rest generalizing out with
  | nil => rw [readLines, List.filterMap_nil, List.append_nil]
  | cons line others inductionHypothesis =>
    rw [readLines]
    cases isRow : row line with
    | none =>
      rw [List.filterMap_cons_none isRow] at capped ⊢
      exact inductionHypothesis capped
    | some row' =>
      rw [List.filterMap_cons_some isRow, List.append_cons] at capped ⊢
      have within : (out ++ [row']).length ≤ maxDimensionRows := by
        rw [List.length_append] at capped
        omega
      simp only [Nat.not_lt.mpr within, if_false]
      exact inductionHypothesis capped

section Columns

variable {header : List Text}

/-- The field under a column is the one at the column's position. -/
theorem fieldUnder_index {name : Text} (declared : name ∈ header) (record : List Text) :
    fieldUnder header record name = record[header.idxOf name]? := by
  unfold fieldUnder
  induction header generalizing record with
  | nil => exact absurd declared List.not_mem_nil
  | cons first rest inductionHypothesis =>
    cases record with
    | nil => rfl
    | cons field fields =>
      rw [List.zip_cons_cons, List.lookup_cons]
      by_cases same : name = first
      · simp [same]
      · have differs : (name == first) = false := beq_eq_false_iff_ne.mpr same
        rw [List.idxOf_cons_ne _ (Ne.symm same), List.getElem?_cons_succ]
        simp only [differs]
        exact inductionHypothesis ((List.mem_cons.mp declared).resolve_left same) fields

/-- A column of the header has its index. -/
theorem idxOf?_declared {name : Text} (declared : name ∈ header) :
    header.idxOf? name = some (header.idxOf name) := by
  induction header with
  | nil => exact absurd declared List.not_mem_nil
  | cons first rest inductionHypothesis =>
    rw [List.idxOf?_cons, List.idxOf_cons]
    by_cases same : first == name
    · simp [same]
    · have later :=
        (List.mem_cons.mp declared).resolve_left (fun isFirst => same (by simp [isFirst]))
      simp [same, inductionHypothesis later]

/-- A column of the header is found at its position. -/
theorem indexOf_ok {dimension : Dimension} {name : Text} (declared : name ∈ header) :
    indexOf dimension header name = .ok (header.idxOf name) := by
  rw [indexOf, idxOf?_declared declared]

/-- All columns found, all indices. -/
theorem indicesOf_ok {dimension : Dimension} {names : List Text}
    (declared : ∀ name ∈ names, name ∈ header) :
    names.mapM (indexOf dimension header) = .ok (names.map header.idxOf) := by
  rw [Results.mapM_ok_iff, List.forall₂_map_right_iff, List.forall₂_same]
  exact fun name member => indexOf_ok (declared name member)

variable {key : Text} {values : List Text} {priorityColumn : Option Text}

/-- A priority column that is declared is found, and none is not missed. -/
theorem optionalIndex_ok {dimension : Dimension}
    (declared : ∀ name, priorityColumn = some name → name ∈ header) :
    optionalIndex dimension header priorityColumn = .ok (priorityColumn.map header.idxOf) := by
  cases priorityColumn with
  | none => rfl
  | some name =>
    rw [optionalIndex, indexOf_ok (declared name rfl)]
    rfl

/-- The row of a record's fields is the row of the record. -/
theorem fieldsRow_record (keyDeclared : key ∈ header)
    (valuesDeclared : ∀ name ∈ values, name ∈ header)
    (priorityDeclared : ∀ name, priorityColumn = some name → name ∈ header) (record : List Text) :
    fieldsRow (header.idxOf key) (values.map header.idxOf)
    (priorityColumn.map header.idxOf) record =
      recordRow header key values priorityColumn record := by
  have sameValues : (values.map header.idxOf).map (fun index => record[index]?) =
      values.map (fieldUnder header record) := by
    rw [List.map_map]
    exact List.map_congr_left
      (fun name member => (fieldUnder_index (valuesDeclared name member) record).symm)
  have samePriority : (priorityColumn.map header.idxOf).bind (fun index => record[index]?) =
      priorityColumn.bind (fieldUnder header record) := by
    cases priorityColumn with
    | none => rfl
    | some name => exact (fieldUnder_index (priorityDeclared name rfl) record).symm
  rw [fieldsRow, recordRow, sameValues, samePriority, fieldUnder_index keyDeclared]
  cases record[header.idxOf key]? with
  | none => rfl
  | some keyValue => cases keyValue with
    | nil => rfl
    | cons character rest => rfl

end Columns

/-- A record is written with a line that is not blank, but for a record of one empty field. -/
def Visible (header record : List Text) (line : Text) : Prop :=
  RecordText record line ∧ (isBlank line = true → record = [[]] ∧ header ≠ [[]])

section Document

variable {header : List Text} {key : Text} {values : List Text} {priorityColumn : Option Text}

/-- A record of one empty field has no key. -/
theorem recordRow_empty : recordRow header key values priorityColumn [[]] = none := by
  have noKey : fieldUnder header [[]] key = none ∨ fieldUnder header [[]] key = some [] := by
    cases header with
    | nil => exact Or.inl rfl
    | cons first rest =>
      by_cases same : key = first
      · exact Or.inr (by simp [fieldUnder, same])
      · exact Or.inl (by simp [fieldUnder, List.lookup_cons, beq_eq_false_iff_ne.mpr same])
  rcases noKey with absent | empty
  · rw [recordRow, absent]
  · rw [recordRow, empty]

/-- The lines that are not blank give the rows of the records. -/
theorem visible_rows {row : List Text → Option MatcherRow} {records : List (List Text)}
    {written : List Text} (emptyRow : row [[]] = none)
    (areRecords : List.Forall₂ (Visible header) records written)
    (closed : ∀ record ∈ records, Closed record) :
    (written.filter (fun line => !isBlank line)).filterMap (fun line => row (splitCsvLine line)) =
      records.filterMap row := by
  induction areRecords with
  | nil => rfl
  | @cons record line records written isRecord _ inductionHypothesis =>
    rw [List.forall_mem_cons] at closed
    by_cases blank : isBlank line = true
    · obtain ⟨rfl, -⟩ := isRecord.2 blank
      rw [List.filter_cons_of_neg (by simp [blank]), List.filterMap_cons_none emptyRow]
      exact inductionHypothesis closed.2
    · have same := splitCsvLine_record isRecord.1 closed.1
      rw [List.filter_cons_of_pos (by simpa using blank), List.filterMap_cons, List.filterMap_cons,
        same, inductionHypothesis closed.2]

variable {dimension : Dimension} {utf8Error : List UInt8 → Text} {records : List (List Text)}
  {text : Text}

/-- A file whose fields have no line feed is read back: it has a row for each record with a
key, in order. -/
theorem rowsFromCsv_document (isDocument : DocumentText (Visible header) (header :: records) text)
    (unbroken : ∀ record ∈ header :: records, ∀ field ∈ record, '\n' ∉ field)
    (closed : ∀ record ∈ header :: records, Closed record) (keyDeclared : key ∈ header)
    (valuesDeclared : ∀ name ∈ values, name ∈ header)
    (priorityDeclared : ∀ name, priorityColumn = some name → name ∈ header)
    (capped : (records.filterMap (recordRow header key values priorityColumn)).length ≤
      maxDimensionRows) :
    rowsFromCsv utf8Error dimension key values priorityColumn (text.flatMap String.utf8EncodeChar) =
      .ok (records.filterMap (recordRow header key values priorityColumn)) := by
  obtain ⟨written, areRecords, sameLines⟩ :=
    lines_document (fun _ _ visible => visible.1) isDocument unbroken
  rw [List.forall_mem_cons] at closed
  obtain ⟨headerLine, rest, isHeader, areRest, rfl⟩ := List.forall₂_cons_left_iff.mp areRecords
  -- The header is the first line that is not blank.
  have headerShown : isBlank headerLine = false := by
    by_contra blank
    obtain ⟨isEmpty, notEmpty⟩ := isHeader.2 (by simpa using blank)
    exact notEmpty isEmpty
  have shown : (lines text).filter (fun line => !isBlank line) =
      headerLine :: rest.filter (fun line => !isBlank line) := by
    rw [sameLines (fun line => !isBlank line) rfl, List.filter_cons_of_pos (by simp [headerShown])]
  have sameHeader := splitCsvLine_record isHeader.1 closed.1
  have sameRow : fieldsRow (header.idxOf key) (values.map header.idxOf)
      (priorityColumn.map header.idxOf) = recordRow header key values priorityColumn :=
    funext (fieldsRow_record keyDeclared valuesDeclared priorityDeclared)
  have rows : (rest.filter (fun line => !isBlank line)).filterMap (fun line =>
        recordRow header key values priorityColumn (splitCsvLine line)) =
      records.filterMap (recordRow header key values priorityColumn) :=
    visible_rows recordRow_empty areRest closed.2
  have reads : readLines dimension (fun line =>
        recordRow header key values priorityColumn (splitCsvLine line))
      (rest.filter (fun line => !isBlank line)) [] =
        .ok (records.filterMap (recordRow header key values priorityColumn)) := by
    rw [← rows, ← List.nil_append (List.filterMap _ _)]
    exact readLines_rows (by rw [List.nil_append, rows]; exact capped)
  rw [rowsFromCsv_utf8, readText]
  simp only [shown, sameHeader, indexOf_ok keyDeclared, indicesOf_ok valuesDeclared,
    optionalIndex_ok priorityDeclared, sameRow, bind, Except.bind]
  exact reads

end Document

/-! ## Files -/

section Files

/-- A dimension whose rows are those of a file. -/
def fileDimension : Dimension where
  id := "d".toList
  match_ := .exact
  caseInsensitive := none
  onMiss := .null
  rows := .file "d/".toList "k".toList ["v".toList] none

/-- A document of a header and a record. -/
theorem document_pair {writes : List Text → Text → Prop} {header record : List Text}
    {first second : Text} (isHeader : writes header first) (isRecord : writes record second) :
    DocumentText writes [header, record] (first ++ ['\n'] ++ (second ++ ['\n'] ++ [])) :=
  .next isHeader (Or.inl rfl) (.next isRecord (Or.inl rfl) .empty)

/-- Two fields and a comma. -/
theorem record_pair {first second firstText secondText : Text} (isFirst : FieldText first firstText)
    (isSecond : FieldText second secondText) :
    RecordText [first, second] (firstText ++ ',' :: secondText) :=
  .next isFirst (.last isSecond)

/-- A field without special characters is its own text. -/
theorem field_plain {field : Text}
    (bare : field.all (fun character => ¬ Special character) = true) :
    FieldText field field :=
  .plain (fun character member => of_decide_eq_true (List.all_eq_true.mp bare character member))

/-- Three fields and two commas. -/
theorem record_triple {first second third firstText secondText thirdText : Text}
    (isFirst : FieldText first firstText) (isSecond : FieldText second secondText)
    (isThird : FieldText third thirdText) :
    RecordText [first, second, third] (firstText ++ ',' :: (secondText ++ ',' :: thirdText)) :=
  .next isFirst (record_pair isSecond isThird)

/-- Records with a comma and with quotes in a field, and one without a key. -/
def pricedRecords : List (List Text) :=
  [["a".toList, "x,y".toList, "7".toList], ["b".toList, "say \"hi\"".toList, "low".toList],
    [[], "z".toList, "1".toList]]

/-- They are read back from lines that end in either way, with a priority if it is a number. -/
theorem rowsFromCsv_document_quoted :
    rowsFromCsv (fun _ => []) fileDimension "k".toList ["v".toList] (some "p".toList)
      ("k,v,p\r\na,\"x,y\",7\r\nb,\"say \"\"hi\"\"\",low\n,z,1".toList.flatMap String.utf8EncodeChar) =
        .ok [⟨["a".toList], [some "x,y".toList], 7⟩, ⟨["b".toList], [some "say \"hi\"".toList], 0⟩] := by
  have isHeader : RecordText ["k".toList, "v".toList, "p".toList] _ :=
    record_triple (field_plain (by decide +kernel)) (field_plain (by decide +kernel))
      (field_plain (by decide +kernel))
  have withComma : RecordText ["a".toList, "x,y".toList, "7".toList] _ :=
    record_triple (field_plain (by decide +kernel)) .quoted (field_plain (by decide +kernel))
  have withQuotes : RecordText ["b".toList, "say \"hi\"".toList, "low".toList] _ :=
    record_triple (field_plain (by decide +kernel)) .quoted (field_plain (by decide +kernel))
  have withoutKey : RecordText [[], "z".toList, "1".toList] _ :=
    record_triple (field_plain (by decide +kernel)) (field_plain (by decide +kernel))
      (field_plain (by decide +kernel))
  have sameText : "k,v,p\r\na,\"x,y\",7\r\nb,\"say \"\"hi\"\"\",low\n,z,1".toList =
      ("k".toList ++ ',' :: ("v".toList ++ ',' :: "p".toList)) ++ ['\r', '\n'] ++
      (("a".toList ++ ',' :: (('"' :: doubled "x,y".toList ++ ['"']) ++ ',' :: "7".toList)) ++
        ['\r', '\n'] ++
      (("b".toList ++ ',' ::
        (('"' :: doubled "say \"hi\"".toList ++ ['"']) ++ ',' :: "low".toList)) ++ ['\n'] ++
      ([] ++ ',' :: ("z".toList ++ ',' :: "1".toList)))) := by
    decide +kernel
  have sameRows :
    [⟨["a".toList], [some "x,y".toList], 7⟩, ⟨["b".toList], [some "say \"hi\"".toList], 0⟩] =
      pricedRecords.filterMap
        (recordRow ["k".toList, "v".toList, "p".toList] "k".toList ["v".toList]
        (some "p".toList)) := by
    decide +kernel
  rw [sameText, sameRows]
  refine rowsFromCsv_document (.next ⟨isHeader, by decide +kernel⟩ (Or.inr rfl)
    (.next ⟨withComma,
      by decide +kernel⟩ (Or.inr rfl) (.next ⟨withQuotes, by decide +kernel⟩ (Or.inl rfl)
      (.last ⟨withoutKey, by decide +kernel⟩)))) (by decide +kernel) (by decide +kernel)
        (by decide +kernel)
    (by decide +kernel) ?_ (by decide +kernel)
  rintro _ ⟨⟩
  decide +kernel

/-- A file that is well formed and is not read back. -/
def Misread (header : List Text) (records : List (List Text)) (key : Text) (values : List Text) : Prop :=
  header.Nodup ∧ key ∈ header ∧ (∀ name ∈ values, name ∈ header) ∧
    (records.filterMap (recordRow header key values none)).length ≤ maxDimensionRows ∧
    ∃ text, DocumentText RecordText (header :: records) text ∧
      rowsFromCsv (fun _ => []) fileDimension key values none (text.flatMap String.utf8EncodeChar) ≠
        .ok (records.filterMap (recordRow header key values none))

/-- A line feed inside quotes ends the record, a carriage return at the end of a quoted
record is dropped, and a key of white space on a line of its own is passed over. -/
theorem files_misread :
    Misread ["k".toList, "v".toList] [["a".toList, "x\ny".toList]] "k".toList ["v".toList] ∧
    Misread ["k".toList, "v".toList] [["a".toList, "x\r".toList]] "k".toList ["v".toList] ∧
    Misread ["k".toList] [[" ".toList]] "k".toList [] := by
  have isHeader : RecordText ["k".toList, "v".toList] _ :=
    record_pair (field_plain (by decide +kernel)) (field_plain (by decide +kernel))
  refine ⟨⟨by decide +kernel, by decide +kernel, by decide +kernel, by decide +kernel, _,
    document_pair isHeader (record_pair (field_plain (by decide +kernel)) .quoted), ?_⟩,
    ⟨by decide +kernel, by decide +kernel, by decide +kernel, by decide +kernel, _,
    document_pair isHeader (record_pair (field_plain (by decide +kernel)) .quoted), ?_⟩,
    ⟨by decide +kernel, by decide +kernel, by decide +kernel, by decide +kernel, _,
    document_pair (.last (field_plain (by decide +kernel)))
      (.last (field_plain (by decide +kernel))), ?_⟩⟩
  · rw [rowsFromCsv_utf8]
    decide +kernel
  · rw [rowsFromCsv_utf8]
    decide +kernel
  · rw [rowsFromCsv_utf8]
    decide +kernel

end Files

end KaretWorker
