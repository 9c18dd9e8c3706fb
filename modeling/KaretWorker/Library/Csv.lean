import KaretWorker.Library.Text
import Mathlib.Data.List.Forall2

/-!
# Comma-separated documents

How records of texts are written: a field as it is or in quotes with its quotes doubled,
the fields of a record with commas between them, and the records with a line feed or a
carriage return and a line feed between them (after the last one it may be missing). A
field with a comma, a quote or a line break has to be quoted.

A document whose fields have no line feed has one physical line for each record
(`lines_document`).
-/
namespace Csv

open Texts

/-! ## Documents -/

/-- A character that only a quoted field may have. -/
def Special (character : Char) : Prop :=
  character = ',' ∨ character = '"' ∨ character = '\r' ∨ character = '\n'

instance (character : Char) : Decidable (Special character) := inferInstanceAs (Decidable (_ ∨ _))

/-- A text with its quotes doubled. -/
def doubled (field : Text) : Text :=
  field.flatMap (fun character => if character = '"' then ['"', '"'] else [character])

/-- A text writes a field. -/
inductive FieldText (field : Text) : Text → Prop
  | plain (bare : ∀ character ∈ field, ¬ Special character) : FieldText field field
  | quoted : FieldText field ('"' :: doubled field ++ ['"'])

/-- A text writes a record, which has a field at least. -/
inductive RecordText : List Text → Text → Prop
  | last {field text : Text} (isField : FieldText field text) : RecordText [field] text
  | next {field text line : Text} {fields : List Text} (isField : FieldText field text)
    (others : RecordText fields line) : RecordText (field :: fields) (text ++ ',' :: line)

/-- A field in quotes, or as it is. -/
def writeField (quoted : Bool) (field : Text) : Text :=
  if quoted then '"' :: doubled field ++ ['"'] else field

/-- Fields with commas between them, each of them in quotes or not. -/
def writeRecord (fields : List (Text × Bool)) : Text :=
  List.intercalate [','] (fields.map (fun entry => writeField entry.2 entry.1))

/-- What stands between two records. -/
def IsBreak (text : Text) : Prop := text = ['\n'] ∨ text = ['\r', '\n']

/-- A text writes a list of records, each of them in one of the given ways. -/
inductive DocumentText (writes : List Text → Text → Prop) : List (List Text) → Text → Prop
  | empty : DocumentText writes [] []
  | last {record : List Text} {line : Text} (isRecord : writes record line) :
    DocumentText writes [record] line
  | next {record : List Text} {line lineBreak text : Text} {records : List (List Text)}
    (isRecord : writes record line) (isBreak : IsBreak lineBreak)
    (others : DocumentText writes records text) :
    DocumentText writes (record :: records) (line ++ lineBreak ++ text)

/-- A field that may stay without quotes has no special character. -/
theorem fieldText_writeField {field : Text} {quoted : Bool}
    (quotes : (∃ character ∈ field, Special character) → quoted = true) :
    FieldText field (writeField quoted field) := by
  cases quoted with
  | true => exact .quoted
  | false =>
    apply FieldText.plain
    intro character member special
    exact absurd (quotes ⟨character, member, special⟩) (by decide)

/-- A record is written with quotes wherever they are needed. -/
theorem recordText_writeRecord {fields : List (Text × Bool)} (present : fields ≠ [])
    (quotes : ∀ entry ∈ fields, (∃ character ∈ entry.1, Special character) → entry.2 = true) :
    RecordText (fields.map Prod.fst) (writeRecord fields) := by
  induction fields with
  | nil => exact absurd rfl present
  | cons entry rest inductionHypothesis =>
    rw [List.forall_mem_cons] at quotes
    have first := fieldText_writeField quotes.1
    cases rest with
    | nil =>
      have alone : writeRecord [entry] = writeField entry.2 entry.1 := by simp [writeRecord]
      rw [alone]
      exact .last first
    | cons next others =>
      have joined : writeRecord (entry :: next :: others) =
          writeField entry.2 entry.1 ++ ',' :: writeRecord (next :: others) := by
        simp [writeRecord]
      rw [joined]
      exact .next first (inductionHypothesis (List.cons_ne_nil _ _) quotes.2)

/-! ## Physical lines -/

/-- The text without one carriage return at its end. -/
def stripReturn (line : Text) : Text := if line.getLast? = some '\r' then line.dropLast else line

/-- The lines of the rest of a text, after what was read of the current one. -/
def linesFrom : (current : Text) → Text → List Text
  | current, [] => if current.isEmpty then [] else [current]
  | current, character :: rest =>
    if character = '\n' then stripReturn current :: linesFrom [] rest
    else linesFrom (current ++ [character]) rest

/-- The lines of a text. A line ends with a line feed, before which a carriage return is
not part of the line. -/
def lines (text : Text) : List Text := linesFrom [] text

/-- A text without line ends goes into the current line. -/
theorem linesFrom_append {line : Text} (unbroken : '\n' ∉ line) (current rest : Text) :
    linesFrom current (line ++ rest) = linesFrom (current ++ line) rest := by
  induction line generalizing current with
  | nil => rw [List.nil_append, List.append_nil]
  | cons character others inductionHypothesis =>
    rw [List.mem_cons, not_or] at unbroken
    rw [List.cons_append, linesFrom, if_neg (Ne.symm unbroken.1), inductionHypothesis unbroken.2,
      List.append_assoc]
    rfl

/-- A line that is broken off is read without its break. -/
theorem lines_break {line lineBreak : Text} (unbroken : '\n' ∉ line)
    (closed : line.getLast? ≠ some '\r') (isBreak : IsBreak lineBreak) (rest : Text) :
    lines (line ++ lineBreak ++ rest) = line :: lines rest := by
  rw [lines, List.append_assoc, linesFrom_append unbroken, List.nil_append]
  rcases isBreak with rfl | rfl
  · rw [List.singleton_append, linesFrom, if_pos rfl, stripReturn, if_neg closed]
    rfl
  · rw [List.cons_append, linesFrom, if_neg (by decide), List.singleton_append, linesFrom,
      if_pos rfl,
      stripReturn, List.getLast?_concat, if_pos rfl, List.dropLast_concat]
    rfl

/-! ## The lines of a document -/

section Documents

/-- Doubling a field character by character: a quote becomes two. -/
theorem doubled_cons (character : Char) (field : Text) : doubled (character :: field) =
    (if character = '"' then ['"', '"'] else [character]) ++ doubled field := List.flatMap_cons

/-- Doubling adds no other character. -/
theorem mem_doubled {character : Char} {field : Text} :
    character ∈ doubled field ↔ character ∈ field := by
  induction field with
  | nil => rfl
  | cons first rest inductionHypothesis =>
    rw [doubled_cons, List.mem_append, inductionHypothesis, List.mem_cons]
    split
    · next isQuote => simp [isQuote]
    · simp

/-- The writing of a field has no line feed of its own. -/
theorem field_unbroken {field text : Text} (isField : FieldText field text)
    (unbroken : '\n' ∉ field) :
    '\n' ∉ text := by
  cases isField with
  | plain => exact unbroken
  | quoted => simp [mem_doubled, unbroken]

/-- The text of a field does not end in a carriage return. -/
theorem field_closed {field text : Text} (isField : FieldText field text) :
    text.getLast? ≠ some '\r' := by
  cases isField with
  | plain bare =>
    intro isLast
    exact bare _ (List.mem_of_getLast? isLast) (Or.inr (Or.inr (Or.inl rfl)))
  | quoted =>
    rw [List.getLast?_concat]
    decide

/-- A record has no line end unless a field has. -/
theorem record_unbroken {record : List Text} {line : Text} (isRecord : RecordText record line)
    (unbroken : ∀ field ∈ record, '\n' ∉ field) : '\n' ∉ line := by
  induction isRecord with
  | last isField => exact field_unbroken isField (unbroken _ (List.mem_singleton_self _))
  | next isField _ inductionHypothesis =>
    rw [List.forall_mem_cons] at unbroken
    simp [field_unbroken isField unbroken.1, inductionHypothesis unbroken.2]

/-- A record does not end in a carriage return. -/
theorem record_closed {record : List Text} {line : Text} (isRecord : RecordText record line) :
    line.getLast? ≠ some '\r' := by
  induction isRecord with
  | last isField => exact field_closed isField
  | @next field text line fields _ _ inductionHypothesis =>
    rw [List.getLast?_append]
    cases line with
    | nil => simp
    | cons character rest => simpa using inductionHypothesis

/-- A document without line feeds in its fields has a line for each record, up to an empty
line at its end. -/
theorem lines_document {writes : List Text → Text → Prop} {records : List (List Text)} {text : Text}
    (asRecords : ∀ record line, writes record line → RecordText record line)
    (isDocument : DocumentText writes records text)
    (unbroken : ∀ record ∈ records, ∀ field ∈ record, '\n' ∉ field) :
    ∃ written, List.Forall₂ writes records written ∧
      ∀ keep : Text → Bool, keep [] = false → (lines text).filter keep = written.filter keep := by
  induction isDocument with
  | empty => exact ⟨[], List.Forall₂.nil, fun _ _ => rfl⟩
  | @last record line isRecord =>
    refine ⟨[line], List.Forall₂.cons isRecord List.Forall₂.nil, fun keep dropsEmpty => ?_⟩
    have whole := linesFrom_append (record_unbroken (asRecords _ _ isRecord)
      (unbroken _ (List.mem_singleton_self _))) [] []
    rw [List.append_nil, List.nil_append] at whole
    rw [lines, whole, linesFrom]
    cases line with
    | nil => simp [dropsEmpty]
    | cons character rest => rfl
  | @next record line lineBreak text records isRecord isBreak _ inductionHypothesis =>
    rw [List.forall_mem_cons] at unbroken
    obtain ⟨written, areRecords, sameLines⟩ := inductionHypothesis unbroken.2
    refine ⟨line :: written, List.Forall₂.cons isRecord areRecords, fun keep dropsEmpty => ?_⟩
    rw [lines_break (record_unbroken (asRecords _ _ isRecord) unbroken.1)
      (record_closed (asRecords _ _ isRecord)) isBreak,
      List.filter_cons, List.filter_cons, sameLines keep dropsEmpty]

end Documents

end Csv
