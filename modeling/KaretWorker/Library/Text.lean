import Mathlib.Data.List.Infix
import Mathlib.Data.List.Pairwise
import Mathlib.Algebra.Order.Ring.Int
import Mathlib.Data.Char
import Mathlib.Data.List.Lex

/-!
# Character lists with decimal numerals and separators

A text is a list of characters. Decimal rendering is core's `Nat.toDigits 10`;
the parser is the one of a bounded unsigned integer: an optional plus sign, at
least one digit, only digits, and a value below the bound. Splitting at the
first separator recovers both sides of a join whose left side lacks it.
-/
namespace Texts

/-- A text as its characters. -/
abbrev Text : Type := List Char

/-- Decimal digits of a natural number, without leading zeros. -/
def decimal (value : Nat) : Text := Nat.toDigits 10 value

/-- Remove one leading plus sign, if there is one. -/
def dropSign : Text → Text
  | '+' :: rest => rest
  | other => other

/-- Parse an unsigned integer below the bound. One leading plus sign is allowed,
and so are leading zeros. -/
def parseUnsigned (bound : Nat) (text : Text) : Option Nat :=
  let digits := dropSign text
  if digits ≠ [] ∧ digits.all Char.isDigit ∧ Nat.ofDigitChars 10 digits 0 < bound then
    some (Nat.ofDigitChars 10 digits 0)
  else none

/-- A decimal numeral has at least one character. -/
theorem decimal_ne_nil (value : Nat) : decimal value ≠ [] := Nat.toDigits_ne_nil

/-- Every character of a decimal numeral is a digit. -/
theorem decimal_digits (value : Nat) (character : Char) (member : character ∈ decimal value) :
    character.isDigit = true :=
  Nat.isDigit_of_mem_toDigits (by decide) (by decide) member

/-- Different numbers have different numerals. -/
theorem decimal_injective {left right : Nat} (same : decimal left = decimal right) :
    left = right := by
  have values := congrArg (fun digits => Nat.ofDigitChars 10 digits 0) same
  simpa only [decimal, Nat.ofDigitChars_ten_toDigits] using values

/-- A character that is not a digit does not occur in a numeral. -/
theorem not_mem_decimal {character : Char} (notDigit : character.isDigit = false) (value : Nat) :
    character ∉ decimal value := by
  intro member
  rw [decimal_digits value character member] at notDigit
  exact Bool.noConfusion notDigit

/-- A numeral carries no sign. -/
theorem dropSign_decimal (value : Nat) : dropSign (decimal value) = decimal value := by
  unfold dropSign
  split
  · next rest signed =>
    exact absurd (signed ▸ List.mem_cons_self) (not_mem_decimal (by decide) value)
  · rfl

/-- Parsing a numeral below the bound gives its number back. -/
theorem parse_decimal {bound value : Nat} (below : value < bound) :
    parseUnsigned bound (decimal value) = some value := by
  have allDigits : (decimal value).all Char.isDigit = true :=
    List.all_eq_true.mpr (decimal_digits value)
  have denotes : Nat.ofDigitChars 10 (decimal value) 0 = value := Nat.ofDigitChars_ten_toDigits
  simp only [parseUnsigned, dropSign_decimal, denotes]
  exact if_pos ⟨decimal_ne_nil value, allDigits, below⟩

/-- A numeral parses as its own number only. -/
theorem parse_decimal_sound {bound value parsed : Nat}
    (parses : parseUnsigned bound (decimal value) = some parsed) : parsed = value := by
  have denotes : Nat.ofDigitChars 10 (decimal value) 0 = value := Nat.ofDigitChars_ten_toDigits
  simp only [parseUnsigned, dropSign_decimal, denotes] at parses
  split at parses
  · exact (Option.some.inj parses).symm
  · exact nomatch parses

/-- Digits parse exactly when there is one and their number is below the bound. -/
theorem parse_digits {bound value : Nat} {digits : Text}
    (isDigits : ∀ character ∈ digits, character.isDigit = true) :
    parseUnsigned bound digits = some value ↔
      digits ≠ [] ∧ Nat.ofDigitChars 10 digits 0 < bound ∧
      value = Nat.ofDigitChars 10 digits 0 := by
  have unsigned : dropSign digits = digits := by
    unfold dropSign
    split
    · next rest => exact absurd (isDigits '+' List.mem_cons_self) (by decide)
    · rfl
  have allDigits : digits.all Char.isDigit = true := List.all_eq_true.mpr isDigits
  simp only [parseUnsigned, unsigned, allDigits, true_and]
  split
  · next fits =>
    rw [Option.some.injEq, eq_comm, and_iff_right fits.1, and_iff_right fits.2]
  · next unfit =>
    simp only [reduceCtorEq, false_iff]
    exact fun ⟨present, bounded, _⟩ => unfit ⟨present, bounded⟩

/-- Remove a leading text as often as it is there, at most as often as given. -/
def trimStart (lead : Text) : Nat → Text → Text
  | 0, text => text
  | times + 1, text =>
    match text.dropPrefix? lead with
    | some rest => trimStart lead times rest
    | none => text

/-! ## Separators -/

/-- Split at the first occurrence of the separator, which is dropped. -/
def splitOnce (separator : Char) : Text → Option (Text × Text)
  | [] => none
  | character :: rest =>
      if character = separator then some ([], rest)
      else (splitOnce separator rest).map (fun halves => (character :: halves.1, halves.2))

/-- Splitting a join at a separator absent from its left side gives both sides
back. -/
theorem split_join {separator : Char} {left : Text} (absent : separator ∉ left) (right : Text) :
    splitOnce separator (left ++ separator :: right) = some (left, right) := by
  induction left with
  | nil => simp [splitOnce]
  | cons character rest inductionHypothesis =>
    have different : character ≠ separator := by
      intro same
      exact absent (same ▸ List.mem_cons_self)
    have restAbsent : separator ∉ rest := fun member => absent (List.mem_cons_of_mem _ member)
    simp [splitOnce, different, inductionHypothesis restAbsent]

/-- Joins at a separator absent from both left sides agree only part by part. -/
theorem join_injective {separator : Char} {left left' right right' : Text}
    (absent : separator ∉ left) (absent' : separator ∉ left')
    (same : left ++ separator :: right = left' ++ separator :: right') :
    left = left' ∧ right = right' := by
  have halves : some (left, right) = some (left', right') := by
    rw [← split_join absent right, same, split_join absent' right']
  exact Prod.mk.inj (Option.some.inj halves)

/-- A split is a join at the separator, which the left side lacks. -/
theorem split_sound {separator : Char} {text left right : Text}
    (split : splitOnce separator text = some (left, right)) :
    text = left ++ separator :: right ∧ separator ∉ left := by
  induction text generalizing left with
  | nil => exact nomatch split
  | cons character rest inductionHypothesis =>
    by_cases isSeparator : character = separator
    · simp only [splitOnce, isSeparator, ↓reduceIte, Option.some.injEq, Prod.mk.injEq] at split
      obtain ⟨rfl, rfl⟩ := split
      exact ⟨by rw [isSeparator, List.nil_append], List.not_mem_nil⟩
    · simp only [splitOnce, isSeparator, ↓reduceIte, Option.map_eq_some_iff, Prod.mk.injEq,
        Prod.exists] at split
      obtain ⟨front, back, further, rfl, rfl⟩ := split
      obtain ⟨joined, absent⟩ := inductionHypothesis further
      refine ⟨by rw [joined, List.cons_append], ?_⟩
      intro member
      rcases List.mem_cons.mp member with same | member
      · exact isSeparator same.symm
      · exact absent member

/-- A text that does not split lacks the separator. -/
theorem not_mem_of_unsplit {separator : Char} {text : Text}
    (unsplit : splitOnce separator text = none) : separator ∉ text := by
  induction text with
  | nil => exact List.not_mem_nil
  | cons character rest inductionHypothesis =>
    by_cases isSeparator : character = separator
    · simp [splitOnce, isSeparator] at unsplit
    · have further : splitOnce separator rest = none := by
        simpa [splitOnce, isSeparator] using unsplit
      intro member
      rcases List.mem_cons.mp member with same | member
      · exact isSeparator same.symm
      · exact inductionHypothesis further member

/-- Two joins at a separator that the first left side lacks: the left sides agree,
or the second one extends the first across a separator. -/
theorem join_nested {separator : Char} {left left' right right' : Text}
    (absent : separator ∉ left) (same : left ++ separator :: right = left' ++ separator :: right') :
    left' = left ∨ left ++ [separator] <+: left' := by
  induction left generalizing left' with
  | nil =>
    cases left' with
    | nil => exact Or.inl rfl
    | cons character rest =>
      obtain ⟨rfl, _⟩ := List.cons.inj same
      exact Or.inr ⟨rest, rfl⟩
  | cons character rest inductionHypothesis =>
    cases left' with
    | nil =>
      obtain ⟨rfl, _⟩ := List.cons.inj same
      exact absurd List.mem_cons_self absent
    | cons character' rest' =>
      obtain ⟨rfl, further⟩ := List.cons.inj same
      have restAbsent : separator ∉ rest := fun member => absent (List.mem_cons_of_mem _ member)
      rcases inductionHypothesis restAbsent further with equal | ⟨more, extended⟩
      · exact Or.inl (by rw [equal])
      · exact Or.inr ⟨more, by rw [← extended]; rfl⟩

/-- Two joins at a separator agree part by part, or one left side continues the other
past a separator. -/
theorem join_cases {separator : Char} {left left' right right' : Text}
    (same : left ++ separator :: right = left' ++ separator :: right') :
    (left = left' ∧ right = right') ∨
      (∃ rest, left' = left ++ separator :: rest ∧ right = rest ++ separator :: right') ∨
      ∃ rest, left = left' ++ separator :: rest ∧ right' = rest ++ separator :: right := by
  rcases List.append_eq_append_iff.mp same with ⟨more, longer, split⟩ | ⟨more, longer, split⟩
  · cases more with
    | nil =>
      obtain ⟨_, rfl⟩ := List.cons.inj split
      exact Or.inl ⟨by rw [longer, List.append_nil], rfl⟩
    | cons character rest =>
      obtain ⟨rfl, rfl⟩ := List.cons.inj split
      exact Or.inr (Or.inl ⟨rest, longer, rfl⟩)
  · cases more with
    | nil =>
      obtain ⟨_, rfl⟩ := List.cons.inj split
      exact Or.inl ⟨by rw [longer, List.append_nil], rfl⟩
    | cons character rest =>
      obtain ⟨rfl, rfl⟩ := List.cons.inj split
      exact Or.inr (Or.inr ⟨rest, longer, rfl⟩)

/-- Joins at a separator absent from both right sides agree only part by part. -/
theorem join_injective_right {separator : Char} {left left' right right' : Text}
    (absent : separator ∉ right) (absent' : separator ∉ right')
    (same : left ++ separator :: right = left' ++ separator :: right') :
    left = left' ∧ right = right' := by
  rcases join_cases same with equal | ⟨rest, _, split⟩ | ⟨rest, _, split⟩
  · exact equal
  · exact absurd (split ▸ List.mem_append_right _ List.mem_cons_self) absent
  · exact absurd (split ▸ List.mem_append_right _ List.mem_cons_self) absent'

/-- A text that parses as a number lacks whatever is neither a digit nor a plus sign. -/
theorem not_mem_of_parses {bound value : Nat} {text : Text} {character : Char}
    (parses : parseUnsigned bound text = some value) (notDigit : character.isDigit = false)
    (notSign : character ≠ '+') : character ∉ text := by
  simp only [parseUnsigned] at parses
  split at parses
  · next valid =>
    have digits := List.all_eq_true.mp valid.2.1
    have absent : character ∉ dropSign text := fun member =>
      Bool.noConfusion (notDigit.symm.trans (digits character member))
    revert absent
    unfold dropSign
    split
    · next rest =>
      intro absent member
      rcases List.mem_cons.mp member with sign | later
      · exact notSign sign
      · exact absent later
    · exact id
  · exact nomatch parses

/-- An ending that lacks the separator lies within what follows the separator. -/
theorem suffix_of_absent {separator : Char} {trail left right : Text} (absent : separator ∉ trail)
    (suffix : trail <:+ left ++ separator :: right) : trail <:+ right := by
  rcases List.suffix_or_suffix_of_suffix suffix (List.suffix_append left (separator :: right)) with
    inside | outside
  · rcases List.suffix_cons_iff.mp inside with whole | within
    · exact absurd (whole ▸ List.mem_cons_self) absent
    · exact within
  · exact absurd (outside.subset List.mem_cons_self) absent

/-- Removing a leading text that is there leaves the rest, and only then. -/
theorem dropPrefix_iff {text lead rest : Text} :
    text.dropPrefix? lead = some rest ↔ text = lead ++ rest := by
  rw [List.dropPrefix?_eq_some_iff]
  constructor
  · rintro ⟨found, split, same⟩
    exact eq_of_beq same ▸ split
  · intro split
    exact ⟨lead, split, beq_self_eq_true lead⟩

/-- Nothing is removed from a text that does not start with the lead. -/
theorem trimStart_plain {lead text : Text} (plain : ¬ lead <+: text) (times : Nat) :
    trimStart lead times text = text := by
  cases times with
  | zero => rfl
  | succ times =>
    cases dropped : text.dropPrefix? lead with
    | none => simp only [trimStart, dropped]
    | some rest => exact absurd ⟨rest, (dropPrefix_iff.mp dropped).symm⟩ plain

/-- Removing a trailing text that is there leaves the front, and only then. -/
theorem dropSuffix_iff {text front trail : Text} :
    text.dropSuffix? trail = some front ↔ text = front ++ trail := by
  rw [List.dropSuffix?_eq_some_iff]
  constructor
  · rintro ⟨found, split, same⟩
    exact eq_of_beq same ▸ split
  · intro split
    exact ⟨trail, split, beq_self_eq_true trail⟩

end Texts
