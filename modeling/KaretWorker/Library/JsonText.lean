import KaretWorker.Library.Codec

/-!
# Flat objects as text

The compact text of an object whose members are scalars: no spaces, integers in decimal, and a
text between quotes with its quotes, its backslashes and its control characters escaped. The
reader takes this form, with any escape of four digits that denotes a character; integers beyond
64 bits and keys that occur twice are errors.

A flat object is read back from its text (`readObject_write`), and whatever is read can be held
by a document (`readObject_proper`).
-/
namespace JsonText

open Texts Json

/-- The quotation mark. -/
def quote : Char := Char.ofNat 34

/-- The escape character. -/
def backslash : Char := Char.ofNat 92

/-- The brace that opens an object. -/
def opening : Char := Char.ofNat 123

/-- The brace that closes it. -/
def closing : Char := Char.ofNat 125

/-- The marks of the escapes of one character, with what they stand for. -/
def marks : List (Char × Char) :=
  [(quote, quote), (backslash, backslash), ('b', Char.ofNat 8), ('t', Char.ofNat 9),
    ('n', Char.ofNat 10), ('f', Char.ofNat 12), ('r', Char.ofNat 13), ('/', '/')]

/-- A character within a text. -/
def escape (character : Char) : Text :=
  match marks.dropLast.find? (fun mark => mark.2 = character) with
  | some mark => [backslash, mark.1]
  | none =>
    if character.toNat < 32 then
      [backslash, 'u', '0', '0', Nat.digitChar (character.toNat / 16), Nat.digitChar (character.toNat % 16)]
    else [character]

/-- The characters of a text and its last quote. -/
def writeChars (text : Text) : Text := text.flatMap escape ++ [quote]

/-- The value of a hexadecimal digit of either case. -/
def hexValue (character : Char) : Option Nat :=
  if character.isDigit then some (character.toNat - 48)
  else if 65 ≤ character.toNat ∧ character.toNat ≤ 70 then some (character.toNat - 55)
  else if 97 ≤ character.toNat ∧ character.toNat ≤ 102 then some (character.toNat - 87)
  else none

/-- Where the reader of a text stands: between characters, after a backslash, or after some of
the four digits of an escape. -/
inductive Mode where
  | plain
  | escaped
  | digits (seen code : Nat)

/-- Read up to the closing quote. -/
def readChars : Mode → Text → Option (Text × Text)
  | _, [] => none
  | .plain, character :: rest =>
    if character = quote then some ([], rest)
    else if character = backslash then readChars .escaped rest
    else if character.toNat < 32 then none
    else (readChars .plain rest).map (fun read => (character :: read.1, read.2))
  | .escaped, mark :: rest =>
    if mark = 'u' then readChars (.digits 0 0) rest
    else
      match marks.lookup mark with
      | some denoted => (readChars .plain rest).map (fun read => (denoted :: read.1, read.2))
      | none => none
  | .digits seen code, digit :: rest =>
    match hexValue digit with
    | none => none
    | some value =>
      let code := 16 * code + value
      if seen < 3 then readChars (.digits (seen + 1) code) rest
      else if code.isValidChar then
        (readChars .plain rest).map (fun read => (Char.ofNat code :: read.1, read.2))
      else none

/-- The text of a scalar. -/
def writeScalar : Value → Text
  | .bool true => "true".toList
  | .bool false => "false".toList
  | .number (.integer (.ofNat value)) => decimal value
  | .number (.integer (.negSucc value)) => '-' :: decimal (value + 1)
  | .string text => quote :: writeChars text
  | _ => "null".toList

/-- Read the digits that come first. -/
def readDigits (text : Text) : Option (Nat × Text) :=
  (parseUnsigned (2 ^ 64) (text.takeWhile Char.isDigit)).map (fun value =>
    (value, text.dropWhile Char.isDigit))

/-- Read a scalar. -/
def readScalar : Text → Option (Value × Text)
  | 'n' :: 'u' :: 'l' :: 'l' :: rest => some (.null, rest)
  | 't' :: 'r' :: 'u' :: 'e' :: rest => some (.bool true, rest)
  | 'f' :: 'a' :: 'l' :: 's' :: 'e' :: rest => some (.bool false, rest)
  | '-' :: rest => (readDigits rest).bind (fun read =>
    if read.1 ≤ 2 ^ 63 then some (.number (.integer (-(read.1 : Int))), read.2) else none)
  | first :: rest =>
    if first = quote then (readChars .plain rest).map (fun read => (.string read.1, read.2))
    else (readDigits (first :: rest)).map (fun read => (.number (.integer read.1), read.2))
  | [] => none

/-- The members of an object and its closing brace. -/
def writeMembers : List (Text × Value) → Text
  | [] => [closing]
  | [(key, value)] => quote :: writeChars key ++ ':' :: (writeScalar value ++ [closing])
  | (key, value) :: rest => quote :: writeChars key ++ ':' :: (writeScalar value ++ ',' :: writeMembers rest)

/-- Read one character that has to be there. -/
def expect (expected : Char) : Text → Option Text
  | [] => none
  | character :: rest => if character = expected then some rest else none

/-- Read one member. -/
def readMember (text : Text) : Option ((Text × Value) × Text) := do
  let text ← expect quote text
  let key ← readChars .plain text
  let text ← expect ':' key.2
  let value ← readScalar text
  pure ((key.1, value.1), value.2)

/-- Read at least one member, and as many as there are. -/
def readMembers : Nat → Text → Option (List (Text × Value))
  | 0, _ => none
  | fuel + 1, text => (readMember text).bind (fun member =>
    if member.2 = [closing] then some [member.1]
    else ((expect ',' member.2).bind (readMembers fuel)).map (fun members => member.1 :: members))

/-- The text of a flat object. -/
def writeObject : Value → Text
  | .object members => opening :: writeMembers members
  | other => writeScalar other

/-- Read the text of a flat object. -/
def readObject (text : Text) : Option Value :=
  if text = [opening, closing] then some (.object [])
  else ((expect opening text).bind (readMembers text.length)).bind (fun members =>
    if (members.map Prod.fst).Nodup then some (.object members) else none)

/-! ## Texts -/

/-- Hexadecimal digits have their values. -/
theorem hexValue_digitChar : ∀ value < 16, hexValue (Nat.digitChar value) = some value := by decide

/-- Each mark denotes the character it is written for. -/
theorem lookup_marks :
    ∀ mark ∈ marks.dropLast, mark.1 ≠ 'u' ∧ marks.lookup mark.1 = some mark.2 := by
  decide

/-- A backslash begins an escape. -/
theorem readChars_backslash (rest : Text) :
    readChars .plain (backslash :: rest) = readChars .escaped rest := by
  rw [readChars, if_neg (by decide), if_pos (by rfl)]

/-- A digit of an escape that more digits follow. -/
theorem readChars_digit {digit : Char} {value seen : Nat} (denotes : hexValue digit = some value)
    (early : seen < 3) (code : Nat) (rest : Text) :
    readChars (.digits seen code)
    (digit :: rest) = readChars (.digits (seen + 1) (16 * code + value)) rest := by
  simp only [readChars, denotes]
  rw [if_pos early]

/-- An escape is read as the character it was written for. -/
theorem readChars_escape (character : Char) (rest : Text) :
    readChars .plain (escape character ++ rest) =
    (readChars .plain rest).map (fun read => (character :: read.1, read.2)) := by
  unfold escape
  split
  · next mark found =>
    obtain ⟨notUnit, denotes⟩ := lookup_marks mark (List.mem_of_find?_eq_some found)
    have same : mark.2 = character := by simpa using List.find?_some found
    rw [List.cons_append, readChars_backslash, List.cons_append, List.nil_append, readChars,
      if_neg notUnit, denotes,
      ← same]
  · next unmarked =>
    have plain : ∀ mark ∈ marks.dropLast, mark.2 ≠ character := by
      simpa using unmarked
    split
    · next control =>
      have zero : hexValue '0' = some 0 := rfl
      have high := hexValue_digitChar (character.toNat / 16) (by omega)
      have low := hexValue_digitChar (character.toNat % 16) (by omega)
      have code : 16 * (16 * (16 * (16 * 0 + 0) + 0) + character.toNat / 16) +
        character.toNat % 16 =
          character.toNat := by omega
      have valid : character.toNat.isValidChar := character.valid
      have unit : readChars .escaped ('u' :: ('0' :: '0' :: Nat.digitChar (character.toNat / 16) ::
          Nat.digitChar (character.toNat % 16) :: rest)) = readChars (.digits 0 0) ('0' :: '0' ::
            Nat.digitChar (character.toNat / 16) :: Nat.digitChar (character.toNat % 16) ::
              rest) := by
        rw [readChars, if_pos (by rfl)]
      simp only [List.cons_append, List.nil_append]
      rw [readChars_backslash, unit, readChars_digit zero (by decide),
        readChars_digit zero (by decide),
        readChars_digit high (by decide), readChars]
      simp only [low, code]
      rw [if_neg (by decide), if_pos valid, Char.ofNat_toNat]
    · next printable =>
      have notQuote : character ≠ quote := (plain (quote, quote) (by decide)).symm
      have notBackslash : character ≠ backslash := (plain (backslash, backslash) (by decide)).symm
      rw [List.cons_append, List.nil_append, readChars, if_neg notQuote, if_neg notBackslash,
        if_neg printable]

/-- A text is read back, up to its closing quote. -/
theorem readChars_write (text rest : Text) :
    readChars .plain (writeChars text ++ rest) = some (text, rest) := by
  induction text with
  | nil => rfl
  | cons character further inductionHypothesis =>
    simp only [writeChars, List.append_assoc] at inductionHypothesis
    simp only [writeChars, List.flatMap_cons, List.append_assoc, readChars_escape,
      inductionHypothesis,
      Option.map_some]

/-! ## Scalars -/

/-- Digits end before anything else. -/
theorem readDigits_decimal {value : Nat} (fits : value < 2 ^ 64) {rest : Text}
    (ends : ∀ character ∈ rest.head?, character.isDigit = false) :
    readDigits (decimal value ++ rest) = some (value, rest) := by
  have digits := decimal_digits value
  have stops : rest.takeWhile Char.isDigit = [] ∧ rest.dropWhile Char.isDigit = rest := by
    cases rest with
    | nil => exact ⟨rfl, rfl⟩
    | cons character further =>
      have notDigit := ends character rfl
      simp [notDigit]
  rw [readDigits, List.takeWhile_append_of_pos digits, List.dropWhile_append_of_pos digits,
    stops.1, stops.2,
    List.append_nil, parse_decimal fits, Option.map_some]

/-- What starts otherwise than the three names and the sign is a text or a number. -/
theorem readScalar_other {first : Char} (different : first ∉ ['n', 't', 'f', '-']) (rest : Text) :
    readScalar (first :: rest) =
      if first = quote then (readChars .plain rest).map (fun read => (.string read.1, read.2))
      else (readDigits (first :: rest)).map (fun read => (.number (.integer read.1), read.2)) := by
  simp only [List.mem_cons, List.not_mem_nil, or_false, not_or] at different
  obtain ⟨notNull, notTrue, notFalse, notSign⟩ := different
  unfold readScalar
  split
  case h_5 => rename_i same; obtain ⟨rfl, rfl⟩ := List.cons.inj same; rfl
  case h_1 => rename_i same; exact absurd (List.cons.inj same).1 notNull
  case h_2 => rename_i same; exact absurd (List.cons.inj same).1 notTrue
  case h_3 => rename_i same; exact absurd (List.cons.inj same).1 notFalse
  case h_4 => rename_i same; exact absurd (List.cons.inj same).1 notSign
  case h_6 => rename_i same; cases same

/-- What starts with a digit is read as a number. -/
theorem readScalar_digit {first : Char} (isDigit : first.isDigit = true) (rest : Text) :
    readScalar (first :: rest) =
      (readDigits (first :: rest)).map (fun read => (.number (.integer read.1), read.2)) := by
  have others : [quote, 'n', 't', 'f', '-'].all (fun character => !character.isDigit) =
    true := by decide
  have different : first ∉ [quote, 'n', 't', 'f', '-'] := by
    intro member
    have undigit := List.all_eq_true.mp others first member
    rw [isDigit] at undigit
    exact nomatch undigit
  rw [List.mem_cons, not_or] at different
  rw [readScalar_other different.2, if_neg different.1]

/-- A quotation mark begins a string. -/
theorem readScalar_quote (rest : Text) :
    readScalar (quote :: rest) = (readChars .plain rest).map
      (fun read => (.string read.1, read.2)) := by
  rw [readScalar_other (by decide), if_pos (by rfl)]

/-- A scalar is read back before a comma or a brace. -/
theorem readScalar_write {value : Value} (scalar : value.Scalar) {rest : Text}
    (ends : ∀ character ∈ rest.head?, character.isDigit = false) :
    readScalar (writeScalar value ++ rest) = some (value, rest) := by
  match value, scalar with
  | .null, _ => rfl
  | .bool true, _ => rfl
  | .bool false, _ => rfl
  | .string text, _ =>
    rw [writeScalar, List.cons_append, readScalar_quote, readChars_write, Option.map_some]
  | .number (.integer (.ofNat value)), fits =>
    have below : value < 2 ^ 64 := Int.ofNat_lt.mp fits.2
    have read := readDigits_decimal below ends
    obtain ⟨first, more, same⟩ := List.exists_cons_of_ne_nil (decimal_ne_nil value)
    have isDigit : first.isDigit = true :=
      decimal_digits value first (by rw [same]; exact List.mem_cons_self)
    rw [writeScalar]
    rw [same, List.cons_append] at read ⊢
    rw [readScalar_digit isDigit, read, Option.map_some]
    rfl
  | .number (.integer (.negSucc value)), fits =>
    have bound : value + 1 ≤ 2 ^ 63 := by
      have low := fits.1
      omega
    have read : readDigits (decimal (value + 1) ++ rest) = some (value + 1, rest) :=
      readDigits_decimal (by omega) ends
    simp only [writeScalar, List.cons_append, readScalar, read, Option.bind_some, if_pos bound]
    rfl

/-! ## Objects -/

/-- What follows a member is no digit. -/
theorem follows_digit (rest : Text) :
    (∀ character ∈ (closing :: rest).head?, character.isDigit = false) ∧
      ∀ character ∈ (',' :: rest).head?, character.isDigit = false := by
  constructor
  · rintro character member
    rw [← Option.some.inj member]
    rfl
  · rintro character member
    rw [← Option.some.inj member]
    rfl

/-- The expected character is consumed. -/
theorem expect_cons (expected : Char) (rest : Text) :
    expect expected (expected :: rest) = some rest :=
  if_pos rfl

/-- A member is read back before a comma or a brace. -/
theorem readMember_write {member : Text × Value} (scalar : member.2.Scalar) {rest : Text}
    (ends : ∀ character ∈ rest.head?, character.isDigit = false) :
    readMember (quote :: writeChars member.1 ++ ':' :: (writeScalar member.2 ++ rest)) =
    some (member, rest) := by
  simp only [readMember, List.cons_append, expect_cons, bind, Option.bind_some, readChars_write,
    readScalar_write scalar ends]
  rfl

/-- The members are read back, with enough fuel for each. -/
theorem readMembers_write {members : List (Text × Value)} (present : members ≠ [])
    (scalars : ∀ member ∈ members, member.2.Scalar) {fuel : Nat} (enough : members.length ≤ fuel) :
    readMembers fuel (writeMembers members) = some members := by
  induction members generalizing fuel with
  | nil => exact absurd rfl present
  | cons member rest inductionHypothesis =>
    rw [List.forall_mem_cons] at scalars
    obtain ⟨fuel, rfl⟩ :=
      Nat.exists_eq_succ_of_ne_zero (Nat.ne_of_gt (Nat.lt_of_lt_of_le (Nat.succ_pos _) enough))
    have fewer : rest.length ≤ fuel := Nat.le_of_succ_le_succ enough
    cases rest with
    | nil =>
      have read := readMember_write scalars.1 (follows_digit []).1
      rw [writeMembers, readMembers, read, Option.bind_some, if_pos rfl]
    | cons next others =>
      have read := readMember_write scalars.1 (follows_digit (writeMembers (next :: others))).2
      have further := inductionHypothesis (List.cons_ne_nil _ _) scalars.2 fewer
      have different : ',' :: writeMembers (next :: others) ≠ [closing] := by
        intro same
        exact absurd (List.cons.inj same).1 (by decide)
      rw [writeMembers, readMembers, read, Option.bind_some, if_neg different, expect_cons,
        Option.bind_some,
        further, Option.map_some]
      exact List.cons_ne_nil _ _

/-- Each member takes at least one character. -/
theorem length_writeMembers (members : List (Text × Value)) :
    members.length ≤ (writeMembers members).length := by
  fun_induction writeMembers members with
  | case1 => exact Nat.zero_le _
  | case2 key value => simp
  | case3 key value rest _ inductionHypothesis =>
    simp only [List.length_cons, List.length_append] at inductionHypothesis ⊢
    omega

/-- A flat object is read back from its text. -/
theorem readObject_write {value : Value} (flat : value.Flat) :
    readObject (writeObject value) = some value := by
  match value, flat with
  | .object [], _ => rfl
  | .object (member :: rest), flat =>
    have long := length_writeMembers (member :: rest)
    have different : writeObject (.object (member :: rest)) ≠ [opening, closing] := by
      intro same
      have second := (List.cons.inj same).2
      cases rest <;> exact absurd (List.cons.inj second).1 (by decide)
    have read : readMembers (opening :: writeMembers (member :: rest)).length
      (writeMembers (member :: rest)) =
        some (member :: rest) :=
      readMembers_write (List.cons_ne_nil _ _) flat.2 (Nat.le_succ_of_le long)
    rw [readObject, if_neg different]
    rw [writeObject, expect_cons, Option.bind_some, read, Option.bind_some, if_pos flat.1]

/-- Whatever number is read fits sixty-four bits. -/
theorem readDigits_bounded {text rest : Text} {value : Nat}
    (read : readDigits text = some (value, rest)) :
    value < 2 ^ 64 := by
  obtain ⟨parsed, isParsed, same⟩ := Option.map_eq_some_iff.mp read
  rw [← (Prod.mk.inj same).1]
  simp only [parseUnsigned] at isParsed
  split at isParsed
  · next valid =>
    rw [← Option.some.inj isParsed]
    exact valid.2.2
  · cases isParsed

/-- A scalar that is read can be held. -/
theorem readScalar_proper {text rest : Text} {value : Value}
    (read : readScalar text = some (value, rest)) :
    value.Proper := by
  have natural : ∀ {text : Text},
    (readDigits text).map (fun read => (Value.number (.integer read.1), read.2)) =
      some (value, rest) → value.Proper := by
    intro text read
    obtain ⟨digits, isDigits, same⟩ := Option.map_eq_some_iff.mp read
    rw [← (Prod.mk.inj same).1]
    have bounded := readDigits_bounded isDigits
    exact .integer ⟨by omega, by omega⟩
  unfold readScalar at read
  split at read
  · rw [← (Prod.mk.inj (Option.some.inj read)).1]
    exact .null
  · rw [← (Prod.mk.inj (Option.some.inj read)).1]
    exact .bool true
  · rw [← (Prod.mk.inj (Option.some.inj read)).1]
    exact .bool false
  · obtain ⟨digits, _, same⟩ := Option.bind_eq_some_iff.mp read
    split at same
    · next small =>
      rw [← (Prod.mk.inj (Option.some.inj same)).1]
      exact .integer ⟨by omega, by omega⟩
    · exact nomatch same
  · split at read
    · obtain ⟨chars, _, same⟩ := Option.map_eq_some_iff.mp read
      rw [← (Prod.mk.inj same).1]
      exact .string _
    · exact natural read
  · exact nomatch read

/-- A member that was read holds a proper value. -/
theorem readMember_proper {text rest : Text} {member : Text × Value}
    (read : readMember text = some (member, rest)) : member.2.Proper := by
  simp only [readMember, bind, Option.bind_eq_some_iff] at read
  obtain ⟨_, _, _, _, _, _, value, isValue, same⟩ := read
  rw [← (Prod.mk.inj (Option.some.inj same)).1]
  exact readScalar_proper isValue

/-- All members of an object that was read hold proper values. -/
theorem readMembers_proper {fuel : Nat} {text : Text} {members : List (Text × Value)}
    (read : readMembers fuel text = some members) : ∀ member ∈ members, member.2.Proper := by
  induction fuel generalizing text members with
  | zero => exact nomatch read
  | succ fuel inductionHypothesis =>
    obtain ⟨member, isMember, further⟩ := Option.bind_eq_some_iff.mp read
    have proper := readMember_proper isMember
    split at further
    · rw [← Option.some.inj further]
      exact List.forall_mem_singleton.mpr proper
    · obtain ⟨others, areOthers, rfl⟩ := Option.map_eq_some_iff.mp further
      obtain ⟨rest, _, readOthers⟩ := Option.bind_eq_some_iff.mp areOthers
      exact List.forall_mem_cons.mpr ⟨proper, inductionHypothesis readOthers⟩

/-- What is read can be held by a document. -/
theorem readObject_proper {text : Text} {value : Value} (read : readObject text = some value) :
    value.Proper := by
  unfold readObject at read
  split at read
  · rw [← Option.some.inj read]
    exact .object List.nodup_nil (List.forall_mem_nil _)
  · obtain ⟨members, areMembers, same⟩ := Option.bind_eq_some_iff.mp read
    obtain ⟨_, _, readMembers⟩ := Option.bind_eq_some_iff.mp areMembers
    split at same
    · next distinct =>
      rw [← Option.some.inj same]
      exact .object distinct (readMembers_proper readMembers)
    · exact nomatch same

end JsonText
