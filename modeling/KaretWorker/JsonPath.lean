import KaretWorker.Library.Json

/-!
# Paths into JSON records

`compile_path` of `src/json_source.rs`: one pass over the characters, with the key that
is being collected, and an inner loop over the digits of an index. A path denotes steps
by the rules of `Denotes`, and the pass computes exactly that (`scanKeys_iff`).

A path is compiled exactly when it is well formed: every opening bracket begins an index,
and the path is not made of dots alone (`compilePath_ok`). Steps that can be written are
compiled from what is written, and these are the steps that any path is compiled to, so
writing them and compiling again changes nothing (`compilePath_grammar`).
-/
namespace KaretWorker

open Texts

/-- One step of a compiled path: a map key or an array index. -/
inductive PathStep where
  | key (name : Text)
  | index (position : Nat)
  deriving DecidableEq, Repr

/-- Exclusive bound of the source's `usize`. -/
def usizeBound : Nat := 2 ^ 64

/-- The step of the key collected so far, if it has a character. -/
def keyStep (current : Text) : List PathStep :=
  if current.isEmpty then [] else [.key current]

/-- The error of an index that is not a number. -/
def malformedIndex (path : Text) : Text :=
  "malformed array index in path '".toList ++ path ++ "'".toList

/-- The error of a path without steps. -/
def emptyPath (path : Text) : Text := "empty path '".toList ++ path ++ "'".toList

mutual

/-- The characters outside an index, with the key collected so far. -/
def scanKeys (path : Text) : Text → Text → List PathStep → Except Text (List PathStep)
  | [], current, steps => .ok (steps ++ keyStep current)
  | character :: rest, current, steps =>
    if character = '.' then scanKeys path rest [] (steps ++ keyStep current)
    else if character = '[' then scanIndex path rest [] (steps ++ keyStep current)
    else scanKeys path rest (current ++ [character]) steps

/-- The characters of an index up to its closing bracket. -/
def scanIndex (path : Text) : Text → Text → List PathStep → Except Text (List PathStep)
  | [], _, _ => .error (malformedIndex path)
  | character :: rest, digits, steps =>
    if character = ']' then
      match parseUnsigned usizeBound digits with
      | none => .error (malformedIndex path)
      | some position => scanKeys path rest [] (steps ++ [.index position])
    else if character.isDigit then scanIndex path rest (digits ++ [character]) steps
    else .error (malformedIndex path)

end

/-- Compile `a.b[0].c` into steps. -/
def compilePath (path : Text) : Except Text (List PathStep) :=
  match scanKeys path path [] [] with
  | .error error => .error error
  | .ok steps => if steps.isEmpty then .error (emptyPath path) else .ok steps

example : compilePath "headers.User-Agent[0]".toList =
    .ok [.key "headers".toList, .key "User-Agent".toList, .index 0] := by decide +kernel

/-! ## The steps a path denotes -/

/-- The digits of an index that fits. -/
structure IndexDigits (digits : Text) : Prop where
  present : digits ≠ []
  decimal : ∀ character ∈ digits, character.isDigit = true
  bounded : Nat.ofDigitChars 10 digits 0 < usizeBound

/-- The steps of the rest of a path, after the key collected so far. -/
inductive Denotes : Text → Text → List PathStep → Prop
  | finish (current : Text) : Denotes current [] (keyStep current)
  | dot {current rest : Text} {steps : List PathStep} (continues : Denotes [] rest steps) :
    Denotes current ('.' :: rest) (keyStep current ++ steps)
  | index {current digits rest : Text} {steps : List PathStep} (isIndex : IndexDigits digits)
    (continues : Denotes [] rest steps) :
    Denotes current ('[' :: (digits ++ ']' :: rest))
      (keyStep current ++ .index (Nat.ofDigitChars 10 digits 0) :: steps)
  | character {current rest : Text} {steps : List PathStep} {character : Char}
    (noDot : character ≠ '.') (noBracket : character ≠ '[')
    (continues : Denotes (current ++ [character]) rest steps) :
    Denotes current (character :: rest) steps

/-- What the loop over an index finds: the rest of its digits, and the rest of the path. -/
def IndexRead (digits chars : Text) (steps : List PathStep) : Prop :=
  ∃ tail rest more, chars = tail ++ ']' :: rest ∧ IndexDigits (digits ++ tail) ∧
    Denotes [] rest more ∧ steps = .index (Nat.ofDigitChars 10 (digits ++ tail) 0) :: more

section Scan

variable {path : Text}

/-- The digits of an index parse exactly when they fit. -/
theorem parse_index {digits : Text} {position : Nat}
    (isDigits : ∀ character ∈ digits, character.isDigit = true) :
    parseUnsigned usizeBound digits = some position ↔
      IndexDigits digits ∧ position = Nat.ofDigitChars 10 digits 0 := by
  rw [parse_digits isDigits]
  constructor
  · rintro ⟨present, bounded, same⟩
    exact ⟨⟨present, isDigits, bounded⟩, same⟩
  · rintro ⟨fits, same⟩
    exact ⟨fits.present, fits.bounded, same⟩

/-- An index ends at its first closing bracket. -/
theorem indexRead_close {digits rest : Text} {steps : List PathStep} :
    IndexRead digits (']' :: rest) steps ↔ IndexDigits digits ∧
      ∃ more, Denotes [] rest more ∧ steps = .index (Nat.ofDigitChars 10 digits 0) :: more := by
  constructor
  · rintro ⟨tail, others, more, split, fits, denotes, rfl⟩
    cases tail with
    | nil =>
      obtain ⟨_, rfl⟩ := List.cons.inj split
      rw [List.append_nil] at fits ⊢
      exact ⟨fits, more, denotes, rfl⟩
    | cons first tail =>
      obtain ⟨rfl, _⟩ := List.cons.inj split
      exact absurd (fits.decimal ']' (by simp)) (by decide)
  · rintro ⟨fits, more, denotes, rfl⟩
    rw [← List.append_nil digits] at fits
    exact ⟨[], rest, more, rfl, fits, denotes, by rw [List.append_nil]⟩

/-- Any other character belongs to the digits. -/
theorem indexRead_cons {digits rest : Text} {steps : List PathStep} {character : Char}
    (opened : character ≠ ']') :
    IndexRead digits (character :: rest) steps ↔ IndexRead (digits ++ [character]) rest steps := by
  constructor
  · rintro ⟨tail, others, more, split, fits, denotes, rfl⟩
    cases tail with
    | nil => exact absurd (List.cons.inj split).1 opened
    | cons first tail =>
      obtain ⟨rfl, rfl⟩ := List.cons.inj split
      rw [List.append_cons] at fits
      exact ⟨tail, others, more, rfl, fits, denotes, by rw [List.append_cons]⟩
  · rintro ⟨tail, others, more, rfl, fits, denotes, rfl⟩
    rw [← List.append_cons] at fits
    exact ⟨character :: tail, others, more, rfl, fits, denotes, by rw [← List.append_cons]⟩

/-- The two loops compute what the path denotes. -/
theorem scan_iff (chars : Text) :
    (∀ current steps result, scanKeys path chars current steps = .ok result ↔
      ∃ more, Denotes current chars more ∧ result = steps ++ more) ∧
    ∀ digits steps result, (∀ character ∈ digits, character.isDigit = true) →
      (scanIndex path chars digits steps = .ok result ↔
        ∃ more, IndexRead digits chars more ∧ result = steps ++ more) := by
  induction chars with
  | nil =>
    constructor
    · intro current steps result
      simp only [scanKeys, Except.ok.injEq]
      constructor
      · rintro rfl
        exact ⟨_, .finish current, rfl⟩
      · rintro ⟨more, ⟨⟩, rfl⟩
        rfl
    · intro digits steps result isDigits
      simp only [scanIndex, reduceCtorEq, false_iff]
      rintro ⟨more, ⟨tail, rest, _, impossible, _⟩, _⟩
      exact absurd impossible (by simp)
  | cons character rest inductionHypothesis =>
    obtain ⟨keys, index⟩ := inductionHypothesis
    constructor
    · intro current steps result
      rw [scanKeys]
      by_cases isDot : character = '.'
      · subst isDot
        rw [if_pos rfl, keys]
        constructor
        · rintro ⟨more, denotes, rfl⟩
          exact ⟨_, .dot denotes, List.append_assoc _ _ _⟩
        · rintro ⟨more, denotes, rfl⟩
          cases denotes with
          | dot continues => exact ⟨_, continues, (List.append_assoc _ _ _).symm⟩
          | character noDot => exact absurd rfl noDot
      rw [if_neg isDot]
      by_cases isBracket : character = '['
      · subst isBracket
        rw [if_pos rfl, index [] _ _ (fun _ impossible => nomatch impossible)]
        constructor
        · rintro ⟨_, ⟨tail, others, more, rfl, fits, denotes, rfl⟩, rfl⟩
          exact ⟨_, .index fits denotes, List.append_assoc _ _ _⟩
        · rintro ⟨more, denotes, rfl⟩
          cases denotes with
          | index isIndex continues =>
            exact ⟨_, ⟨_, _, _, rfl, isIndex, continues, rfl⟩, (List.append_assoc _ _ _).symm⟩
          | character _ noBracket => exact absurd rfl noBracket
      · rw [if_neg isBracket, keys]
        constructor
        · rintro ⟨more, denotes, rfl⟩
          exact ⟨more, .character isDot isBracket denotes, rfl⟩
        · rintro ⟨more, denotes, rfl⟩
          cases denotes with
          | dot => exact absurd rfl isDot
          | index => exact absurd rfl isBracket
          | character _ _ continues => exact ⟨more, continues, rfl⟩
    · intro digits steps result isDigits
      rw [scanIndex]
      by_cases closes : character = ']'
      · subst closes
        simp only [↓reduceIte, indexRead_close]
        cases parsed : parseUnsigned usizeBound digits with
        | none =>
          simp only [reduceCtorEq, false_iff]
          rintro ⟨_, ⟨fits, _⟩, _⟩
          exact nomatch parsed.symm.trans ((parse_index isDigits).mpr ⟨fits, rfl⟩)
        | some position =>
          obtain ⟨fits, rfl⟩ := (parse_index isDigits).mp parsed
          simp only [keys, and_iff_right fits]
          constructor
          · rintro ⟨more, denotes, rfl⟩
            exact ⟨_, ⟨more, denotes, rfl⟩, List.append_assoc _ _ _⟩
          · rintro ⟨_, ⟨more, denotes, rfl⟩, rfl⟩
            exact ⟨more, denotes, List.append_cons _ _ _⟩
      · simp only [if_neg closes, indexRead_cons closes]
        by_cases isDigit : character.isDigit = true
        · rw [if_pos isDigit, index]
          intro other member
          rcases List.mem_append.mp member with member | member
          · exact isDigits other member
          · rw [List.mem_singleton.mp member]
            exact isDigit
        · rw [if_neg isDigit]
          simp only [reduceCtorEq, false_iff]
          rintro ⟨_, ⟨tail, _, _, _, fits, _⟩, _⟩
          exact absurd (fits.decimal character (by simp)) isDigit

/-- The whole pass computes the steps a path denotes. -/
theorem scanKeys_iff {steps : List PathStep} :
    scanKeys path path [] [] = .ok steps ↔ Denotes [] path steps := by
  rw [(scan_iff path).1]
  constructor
  · rintro ⟨_, denotes, rfl⟩
    exact denotes
  · exact fun denotes => ⟨steps, denotes, rfl⟩

end Scan

/-! ## Well-formed paths -/

/-- Every opening bracket begins an index. -/
inductive Bracketed : Text → Prop
  | nil : Bracketed []
  | character {character : Char} {rest : Text} (noBracket : character ≠ '[')
    (continues : Bracketed rest) : Bracketed (character :: rest)
  | index {digits rest : Text} (isIndex : IndexDigits digits) (continues : Bracketed rest) :
    Bracketed ('[' :: (digits ++ ']' :: rest))

/-- A path whose brackets enclose indices, and that is not made of dots alone. -/
structure WellFormedPath (path : Text) : Prop where
  bracketed : Bracketed path
  named : ∃ character ∈ path, character ≠ '.'

/-- What denotes steps is bracketed. -/
theorem Denotes.bracketed {current path : Text} {steps : List PathStep}
    (denotes : Denotes current path steps) : Bracketed path := by
  induction denotes with
  | finish => exact .nil
  | dot _ bracketed => exact .character (by decide) bracketed
  | index isIndex _ bracketed => exact .index isIndex bracketed
  | character _ noBracket _ bracketed => exact .character noBracket bracketed

/-- Whatever is bracketed denotes steps, after any key. -/
theorem Bracketed.denotes {path : Text} (bracketed : Bracketed path) (current : Text) :
    ∃ steps, Denotes current path steps := by
  induction bracketed generalizing current with
  | nil => exact ⟨_, .finish current⟩
  | @character character rest noBracket _ inductionHypothesis =>
    by_cases isDot : character = '.'
    · subst isDot
      obtain ⟨steps, denotes⟩ := inductionHypothesis []
      exact ⟨_, .dot denotes⟩
    · obtain ⟨steps, denotes⟩ := inductionHypothesis (current ++ [character])
      exact ⟨steps, .character isDot noBracket denotes⟩
  | index isIndex _ inductionHypothesis =>
    obtain ⟨steps, denotes⟩ := inductionHypothesis []
    exact ⟨_, .index isIndex denotes⟩

/-- No step results exactly when there is no key and all that follows is dots. -/
theorem Denotes.nil_iff {current path : Text} {steps : List PathStep}
    (denotes : Denotes current path steps) :
    steps = [] ↔ current = [] ∧ ∀ character ∈ path, character = '.' := by
  have keyless : ∀ {key : Text}, keyStep key = [] ↔ key = [] := by
    intro key
    cases key <;> simp [keyStep]
  induction denotes with
  | finish current => simp [keyless]
  | dot _ inductionHypothesis =>
    simp only [List.append_eq_nil_iff, keyless, inductionHypothesis, true_and, List.forall_mem_cons]
  | index => simp
  | character noDot _ _ inductionHypothesis => simp [inductionHypothesis, noDot]

/-- A path is compiled to the steps it denotes, if there are any. -/
theorem compilePath_denotes {path : Text} {steps : List PathStep} :
    compilePath path = .ok steps ↔ Denotes [] path steps ∧ steps ≠ [] := by
  rw [← scanKeys_iff, compilePath]
  cases scanKeys path path [] [] with
  | error error => simp
  | ok found =>
    cases found with
    | nil => simp
    | cons first rest =>
      simp only [List.isEmpty_cons, Bool.false_eq_true, ↓reduceIte, Except.ok.injEq]
      constructor
      · rintro rfl
        exact ⟨rfl, List.cons_ne_nil _ _⟩
      · exact And.left

/-- A path is compiled exactly when it is well formed. -/
theorem compilePath_ok {path : Text} :
    (∃ steps, compilePath path = .ok steps) ↔ WellFormedPath path := by
  simp only [compilePath_denotes]
  constructor
  · rintro ⟨steps, denotes, some⟩
    refine ⟨denotes.bracketed, ?_⟩
    by_contra dots
    push Not at dots
    exact some (denotes.nil_iff.mpr ⟨rfl, dots⟩)
  · rintro ⟨bracketed, character, member, noDot⟩
    obtain ⟨steps, denotes⟩ := bracketed.denotes []
    exact ⟨steps, denotes, fun none => noDot ((denotes.nil_iff.mp none).2 character member)⟩

/-! ## Writing steps -/

/-- A step after another one. -/
def renderStep : PathStep → Text
  | .key name => '.' :: name
  | .index position => '[' :: (decimal position ++ [']'])

/-- Steps as dotted keys and bracketed indices. -/
def renderPath : List PathStep → Text
  | [] => []
  | .key name :: rest => name ++ rest.flatMap renderStep
  | .index position :: rest => (PathStep.index position :: rest).flatMap renderStep

/-- A step that can be written: a key that is not empty and has neither a dot nor an opening
bracket, or an index in range. -/
def PathStep.Writable : PathStep → Prop
  | .key name => name ≠ [] ∧ '.' ∉ name ∧ '[' ∉ name
  | .index position => position < usizeBound

section Writing

variable {current name rest : Text} {steps : List PathStep}

/-- A name that is not empty is one step by key. -/
theorem keyStep_name (present : name ≠ []) : keyStep name = [.key name] := by
  cases name with
  | nil => exact absurd rfl present
  | cons first others => rfl

/-- A name without dots and brackets is collected. -/
theorem Denotes.collect (noDot : '.' ∉ name) (noBracket : '[' ∉ name)
    (denotes : Denotes (current ++ name) rest steps) : Denotes current (name ++ rest) steps := by
  induction name generalizing current with
  | nil => simpa using denotes
  | cons character others inductionHypothesis =>
    rw [List.mem_cons, not_or] at noDot noBracket
    rw [List.append_cons] at denotes
    exact .character (Ne.symm noDot.1) (Ne.symm noBracket.1)
      (inductionHypothesis noDot.2 noBracket.2 denotes)

/-- The numeral of an index in range is one. -/
theorem indexDigits_decimal {position : Nat} (bounded : position < usizeBound) :
    IndexDigits (decimal position) := by
  refine ⟨decimal_ne_nil position, decimal_digits position, ?_⟩
  rwa [decimal, Nat.ofDigitChars_ten_toDigits]

/-- Written steps denote themselves, after the key collected so far. -/
theorem denotes_rendered (writable : ∀ step ∈ steps, step.Writable) (current : Text) :
    Denotes current (steps.flatMap renderStep) (keyStep current ++ steps) := by
  induction steps generalizing current with
  | nil =>
    rw [List.append_nil]
    exact .finish current
  | cons step others inductionHypothesis =>
    rw [List.forall_mem_cons] at writable
    cases step with
    | key name =>
      obtain ⟨present, noDot, noBracket⟩ := writable.1
      have continues := inductionHypothesis writable.2 name
      rw [keyStep_name present] at continues
      exact .dot (.collect noDot noBracket continues)
    | index position =>
      have continues := inductionHypothesis writable.2 []
      have same : Nat.ofDigitChars 10 (decimal position) 0 = position :=
        Nat.ofDigitChars_ten_toDigits
      have denoted : Denotes current ('[' :: (decimal position ++ ']' :: others.flatMap renderStep))
          (keyStep current ++ .index (Nat.ofDigitChars 10 (decimal position) 0) ::
            (keyStep [] ++ others)) := .index (indexDigits_decimal writable.1) continues
      rw [same] at denoted
      simpa [renderStep, keyStep] using denoted

/-- What is written of steps denotes them. -/
theorem denotes_renderPath (writable : ∀ step ∈ steps, step.Writable) :
    Denotes [] (renderPath steps) steps := by
  match steps with
  | [] => exact .finish []
  | .key name :: others =>
    rw [List.forall_mem_cons] at writable
    obtain ⟨⟨present, noDot, noBracket⟩, others⟩ := writable
    have continues := denotes_rendered others name
    rw [keyStep_name present] at continues
    exact .collect noDot noBracket continues
  | .index position :: others => exact denotes_rendered writable []

/-- The steps that a path denotes can be written. -/
theorem Denotes.writable (denotes : Denotes current rest steps) (noDot : '.' ∉ current)
    (noBracket : '[' ∉ current) : ∀ step ∈ steps, step.Writable := by
  have named : ∀ {key : Text}, '.' ∉ key → '[' ∉ key → ∀ step ∈ keyStep key, step.Writable := by
    intro key noDot noBracket step member
    cases key with
    | nil => exact absurd member List.not_mem_nil
    | cons first others =>
      rw [keyStep_name (List.cons_ne_nil _ _), List.mem_singleton] at member
      subst member
      exact ⟨List.cons_ne_nil _ _, noDot, noBracket⟩
  induction denotes with
  | finish current => exact named noDot noBracket
  | dot _ inductionHypothesis =>
    exact List.forall_mem_append.mpr ⟨named noDot noBracket,
      inductionHypothesis List.not_mem_nil List.not_mem_nil⟩
  | index isIndex _ inductionHypothesis =>
    refine List.forall_mem_append.mpr ⟨named noDot noBracket, List.forall_mem_cons.mpr ⟨?_, ?_⟩⟩
    · exact isIndex.bounded
    · exact inductionHypothesis List.not_mem_nil List.not_mem_nil
  | character isNoDot isNoBracket _ inductionHypothesis =>
    apply inductionHypothesis
    · simp [noDot, Ne.symm isNoDot]
    · simp [noBracket, Ne.symm isNoBracket]

/-- Steps that can be written are compiled from what is written. -/
theorem compilePath_renderPath (present : steps ≠ []) (writable : ∀ step ∈ steps, step.Writable) :
    compilePath (renderPath steps) = .ok steps :=
  compilePath_denotes.mpr ⟨denotes_renderPath writable, present⟩

end Writing

/-! ## Following steps -/

/-- Where one step leads from a value. -/
def resolveStep : Json.Value → PathStep → Option Json.Value
  | .object members, .key name => members.lookup name
  | .array elements, .index position => elements[position]?
  | _, _ => none

/-- Resolve compiled steps against a record. -/
def resolvePath (record : Json.Value) : List PathStep → Option Json.Value
  | [] => some record
  | step :: rest =>
    match resolveStep record step with
    | none => none
    | some next => resolvePath next rest

/-- A value is reached from a record by following keys and indices. -/
inductive Reached : Json.Value → List PathStep → Json.Value → Prop
  | here (value : Json.Value) : Reached value [] value
  | key {members : List (Text × Json.Value)} {name : Text} {next value : Json.Value} {rest : List PathStep}
    (found : members.lookup name = some next) (further : Reached next rest value) :
    Reached (.object members) (.key name :: rest) value
  | index {elements : List Json.Value} {position : Nat} {next value : Json.Value} {rest : List PathStep}
    (found : elements[position]? = some next) (further : Reached next rest value) :
    Reached (.array elements) (.index position :: rest) value

/-- Resolving finds what is reached, and nothing else. -/
theorem resolvePath_some {record value : Json.Value} {steps : List PathStep} :
    resolvePath record steps = some value ↔ Reached record steps value := by
  constructor
  · intro found
    induction steps generalizing record with
    | nil =>
      obtain rfl := Option.some.inj found
      exact .here record
    | cons step rest inductionHypothesis =>
      rw [resolvePath] at found
      split at found
      · exact nomatch found
      next next leads =>
      have further := inductionHypothesis found
      unfold resolveStep at leads
      split at leads
      · exact .key leads further
      · exact .index leads further
      · exact nomatch leads
  · intro reached
    induction reached with
    | here value => rfl
    | key found _ inductionHypothesis =>
      simp only [resolvePath, resolveStep, found, inductionHypothesis]
    | index found _ inductionHypothesis =>
      simp only [resolvePath, resolveStep, found, inductionHypothesis]

/-- Compiling accepts exactly its grammar and inverts writing: steps that can be written are
compiled from what is written, a path is compiled exactly when it is well formed, and
writing the steps of an accepted path and compiling again gives the same steps. Resolving
steps gives exactly the value they reach. -/
theorem compilePath_grammar :
    (∀ steps, steps ≠ [] → (∀ step ∈ steps, step.Writable) →
      compilePath (renderPath steps) = .ok steps) ∧
    (∀ path, (∃ steps, compilePath path = .ok steps) ↔ WellFormedPath path) ∧
    (∀ path steps, compilePath path = .ok steps → compilePath (renderPath steps) = .ok steps) ∧
    ∀ record steps value, resolvePath record steps = some value ↔ Reached record steps value := by
  refine ⟨fun _ => compilePath_renderPath, fun _ => compilePath_ok, ?_,
    fun _ _ _ => resolvePath_some⟩
  intro path steps compiled
  obtain ⟨denotes, present⟩ := compilePath_denotes.mp compiled
  exact compilePath_renderPath present (denotes.writable List.not_mem_nil List.not_mem_nil)

end KaretWorker
