import KaretWorker.Library.Text

/-!
# Pipeline prefixes

The shape check of `src/http.rs` that a pipeline prefix passes before it is made
part of object keys: segments that each end in a slash.

The cascade of checks accepts exactly the short texts of this shape
(`validatePipelinePrefix_ok`), and a text is written by its segments in one way only: they
are what any key that starts with it splits into first (`WrittenBy.splitOn_append`).
-/
namespace KaretWorker

open Texts

/-- Maximum accepted length of a pipeline prefix, in bytes. -/
def maxPrefixLen : Nat := 512

/-- The length of a text in UTF-8. -/
def byteLength (text : Text) : Nat := (text.map Char.utf8Size).sum

/-- A segment consists of ASCII letters and digits, dots, underscores and dashes. -/
def plainSegment (segment : Text) : Bool :=
  segment.all (fun character =>
    character.isAlphanum || character = '-' || character = '_' || character = '.')

/-- Check the segments in order; the first that fails decides. -/
def validateSegments : List Text → Except Text Unit
  | [] => .ok ()
  | segment :: rest =>
    if segment.isEmpty then
      .error "pipeline_prefix must not contain empty path segments".toList
    else if segment = ".".toList ∨ segment = "..".toList then
      .error "pipeline_prefix must not contain '.' or '..' segments".toList
    else if !plainSegment segment then
      .error ("pipeline_prefix segment '".toList ++ segment ++
        "' contains characters outside [A-Za-z0-9._-]".toList)
    else validateSegments rest

/-- Validate a caller-supplied pipeline prefix before it is interpolated into
object keys. -/
def validatePipelinePrefix (text : Text) : Except Text Unit :=
  if text.isEmpty then
    .error "pipeline_prefix must not be empty".toList
  else if maxPrefixLen < byteLength text then
    .error ("pipeline_prefix is too long (".toList ++ decimal (byteLength text) ++
      " bytes, max ".toList ++ decimal maxPrefixLen ++ ")".toList)
  else if text.head? = some '/' then
    .error "pipeline_prefix must not start with '/'".toList
  else if text.getLast? ≠ some '/' then
    .error "pipeline_prefix must end with '/'".toList
  else validateSegments (text.dropLast.splitOn '/')

example : validatePipelinePrefix "pipelines/demo/".toList = .ok () := by decide +kernel
example : (validatePipelinePrefix "pipelines/../other/".toList).toOption = none := by decide +kernel

/-! ## The accepted prefixes -/

/-- A segment of a prefix. -/
structure IsSegment (segment : Text) : Prop where
  present : segment ≠ []
  notHere : segment ≠ ".".toList
  notParent : segment ≠ "..".toList
  plain : ∀ character ∈ segment,
    character.isAlphanum ∨ character = '-' ∨ character = '_' ∨ character = '.'

/-- A text is written by segments, each of them followed by a slash. -/
structure WrittenBy (segments : List Text) (text : Text) : Prop where
  present : segments ≠ []
  valid : ∀ segment ∈ segments, IsSegment segment
  joined : text = segments.flatMap (fun segment => segment ++ ['/'])

section Grammar

variable {segments : List Text} {text : Text}

/-- A segment has no slash. -/
theorem IsSegment.slashless {segment : Text} (isSegment : IsSegment segment) : '/' ∉ segment := by
  intro member
  exact absurd (isSegment.plain '/' member) (by decide)

/-- The segments are checked one by one. -/
theorem validateSegments_ok :
    validateSegments segments = .ok () ↔ ∀ segment ∈ segments, IsSegment segment := by
  induction segments with
  | nil => simp [validateSegments]
  | cons segment rest inductionHypothesis =>
    have plainIff : plainSegment segment = true ↔ ∀ character ∈ segment,
        character.isAlphanum ∨ character = '-' ∨ character = '_' ∨ character = '.' := by
      simp [plainSegment, List.all_eq_true, or_assoc]
    have rejected : ∀ error, ¬ IsSegment segment →
        ((.error error : Except Text Unit) = .ok () ↔
          IsSegment segment ∧ validateSegments rest = .ok ()) := by
      intro error none
      simp [none]
    rw [List.forall_mem_cons, ← inductionHypothesis, validateSegments]
    split
    · next isEmpty =>
      exact rejected _ (fun isSegment => isSegment.present (List.isEmpty_iff.mp isEmpty))
    next isEmpty =>
    split
    · next dots => exact rejected _ (fun isSegment => dots.elim isSegment.notHere isSegment.notParent)
    next noDots =>
    split
    · next foreign =>
      apply rejected
      intro isSegment
      simp [plainIff.mpr isSegment.plain] at foreign
    · next plain =>
      have isPlain : plainSegment segment = true := by simpa using plain
      obtain ⟨notHere, notParent⟩ := not_or.mp noDots
      have isSegment : IsSegment segment :=
        ⟨fun none => isEmpty (List.isEmpty_iff.mpr none), notHere, notParent, plainIff.mp isPlain⟩
      rw [and_iff_right isSegment]

/-- Closing each segment with a slash is joining them and closing the last one. -/
theorem flatMap_closed (present : segments ≠ []) :
    segments.flatMap (fun segment => segment ++ ['/']) = List.intercalate ['/'] segments ++
      ['/'] := by
  induction segments with
  | nil => exact absurd rfl present
  | cons segment rest inductionHypothesis =>
    cases rest with
    | nil => simp
    | cons next others =>
      rw [List.flatMap_cons, inductionHypothesis (List.cons_ne_nil _ _)]
      simp

/-- The segments are what the text without its last slash splits into. -/
theorem WrittenBy.splitOn_dropLast (written : WrittenBy segments text) :
    text.dropLast.splitOn '/' = segments := by
  rw [written.joined, flatMap_closed written.present, List.dropLast_concat]
  exact List.splitOn_intercalate '/'
    (fun segment member => (written.valid segment member).slashless)
    written.present

/-- A text that starts with the segments splits into them and what the rest splits into. -/
theorem WrittenBy.splitOn_append (written : WrittenBy segments text) (rest : Text) :
    (text ++ rest).splitOn '/' = segments ++ rest.splitOn '/' := by
  obtain ⟨present, valid, rfl⟩ := written
  clear present
  induction segments with
  | nil => rfl
  | cons segment others inductionHypothesis =>
    rw [List.forall_mem_cons] at valid
    rw [List.flatMap_cons, List.append_assoc, List.append_assoc, List.singleton_append,
      List.splitOn_append_cons_self_of_not_mem valid.1.slashless, inductionHypothesis valid.2]
    rfl

/-- A prefix is accepted exactly when it is short enough and written by segments. -/
theorem validatePipelinePrefix_ok :
    validatePipelinePrefix text = .ok () ↔
      byteLength text ≤ maxPrefixLen ∧ ∃ segments, WrittenBy segments text := by
  constructor
  · intro accepted
    rw [validatePipelinePrefix] at accepted
    split at accepted
    · exact nomatch accepted
    split at accepted
    · exact nomatch accepted
    next short =>
    split at accepted
    · exact nomatch accepted
    split at accepted
    · exact nomatch accepted
    next closed =>
    have isLast : text.getLast? = some '/' := not_not.mp closed
    have isClosed : text = text.dropLast ++ ['/'] := by
      obtain ⟨front, rfl⟩ := List.getLast?_eq_some_iff.mp isLast
      rw [List.dropLast_concat]
    refine ⟨Nat.le_of_not_lt short, text.dropLast.splitOn '/', List.splitOn_ne_nil _ _,
      validateSegments_ok.mp accepted, ?_⟩
    rw [flatMap_closed (List.splitOn_ne_nil _ _), List.intercalate_splitOn]
    exact isClosed
  · rintro ⟨short, segments, written⟩
    have split := written.splitOn_dropLast
    obtain ⟨present, valid, joined⟩ := written
    obtain ⟨first, rest, rfl⟩ := List.exists_cons_of_ne_nil present
    obtain ⟨character, others, rfl⟩ := List.exists_cons_of_ne_nil (valid first (by simp)).present
    have begins : text.head? = some character := by
      rw [joined]
      rfl
    have opened : character ≠ '/' := by
      rintro rfl
      exact (valid _ List.mem_cons_self).slashless List.mem_cons_self
    have closed : text.getLast? = some '/' := by
      rw [joined, flatMap_closed present, List.getLast?_concat]
    have some : ¬ text.isEmpty = true := by
      intro none
      rw [List.isEmpty_iff.mp none] at begins
      exact nomatch begins
    rw [validatePipelinePrefix, if_neg some, if_neg (Nat.not_lt.mpr short), begins,
      if_neg (fun same => opened (Option.some.inj same)), if_neg (not_not.mpr closed), split]
    exact validateSegments_ok.mpr valid

end Grammar

end KaretWorker
