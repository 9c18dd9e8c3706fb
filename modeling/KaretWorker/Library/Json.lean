import KaretWorker.Library.Text
import KaretWorker.Library.Binary64

/-!
# JSON values and their codecs

JSON values as a program holds them: integers and binary64 floats apart, and an object
as its members in some order, each key once. A float is kept as its 64 bits.

A value that is no number cannot be written as a float, so a number that is not finite is
written as null and is lost. Everything else that is written here is read back
(`readFloat_write`, `readInteger_write`, `readOptional_write`), and an object whose keys
come from an injective table is read back member by member (`lookup_members`).
-/
namespace Json

open Texts Binary64

/-- A number of a value. -/
inductive Number where
  | integer (value : Int)
  | float (bits : BitVec 64)
  deriving DecidableEq, Repr

/-- A JSON value. -/
inductive Value where
  | null
  | bool (value : Bool)
  | number (value : Number)
  | string (value : Text)
  | array (elements : List Value)
  | object (members : List (Text × Value))

/-! ## Scalars -/

/-- Bounds of a signed 64-bit integer. -/
def Signed (value : Int) : Prop := -2 ^ 63 ≤ value ∧ value < 2 ^ 63

instance (value : Int) : Decidable (Signed value) := inferInstanceAs (Decidable (_ ∧ _))

/-- A float; null stands for one that is not finite. -/
def writeFloat (bits : BitVec 64) : Value :=
  if Finite bits then .number (.float bits) else .null

/-- A float, which may be written as an integer. -/
def readFloat (ofInteger : Int → BitVec 64) : Value → Option (BitVec 64)
  | .number (.float bits) => some bits
  | .number (.integer value) => some (ofInteger value)
  | _ => none

/-- An integer as a number. -/
def writeInteger (value : Int) : Value := .number (.integer value)

/-- A signed 64-bit integer. -/
def readInteger : Value → Option Int
  | .number (.integer value) => if Signed value then some value else none
  | _ => none

/-- A boolean, if the value is one. -/
def readBool : Value → Option Bool
  | .bool value => some value
  | _ => none

/-- A text, if the value is one. -/
def readText : Value → Option Text
  | .string value => some value
  | _ => none

/-- A finite float is read back. -/
theorem readFloat_write {ofInteger : Int → BitVec 64} {bits : BitVec 64} (finite : Finite bits) :
    readFloat ofInteger (writeFloat bits) = some bits := by
  rw [writeFloat, if_pos finite, readFloat]

/-- An integer in range is read back. -/
theorem readInteger_write {value : Int} (signed : Signed value) :
    readInteger (writeInteger value) = some value :=
  if_pos signed

/-! ## Optional members -/

section Optional

variable {α : Type} {read : Value → Option α} {write : α → Value}

/-- An optional value; null stands for its absence. -/
def writeOptional (write : α → Value) : Option α → Value
  | none => .null
  | some value => write value

/-- An optional member: it may be null or not be there at all. -/
def readOptional (read : Value → Option α) : Option Value → Option (Option α)
  | none => some none
  | some .null => some none
  | some value => (read value).map some

/-- An optional value is read back when what is there is, and is not written as null. -/
theorem readOptional_write {optional : Option α}
    (present : ∀ value, optional = some value → write value ≠ .null ∧
      read (write value) = some value) :
    readOptional read (some (writeOptional write optional)) = some optional := by
  cases optional with
  | none => rfl
  | some value =>
    obtain ⟨notNull, readsBack⟩ := present value rfl
    unfold readOptional writeOptional
    split
    · next impossible => exact nomatch impossible
    · next isNull => exact absurd (Option.some.inj isNull) notNull
    · next written isWritten =>
      rw [← Option.some.inj isWritten, readsBack]
      rfl

end Optional

/-! ## Members of an object -/

section Members

variable {Key : Type} (name : Key → Text)

/-- The members of an object under the names of their keys. -/
def members (entries : List (Key × Value)) : List (Text × Value) :=
  entries.map (fun entry => (name entry.1, entry.2))

variable {name}

variable [BEq Key] [LawfulBEq Key]

/-- With different names for different keys a member is found by its name. -/
theorem lookup_members (injective : Function.Injective name) (key : Key)
    (entries : List (Key × Value)) :
    (members name entries).lookup (name key) = entries.lookup key := by
  induction entries with
  | nil => rfl
  | cons entry rest inductionHypothesis =>
    obtain ⟨other, value⟩ := entry
    have sameTest : (name key == name other) = (key == other) := by
      rw [Bool.eq_iff_iff, beq_iff_eq, beq_iff_eq]
      exact injective.eq_iff
    simp only [members, List.map_cons, List.lookup_cons, sameTest]
    rw [← members, inductionHypothesis]

end Members

end Json
