import KaretWorker.Library.Json
import Mathlib.Data.List.AList

/-!
# Codecs of records

How a program writes its records as JSON and reads them back, put together from the parts:
a codec for each type, a member for each field, a shape for a record. A member is required,
optional, or has a default; a shape is written as an object under the names of its keys and
is read from an object, or from an array with its members in order.

A codec is lawful for the values it admits: they are read back as they were, and nothing else
is ever read. So whatever is read once is a fixed point of writing and reading
(`Codec.Lawful.settles`), and admitted values are written differently
(`Codec.Lawful.injective`). Lawful parts make lawful records, and these are faithful
(`Codec.Lawful.faithful`).
-/
namespace Json

open Texts Binary64

/-- A value as a document can hold it: integers of 64 bits, finite floats, and each key of an
object once. -/
inductive Value.Proper : Value → Prop where
  | null : Proper .null
  | bool (value : Bool) : Proper (.bool value)
  | integer {value : Int} (fits : -2 ^ 63 ≤ value ∧ value < 2 ^ 64) : Proper (.number (.integer value))
  | float {bits : BitVec 64} (finite : Finite bits) : Proper (.number (.float bits))
  | string (value : Text) : Proper (.string value)
  | array {elements : List Value} (proper : ∀ element ∈ elements, Proper element) :
      Proper (.array elements)
  | object {members : List (Text × Value)} (distinct : (members.map Prod.fst).Nodup)
      (proper : ∀ member ∈ members, Proper member.2) : Proper (.object members)

/-- A null, a boolean, an integer of 64 bits or a text. -/
def Value.Scalar : Value → Prop
  | .null | .bool _ | .string _ => True
  | .number (.integer value) => -2 ^ 63 ≤ value ∧ value < 2 ^ 64
  | _ => False

/-- An object of such values. -/
def Value.Flat : Value → Prop
  | .object members => (members.map Prod.fst).Nodup ∧ ∀ member ∈ members, member.2.Scalar
  | _ => False

/-- How the values of a type are written and read. -/
structure Codec (α : Type) where
  write : α → Value
  read : Value → Option α

/-- Admitted values are read back and are not written as null; only they are ever read. -/
structure Codec.Lawful {α : Type} (codec : Codec α) (admits : α → Prop) : Prop where
  readsBack : ∀ value, admits value → codec.read (codec.write value) = some value
  present : ∀ value, admits value → codec.write value ≠ .null
  reads : ∀ json : Value, json.Proper → ∀ value, codec.read json = some value → admits value

/-- What a reader of stored values relies on: an admitted value is read back as it was, different
ones are written differently, and whatever document is read holds an admitted value, which is
read the same once it is written again. -/
structure Codec.Faithful {α : Type} (codec : Codec α) (admits : α → Prop) : Prop where
  readsBack : ∀ value, admits value → codec.read (codec.write value) = some value
  injective : ∀ first second, admits first → admits second →
    codec.write first = codec.write second → first = second
  settles : ∀ json : Value, json.Proper → ∀ value, codec.read json = some value →
    admits value ∧ codec.read (codec.write value) = some value

section Laws

variable {α : Type} {codec : Codec α} {admits : α → Prop} (lawful : codec.Lawful admits)

include lawful

/-- The same values, described by another condition. -/
theorem Codec.Lawful.congr {admits' : α → Prop} (same : ∀ value, admits value ↔ admits' value) :
    codec.Lawful admits' :=
  ⟨fun value admitted => lawful.readsBack value ((same value).mpr admitted),
    fun value admitted => lawful.present value ((same value).mpr admitted),
    fun json proper value read => (same value).mp (lawful.reads json proper value read)⟩

/-- What is read is read again from what is written for it. -/
theorem Codec.Lawful.settles {json : Value} (proper : json.Proper) {value : α}
    (read : codec.read json = some value) : codec.read (codec.write value) = some value :=
  lawful.readsBack value (lawful.reads json proper value read)

/-- Different values are written differently. -/
theorem Codec.Lawful.injective {first second : α} (isFirst : admits first)
    (isSecond : admits second)
    (same : codec.write first = codec.write second) : first = second := by
  have read := lawful.readsBack first isFirst
  rw [same, lawful.readsBack second isSecond] at read
  exact (Option.some.inj read).symm

/-- A lawful codec is faithful. -/
theorem Codec.Lawful.faithful : codec.Faithful admits :=
  ⟨lawful.readsBack, fun _ _ isFirst isSecond same => lawful.injective isFirst isSecond same,
    fun json proper value read => ⟨lawful.reads json proper value read, lawful.settles proper read⟩⟩

end Laws

/-! ## Scalars -/

/-- Texts. -/
def Codec.text : Codec Text := ⟨.string, readText⟩

/-- Booleans. -/
def Codec.boolean : Codec Bool := ⟨.bool, readBool⟩

/-- Signed 64-bit integers. -/
def Codec.signed : Codec Int := ⟨writeInteger, readInteger⟩

/-- Natural numbers below a bound. -/
def Codec.unsigned (bound : Nat) : Codec Nat where
  write value := writeInteger value
  read
    | .number (.integer value) => if 0 ≤ value ∧ value < bound then some value.toNat else none
    | _ => none

/-- Doubles that are finite, which may be written as integers. -/
def Codec.finite : Codec { bits : BitVec 64 // Finite bits } where
  write value := .number (.float value.val)
  read json := (readFloat ofInteger json).bind (fun bits =>
    if isFinite : Finite bits then some ⟨bits, isFinite⟩ else none)

/-- The names of an enumeration without fields: a name, or an object with nothing under it. -/
def Codec.named {α : Type} (all : List α) (name : α → Text) : Codec α where
  write value := .string (name value)
  read
    | .string found => all.find? (fun value => name value = found)
    | .object [(found, .null)] => all.find? (fun value => name value = found)
    | _ => none

/-- Texts read back. -/
theorem text_lawful : Codec.text.Lawful (fun _ => True) :=
  ⟨fun _ _ => rfl, fun _ _ impossible => (nomatch impossible), fun _ _ _ _ => trivial⟩

/-- Booleans read back. -/
theorem boolean_lawful : Codec.boolean.Lawful (fun _ => True) :=
  ⟨fun _ _ => rfl, fun _ _ impossible => (nomatch impossible), fun _ _ _ _ => trivial⟩

/-- Integers that fit sixty-four bits read back. -/
theorem signed_lawful : Codec.signed.Lawful Signed := by
  refine ⟨fun _ isSigned => readInteger_write isSigned,
    fun _ _ impossible => (nomatch impossible), ?_⟩
  intro json _ value read
  simp only [Codec.signed, readInteger] at read
  split at read
  · split at read
    · next isSigned =>
      rw [← Option.some.inj read]
      exact isSigned
    · exact nomatch read
  · exact nomatch read

/-- Naturals below the bound read back. -/
theorem unsigned_lawful (bound : Nat) : (Codec.unsigned bound).Lawful (· < bound) := by
  refine ⟨fun value below => ?_, fun _ _ impossible => (nomatch impossible), ?_⟩
  · have fits : (0 : Int) ≤ value ∧ (value : Int) < bound := by omega
    simp [Codec.unsigned, writeInteger, fits]
  · intro json _ value read
    simp only [Codec.unsigned] at read
    split at read
    · split at read
      · next fits =>
        rw [← Option.some.inj read]
        omega
      · exact nomatch read
    · exact nomatch read

/-- Finite doubles read back. -/
theorem finite_lawful : Codec.finite.Lawful (fun _ => True) := by
  refine ⟨fun value _ => ?_, fun _ _ impossible => (nomatch impossible), fun _ _ _ _ => trivial⟩
  simp [Codec.finite, readFloat, value.property]

/-- The values of an enumeration read back if their names differ. -/
theorem named_lawful {α : Type} {all : List α} {name : α → Text}
    (complete : ∀ value, value ∈ all) (injective : Function.Injective name) :
    (Codec.named all name).Lawful (fun _ => True) := by
  refine ⟨fun value _ => ?_, fun _ _ impossible => (nomatch impossible), fun _ _ _ _ => trivial⟩
  have found : (all.find? (fun other => name other = name value)).isSome = true :=
    List.find?_isSome.mpr ⟨value, complete value, decide_eq_true rfl⟩
  obtain ⟨other, isOther⟩ := Option.isSome_iff_exists.mp found
  have sameName := List.find?_some isOther
  simp only [Codec.named, isOther, injective (of_decide_eq_true sameName)]

/-! ## Lists -/

section Lists

variable {α : Type} {codec : Codec α} {admits : α → Prop}

/-- Read all elements. -/
def readAll (codec : Codec α) : List Value → Option (List α)
  | [] => some []
  | element :: rest => do
    let value ← codec.read element
    let values ← readAll codec rest
    pure (value :: values)

/-- Lists of values. -/
def Codec.list (codec : Codec α) : Codec (List α) where
  write values := .array (values.map codec.write)
  read
    | .array elements => readAll codec elements
    | _ => none

/-- A list of written elements reads back, element by element. -/
theorem readAll_write (lawful : codec.Lawful admits) {values : List α}
    (admitted : ∀ value ∈ values, admits value) :
    readAll codec (values.map codec.write) = some values := by
  induction values with
  | nil => rfl
  | cons value rest inductionHypothesis =>
    rw [List.forall_mem_cons] at admitted
    simp [readAll, lawful.readsBack value admitted.1, inductionHypothesis admitted.2]

/-- Every element of a list that was read is admitted. -/
theorem readAll_admits (lawful : codec.Lawful admits) {elements : List Value}
    (proper : ∀ element ∈ elements, element.Proper) {values : List α}
    (read : readAll codec elements = some values) : ∀ value ∈ values, admits value := by
  induction elements generalizing values with
  | nil =>
    obtain rfl := Option.some.inj read
    exact List.forall_mem_nil _
  | cons element rest inductionHypothesis =>
    rw [List.forall_mem_cons] at proper
    simp only [readAll, bind, Option.bind_eq_some_iff] at read
    obtain ⟨value, isValue, values, areValues, same⟩ := read
    obtain rfl := Option.some.inj same
    exact List.forall_mem_cons.mpr ⟨lawful.reads element proper.1 value isValue,
      inductionHypothesis proper.2 areValues⟩

/-- Lists read back if their elements do. -/
theorem list_lawful (lawful : codec.Lawful admits) :
    (Codec.list codec).Lawful (fun values => ∀ value ∈ values, admits value) := by
  refine ⟨fun _ admitted => readAll_write lawful admitted,
    fun _ _ impossible => (nomatch impossible), ?_⟩
  intro json proper values read
  cases proper with
  | array properElements => exact readAll_admits lawful properElements read
  | _ => exact nomatch read

end Lists

/-! ## Dictionaries -/

section Dictionaries

variable {α : Type} {codec : Codec α} {admits : α → Prop}

/-- Read the value under each key. -/
def readEntries (codec : Codec α) : List (Text × Value) → Option (List (Σ _ : Text, α))
  | [] => some []
  | member :: rest => do
    let value ← codec.read member.2
    let entries ← readEntries codec rest
    pure (⟨member.1, value⟩ :: entries)

/-- Dictionaries, written in the order of their entries. -/
def Codec.dictionary (codec : Codec α) : Codec (AList (fun _ : Text => α)) where
  write map := .object (map.entries.map (fun entry => (entry.1, codec.write entry.2)))
  read
    | .object members => (readEntries codec members).bind (fun entries =>
        if distinct : entries.keys.Nodup then some ⟨entries, distinct⟩ else none)
    | _ => none

/-- The written entries of a dictionary read back under their keys. -/
theorem readEntries_write (lawful : codec.Lawful admits) {entries : List (Σ _ : Text, α)}
    (admitted : ∀ entry ∈ entries, admits entry.2) :
    readEntries codec (entries.map (fun entry => (entry.1, codec.write entry.2))) =
    some entries := by
  induction entries with
  | nil => rfl
  | cons entry rest inductionHypothesis =>
    rw [List.forall_mem_cons] at admitted
    simp [readEntries, lawful.readsBack entry.2 admitted.1, inductionHypothesis admitted.2]

/-- Every entry of a dictionary that was read is admitted. -/
theorem readEntries_admits (lawful : codec.Lawful admits) {members : List (Text × Value)}
    (proper : ∀ member ∈ members, member.2.Proper) {entries : List (Σ _ : Text, α)}
    (read : readEntries codec members = some entries) : ∀ entry ∈ entries, admits entry.2 := by
  induction members generalizing entries with
  | nil =>
    obtain rfl := Option.some.inj read
    exact List.forall_mem_nil _
  | cons member rest inductionHypothesis =>
    rw [List.forall_mem_cons] at proper
    simp only [readEntries, bind, Option.bind_eq_some_iff] at read
    obtain ⟨value, isValue, others, areOthers, same⟩ := read
    obtain rfl := Option.some.inj same
    exact List.forall_mem_cons.mpr ⟨lawful.reads member.2 proper.1 value isValue,
      inductionHypothesis proper.2 areOthers⟩

/-- Dictionaries read back if their entries do. -/
theorem dictionary_lawful (lawful : codec.Lawful admits) :
    (Codec.dictionary codec).Lawful (fun map => ∀ entry ∈ map.entries, admits entry.2) := by
  refine ⟨fun map admitted => ?_, fun _ _ impossible => (nomatch impossible), ?_⟩
  · simp only [Codec.dictionary, readEntries_write lawful admitted, Option.bind_some]
    exact dif_pos map.nodupKeys
  · intro json proper map read
    cases proper with
    | object _ properMembers =>
      obtain ⟨entries, areEntries, further⟩ := Option.bind_eq_some_iff.mp read
      split at further
      · rw [← Option.some.inj further]
        exact readEntries_admits lawful properMembers areEntries
      · exact nomatch further
    | _ => exact nomatch read

end Dictionaries

/-! ## Members -/

/-- How a field is written, if at all, and how it is read from what is there under its key. -/
structure Member (α : Type) where
  write : α → Option Value
  read : Option Value → Option α

/-- A member is lawful if what it writes, or leaves out, reads back, and if it reads admitted values
only. -/
structure Member.Lawful {α : Type} (member : Member α) (admits : α → Prop) : Prop where
  readsBack : ∀ value, admits value → member.read (member.write value) = some value
  reads : ∀ found : Option Value, (∀ json, found = some json → json.Proper) →
    ∀ value, member.read found = some value → admits value

section Members

variable {α : Type} (codec : Codec α)

/-- A field that must be there. -/
def Member.required : Member α := ⟨fun value => some (codec.write value), fun found => found.bind codec.read⟩

/-- A field that may be null or missing, and is written as null. -/
def Member.optional : Member (Option α) :=
  ⟨fun value => some (writeOptional codec.write value), readOptional codec.read⟩

/-- A field that may be null or missing, and is left out. -/
def Member.omitted : Member (Option α) := ⟨Option.map codec.write, readOptional codec.read⟩

/-- A field that has a default when it is missing. -/
def Member.defaulted (default : α) : Member α where
  write value := some (codec.write value)
  read
    | none => some default
    | some json => codec.read json

/-- A list that is left out when it is empty. -/
def Member.omittedList : Member (List α) where
  write values := if values.isEmpty then none else some ((Codec.list codec).write values)
  read
    | none => some []
    | some json => (Codec.list codec).read json

variable {codec} {admits : α → Prop} (lawful : codec.Lawful admits)

/-- What is admitted of a field that may be missing. -/
def IfPresent (admits : α → Prop) (value : Option α) : Prop := ∀ present, value = some present → admits present

include lawful

/-- A member that has to be there is as lawful as its codec. -/
theorem required_lawful : (Member.required codec).Lawful admits := by
  refine ⟨fun value admitted => lawful.readsBack value admitted, fun found proper value read => ?_⟩
  obtain ⟨json, isJson, isValue⟩ := Option.bind_eq_some_iff.mp read
  exact lawful.reads json (proper json isJson) value isValue

/-- A value that was read from an optional member is admitted. -/
theorem readOptional_admits {found : Option Value}
    (proper : ∀ json, found = some json → json.Proper)
    {value : Option α} (read : readOptional codec.read found = some value) :
    IfPresent admits value := by
  rintro present rfl
  unfold readOptional at read
  split at read
  · exact nomatch read
  · exact nomatch read
  · obtain ⟨other, isOther, same⟩ := Option.map_eq_some_iff.mp read
    rw [← Option.some.inj same]
    exact lawful.reads _ (proper _ rfl) other isOther

/-- A member that may be null or missing reads back. -/
theorem optional_lawful : (Member.optional codec).Lawful (IfPresent admits) :=
  ⟨fun _ admitted => readOptional_write (fun present isPresent =>
      ⟨lawful.present present (admitted present isPresent),
        lawful.readsBack present (admitted present isPresent)⟩),
    fun _ proper _ read => readOptional_admits lawful proper read⟩

/-- A member that is left out without a value reads back. -/
theorem omitted_lawful : (Member.omitted codec).Lawful (IfPresent admits) := by
  refine ⟨fun value admitted => ?_, fun _ proper _ read => readOptional_admits lawful proper read⟩
  cases value with
  | none => rfl
  | some present => exact (optional_lawful lawful).readsBack (some present) admitted

/-- A member with a default reads back if the default is admitted. -/
theorem defaulted_lawful {default : α} (admitted : admits default) :
    (Member.defaulted codec default).Lawful admits := by
  refine ⟨lawful.readsBack, fun found proper value read => ?_⟩
  cases found with
  | none =>
    rw [← Option.some.inj read]
    exact admitted
  | some json => exact lawful.reads json (proper json rfl) value read

/-- A list that is left out when empty reads back. -/
theorem omittedList_lawful :
    (Member.omittedList codec).Lawful (fun values => ∀ value ∈ values, admits value) := by
  constructor
  · intro values admitted
    cases values with
    | nil => rfl
    | cons first rest => exact (list_lawful lawful).readsBack _ admitted
  · intro found proper values read
    cases found with
    | none =>
      rw [← Option.some.inj read]
      exact List.forall_mem_nil _
    | some json => exact (list_lawful lawful).reads json (proper json rfl) values read

end Members

/-! ## Shapes -/

/-- The members of a record: its keys in order, what is written under them, and how the
record is read from what is found under each. -/
structure Shape (Key ρ : Type) where
  keys : List Key
  write : ρ → List (Key × Value)
  read : (Key → Option Value) → Option ρ

section Shapes

variable {Key α β ρ : Type}

/-- A record of one field. -/
def Shape.field (key : Key) (member : Member α) : Shape Key α where
  keys := [key]
  write value := (member.write value).toList.map (fun json => (key, json))
  read find := member.read (find key)

/-- The fields of one shape after those of another. -/
def Shape.and (first : Shape Key α) (second : Shape Key β) : Shape Key (α × β) where
  keys := first.keys ++ second.keys
  write both := first.write both.1 ++ second.write both.2
  read find := do
    let left ← first.read find
    let right ← second.read find
    pure (left, right)

/-- A record made of the fields of a shape. -/
def Shape.record (shape : Shape Key α) (make : α → ρ) (fields : ρ → α) : Shape Key ρ where
  keys := shape.keys
  write value := shape.write (fields value)
  read find := (shape.read find).map make

/-- Admitted records are read back from whatever finds the members that were written. -/
structure Shape.Lawful [BEq Key] (shape : Shape Key ρ) (admits : ρ → Prop) : Prop where
  within : ∀ value, ∀ entry ∈ shape.write value, entry.1 ∈ shape.keys
  readsBack : ∀ value, admits value → ∀ find, (∀ key ∈ shape.keys,
    find key = (shape.write value).lookup key) → shape.read find = some value
  reads : ∀ find : Key → Option Value, (∀ key json, find key = some json → json.Proper) →
    ∀ value, shape.read find = some value → admits value

variable [BEq Key]

/-- A record is as lawful as the tuple of its fields. -/
theorem Shape.Lawful.record {shape : Shape Key α} {admits : α → Prop} (lawful : shape.Lawful admits)
    {make : α → ρ} {fields : ρ → α} (makes : ∀ value, make (fields value) = value)
    (parts : ∀ value, fields (make value) = value) :
    (shape.record make fields).Lawful (fun value => admits (fields value)) := by
  refine ⟨fun value => lawful.within (fields value), fun value admitted find finds => ?_,
    fun find proper value read => ?_⟩
  · show (shape.read find).map make = some value
    rw [lawful.readsBack (fields value) admitted find finds, Option.map_some, makes]
  · obtain ⟨found, isFound, rfl⟩ := Option.map_eq_some_iff.mp read
    rw [parts]
    exact lawful.reads find proper found isFound

/-- The same records, described by another condition. -/
theorem Shape.Lawful.congr {shape : Shape Key ρ} {admits admits' : ρ → Prop}
    (lawful : shape.Lawful admits)
    (same : ∀ value, admits value ↔ admits' value) : shape.Lawful admits' :=
  ⟨lawful.within, fun value admitted => lawful.readsBack value ((same value).mpr admitted),
    fun find proper value read => (same value).mp (lawful.reads find proper value read)⟩

variable [LawfulBEq Key] {admits : α → Prop} {admits' : β → Prop}

/-- One field is as lawful as its member. -/
theorem field_lawful {key : Key} {member : Member α} (lawful : member.Lawful admits) :
    (Shape.field key member).Lawful admits := by
  refine ⟨fun value entry isEntry => ?_, fun value admitted find finds => ?_,
    fun find proper value read => lawful.reads (find key) (proper key) value read⟩
  · obtain ⟨_, _, rfl⟩ := List.mem_map.mp isEntry
    exact List.mem_singleton_self key
  · have found : find key = member.write value := by
      rw [finds key (List.mem_singleton_self key)]
      simp only [Shape.field]
      cases member.write value with
      | none => rfl
      | some json => simp
    show member.read (find key) = some value
    rw [found]
    exact lawful.readsBack value admitted

/-- A shape writes no member under a key that is not among its own. -/
theorem Shape.Lawful.lookup_none {shape : Shape Key ρ} {admits : ρ → Prop}
    (lawful : shape.Lawful admits) {key : Key} (absent : key ∉ shape.keys) (value : ρ) :
    (shape.write value).lookup key = none := by
  rw [List.lookup_eq_none_iff]
  intro entry isEntry
  rw [bne_iff_ne]
  rintro rfl
  exact absent (lawful.within value entry isEntry)

/-- Fields side by side are lawful if no key is in both. -/
theorem Shape.Lawful.and {first : Shape Key α} {second : Shape Key β}
    (isFirst : first.Lawful admits)
    (isSecond : second.Lawful admits') (distinct : (first.and second).keys.Nodup) :
    (first.and second).Lawful (fun both => admits both.1 ∧ admits' both.2) := by
  have disjoint : first.keys.Disjoint second.keys := List.disjoint_of_nodup_append distinct
  refine ⟨fun both entry isEntry => ?_, fun both admitted find finds => ?_,
    fun find proper both read => ?_⟩
  · rcases List.mem_append.mp isEntry with left | right
    · exact List.mem_append_left _ (isFirst.within both.1 entry left)
    · exact List.mem_append_right _ (isSecond.within both.2 entry right)
  · have left := isFirst.readsBack both.1 admitted.1 find (fun key isKey => by
      rw [finds key (List.mem_append_left _ isKey), Shape.and, List.lookup_append,
        isSecond.lookup_none (fun other => disjoint isKey other), Option.or_none])
    have right := isSecond.readsBack both.2 admitted.2 find (fun key isKey => by
      rw [finds key (List.mem_append_right _ isKey), Shape.and, List.lookup_append,
        isFirst.lookup_none (fun other => disjoint other isKey), Option.none_or])
    simp only [Shape.and, left, right, bind, Option.bind_some]
    rfl
  · simp only [Shape.and, bind, Option.bind_eq_some_iff] at read
    obtain ⟨left, isLeft, right, isRight, same⟩ := read
    obtain rfl := Option.some.inj same
    exact ⟨isFirst.reads find proper left isLeft, isSecond.reads find proper right isRight⟩

/-! ## Objects -/

variable (name : Key → Text)

/-- Every member of an object is one of a shape's. -/
def knows (keys : List Key) (members : List (Text × Value)) : Bool :=
  members.all (fun member => keys.any (fun key => name key = member.1))

/-- Records as objects. Unknown members are passed over, unless they are denied. An array is
read as the members in order, of which the last may be missing. -/
def Shape.codec (shape : Shape Key ρ) (denyUnknown : Bool) : Codec ρ where
  write value := .object (members name (shape.write value))
  read
    | .object members =>
      if denyUnknown && !knows name shape.keys members then none
      else shape.read (fun key => members.lookup (name key))
    | .array elements =>
      if elements.length ≤ shape.keys.length then
        shape.read (fun key => (shape.keys.zip elements).lookup key)
      else none
    | _ => none

/-- Records as objects only. -/
def Shape.objects (shape : Shape Key ρ) : Codec ρ where
  write value := .object (members name (shape.write value))
  read
    | .object members => shape.read (fun key => members.lookup (name key))
    | _ => none

/-- What an association finds is one of its values. -/
theorem mem_of_lookup {entries : List (Key × α)} {key : Key} {value : α}
    (found : entries.lookup key = some value) : (key, value) ∈ entries := by
  induction entries with
  | nil => exact nomatch found
  | cons entry rest inductionHypothesis =>
    rw [List.lookup_cons] at found
    split at found
    · next same =>
      rw [beq_iff_eq.mp same, ← Option.some.inj found]
      exact List.mem_cons_self
    · exact List.mem_cons_of_mem _ (inductionHypothesis found)

variable {name}

/-- Objects of a lawful shape read back if the names of the keys differ. -/
theorem Shape.Lawful.objects {shape : Shape Key ρ} {admits : ρ → Prop}
    (lawful : shape.Lawful admits)
    (injective : Function.Injective name) : (shape.objects name).Lawful admits := by
  refine ⟨fun value admitted => ?_, fun _ _ impossible => (nomatch impossible),
    fun json proper value read => ?_⟩
  · exact lawful.readsBack value admitted _ (fun key _ => lookup_members injective key _)
  · cases proper with
    | object _ properMembers =>
      exact lawful.reads _ (fun key json found => properMembers _ (mem_of_lookup found)) value read
    | _ => exact nomatch read

/-- The codec that also reads arrays is as lawful, whether or not unknown members are denied. -/
theorem Shape.Lawful.codec {shape : Shape Key ρ} {admits : ρ → Prop} (lawful : shape.Lawful admits)
    (injective : Function.Injective name) (denyUnknown : Bool) :
    (shape.codec name denyUnknown).Lawful admits := by
  refine ⟨fun value admitted => ?_, fun _ _ impossible => (nomatch impossible),
    fun json proper value read => ?_⟩
  · have known : knows name shape.keys (members name (shape.write value)) = true := by
      rw [knows, List.all_eq_true]
      intro member isMember
      obtain ⟨entry, isEntry, rfl⟩ := List.mem_map.mp isMember
      exact List.any_eq_true.mpr ⟨entry.1, lawful.within value entry isEntry, decide_eq_true rfl⟩
    simp only [Shape.codec, known, Bool.not_true, Bool.and_false, Bool.false_eq_true, if_false]
    exact lawful.readsBack value admitted _ (fun key _ => lookup_members injective key _)
  · cases proper with
    | object _ properMembers =>
      simp only [Shape.codec] at read
      split at read
      · exact nomatch read
      · exact lawful.reads _ (fun key json found => properMembers _ (mem_of_lookup found))
          value read
    | array properElements =>
      simp only [Shape.codec] at read
      split at read
      · refine lawful.reads _ (fun key json found => properElements json ?_) value read
        exact (List.of_mem_zip (mem_of_lookup found)).2
      · exact nomatch read
    | _ => exact nomatch read

end Shapes

end Json
