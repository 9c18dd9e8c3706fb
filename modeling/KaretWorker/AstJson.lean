import KaretWorker.Ast
import KaretWorker.Library.Json
import Mathlib.Data.List.Nodup

/-!
# Mapping expressions as JSON

The encoder and the decoder that `serde` derives for the expressions of `src/ast.rs` from
their attributes: an object with the snake-case name of the constructor under `kind`, and
one member a field. Names of constructors and of fields are closed lists (`AstKind` and
`AstField`), as in the derived code, and both lists are free of repetitions
(`AstKind.tag_injective`, `AstField.key_injective`).

The decoder looks a field up by its name, whatever the order of the members, and passes
over members it does not know. It also takes a node for an array of its constructor and its
fields in order, and, since `serde` keeps what is inside a node aside before it reads it, the
constructor of an inner node by its place among the constructors. A tree whose numerals are
finite is read back as it was (`ast_json_round_trip`).
-/
namespace KaretWorker

open Texts Json Binary64

/-! ## Names -/

/-- The constructors of an expression. -/
inductive AstKind where
  | col | str | num | bool | null
  | add | sub | mul | div
  | concat | upper | lower | trim | substring
  | eq | ne | gt | lt | ge | le | contains
  | fromUnix
  | and | or | not
  | ifElse | coalesce
  | parseDate | dimRef
  | year | month | day
  | cast
  deriving DecidableEq, Repr

/-- The snake-case name of a constructor. -/
def AstKind.tag : AstKind → Text
  | .col => "col".toList
  | .str => "str".toList
  | .num => "num".toList
  | .bool => "bool".toList
  | .null => "null".toList
  | .add => "add".toList
  | .sub => "sub".toList
  | .mul => "mul".toList
  | .div => "div".toList
  | .concat => "concat".toList
  | .upper => "upper".toList
  | .lower => "lower".toList
  | .trim => "trim".toList
  | .substring => "substring".toList
  | .eq => "eq".toList
  | .ne => "ne".toList
  | .gt => "gt".toList
  | .lt => "lt".toList
  | .ge => "ge".toList
  | .le => "le".toList
  | .contains => "contains".toList
  | .fromUnix => "from_unix".toList
  | .and => "and".toList
  | .or => "or".toList
  | .not => "not".toList
  | .ifElse => "if".toList
  | .coalesce => "coalesce".toList
  | .parseDate => "parse_date".toList
  | .dimRef => "dim_ref".toList
  | .year => "year".toList
  | .month => "month".toList
  | .day => "day".toList
  | .cast => "cast".toList

/-- All constructors. -/
def AstKind.all : List AstKind :=
  [.col, .str, .num, .bool, .null, .add, .sub, .mul, .div, .concat, .upper, .lower, .trim,
    .substring, .eq, .ne, .gt, .lt, .ge, .le, .contains, .fromUnix, .and, .or, .not, .ifElse,
    .coalesce, .parseDate, .dimRef, .year, .month, .day, .cast]

/-- The constructor of a name. -/
def AstKind.ofTag (tag : Text) : Option AstKind := AstKind.all.find? (fun kind => kind.tag = tag)

/-- The fields of the constructors. -/
inductive AstField where
  | name | value | left | right | sep | args | input | start | length | pattern | unit
  | cond | thenBranch | elseBranch | format | dimId | target
  deriving DecidableEq, Repr

/-- All fields. -/
def AstField.all : List AstField :=
  [.name, .value, .left, .right, .sep, .args, .input, .start, .length, .pattern, .unit, .cond,
    .thenBranch, .elseBranch, .format, .dimId, .target]

/-- The name of a field as it is written. -/
def AstField.key : AstField → Text
  | .name => "name".toList
  | .value => "value".toList
  | .left => "left".toList
  | .right => "right".toList
  | .sep => "sep".toList
  | .args => "args".toList
  | .input => "input".toList
  | .start => "start".toList
  | .length => "length".toList
  | .pattern => "pattern".toList
  | .unit => "unit".toList
  | .cond => "cond".toList
  | .thenBranch => "then".toList
  | .elseBranch => "else".toList
  | .format => "format".toList
  | .dimId => "dim_id".toList
  | .target => "to".toList

/-- The fields of a constructor, in the order of its declaration. -/
def AstKind.fields : AstKind → List AstField
  | .col => [.name]
  | .str | .num | .bool => [.value]
  | .null => []
  | .add | .sub | .mul | .div | .eq | .ne | .gt | .lt | .ge | .le | .and | .or => [.left, .right]
  | .concat => [.sep, .args]
  | .upper | .lower | .trim | .not | .year | .month | .day => [.input]
  | .substring => [.input, .start, .length]
  | .contains => [.input, .pattern]
  | .fromUnix => [.input, .unit]
  | .ifElse => [.cond, .thenBranch, .elseBranch]
  | .coalesce => [.args]
  | .parseDate => [.input, .format]
  | .dimRef => [.dimId, .value, .input]
  | .cast => [.input, .target]

/-- How many of its fields an array holds at least: the last one may be missing where it has a
default. -/
def AstKind.least : AstKind → Nat
  | .fromUnix => 1
  | kind => kind.fields.length

/-- The member that holds the name of the constructor. -/
def kindName : Text := "kind".toList

/-- The name of a target. -/
def CastType.tag : CastType → Text
  | .int64 => "int64".toList
  | .float64 => "float64".toList
  | .string => "string".toList
  | .date => "date".toList

/-- The target of a name. -/
def CastType.ofTag (tag : Text) : Option CastType :=
  [CastType.int64, .float64, .string, .date].find? (fun target => target.tag = tag)

/-- The constructor of a node. -/
def AstNode.kind : AstNode → AstKind
  | .col _ => .col
  | .str _ => .str
  | .num _ => .num
  | .bool _ => .bool
  | .null => .null
  | .add _ _ => .add
  | .sub _ _ => .sub
  | .mul _ _ => .mul
  | .div _ _ => .div
  | .concat _ _ => .concat
  | .upper _ => .upper
  | .lower _ => .lower
  | .trim _ => .trim
  | .substring _ _ _ => .substring
  | .eq _ _ => .eq
  | .ne _ _ => .ne
  | .gt _ _ => .gt
  | .lt _ _ => .lt
  | .ge _ _ => .ge
  | .le _ _ => .le
  | .contains _ _ => .contains
  | .fromUnix _ _ => .fromUnix
  | .and _ _ => .and
  | .or _ _ => .or
  | .not _ => .not
  | .ifElse _ _ _ => .ifElse
  | .coalesce _ => .coalesce
  | .parseDate _ _ => .parseDate
  | .dimRef _ _ _ => .dimRef
  | .year _ => .year
  | .month _ => .month
  | .day _ => .day
  | .cast _ _ => .cast

/-- Every constructor is found by its name. -/
theorem AstKind.ofTag_tag (kind : AstKind) : AstKind.ofTag kind.tag = some kind := by
  cases kind <;> decide +kernel

/-- Different constructors have different names. -/
theorem AstKind.tag_injective : Function.Injective AstKind.tag := by
  intro first second same
  have found := AstKind.ofTag_tag first
  rw [same, AstKind.ofTag_tag] at found
  exact (Option.some.inj found).symm

/-- Different fields have different names. -/
theorem AstField.key_injective : Function.Injective AstField.key := by
  have distinct : (AstField.all.map AstField.key).Nodup := by decide +kernel
  have complete : ∀ field, field ∈ AstField.all := by
    intro field
    cases field <;> decide
  exact fun first second same =>
    List.inj_on_of_nodup_map distinct (complete first) (complete second) same

/-- No field is written under the name of the constructor's. -/
theorem AstField.key_ne_kind (field : AstField) : field.key ≠ kindName := by
  cases field <;> decide +kernel

/-- Every target is found by its name. -/
theorem CastType.ofTag_tag (target : CastType) : CastType.ofTag target.tag = some target := by
  cases target <;> decide +kernel

/-! ## Encoding -/

/-- The object of a node: its constructor, then its fields. -/
def tagged (kind : AstKind) (fields : List (AstField × Value)) : Value :=
  .object ((kindName, .string kind.tag) :: members AstField.key fields)

mutual

/-- An expression as JSON. -/
def encodeAst : AstNode → Value
  | .col name => tagged .col [(.name, .string name)]
  | .str value => tagged .str [(.value, .string value)]
  | .num value => tagged .num [(.value, writeFloat value)]
  | .bool value => tagged .bool [(.value, .bool value)]
  | .null => tagged .null []
  | .add left right => tagged .add [(.left, encodeAst left), (.right, encodeAst right)]
  | .sub left right => tagged .sub [(.left, encodeAst left), (.right, encodeAst right)]
  | .mul left right => tagged .mul [(.left, encodeAst left), (.right, encodeAst right)]
  | .div left right => tagged .div [(.left, encodeAst left), (.right, encodeAst right)]
  | .concat sep args => tagged .concat [(.sep, .string sep), (.args, .array (encodeArgs args))]
  | .upper input => tagged .upper [(.input, encodeAst input)]
  | .lower input => tagged .lower [(.input, encodeAst input)]
  | .trim input => tagged .trim [(.input, encodeAst input)]
  | .substring input start length =>
    tagged .substring [(.input, encodeAst input), (.start, writeInteger start),
      (.length, writeOptional writeInteger length)]
  | .eq left right => tagged .eq [(.left, encodeAst left), (.right, encodeAst right)]
  | .ne left right => tagged .ne [(.left, encodeAst left), (.right, encodeAst right)]
  | .gt left right => tagged .gt [(.left, encodeAst left), (.right, encodeAst right)]
  | .lt left right => tagged .lt [(.left, encodeAst left), (.right, encodeAst right)]
  | .ge left right => tagged .ge [(.left, encodeAst left), (.right, encodeAst right)]
  | .le left right => tagged .le [(.left, encodeAst left), (.right, encodeAst right)]
  | .contains input pattern =>
    tagged .contains [(.input, encodeAst input), (.pattern, encodeAst pattern)]
  | .fromUnix input unit =>
    tagged .fromUnix [(.input, encodeAst input), (.unit, writeOptional .string unit)]
  | .and left right => tagged .and [(.left, encodeAst left), (.right, encodeAst right)]
  | .or left right => tagged .or [(.left, encodeAst left), (.right, encodeAst right)]
  | .not input => tagged .not [(.input, encodeAst input)]
  | .ifElse cond thenBranch elseBranch =>
    tagged .ifElse [(.cond, encodeAst cond), (.thenBranch, encodeAst thenBranch),
      (.elseBranch, encodeAst elseBranch)]
  | .coalesce args => tagged .coalesce [(.args, .array (encodeArgs args))]
  | .parseDate input format =>
    tagged .parseDate [(.input, encodeAst input), (.format, .string format)]
  | .dimRef dimId value input =>
    tagged .dimRef [(.dimId, .string dimId), (.value, writeOptional .string value),
      (.input, encodeAst input)]
  | .year input => tagged .year [(.input, encodeAst input)]
  | .month input => tagged .month [(.input, encodeAst input)]
  | .day input => tagged .day [(.input, encodeAst input)]
  | .cast input target =>
    tagged .cast [(.input, encodeAst input), (.target, .string target.tag)]

/-- The arguments of a call. -/
def encodeArgs : List AstNode → List Value
  | [] => []
  | arg :: rest => encodeAst arg :: encodeArgs rest

end

/-! ## Decoding -/

/-- The fields of an object as a node reads them: as they are, as an expression, and as a
list of expressions. -/
structure Fields where
  raw : AstField → Option Value
  node : AstField → Option AstNode
  nodes : AstField → Option (List AstNode)

section Fields

variable (fields : Fields)

/-- A text that must be there. -/
def Fields.text (field : AstField) : Option Text := (fields.raw field).bind readText

/-- A text that may be missing. -/
def Fields.optionalText (field : AstField) : Option (Option Text) :=
  readOptional readText (fields.raw field)

/-- A node over one expression. -/
def Fields.unary (make : AstNode → AstNode) : Option AstNode := do
  let input ← fields.node .input
  return make input

/-- A node over two expressions. -/
def Fields.binary (make : AstNode → AstNode → AstNode) : Option AstNode := do
  let left ← fields.node .left
  let right ← fields.node .right
  return make left right

/-- A target is written as its name, or as an object with nothing under it. -/
def readCastType : Value → Option CastType
  | .string tag => CastType.ofTag tag
  | .object [(tag, .null)] => CastType.ofTag tag
  | .object [(tag, .object [])] => CastType.ofTag tag
  | _ => none

/-- The node of a constructor from its fields. -/
def readNode (ofInteger : Int → BitVec 64) : AstKind → Option AstNode
  | .col => do return .col (← fields.text .name)
  | .str => do return .str (← fields.text .value)
  | .num => do return .num (← (fields.raw .value).bind (readFloat ofInteger))
  | .bool => do return .bool (← (fields.raw .value).bind readBool)
  | .null => some .null
  | .add => fields.binary .add
  | .sub => fields.binary .sub
  | .mul => fields.binary .mul
  | .div => fields.binary .div
  | .concat => do return .concat (← fields.text .sep) (← fields.nodes .args)
  | .upper => fields.unary .upper
  | .lower => fields.unary .lower
  | .trim => fields.unary .trim
  | .substring => do
    let input ← fields.node .input
    let start ← (fields.raw .start).bind readInteger
    return .substring input start (← readOptional readInteger (fields.raw .length))
  | .eq => fields.binary .eq
  | .ne => fields.binary .ne
  | .gt => fields.binary .gt
  | .lt => fields.binary .lt
  | .ge => fields.binary .ge
  | .le => fields.binary .le
  | .contains => do return .contains (← fields.node .input) (← fields.node .pattern)
  | .fromUnix => do return .fromUnix (← fields.node .input) (← fields.optionalText .unit)
  | .and => fields.binary .and
  | .or => fields.binary .or
  | .not => fields.unary .not
  | .ifElse => do
    let cond ← fields.node .cond
    let thenBranch ← fields.node .thenBranch
    return .ifElse cond thenBranch (← fields.node .elseBranch)
  | .coalesce => do return .coalesce (← fields.nodes .args)
  | .parseDate => do return .parseDate (← fields.node .input) (← fields.text .format)
  | .dimRef => do
    let dimId ← fields.text .dimId
    let value ← fields.optionalText .value
    return .dimRef dimId value (← fields.node .input)
  | .year => fields.unary .year
  | .month => fields.unary .month
  | .day => fields.unary .day
  | .cast => do return .cast (← fields.node .input) (← (fields.raw .target).bind readCastType)

end Fields

/-- The constructor of a tag: its name, or its place among the constructors. -/
def readKind : Value → Option AstKind
  | .string tag => AstKind.ofTag tag
  | .number (.integer place) => if 0 ≤ place then AstKind.all[place.toNat]? else none
  | _ => none

/-- The tag of a node is its name. -/
def tagIsText : Value → Bool
  | .object members =>
    match members.lookup kindName with
    | some (.string _) => true
    | _ => false
  | .array (.string _ :: _) => true
  | _ => false

section Decode

variable (ofInteger : Int → BitVec 64)

mutual

/-- An expression within another one, from the JSON that was kept aside: an object, or an array
of the tag and the fields. -/
def decodeBuffered : Value → Option AstNode
  | .object members =>
    let decoded := decodeMembers members
    ((members.lookup kindName).bind readKind).bind (readNode {
      raw := fun field => members.lookup field.key
      node := fun field => (decoded.lookup field.key).bind Prod.fst
      nodes := fun field => (decoded.lookup field.key).bind Prod.snd } ofInteger)
  | .array (tag :: elements) =>
    let decoded := decodePlaces elements
    (readKind tag).bind (fun kind =>
      if kind.least ≤ elements.length ∧ elements.length ≤ kind.fields.length then
        readNode {
          raw := fun field => (kind.fields.zip elements).lookup field
          node := fun field => ((kind.fields.zip decoded).lookup field).bind Prod.fst
          nodes := fun field => ((kind.fields.zip decoded).lookup field).bind Prod.snd } ofInteger kind
      else none)
  | _ => none

/-- A list of expressions from JSON. -/
def decodeArgs : Value → Option (List AstNode)
  | .array elements => decodeElements elements
  | _ => none

/-- All elements of an array as expressions. -/
def decodeElements : List Value → Option (List AstNode)
  | [] => some []
  | element :: rest => do return (← decodeBuffered element) :: (← decodeElements rest)

/-- Every member of an object as an expression and as a list of expressions. -/
def decodeMembers : List (Text × Value) → List (Text × Option AstNode × Option (List AstNode))
  | [] => []
  | (key, value) :: rest => (key, decodeBuffered value, decodeArgs value) :: decodeMembers rest

/-- Every element of an array as an expression and as a list of expressions. -/
def decodePlaces : List Value → List (Option AstNode × Option (List AstNode))
  | [] => []
  | element :: rest => (decodeBuffered element, decodeArgs element) :: decodePlaces rest

end

/-- An expression from JSON. The tag of the outermost node is read from the document itself, where
only a name will do. -/
def decodeAst (json : Value) : Option AstNode := if tagIsText json then decodeBuffered ofInteger json else none

/-- Arrays, and a place for the tag of an inner node. -/
example : (decodeAst (fun _ => 0) (.array [.string "upper".toList, .array [.number (.integer 0),
    .string "a".toList]])).map (fun tree => (walkAst tree).map AstNode.kind) =
      some [.upper, .col] := by
  decide +kernel

/-! ## Round trip -/

/-- The fields a decoder finds in the object of a node. -/
def written (fields : List (AstField × Value)) : Fields where
  raw field := fields.lookup field
  node field := (fields.lookup field).bind (decodeBuffered ofInteger)
  nodes field := (fields.lookup field).bind (decodeArgs ofInteger)

/-- Decoding the members of an object decodes the member of each key. -/
theorem lookup_decodeMembers (key : Text) (members : List (Text × Value)) :
    (decodeMembers ofInteger members).lookup key = (members.lookup key).map (fun value =>
      (decodeBuffered ofInteger value, decodeArgs ofInteger value)) := by
  induction members with
  | nil => rfl
  | cons member rest inductionHypothesis =>
    obtain ⟨other, value⟩ := member
    simp only [decodeMembers, List.lookup_cons, inductionHypothesis]
    split <;> rfl

/-- The object of a node is read through its constructor and its fields. -/
theorem decodeBuffered_tagged (kind : AstKind) (fields : List (AstField × Value)) :
    decodeBuffered ofInteger (tagged kind fields) =
      readNode (written ofInteger fields) ofInteger kind := by
  have found : ∀ field : AstField, (((kindName, Value.string kind.tag) ::
      members AstField.key fields).lookup field.key) = fields.lookup field := by
    intro field
    have differs : (field.key == kindName) = false := beq_eq_false_iff_ne.mpr field.key_ne_kind
    simp only [List.lookup_cons, differs]
    exact lookup_members AstField.key_injective field fields
  have isKind : ((((kindName, Value.string kind.tag) ::
      members AstField.key fields).lookup kindName).bind readKind) = some kind := by
    rw [List.lookup_cons, beq_self_eq_true, Option.bind_some, readKind]
    exact kind.ofTag_tag
  simp only [tagged, decodeBuffered, isKind, Option.bind_some, lookup_decodeMembers, found, written,
    Option.bind_map]
  rfl

/-- A literal that a value can hold: numerals are finite and integers have 64 bits. -/
def AstNode.Literal : AstNode → Prop
  | .num value => Finite value
  | .substring _ start length => Signed start ∧ ∀ characters, length = some characters → Signed characters
  | _ => True

instance : DecidablePred AstNode.Literal
  | .num value => inferInstanceAs (Decidable (Finite value))
  | .substring _ start none => decidable_of_iff (Signed start) (by simp [AstNode.Literal])
  | .substring _ start (some length) =>
    decidable_of_iff (Signed start ∧ Signed length) (by simp [AstNode.Literal])
  | .col _ | .str _ | .bool _ | .null | .add _ _ | .sub _ _ | .mul _ _ | .div _ _ | .concat _ _
  | .upper _ | .lower _ | .trim _ | .eq _ _ | .ne _ _ | .gt _ _ | .lt _ _ | .ge _ _ | .le _ _
  | .contains _ _ | .fromUnix _ _ | .and _ _ | .or _ _ | .not _ | .ifElse _ _ _ | .coalesce _
  | .parseDate _ _ | .dimRef _ _ _ | .year _ | .month _ | .day _ | .cast _ _ => isTrue trivial

/-- A tree with such literals only is read back. -/
def ReadsBack (tree : AstNode) : Prop :=
  (∀ node ∈ walkAst tree, node.Literal) → decodeBuffered ofInteger (encodeAst tree) = some tree

variable {ofInteger}

/-- A node without subtrees reads back if its literal does. -/
theorem readsBack_leaf {kind : AstKind} {fields : List (AstField × Value)} {tree : AstNode}
    (encodes : encodeAst tree = tagged kind fields)
    (reads : tree.Literal → readNode (written ofInteger fields) ofInteger kind = some tree)
    (walks : walkAst tree = [tree]) : ReadsBack ofInteger tree := by
  intro literals
  rw [encodes, decodeBuffered_tagged]
  exact reads (literals tree (walks ▸ List.mem_singleton_self tree))

/-- A node over one tree reads back if that tree does. -/
theorem readsBack_unary {kind : AstKind} {make : AstNode → AstNode} {input : AstNode}
    (encodes : encodeAst (make input) = tagged kind [(.input, encodeAst input)])
    (reads : ∀ fields, readNode fields ofInteger kind = fields.unary make)
    (walks : walkAst (make input) = make input :: walkAst input)
    (readsInput : ReadsBack ofInteger input) : ReadsBack ofInteger (make input) := by
  intro literals
  rw [walks, List.forall_mem_cons] at literals
  have decodes := readsInput literals.2
  rw [encodes, decodeBuffered_tagged, reads]
  simp [Fields.unary, written, decodes]

/-- A node over two trees reads back if both do. -/
theorem readsBack_binary {kind : AstKind} {make : AstNode → AstNode → AstNode}
    {left right : AstNode}
    (encodes : encodeAst (make left right) =
      tagged kind [(.left, encodeAst left), (.right, encodeAst right)])
    (reads : ∀ fields, readNode fields ofInteger kind = fields.binary make)
    (walks : walkAst (make left right) = make left right :: (walkAst left ++ walkAst right))
    (readsLeft : ReadsBack ofInteger left) (readsRight : ReadsBack ofInteger right) :
    ReadsBack ofInteger (make left right) := by
  intro literals
  rw [walks, List.forall_mem_cons, List.forall_mem_append] at literals
  have decodesLeft := readsLeft literals.2.1
  have decodesRight := readsRight literals.2.2
  rw [encodes, decodeBuffered_tagged, reads]
  simp [Fields.binary, written, List.lookup_cons, beq_eq_decide, decodesLeft, decodesRight]

/-- An optional text is read back. -/
theorem optionalText_write (text : Option Text) :
    readOptional readText (some (writeOptional .string text)) = some text :=
  readOptional_write (fun _ _ => ⟨(fun impossible => nomatch impossible), rfl⟩)

mutual

/-- A tree whose numerals are finite is read back. -/
theorem decode_encode : (tree : AstNode) → ReadsBack ofInteger tree
  | .col _ => readsBack_leaf rfl (fun _ => rfl) rfl
  | .str _ => readsBack_leaf rfl (fun _ => rfl) rfl
  | .num value => readsBack_leaf rfl (fun finite => by
      simp [readNode, written, readFloat_write (show Finite value from finite)]) rfl
  | .bool _ => readsBack_leaf rfl (fun _ => rfl) rfl
  | .null => readsBack_leaf rfl (fun _ => rfl) rfl
  | .add left right =>
    readsBack_binary rfl (fun _ => rfl) rfl (decode_encode left) (decode_encode right)
  | .sub left right =>
    readsBack_binary rfl (fun _ => rfl) rfl (decode_encode left) (decode_encode right)
  | .mul left right =>
    readsBack_binary rfl (fun _ => rfl) rfl (decode_encode left) (decode_encode right)
  | .div left right =>
    readsBack_binary rfl (fun _ => rfl) rfl (decode_encode left) (decode_encode right)
  | .eq left right =>
    readsBack_binary rfl (fun _ => rfl) rfl (decode_encode left) (decode_encode right)
  | .ne left right =>
    readsBack_binary rfl (fun _ => rfl) rfl (decode_encode left) (decode_encode right)
  | .gt left right =>
    readsBack_binary rfl (fun _ => rfl) rfl (decode_encode left) (decode_encode right)
  | .lt left right =>
    readsBack_binary rfl (fun _ => rfl) rfl (decode_encode left) (decode_encode right)
  | .ge left right =>
    readsBack_binary rfl (fun _ => rfl) rfl (decode_encode left) (decode_encode right)
  | .le left right =>
    readsBack_binary rfl (fun _ => rfl) rfl (decode_encode left) (decode_encode right)
  | .and left right =>
    readsBack_binary rfl (fun _ => rfl) rfl (decode_encode left) (decode_encode right)
  | .or left right =>
    readsBack_binary rfl (fun _ => rfl) rfl (decode_encode left) (decode_encode right)
  | .upper input => readsBack_unary rfl (fun _ => rfl) rfl (decode_encode input)
  | .lower input => readsBack_unary rfl (fun _ => rfl) rfl (decode_encode input)
  | .trim input => readsBack_unary rfl (fun _ => rfl) rfl (decode_encode input)
  | .not input => readsBack_unary rfl (fun _ => rfl) rfl (decode_encode input)
  | .year input => readsBack_unary rfl (fun _ => rfl) rfl (decode_encode input)
  | .month input => readsBack_unary rfl (fun _ => rfl) rfl (decode_encode input)
  | .day input => readsBack_unary rfl (fun _ => rfl) rfl (decode_encode input)
  | .concat sep args => by
    intro literals
    simp only [walkAst, List.forall_mem_cons] at literals
    rw [encodeAst, decodeBuffered_tagged]
    simp [readNode, written, List.lookup_cons, beq_eq_decide, Fields.text, readText, decodeArgs,
      decode_encodeArgs args literals.2]
  | .coalesce args => by
    intro literals
    simp only [walkAst, List.forall_mem_cons] at literals
    rw [encodeAst, decodeBuffered_tagged]
    simp [readNode, written, decodeArgs, decode_encodeArgs args literals.2]
  | .substring input start length => by
    intro literals
    simp only [walkAst, List.forall_mem_cons] at literals
    obtain ⟨⟨signedStart, signedLength⟩, inputLiterals⟩ := literals
    have lengthRead : readOptional readInteger (some (writeOptional writeInteger length)) =
        some length := by
      refine readOptional_write
        (fun characters present => ⟨(fun impossible => nomatch impossible), ?_⟩)
      exact readInteger_write (signedLength characters present)
    rw [encodeAst, decodeBuffered_tagged]
    simp [readNode, written, List.lookup_cons, beq_eq_decide, decode_encode input inputLiterals,
      readInteger_write signedStart, lengthRead]
  | .contains input pattern => by
    intro literals
    simp only [walkAst, List.forall_mem_cons, List.forall_mem_append] at literals
    rw [encodeAst, decodeBuffered_tagged]
    simp [readNode, written, List.lookup_cons, beq_eq_decide, decode_encode input literals.2.1,
      decode_encode pattern literals.2.2]
  | .fromUnix input unit => by
    intro literals
    simp only [walkAst, List.forall_mem_cons] at literals
    rw [encodeAst, decodeBuffered_tagged]
    simp [readNode, written, List.lookup_cons, beq_eq_decide, Fields.optionalText,
      optionalText_write, decode_encode input literals.2]
  | .ifElse cond thenBranch elseBranch => by
    intro literals
    simp only [walkAst, List.forall_mem_cons, List.forall_mem_append] at literals
    obtain ⟨-, ⟨condLiterals, thenLiterals⟩, elseLiterals⟩ := literals
    rw [encodeAst, decodeBuffered_tagged]
    simp [readNode, written, List.lookup_cons, beq_eq_decide, decode_encode cond condLiterals,
      decode_encode thenBranch thenLiterals, decode_encode elseBranch elseLiterals]
  | .parseDate input format => by
    intro literals
    simp only [walkAst, List.forall_mem_cons] at literals
    rw [encodeAst, decodeBuffered_tagged]
    simp [readNode, written, List.lookup_cons, beq_eq_decide, Fields.text, readText,
      decode_encode input literals.2]
  | .dimRef dimId value input => by
    intro literals
    simp only [walkAst, List.forall_mem_cons] at literals
    rw [encodeAst, decodeBuffered_tagged]
    simp [readNode, written, List.lookup_cons, beq_eq_decide, Fields.text, Fields.optionalText,
      readText, optionalText_write, decode_encode input literals.2]
  | .cast input target => by
    intro literals
    simp only [walkAst, List.forall_mem_cons] at literals
    rw [encodeAst, decodeBuffered_tagged]
    simp [readNode, written, List.lookup_cons, beq_eq_decide, readCastType, CastType.ofTag_tag,
      decode_encode input literals.2]

/-- The written arguments of a call read back, argument by argument. -/
theorem decode_encodeArgs (args : List AstNode) (literals : ∀ node ∈ walkArgs args, node.Literal) :
    decodeElements ofInteger (encodeArgs args) = some args := by
  cases args with
  | nil => rfl
  | cons arg rest =>
    simp only [walkArgs, List.forall_mem_append] at literals
    rw [encodeArgs, decodeElements, decode_encode arg literals.1, decode_encodeArgs rest literals.2]
    rfl

end

end Decode

/-- The constructor that an encoded node names. -/
theorem readKind_encodeAst (tree : AstNode) : ∃ members, encodeAst tree = .object members ∧
    members.lookup kindName = some (.string tree.kind.tag) := by
  cases tree <;>
    exact ⟨_, by rw [encodeAst, tagged], by rw [List.lookup_cons, beq_self_eq_true]; rfl⟩

/-- An encoded node is read as a whole document as it is within another one. -/
theorem decodeAst_encodeAst (ofInteger : Int → BitVec 64) (tree : AstNode) :
    decodeAst ofInteger (encodeAst tree) = decodeBuffered ofInteger (encodeAst tree) := by
  obtain ⟨members, isObject, isKind⟩ := readKind_encodeAst tree
  rw [decodeAst, isObject]
  simp only [tagIsText, isKind, if_true]

/-- The kind of a node tells its constructor. -/
theorem kind_ctorIdx (tree : AstNode) : tree.kind.ctorIdx = tree.ctorIdx := by
  cases tree <;> rfl

/-- What an encoded node has under a name. -/
def memberOf (name : Text) : Value → Option Value
  | .object members => members.lookup name
  | _ => none

/-- Every tree whose numerals are finite (and whose integers have 64 bits) is read back
from its JSON, and nodes of different constructors have different kinds there. -/
theorem ast_json_round_trip (ofInteger : Int → BitVec 64) :
    (∀ tree : AstNode, (∀ node ∈ walkAst tree, node.Literal) →
      decodeAst ofInteger (encodeAst tree) = some tree) ∧
    (∀ first second : AstNode, first.ctorIdx ≠ second.ctorIdx →
      memberOf kindName (encodeAst first) ≠ memberOf kindName (encodeAst second)) := by
  refine ⟨fun tree literals => (decodeAst_encodeAst ofInteger tree).trans
    (decode_encode tree literals),
    fun first second different same => ?_⟩
  obtain ⟨firstMembers, firstObject, firstKind⟩ := readKind_encodeAst first
  obtain ⟨secondMembers, secondObject, secondKind⟩ := readKind_encodeAst second
  simp only [firstObject, secondObject, memberOf, firstKind, secondKind, Option.some.injEq,
    Value.string.injEq] at same
  have sameKind := AstKind.tag_injective same
  exact different (by rw [← kind_ctorIdx first, sameKind, kind_ctorIdx])

/-- A conditional on a dimension: `if a = 1 then d(a) else 'x'`. -/
def conditional : AstNode :=
  .ifElse (.eq (.col "a".toList) (.num 0x3FF0000000000000#64))
    (.dimRef "d".toList none (.col "a".toList)) (.str "x".toList)

/-- A conditional with a comparison, texts and a number. -/
theorem ast_json_round_trip_conditional :
    decodeAst (fun _ => 0) (encodeAst conditional) = some conditional :=
  (ast_json_round_trip (fun _ => 0)).1 conditional (by decide)

end KaretWorker
