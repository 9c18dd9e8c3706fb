import KaretWorker.Dimensions

/-!
# Compilation of expressions

`compile` of `src/evaluator.rs`. An expression of the target is the tree of calls that
build it; what a data frame engine makes of such a tree is not part of the model.

Compilation can fail at dimension references only. So it succeeds exactly when each
reference that the validator's walk visits resolves in the registry, and the columns of the
result are those of the walk (`compile_sees_walk`).
-/
namespace KaretWorker

open Texts

/-- The literals of compiled expressions. -/
inductive Literal where
  | text (value : Text)
  | float (bits : BitVec 64)
  | int (value : Int)
  | bool (value : Bool)
  | null
  deriving DecidableEq, Repr

/-- The binary operators of compiled expressions. -/
inductive Operator where
  | plus
  | minus
  | multiply
  | divide
  | eq
  | notEq
  | gt
  | lt
  | gtEq
  | ltEq
  | and
  | or
  deriving DecidableEq, Repr

/-- The types that a compiled expression casts to. -/
inductive DataType where
  | int64
  | float64
  | string
  | date
  | datetimeMillis
  deriving DecidableEq, Repr

/-- An expression, by the calls that build it. -/
inductive Expr where
  | col (name : Text)
  | lit (value : Literal)
  | binary (operator : Operator) (left right : Expr)
  | not (input : Expr)
  | containsLiteral (input pattern : Expr)
  | cast (input : Expr) (target : DataType)
  | toUppercase (input : Expr)
  | toLowercase (input : Expr)
  | stripChars (input chars : Expr)
  | slice (input offset length : Expr)
  | concatStr (args : List Expr) (separator : Text) (ignoreNulls : Bool)
  | ternary (cond thenBranch elseBranch : Expr)
  | coalesce (args : List Expr)
  | year (input : Expr)
  | month (input : Expr)
  | day (input : Expr)
  | toDate (input : Expr) (format : Text) (strict : Bool)
  | lookup (matcher : DimensionMatcher) (valueIndex : Nat) (input : Expr)

/-- Failure while compiling an expression. -/
inductive EvalError where
  | unknownDimension (id : Text)
  | unknownDimensionValue (id value : Text)
  deriving DecidableEq, Repr

/-- The bits of the literal `1000.0`. -/
def millisPerSecond : BitVec 64 := 0x408F400000000000#64

/-- The type a cast asks for. -/
def CastType.dataType : CastType → DataType
  | .int64 => .int64
  | .float64 => .float64
  | .string => .string
  | .date => .date

/-! ## Compilation -/

/-- A call on one compiled operand. -/
def unary (call : Expr → Expr) (operand : Except EvalError Expr) : Except EvalError Expr := do
  let input ← operand
  pure (call input)

/-- A call on two compiled operands; the first failure is the error. -/
def binary (call : Expr → Expr → Expr) (first second : Except EvalError Expr) :
    Except EvalError Expr := do
  let left ← first
  let right ← second
  pure (call left right)

/-- Seconds, or milliseconds if the unit says so, to a date. -/
def fromUnix (unit : Option Text) (input : Expr) : Expr :=
  let millis := match unit with
    | some ['m', 's'] => input
    | _ => .binary .multiply input (.lit (.float millisPerSecond))
  .cast (.cast (.cast millis .int64) .datetimeMillis) .date

/-- A substring's length, to the end if there is none. -/
def sliceLength : Option Int → Expr
  | some length => .lit (.int length)
  | none => .lit .null

/-- The matcher a reference names, and the index of its value column. -/
def resolveReference (registry : Registry) (dimId : Text) (value : Option Text) :
    Except EvalError (DimensionMatcher × Nat) :=
  match registry.lookup dimId with
  | none => .error (.unknownDimension dimId)
  | some matcher =>
    match matcher.valueIndex value with
    | none => .error (.unknownDimensionValue dimId (value.getD []))
    | some valueIndex => .ok (matcher, valueIndex)

mutual

/-- Compile a node. -/
def compile (registry : Registry) : AstNode → Except EvalError Expr
  | .col name => pure (.col name)
  | .str value => pure (.lit (.text value))
  | .num value => pure (.lit (.float value))
  | .bool value => pure (.lit (.bool value))
  | .null => pure (.lit .null)
  | .add left right => binary (.binary .plus) (compile registry left) (compile registry right)
  | .sub left right => binary (.binary .minus) (compile registry left) (compile registry right)
  | .mul left right => binary (.binary .multiply) (compile registry left) (compile registry right)
  | .div left right => binary (.binary .divide) (compile registry left) (compile registry right)
  | .eq left right => binary (.binary .eq) (compile registry left) (compile registry right)
  | .ne left right => binary (.binary .notEq) (compile registry left) (compile registry right)
  | .gt left right => binary (.binary .gt) (compile registry left) (compile registry right)
  | .lt left right => binary (.binary .lt) (compile registry left) (compile registry right)
  | .ge left right => binary (.binary .gtEq) (compile registry left) (compile registry right)
  | .le left right => binary (.binary .ltEq) (compile registry left) (compile registry right)
  | .contains input pattern =>
    binary .containsLiteral (compile registry input) (compile registry pattern)
  | .fromUnix input unit => unary (fromUnix unit) (compile registry input)
  | .and left right => binary (.binary .and) (compile registry left) (compile registry right)
  | .or left right => binary (.binary .or) (compile registry left) (compile registry right)
  | .not input => unary .not (compile registry input)
  | .upper input => unary .toUppercase (compile registry input)
  | .lower input => unary .toLowercase (compile registry input)
  | .trim input => unary (fun input => .stripChars input (.lit .null)) (compile registry input)
  | .substring input start length =>
    unary (fun input => .slice input (.lit (.int start)) (sliceLength length)) (compile registry input)
  | .concat sep args => do
    let args ← compileArgs registry args
    pure (.concatStr args sep true)
  | .ifElse cond thenBranch elseBranch => do
    let cond ← compile registry cond
    binary (.ternary cond) (compile registry thenBranch) (compile registry elseBranch)
  | .coalesce args =>
    if args.isEmpty then pure (.lit .null)
    else do
      let args ← compileArgs registry args
      pure (.coalesce args)
  | .cast input target => unary (fun input => .cast input target.dataType) (compile registry input)
  | .year input => unary (fun input => .cast (.year input) .int64) (compile registry input)
  | .month input => unary (fun input => .cast (.month input) .int64) (compile registry input)
  | .day input => unary (fun input => .cast (.day input) .int64) (compile registry input)
  | .parseDate input format => unary (fun input => .toDate input format false) (compile registry input)
  | .dimRef dimId value input => do
    let (matcher, valueIndex) ← resolveReference registry dimId value
    unary (.lookup matcher valueIndex) (compile registry input)

/-- Compile the arguments of a call in order. -/
def compileArgs (registry : Registry) : List AstNode → Except EvalError (List Expr)
  | [] => pure []
  | arg :: rest => do
    let arg ← compile registry arg
    let rest ← compileArgs registry rest
    pure (arg :: rest)

end

/-! ## The columns of an expression -/

mutual

/-- The columns an expression reads, from left to right. -/
def Expr.columnNames : Expr → List Text
  | .col name => [name]
  | .lit _ => []
  | .binary _ left right => left.columnNames ++ right.columnNames
  | .containsLiteral input pattern => input.columnNames ++ pattern.columnNames
  | .stripChars input chars => input.columnNames ++ chars.columnNames
  | .slice input offset length => input.columnNames ++ offset.columnNames ++ length.columnNames
  | .concatStr args _ _ => columnNamesOf args
  | .coalesce args => columnNamesOf args
  | .ternary cond thenBranch elseBranch =>
    cond.columnNames ++ thenBranch.columnNames ++ elseBranch.columnNames
  | .not input => input.columnNames
  | .cast input _ => input.columnNames
  | .toUppercase input => input.columnNames
  | .toLowercase input => input.columnNames
  | .year input => input.columnNames
  | .month input => input.columnNames
  | .day input => input.columnNames
  | .toDate input _ _ => input.columnNames
  | .lookup _ _ input => input.columnNames

/-- The columns that a list of expressions reads, in order. -/
def columnNamesOf : List Expr → List Text
  | [] => []
  | arg :: rest => arg.columnNames ++ columnNamesOf rest

end

/-- The column a node names itself. -/
def AstNode.ownColumn : AstNode → List Text
  | .col name => [name]
  | _ => []

/-- A node is no dimension reference, or it resolves in the registry. -/
def AstNode.Resolved (registry : Registry) : AstNode → Prop
  | .dimRef dimId value _ => ∃ matcher, registry.lookup dimId = some matcher ∧
      ∀ column, value = some column → column ∈ matcher.valueColumns
  | _ => True

/-- Conversion from a timestamp reads the columns of its input. -/
theorem fromUnix_columnNames (unit : Option Text) (input : Expr) :
    (fromUnix unit input).columnNames = input.columnNames := by
  simp only [fromUnix, Expr.columnNames]
  split
  · rfl
  · exact List.append_nil _

/-- A substring reads the columns of its input: its bounds are literals. -/
theorem slice_columnNames (start : Int) (length : Option Int) (input : Expr) :
    (Expr.slice input (.lit (.int start)) (sliceLength length)).columnNames =
    input.columnNames := by
  cases length <;> simp only [sliceLength, Expr.columnNames, List.append_nil]

/-! ## What compilation does to the nodes of a walk -/

/-- Compilation of nodes: it succeeds exactly when all of them resolve, and the result
reads the columns they name, in their order. -/
structure Agrees {γ : Type} (registry : Registry) (nodes : List AstNode) (columns : γ → List Text)
    (result : Except EvalError γ) : Prop where
  succeeds : (∃ compiled, result = .ok compiled) ↔ ∀ node ∈ nodes, node.Resolved registry
  columns : ∀ compiled, result = .ok compiled → columns compiled = nodes.flatMap AstNode.ownColumn

section Agreement

variable {registry : Registry} {node : AstNode} {nodes others : List AstNode}

/-- A node that is not compiled further. -/
theorem agrees_leaf {expr : Expr} (resolved : node.Resolved registry)
    (own : expr.columnNames = node.ownColumn) :
    Agrees registry [node] Expr.columnNames (pure expr) := by
  refine ⟨⟨fun _ => by simpa using resolved, fun _ => ⟨expr, rfl⟩⟩, ?_⟩
  intro compiled same
  rw [← Except.ok.inj same, own, List.flatMap_singleton]

/-- A call on what other nodes compile to, made by a node that names no column. -/
theorem agrees_call {γ δ : Type} {call : γ → δ} {columns : γ → List Text} {columns' : δ → List Text}
    {operand : Except EvalError γ} (resolved : node.Resolved registry)
    (none : node.ownColumn = []) (same : ∀ input, columns' (call input) = columns input)
    (agrees : Agrees registry nodes columns operand) :
    Agrees registry (node :: nodes) columns' (do let input ← operand; pure (call input)) := by
  have succeeds := agrees.succeeds
  have reads := agrees.columns
  constructor
  · rw [List.forall_mem_cons, and_iff_right resolved, ← succeeds]
    cases operand with
    | error error => exact ⟨fun ⟨_, impossible⟩ => (nomatch impossible),
        fun ⟨_, impossible⟩ => nomatch impossible⟩
    | ok input => exact ⟨fun _ => ⟨input, rfl⟩, fun _ => ⟨call input, rfl⟩⟩
  · intro compiled isCompiled
    cases operand with
    | error error => exact nomatch isCompiled
    | ok input =>
      rw [← Except.ok.inj isCompiled, same, reads input rfl, List.flatMap_cons, none,
        List.nil_append]

/-- Two compilations, one after the other. -/
theorem agrees_pair {γ δ ε : Type} {call : γ → δ → ε} {firstColumns : γ → List Text}
    {secondColumns : δ → List Text} {columns : ε → List Text} {first : Except EvalError γ}
    {second : Except EvalError δ}
    (same : ∀ left right, columns (call left right) = firstColumns left ++ secondColumns right)
    (firstAgrees : Agrees registry nodes firstColumns first)
    (secondAgrees : Agrees registry others secondColumns second) :
    Agrees registry (nodes ++ others) columns
      (do let left ← first; let right ← second; pure (call left right)) := by
  constructor
  · rw [List.forall_mem_append, ← firstAgrees.succeeds, ← secondAgrees.succeeds]
    cases first with
    | error error => exact ⟨fun ⟨_, impossible⟩ => (nomatch impossible),
        fun ⟨⟨_, impossible⟩, _⟩ => nomatch impossible⟩
    | ok left =>
      cases second with
      | error error => exact ⟨fun ⟨_, impossible⟩ => (nomatch impossible),
          fun ⟨_, _, impossible⟩ => nomatch impossible⟩
      | ok right => exact ⟨fun _ => ⟨⟨left, rfl⟩, right, rfl⟩, fun _ => ⟨call left right, rfl⟩⟩
  · intro compiled isCompiled
    cases first with
    | error error => exact nomatch isCompiled
    | ok left =>
      cases second with
      | error error => exact nomatch isCompiled
      | ok right =>
        rw [← Except.ok.inj isCompiled, same, firstAgrees.columns left rfl,
          secondAgrees.columns right rfl, List.flatMap_append]

/-- A node that makes a call on two operands. -/
theorem agrees_binary {call : Expr → Expr → Expr} {first second : Except EvalError Expr}
    (resolved : node.Resolved registry) (none : node.ownColumn = [])
    (same : ∀ left right, (call left right).columnNames = left.columnNames ++ right.columnNames)
    (firstAgrees : Agrees registry nodes Expr.columnNames first)
    (secondAgrees : Agrees registry others Expr.columnNames second) :
    Agrees registry (node :: (nodes ++ others)) Expr.columnNames (binary call first second) := by
  have pair : Agrees registry (nodes ++ others)
      (fun operands : Expr × Expr => operands.1.columnNames ++ operands.2.columnNames)
      (do let left ← first; let right ← second; pure (left, right)) :=
    agrees_pair (fun _ _ => rfl) firstAgrees secondAgrees
  have called : Agrees registry (node :: (nodes ++ others)) Expr.columnNames (do
      let operands ← (do let left ← first; let right ← second; pure (left, right))
      pure (call operands.1 operands.2)) :=
    agrees_call resolved none (fun operands => same operands.1 operands.2) pair
  cases first <;> cases second <;> exact called

/-- A conditional. -/
theorem agrees_ternary {cond thenBranch elseBranch : AstNode} {last : List AstNode}
    {condition first second : Except EvalError Expr}
    (condAgrees : Agrees registry nodes Expr.columnNames condition)
    (firstAgrees : Agrees registry others Expr.columnNames first)
    (secondAgrees : Agrees registry last Expr.columnNames second) :
    Agrees registry (.ifElse cond thenBranch elseBranch :: (nodes ++ others ++ last))
      Expr.columnNames (do let cond ← condition; binary (.ternary cond) first second) := by
  have pair : Agrees registry (nodes ++ others)
      (fun operands : Expr × Expr => operands.1.columnNames ++ operands.2.columnNames)
      (do let cond ← condition; let left ← first; pure (cond, left)) :=
    agrees_pair (fun _ _ => rfl) condAgrees firstAgrees
  have triple : Agrees registry (nodes ++ others ++ last)
      (fun operands : (Expr × Expr) × Expr => operands.1.1.columnNames ++
        operands.1.2.columnNames ++
        operands.2.columnNames)
      (do
        let operands ← (do let cond ← condition; let left ← first; pure (cond, left))
        let right ← second
        pure (operands, right)) :=
    agrees_pair (fun _ _ => rfl) pair secondAgrees
  have called : Agrees registry (.ifElse cond thenBranch elseBranch :: (nodes ++ others ++ last))
      Expr.columnNames (do
        let operands ← (do
          let operands ← (do let cond ← condition; let left ← first; pure (cond, left))
          let right ← second
          pure (operands, right))
        pure (.ternary operands.1.1 operands.1.2 operands.2)) :=
    agrees_call trivial rfl (fun _ => rfl) triple
  cases condition <;> cases first <;> cases second <;> exact called

/-- A value column has an index exactly when it is declared; no name means the first. -/
theorem valueIndex_some {matcher : DimensionMatcher} {value : Option Text} :
    (∃ valueIndex, matcher.valueIndex value = some valueIndex) ↔
      ∀ column, value = some column → column ∈ matcher.valueColumns := by
  cases value with
  | none => exact ⟨fun _ _ impossible => (nomatch impossible), fun _ => ⟨0, rfl⟩⟩
  | some name =>
    simp only [DimensionMatcher.valueIndex, Option.some.injEq, forall_eq',
      ← Option.isSome_iff_exists,
      List.findIdx?_isSome, List.any_eq_true, decide_eq_true_eq, exists_eq_right]

/-- A reference is found exactly when its node resolves. -/
theorem resolveReference_ok {dimId : Text} {value : Option Text} {input : AstNode} :
    (∃ found, resolveReference registry dimId value = .ok found) ↔
      (AstNode.dimRef dimId value input).Resolved registry := by
  simp only [resolveReference, AstNode.Resolved, ← valueIndex_some]
  cases registry.lookup dimId with
  | none => simp
  | some matcher =>
    cases index : matcher.valueIndex value with
    | none => simp [index]
    | some valueIndex => simp [index]

/-- A dimension reference. -/
theorem agrees_reference {dimId : Text} {value : Option Text} {input : AstNode}
    {operand : Except EvalError Expr} (agrees : Agrees registry nodes Expr.columnNames operand) :
    Agrees registry (.dimRef dimId value input :: nodes) Expr.columnNames (do
      let (matcher, valueIndex) ← resolveReference registry dimId value
      unary (.lookup matcher valueIndex) operand) := by
  have found : (∃ found, resolveReference registry dimId value = .ok found) ↔
      (AstNode.dimRef dimId value input).Resolved registry := resolveReference_ok
  cases reference : resolveReference registry dimId value with
  | error error =>
    rw [reference] at found
    constructor
    · rw [List.forall_mem_cons, ← found]
      exact ⟨fun ⟨_, impossible⟩ => (nomatch impossible),
        fun ⟨⟨_, impossible⟩, _⟩ => nomatch impossible⟩
    · exact fun _ impossible => nomatch impossible
  | ok pair => exact agrees_call (found.mp ⟨pair, reference⟩) rfl (fun _ => rfl) agrees

end Agreement

mutual

/-- Compiling a node agrees with walking it. -/
theorem compile_agrees (registry : Registry) : (node : AstNode) →
    Agrees registry (walkAst node) Expr.columnNames (compile registry node)
  | .col _ => agrees_leaf trivial rfl
  | .str _ => agrees_leaf trivial rfl
  | .num _ => agrees_leaf trivial rfl
  | .bool _ => agrees_leaf trivial rfl
  | .null => agrees_leaf trivial rfl
  | .add left right => agrees_binary trivial rfl (fun _ _ => rfl)
      (compile_agrees registry left) (compile_agrees registry right)
  | .sub left right => agrees_binary trivial rfl (fun _ _ => rfl)
      (compile_agrees registry left) (compile_agrees registry right)
  | .mul left right => agrees_binary trivial rfl (fun _ _ => rfl)
      (compile_agrees registry left) (compile_agrees registry right)
  | .div left right => agrees_binary trivial rfl (fun _ _ => rfl)
      (compile_agrees registry left) (compile_agrees registry right)
  | .eq left right => agrees_binary trivial rfl (fun _ _ => rfl)
      (compile_agrees registry left) (compile_agrees registry right)
  | .ne left right => agrees_binary trivial rfl (fun _ _ => rfl)
      (compile_agrees registry left) (compile_agrees registry right)
  | .gt left right => agrees_binary trivial rfl (fun _ _ => rfl)
      (compile_agrees registry left) (compile_agrees registry right)
  | .lt left right => agrees_binary trivial rfl (fun _ _ => rfl)
      (compile_agrees registry left) (compile_agrees registry right)
  | .ge left right => agrees_binary trivial rfl (fun _ _ => rfl)
      (compile_agrees registry left) (compile_agrees registry right)
  | .le left right => agrees_binary trivial rfl (fun _ _ => rfl)
      (compile_agrees registry left) (compile_agrees registry right)
  | .and left right => agrees_binary trivial rfl (fun _ _ => rfl)
      (compile_agrees registry left) (compile_agrees registry right)
  | .or left right => agrees_binary trivial rfl (fun _ _ => rfl)
      (compile_agrees registry left) (compile_agrees registry right)
  | .contains input pattern => agrees_binary trivial rfl (fun _ _ => rfl)
      (compile_agrees registry input) (compile_agrees registry pattern)
  | .fromUnix input unit => agrees_call trivial rfl (fromUnix_columnNames unit)
      (compile_agrees registry input)
  | .not input => agrees_call trivial rfl (fun _ => rfl) (compile_agrees registry input)
  | .upper input => agrees_call trivial rfl (fun _ => rfl) (compile_agrees registry input)
  | .lower input => agrees_call trivial rfl (fun _ => rfl) (compile_agrees registry input)
  | .trim input =>
      agrees_call trivial rfl (fun _ => List.append_nil _) (compile_agrees registry input)
  | .substring input start length => agrees_call trivial rfl (slice_columnNames start length)
      (compile_agrees registry input)
  | .cast input _ => agrees_call trivial rfl (fun _ => rfl) (compile_agrees registry input)
  | .year input => agrees_call trivial rfl (fun _ => rfl) (compile_agrees registry input)
  | .month input => agrees_call trivial rfl (fun _ => rfl) (compile_agrees registry input)
  | .day input => agrees_call trivial rfl (fun _ => rfl) (compile_agrees registry input)
  | .parseDate input _ => agrees_call trivial rfl (fun _ => rfl) (compile_agrees registry input)
  | .ifElse cond thenBranch elseBranch => agrees_ternary (compile_agrees registry cond)
      (compile_agrees registry thenBranch) (compile_agrees registry elseBranch)
  | .concat _ args => agrees_call trivial rfl (fun _ => rfl) (compileArgs_agrees registry args)
  | .coalesce [] => agrees_leaf trivial rfl
  | .coalesce (first :: rest) => agrees_call trivial rfl (fun _ => rfl)
      (compileArgs_agrees registry (first :: rest))
  | .dimRef _ _ input => agrees_reference (compile_agrees registry input)

/-- A list of arguments compiles exactly if every node walked in it does, with the same columns. -/
theorem compileArgs_agrees (registry : Registry) : (args : List AstNode) →
    Agrees registry (walkArgs args) columnNamesOf (compileArgs registry args)
  | [] => ⟨⟨fun _ _ impossible => (nomatch impossible), fun _ => ⟨[], rfl⟩⟩, fun compiled same => by
      rw [← Except.ok.inj same]
      rfl⟩
  | arg :: rest => agrees_pair (fun _ _ => rfl) (compile_agrees registry arg)
      (compileArgs_agrees registry rest)

end

/-! ## The validator's walk -/

section Walk

variable {registry : Registry} {nodes : List AstNode}

/-- All nodes resolve exactly when the dimension references among them do. -/
theorem resolved_references : (∀ node ∈ nodes, node.Resolved registry) ↔
    ∀ dimId value input, .dimRef dimId value input ∈ nodes →
      ∃ matcher, registry.lookup dimId = some matcher ∧
        ∀ column, value = some column → column ∈ matcher.valueColumns := by
  constructor
  · intro resolved dimId value input member
    exact resolved _ member
  · intro resolves node member
    cases node with
    | dimRef dimId value input => exact resolves dimId value input member
    | _ => trivial

/-- The columns that nodes name are those of the column nodes among them. -/
theorem mem_ownColumns {name : Text} :
    name ∈ nodes.flatMap AstNode.ownColumn ↔ .col name ∈ nodes := by
  rw [List.mem_flatMap]
  constructor
  · rintro ⟨node, member, own⟩
    cases node with
    | col other =>
      rw [List.mem_singleton.mp own]
      exact member
    | _ => exact absurd own List.not_mem_nil
  · intro member
    exact ⟨.col name, member, List.mem_singleton_self name⟩

end Walk

/-- The compiler sees the references of the validator's walk: it succeeds exactly when each
dimension reference of the walk names a dimension of the registry and, if it names a value
column, one of that dimension, and the result reads the columns the walk visits. -/
theorem compile_sees_walk (registry : Registry) (tree : AstNode) :
    ((∃ expr, compile registry tree = .ok expr) ↔
      ∀ dimId value input, .dimRef dimId value input ∈ walkAst tree →
        ∃ matcher, registry.lookup dimId = some matcher ∧
          ∀ column, value = some column → column ∈ matcher.valueColumns) ∧
      ∀ expr, compile registry tree = .ok expr →
        ∀ name, name ∈ expr.columnNames ↔ .col name ∈ walkAst tree := by
  have agrees := compile_agrees registry tree
  constructor
  · rw [agrees.succeeds, resolved_references]
  · intro expr compiled name
    rw [agrees.columns expr compiled, mem_ownColumns]

end KaretWorker
