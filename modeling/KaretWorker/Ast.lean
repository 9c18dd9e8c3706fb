import KaretWorker.Library.Text

/-!
# Mapping expressions

The expression trees of `src/ast.rs`, and the depth-first walk of `src/config.rs` over
them. Every check of the validator looks at the nodes of this walk, one at a time, so
what it establishes of a tree it establishes of each node in `walkAst`.

Numeric literals are kept as their 64 bits: nothing here computes with them.
-/
namespace KaretWorker

open Texts

/-- Target type for a cast. -/
inductive CastType where
  | int64
  | float64
  | string
  | date
  deriving DecidableEq, Repr

/-- A node of a mapping expression. -/
inductive AstNode where
  | col (name : Text)
  | str (value : Text)
  | num (value : BitVec 64)
  | bool (value : Bool)
  | null
  | add (left right : AstNode)
  | sub (left right : AstNode)
  | mul (left right : AstNode)
  | div (left right : AstNode)
  | concat (sep : Text) (args : List AstNode)
  | upper (input : AstNode)
  | lower (input : AstNode)
  | trim (input : AstNode)
  | substring (input : AstNode) (start : Int) (length : Option Int)
  | eq (left right : AstNode)
  | ne (left right : AstNode)
  | gt (left right : AstNode)
  | lt (left right : AstNode)
  | ge (left right : AstNode)
  | le (left right : AstNode)
  | contains (input pattern : AstNode)
  | fromUnix (input : AstNode) (unit : Option Text)
  | and (left right : AstNode)
  | or (left right : AstNode)
  | not (input : AstNode)
  | ifElse (cond thenBranch elseBranch : AstNode)
  | coalesce (args : List AstNode)
  | parseDate (input : AstNode) (format : Text)
  | dimRef (dimId : Text) (value : Option Text) (input : AstNode)
  | year (input : AstNode)
  | month (input : AstNode)
  | day (input : AstNode)
  | cast (input : AstNode) (target : CastType)

mutual

/-- The nodes of a tree, depth first, each before its children. -/
def walkAst : AstNode → List AstNode
  | .col name => [.col name]
  | .str value => [.str value]
  | .num value => [.num value]
  | .bool value => [.bool value]
  | .null => [.null]
  | .add left right => .add left right :: (walkAst left ++ walkAst right)
  | .sub left right => .sub left right :: (walkAst left ++ walkAst right)
  | .mul left right => .mul left right :: (walkAst left ++ walkAst right)
  | .div left right => .div left right :: (walkAst left ++ walkAst right)
  | .eq left right => .eq left right :: (walkAst left ++ walkAst right)
  | .ne left right => .ne left right :: (walkAst left ++ walkAst right)
  | .gt left right => .gt left right :: (walkAst left ++ walkAst right)
  | .lt left right => .lt left right :: (walkAst left ++ walkAst right)
  | .ge left right => .ge left right :: (walkAst left ++ walkAst right)
  | .le left right => .le left right :: (walkAst left ++ walkAst right)
  | .and left right => .and left right :: (walkAst left ++ walkAst right)
  | .or left right => .or left right :: (walkAst left ++ walkAst right)
  | .not input => .not input :: walkAst input
  | .fromUnix input unit => .fromUnix input unit :: walkAst input
  | .concat sep args => .concat sep args :: walkArgs args
  | .coalesce args => .coalesce args :: walkArgs args
  | .upper input => .upper input :: walkAst input
  | .lower input => .lower input :: walkAst input
  | .trim input => .trim input :: walkAst input
  | .substring input start length => .substring input start length :: walkAst input
  | .parseDate input format => .parseDate input format :: walkAst input
  | .year input => .year input :: walkAst input
  | .month input => .month input :: walkAst input
  | .day input => .day input :: walkAst input
  | .dimRef dimId value input => .dimRef dimId value input :: walkAst input
  | .cast input target => .cast input target :: walkAst input
  | .contains input pattern => .contains input pattern :: (walkAst input ++ walkAst pattern)
  | .ifElse cond thenBranch elseBranch =>
    .ifElse cond thenBranch elseBranch ::
      (walkAst cond ++ walkAst thenBranch ++ walkAst elseBranch)

/-- The nodes of the arguments of a call, one argument after the other. -/
def walkArgs : List AstNode → List AstNode
  | [] => []
  | arg :: rest => walkAst arg ++ walkArgs rest

end

end KaretWorker
