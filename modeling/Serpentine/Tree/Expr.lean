import Serpentine.Position
import Serpentine.TypeName

/-!
# Expressions

Expressions as they are read from the source. Literals keep their text. A name keeps what it was
written as, the declaration it stands in and an identity under which its binding is recorded.
-/

namespace Serpentine

abbrev DeclId := Nat

abbrev RefId := Nat

/-- A use of a name. -/
structure NameRef where
  id : RefId
  /-- The name as written, its parts separated by `::`. -/
  raw : String
  /-- The innermost declaration around it. -/
  scope : DeclId
  place : Position
deriving Repr, DecidableEq, Inhabited

def NameRef.base (n : NameRef) : String :=
  TypeName.last n.raw

inductive LiteralKind where
  | int | float | char | string | bool | null
deriving Repr, DecidableEq, Inhabited

/-- The built-in types, as far as conversions tell them apart. -/
inductive Primitive where
  | int | float | bool | char | void
deriving Repr, DecidableEq, Inhabited

inductive UnaryOp where
  | neg | plus | not | bitNot | deref | addressOf
deriving Repr, DecidableEq, Inhabited

inductive BinaryOp where
  | add | sub | mul | div | mod | shl | shr | bitAnd | bitOr | bitXor
  | eq | ne | lt | le | gt | ge | and | or
deriving Repr, DecidableEq, Inhabited

/-- The expressions of the source. -/
inductive Expr where
  | literal (kind : LiteralKind) (text : String)
  | list (items : List Expr)
  | name (ref : NameRef)
  | scoped (ref : NameRef)
  | primitive (type : Primitive)
  | self
  | member (object : Expr) (name : String)
  | unary (op : UnaryOp) (operand : Expr)
  | binary (op : BinaryOp) (left right : Expr)
  | conditional (condition ifTrue ifFalse : Expr)
  | parens (inner : Expr)
  | index (object position : Expr)
  | cast (type : Primitive) (operand : Expr)
  | call (callee : Expr) (args : List Expr)
  | new (type : Expr) (args : List Expr)
  /-- An assignment; with an operator, the one joined to `=`. -/
  | assign (op : Option BinaryOp) (target value : Expr)
  /-- `++` or `--`, before or behind its target. -/
  | step (increment before : Bool) (target : Expr)
  | sizeof (place : Position)
deriving Repr, Inhabited

namespace Expr

def none : Expr :=
  .literal .null "nullptr"

mutual

/-- The names in an expression, in the order of evaluation. -/
def names : Expr → List NameRef
  | .name ref | .scoped ref => [ref]
  | .literal .. | .primitive _ | .self | .sizeof _ => []
  | .list items => namesOfList items
  | .member object _ => object.names
  | .unary _ operand | .cast _ operand => operand.names
  | .parens inner => inner.names
  | .binary _ left right => left.names ++ right.names
  | .conditional condition ifTrue ifFalse => condition.names ++ ifTrue.names ++ ifFalse.names
  | .index object position => object.names ++ position.names
  | .call callee args => callee.names ++ namesOfList args
  | .new type args => type.names ++ namesOfList args
  | .assign _ target value => target.names ++ value.names
  | .step _ _ target => target.names

def namesOfList : List Expr → List NameRef
  | [] => []
  | e :: es => e.names ++ namesOfList es

end

mutual

/-- The expression and all expressions inside it, outermost first. -/
def parts (e : Expr) : List Expr :=
  e :: match e with
    | .literal .. | .name _ | .scoped _ | .primitive _ | .self | .sizeof _ => []
    | .list items => partsOfList items
    | .member object _ => object.parts
    | .unary _ operand | .cast _ operand => operand.parts
    | .parens inner => inner.parts
    | .binary _ left right => left.parts ++ right.parts
    | .conditional condition ifTrue ifFalse => condition.parts ++ ifTrue.parts ++ ifFalse.parts
    | .index object position => object.parts ++ position.parts
    | .call callee args => callee.parts ++ partsOfList args
    | .new type args => type.parts ++ partsOfList args
    | .assign _ target value => target.parts ++ value.parts
    | .step _ _ target => target.parts

def partsOfList : List Expr → List Expr
  | [] => []
  | e :: es => e.parts ++ partsOfList es

end

/-- The name that an assignment sets, behind parentheses and pointer operators. -/
def targetName? : Expr → Option NameRef
  | .name ref | .scoped ref => some ref
  | .parens inner => inner.targetName?
  | .unary .deref operand | .unary .addressOf operand => operand.targetName?
  | _ => Option.none

/-- What an assignment, an increment or a decrement sets. -/
def assigned? : Expr → Option Expr
  | .assign _ target _ | .step _ _ target => some target
  | _ => Option.none

end Expr

end Serpentine
