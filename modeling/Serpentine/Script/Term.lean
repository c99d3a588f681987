import Serpentine.Tree.Expr

/-!
# Expressions of the script
-/

namespace Serpentine

namespace Script

/-- How tightly an expression binds. -/
abbrev Level := Nat

namespace Level

/-! From the loosest to the tightest. -/

def lowest : Level := 0

def conditional : Level := 1

def or : Level := 2

def and : Level := 3

def not : Level := 4

def compare : Level := 5

def bitOr : Level := 6

def bitXor : Level := 7

def bitAnd : Level := 8

def shift : Level := 9

def add : Level := 10

def mul : Level := 11

def unary : Level := 12

/-- Expressions that no operator can take apart. -/
def primary : Level := 13

end Level

inductive UnaryOp where
  | neg | plus | invert | not
deriving Repr, DecidableEq, Inhabited

def UnaryOp.symbol : UnaryOp → String
  | .neg => "-"
  | .plus => "+"
  | .invert => "~"
  | .not => "not "

def UnaryOp.level : UnaryOp → Level
  | .not => .not
  | _ => .unary

end Script

/-- How the operator is written. -/
def BinaryOp.symbol : BinaryOp → String
  | .add => "+"
  | .sub => "-"
  | .mul => "*"
  | .div => "/"
  | .mod => "%"
  | .shl => "<<"
  | .shr => ">>"
  | .bitAnd => "&"
  | .bitOr => "|"
  | .bitXor => "^"
  | .eq => "=="
  | .ne => "!="
  | .lt => "<"
  | .le => "<="
  | .gt => ">"
  | .ge => ">="
  | .and => "and"
  | .or => "or"

/-- How tightly it binds. -/
def BinaryOp.level : BinaryOp → Script.Level
  | .add | .sub => .add
  | .mul | .div | .mod => .mul
  | .shl | .shr => .shift
  | .bitAnd => .bitAnd
  | .bitOr => .bitOr
  | .bitXor => .bitXor
  | .eq | .ne | .lt | .le | .gt | .ge => .compare
  | .and => .and
  | .or => .or

/-- The level that the operand on the left needs. Comparisons form chains, so that no operand of
one is another one. -/
def BinaryOp.leftLevel (op : BinaryOp) : Script.Level :=
  if op.level = .compare then op.level + 1 else op.level

/-- Operators group to the left. -/
def BinaryOp.rightLevel (op : BinaryOp) : Script.Level :=
  op.level + 1

namespace Script

/-- The expressions of the script. -/
inductive Term where
  | atom (text : String)
  | list (items : List Term)
  | tuple (items : List Term)
  | attr (object : Term) (name : String)
  | unary (op : UnaryOp) (operand : Term)
  | binary (op : BinaryOp) (left right : Term)
  | conditional (condition ifTrue ifFalse : Term)
  /-- Parentheses that are kept. -/
  | paren (inner : Term)
  | index (object position : Term)
  | call (callee : Term) (args : List Term)
  /-- An assignment that has a value. -/
  | walrus (target value : Term)
deriving Repr, Inhabited

namespace Term

/-- How tightly the expression binds. -/
def level : Term → Level
  | .unary op _ => op.level
  | .binary op .. => op.level
  | .conditional .. => .conditional
  | _ => .primary

/-- A text in parentheses if its level is below the one that is needed. -/
def wrap (own least : Level) (text : String) : String :=
  if own < least then "(" ++ text ++ ")" else text

mutual

/-- The text, in parentheses if the place needs a tighter level. -/
def print (least : Level) (t : Term) : String :=
  wrap t.level least <|
    match t with
    | .atom text => text
    | .list items => "[" ++ printArgs items ++ "]"
    | .tuple items => "(" ++ printArgs items ++ ")"
    | .attr object name => object.print .primary ++ "." ++ name
    | .unary op operand => op.symbol ++ operand.print op.level
    | .binary op left right =>
      left.print op.leftLevel ++ " " ++ op.symbol ++ " " ++ right.print op.rightLevel
    | .conditional condition ifTrue ifFalse =>
      ifTrue.print .or ++ " if " ++ condition.print .or ++ " else " ++ ifFalse.print .conditional
    | .paren inner => "(" ++ inner.print .lowest ++ ")"
    | .index object position => object.print .primary ++ "[" ++ position.print .lowest ++ "]"
    | .call callee args => callee.print .primary ++ "(" ++ printArgs args ++ ")"
    | .walrus target value =>
      "(" ++ target.print .primary ++ " := " ++ value.print .conditional ++ ")"

/-- The texts of expressions with commas between them. -/
def printArgs : List Term → String
  | [] => ""
  | [t] => t.print .conditional
  | t :: rest => t.print .conditional ++ ", " ++ printArgs rest

end

/-- The text of an expression on its own. -/
def text (t : Term) : String :=
  t.print .lowest

def self : Term :=
  .atom "self"

def none : Term :=
  .atom "None"

def int (n : Int) : Term :=
  .atom (toString n)

end Term

end Script

end Serpentine
