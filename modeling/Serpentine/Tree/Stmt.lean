import Serpentine.Tree.Expr

/-!
# Statements

Statements as they are read from the source.
-/

namespace Serpentine

/-- A group of labels of a switch, with the statements behind it. -/
structure Case (stmt : Type) where
  labels : List Expr
  isDefault : Bool
  body : List stmt
  place : Position
deriving Repr, Inhabited

/-- The statements of the source. -/
inductive Stmt where
  | ret (value : Option Expr)
  | ifElse (condition : Expr) (ifTrue : List Stmt) (ifFalse : Option (List Stmt))
  | block (body : List Stmt)
  | declare (name : String) (value : Option Expr)
  | expr (e : Expr)
  | whileLoop (condition : Expr) (body : List Stmt)
  /-- A loop that tests its condition at the end. -/
  | doWhile (body : List Stmt) (condition : Expr)
  | forLoop (init : List Stmt) (condition : Option Expr) (update : List Expr) (body : List Stmt)
  | forEach (name : String) (items : Expr) (body : List Stmt)
  | switch (subject : Expr) (cases : List (Case Stmt))
  | breakStmt
  | continueStmt
  | throw (value : Option Expr)
  | delete (target : Expr)
deriving Repr, Inhabited

namespace Stmt

mutual

/-- The expressions of a statement and of the statements inside it, in order. The condition of a
loop comes before its body, wherever it is tested. -/
def exprs : Stmt → List Expr
  | .ret value | .throw value | .declare _ value => value.toList
  | .ifElse condition ifTrue ifFalse =>
    condition :: (exprsOfBlock ifTrue ++ exprsOfElse ifFalse)
  | .block body => exprsOfBlock body
  | .expr e | .delete e => [e]
  | .whileLoop condition body | .doWhile body condition => condition :: exprsOfBlock body
  | .forLoop init condition update body =>
    exprsOfBlock init ++ condition.toList ++ update ++ exprsOfBlock body
  | .forEach _ items body => items :: exprsOfBlock body
  | .switch subject cases => subject :: exprsOfCases cases
  | .breakStmt | .continueStmt => []

def exprsOfBlock : List Stmt → List Expr
  | [] => []
  | s :: rest => s.exprs ++ exprsOfBlock rest

def exprsOfElse : Option (List Stmt) → List Expr
  | none => []
  | some body => exprsOfBlock body

def exprsOfCases : List (Case Stmt) → List Expr
  | [] => []
  | case :: rest => exprsOfCase case ++ exprsOfCases rest

def exprsOfCase : Case Stmt → List Expr
  | ⟨labels, _, body, _⟩ => labels ++ exprsOfBlock body

end

/-- A statement behind which the next one is not reached. -/
def isJump : Stmt → Bool
  | .breakStmt | .continueStmt | .ret _ | .throw _ => true
  | _ => false

/-- The statements of a branch or loop body: those of a block, or the one statement. -/
def toBlock : Stmt → List Stmt
  | .block body => body
  | s => [s]

end Stmt

end Serpentine
