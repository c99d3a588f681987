import Serpentine.Script.Layout
import Serpentine.Script.Term

/-!
# Statements of the script
-/

namespace Serpentine.Script

/-- The statements of the script. -/
inductive Stmt where
  | eval (e : Term)
  | assign (targets : List Term) (value : Term)
  | augment (target : Term) (op : BinaryOp) (value : Term)
  | del (target : Term)
  | ret (value : Option Term)
  | raise (value : Option Term)
  | breakStmt
  | continueStmt
  | global (names : List String)
  | whileLoop (test : Term) (body : List Stmt)
  | forLoop (name : String) (items : Term) (body : List Stmt)
  /-- A test with its statements, and the branches behind it. -/
  | ifElse (test : Term) (body : List Stmt) (branches : List (Term × List Stmt))
      (otherwise : Option (List Stmt))
deriving Repr, Inhabited

/-- Lines of a block, or `pass`. -/
def Layout.block (l : Layout) (lines : Layout → Layout) : Layout :=
  let l := lines l.openBlock
  (if l.atBlockStart then l.line "pass" else l).closeBlock

/-- A keyword, and a value behind it if there is one. -/
def keywordLine (word : String) : Option Term → String
  | none => word
  | some value => word ++ " " ++ value.text

namespace Stmt

def lineText : Stmt → String
  | .eval e => e.text
  | .assign targets value =>
    String.join (targets.map fun t => t.print .primary ++ " = ") ++ value.text
  | .augment target op value => target.print .primary ++ " " ++ op.symbol ++ "= " ++ value.text
  | .del target => "del " ++ target.text
  | .ret value => keywordLine "return" value
  | .raise value => keywordLine "raise" value
  | .breakStmt => "break"
  | .continueStmt => "continue"
  | .global names => "global " ++ ", ".intercalate names
  | .whileLoop .. | .forLoop .. | .ifElse .. => ""

mutual

def print (l : Layout) : Stmt → Layout
  | .whileLoop test body => (l.line ("while " ++ test.text ++ ":")).block (printAll · body)
  | .forLoop name items body =>
    (l.line ("for " ++ name ++ " in " ++ items.text ++ ":")).block (printAll · body)
  | .ifElse test body branches otherwise =>
    let l := (l.line ("if " ++ test.text ++ ":")).block (printAll · body)
    printElse (printBranches l branches) otherwise
  | s => l.line s.lineText

def printAll (l : Layout) : List Stmt → Layout
  | [] => l
  | s :: rest => printAll (s.print l) rest

def printBranches (l : Layout) : List (Term × List Stmt) → Layout
  | [] => l
  | branch :: rest => printBranches (printBranch l branch) rest

def printBranch (l : Layout) : Term × List Stmt → Layout
  | (test, body) => (l.line ("elif " ++ test.text ++ ":")).block (printAll · body)

def printElse (l : Layout) : Option (List Stmt) → Layout
  | none => l
  | some body => (l.line "else:").block (printAll · body)

end

end Stmt

end Serpentine.Script
