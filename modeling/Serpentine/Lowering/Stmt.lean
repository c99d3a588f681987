import Serpentine.Lowering.Counting
import Serpentine.Script.Stmt

/-!
# Statements of the source as statements of the script

A loop that tests at its end becomes an endless loop with an exit, a loop with a head that does not
count becomes a loop with its updates behind the body and before every `continue`, and a switch
becomes a chain of tests.
-/

namespace Serpentine.Lowering

open Script (Term)

/-- Results with the warnings given on the way, which a fault keeps. -/
structure Lower (α : Type) where
  warnings : List String
  result : Except Fault α

namespace Lower

variable {α β : Type}

protected def bind (x : Lower α) (f : α → Lower β) : Lower β :=
  match x.result with
  | .ok a =>
    let y := f a
    ⟨x.warnings ++ y.warnings, y.result⟩
  | .error fault => ⟨x.warnings, .error fault⟩

instance : Monad Lower where
  pure a := ⟨[], .ok a⟩
  bind := Lower.bind

end Lower

def warn (place : Position) (text : String) : Lower Unit :=
  ⟨[place.text ++ ": " ++ text], .ok ()⟩

def lift {α : Type} (result : Except Fault α) : Lower α :=
  ⟨[], result⟩

/-- What a `break` or `continue` can mean. -/
inductive Frame where
  | loop
  /-- A loop whose updates come before a `continue`. -/
  | forLoop (update : List Expr)
  /-- A loop whose condition is tested before a `continue`. -/
  | doWhile (condition : Expr)
  | switch
deriving Repr, Inhabited

def Frame.isSwitch : Frame → Bool
  | .switch => true
  | _ => false

/-- The last statement of a body is one that the next is not reached from. -/
def endsInJump (body : List Stmt) : Bool :=
  body.getLast?.any Stmt.isJump

namespace Env

def assignChain (env : Env) : Expr → Except Fault (List Term × Term)
  | .assign none target value => do
    let t ← env.term target
    let (ts, v) ← env.assignChain value
    return (t :: ts, v)
  | e => return ([], ← env.term e)

def exprStmt (env : Env) : Expr → Except Fault Script.Stmt
  | .parens inner => env.exprStmt inner
  | .assign none target value => do
    let (targets, v) ← env.assignChain (.assign none target value)
    return .assign targets v
  | .assign (some op) target value => do
    let t ← env.term target
    return .augment t op (← env.term value)
  | .step increment _ target =>
    return .augment (← env.term target) (if increment then .add else .sub) (.int 1)
  | e => return .eval (← env.term e)

def exprStmts (env : Env) (exprs : List Expr) : Except Fault (List Script.Stmt) :=
  exprs.mapM env.exprStmt

def assignment (env : Env) (name : String) (value : Option Expr) : Except Fault Script.Stmt :=
  return .assign [.atom (Script.identifier name)] (← env.valueTerm value)

/-- The test of a loop, which always holds if there is none. -/
def loopTest (env : Env) : Option Expr → Except Fault Term
  | none => return .atom "True"
  | some condition => env.term condition

/-- The updates of a loop behind its body, unless they are not reached. -/
def loopUpdates (env : Env) (body : List Stmt) (update : List Expr) :
    Except Fault (List Script.Stmt) :=
  if endsInJump body then return [] else env.exprStmts update

def loopExit (env : Env) (condition : Expr) : Except Fault Script.Stmt :=
  return .ifElse (.unary .not (← env.term condition)) [.breakStmt] [] none

/-- A statement that deletes a variable, attribute or item. Of any other expression only the
evaluation is left. -/
def deletion (env : Env) (target : Expr) : Except Fault Script.Stmt := do
  let deletable := match target with
    | .member .. | .index .. => true
    | _ => target.targetName?.isSome
  if deletable then return .del (← env.term target) else env.exprStmt target

/-- What comes before a `continue`. -/
def beforeContinue (env : Env) (frames : List Frame) : Except Fault (List Script.Stmt) :=
  match frames.find? (!·.isSwitch) with
  | some (.forLoop update) => env.exprStmts update
  | some (.doWhile condition) => return [← env.loopExit condition]
  | _ => return []

def caseTest (env : Env) (subject : Term) (labels : List Expr) : Except Fault Term := do
  let tests ← labels.mapM fun label => return Term.binary .eq subject (← env.term label)
  match tests with
  | [] => return .atom ""
  | first :: rest => return rest.foldl (Term.binary .or) first

end Env

/-- The places of the groups of a switch that run on into the next group. -/
def fallThroughs : List (Case Stmt) → List Position
  | case :: next :: rest =>
    let others := fallThroughs (next :: rest)
    if case.body.isEmpty || endsInJump case.body then others else case.place :: others
  | _ => []

/-- The chain of tests that a switch becomes. Without tests only the default is left. -/
def switchChain (branches : List (Term × List Script.Stmt))
    (otherwise : Option (List Script.Stmt)) : List Script.Stmt :=
  match branches with
  | [] => otherwise.getD []
  | (test, body) :: rest => [.ifElse test body rest otherwise]

mutual

def stmt (env : Env) (frames : List Frame) : Stmt → Lower (List Script.Stmt)
  | .ret none => return [.ret none]
  | .ret (some value) => return [.ret (some (← lift (env.term value)))]
  | .ifElse condition ifTrue ifFalse => do
    let test ← lift (env.term condition)
    let body ← block env frames ifTrue
    let (branches, otherwise) ← elseBranches env frames ifFalse
    return [.ifElse test body branches otherwise]
  | .block body => block env frames body
  | .declare name value => return [← lift (env.assignment name value)]
  | .expr e => return [← lift (env.exprStmt e)]
  | .whileLoop condition body => do
    let test ← lift (env.term condition)
    return [.whileLoop test (← block env (.loop :: frames) body)]
  | .doWhile body condition => do
    let stmts ← block env (.doWhile condition :: frames) body
    return [.whileLoop (.atom "True") (stmts ++ [← lift (env.loopExit condition)])]
  | .forLoop init condition update body => do
    match env.counting? init condition update body with
    | some counting =>
      let items ← lift (counting.items env)
      return [.forLoop counting.name items (← block env (.loop :: frames) body)]
    | none =>
      let first ← block env frames init
      let test ← lift (env.loopTest condition)
      let stmts ← block env (.forLoop update :: frames) body
      let updates ← lift (env.loopUpdates body update)
      return first ++ [.whileLoop test (stmts ++ updates)]
  | .forEach name items body => do
    let t ← lift (env.term items)
    return [.forLoop (Script.identifier name) t (← block env (.loop :: frames) body)]
  | .switch subject cases => do
    let t ← lift (env.term subject)
    (fallThroughs cases).forM fun place =>
      warn place "switch case falls through; translated without fallthrough"
    let branches ← caseBranches env frames t cases
    return switchChain branches (← defaultBranch env frames cases)
  | .breakStmt =>
    if frames.head?.any Frame.isSwitch then
      lift (throw (.unsupported "break inside a switch branch" env.place))
    else return [.breakStmt]
  | .continueStmt => return (← lift (env.beforeContinue frames)) ++ [.continueStmt]
  | .throw none => return [.raise none]
  | .throw (some value) => return [.raise (some (← lift (env.term value)))]
  | .delete target => return [← lift (env.deletion target)]

def block (env : Env) (frames : List Frame) : List Stmt → Lower (List Script.Stmt)
  | [] => return []
  | s :: rest => do
    let first ← stmt env frames s
    return first ++ (← block env frames rest)

/-- The further branches and the last branch of a test. -/
def elseBranches (env : Env) (frames : List Frame) :
    Option (List Stmt) → Lower (List (Term × List Script.Stmt) × Option (List Script.Stmt))
  | none | some [] => return ([], none)
  | some [.ifElse condition ifTrue ifFalse] => do
    let test ← lift (env.term condition)
    let body ← block env frames ifTrue
    let (branches, otherwise) ← elseBranches env frames ifFalse
    return ((test, body) :: branches, otherwise)
  | some (s :: rest) => return ([], some (← block env frames (s :: rest)))

/-- The body of a group of a switch, without a `break` at its end. -/
def caseBody (env : Env) (frames : List Frame) : List Stmt → Lower (List Script.Stmt)
  | [] | [.breakStmt] => return []
  | s :: rest => do
    let first ← stmt env (.switch :: frames) s
    return first ++ (← caseBody env frames rest)

/-- The branches for the groups of a switch that have labels only. -/
def caseBranches (env : Env) (frames : List Frame) (subject : Term) :
    List (Case Stmt) → Lower (List (Term × List Script.Stmt))
  | [] => return []
  | ⟨labels, isDefault, body, _⟩ :: rest =>
    if isDefault then caseBranches env frames subject rest
    else do
      let test ← lift (env.caseTest subject labels)
      let stmts ← caseBody env frames body
      return (test, stmts) :: (← caseBranches env frames subject rest)

/-- The branch for the last group of a switch that has the default label. -/
def defaultBranch (env : Env) (frames : List Frame) :
    List (Case Stmt) → Lower (Option (List Script.Stmt))
  | [] => return none
  | ⟨_, isDefault, body, _⟩ :: rest =>
    if rest.any (·.isDefault) then defaultBranch env frames rest
    else if isDefault then return some (← caseBody env frames body)
    else return none

end

end Serpentine.Lowering
