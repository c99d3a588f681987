import Serpentine.Lowering.Term

/-!
# Counting loops

A loop that only counts a variable up or down to a bound runs over a range.
-/

namespace Serpentine.Lowering

open Script (Term)

structure Counting where
  name : String
  start : Expr
  bound : Expr
  step : Int
  inclusive : Bool
deriving Repr, Inhabited

namespace Env

def isSpelled (env : Env) (name : String) (e : Expr) : Bool :=
  match env.term e with
  | .ok t => t.print .primary == name
  | .error _ => false

/-- The variable that the first part of a loop head sets, and its first value. -/
def countedStart? (env : Env) : List Stmt → Option (String × Expr)
  | [.declare name (some start)] => some (Script.identifier name, start)
  | [.expr (.assign none (.name ref) start)] => some (env.nameText ref, start)
  | _ => none

/-- The comparison of a variable that a condition is, and the bound. -/
def countedBound? (env : Env) (name : String) : Option Expr → Option (BinaryOp × Expr)
  | some (.binary op (.name ref) bound) =>
    if env.nameText ref = name then some (op, bound) else none
  | _ => none

/-- What the last part of a loop head adds to a variable. -/
def countedStep? (env : Env) (name : String) : List Expr → Option Int
  | [.step increment _ target] =>
    if env.isSpelled name target then some (if increment then 1 else -1) else none
  | [.assign (some op) target (.literal .int text)] =>
    if env.isSpelled name target then
      match op, (Literal.intValue? text).filter (0 < ·) with
      | .add, some k => some k
      | .sub, some k => some (-k)
      | _, _ => none
    else none
  | _ => none

def setsIn (env : Env) (name : String) (body : List Stmt) : Bool :=
  ((Stmt.exprsOfBlock body).flatMap Expr.parts).any fun e => e.assigned?.any (env.isSpelled name)

end Env

/-- Whether a comparison ends a count in a direction, and if so whether it lets the bound be
reached. -/
def reachesBound? (op : BinaryOp) (up : Bool) : Option Bool :=
  match op, up with
  | .lt, true | .gt, false => some false
  | .le, true | .ge, false => some true
  | _, _ => none

/-- The loop that counts, if a loop does nothing else with its variable. -/
def Env.counting? (env : Env) (init : List Stmt) (condition : Option Expr) (update : List Expr)
    (body : List Stmt) : Option Counting := do
  let (name, start) ← env.countedStart? init
  let (op, bound) ← env.countedBound? name condition
  let step ← env.countedStep? name update
  let inclusive ← reachesBound? op (0 < step)
  if env.setsIn name body then none else some ⟨name, start, bound, step, inclusive⟩

/-- The end of the range. A bound that is reached lies before it; if it is a number, the end must fit
in 64 bits as well. -/
def Counting.stop (c : Counting) (env : Env) : Except Fault Term := do
  if c.inclusive then
    let up : Bool := 0 < c.step
    let literal? := match c.bound with
      | .literal .int text => Literal.intValue? text
      | _ => none
    match literal? with
    | some n =>
      let stop := if up then n + 1 else n - 1
      if fitsInt64 stop then return .int stop else throw .overflow
    | none => return .binary (if up then .add else .sub) (← env.term c.bound) (.int 1)
  else
    env.term c.bound

/-- The range. Its start is left out if it is zero, and its step if it is one. -/
def Counting.items (c : Counting) (env : Env) : Except Fault Term := do
  let stop ← c.stop env
  let start ← env.term c.start
  let args :=
    if c.step ≠ 1 then [start, stop, .int c.step]
    else if start.text == "0" then [stop]
    else [start, stop]
  return .call (.atom "range") args

end Serpentine.Lowering
