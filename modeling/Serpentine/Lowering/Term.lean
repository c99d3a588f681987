import Serpentine.Reference.Resolve
import Serpentine.Script.Identifier
import Serpentine.Script.Literal
import Serpentine.Script.Term

/-!
# Expressions of the source as expressions of the script

Pointer operators and conversions to `void` vanish, other conversions become calls, and an
assignment inside an expression is one that has a value.
-/

namespace Serpentine.Lowering

open Script (Term)

/-- The bindings, and the place for messages. -/
structure Env where
  table : Resolutions
  place : Position
deriving Repr, Inhabited

def literalText (kind : LiteralKind) (text : String) : String :=
  match kind with
  | .int => Script.intLiteral text
  | .float => Script.floatLiteral text
  | .char | .string => Script.quotedLiteral text
  | .bool => if text == "true" then "True" else "False"
  | .null => "None"

def typeText : Primitive → String
  | .int => "int"
  | .float => "float"
  | .bool => "bool"
  | .char => "str"
  | .void => "None"

def castText : Primitive → String
  | .char => "chr"
  | type => typeText type

namespace Env

/-- How the use of a name is spelled. -/
def nameText (env : Env) (ref : NameRef) : String :=
  match env.table.get? ref.id with
  | some r =>
    if r.binding = .member then "self." ++ Script.identifier r.name else Script.dotted r.name
  | none =>
    Script.dotted (".".intercalate ((cutAtScope ref.raw.toList).map String.ofList))

def isUnboundMethod (env : Env) : Expr → Bool
  | .name ref | .scoped ref => (env.table.get? ref.id).any (·.binding == .unboundMethod)
  | _ => false

/-- The target of an assignment inside an expression must be a plain name. -/
def canBind (env : Env) (target : Expr) : Bool :=
  target.targetName?.any fun ref =>
    (env.table.get? ref.id).all fun r =>
      r.binding != .member && r.binding != .declared && r.binding != .wholeModule

/-- Refuses a target that an assignment inside an expression cannot have. -/
def checkTarget (env : Env) (target : Expr) : Except Fault Unit :=
  if env.canBind target then .ok ()
  else .error (.unsupported "assignment inside an expression" env.place)

end Env

/-- The arguments of a method that is named with its class: the object comes first. -/
def withSelf (args : List Term) : List Term :=
  if (Term.printArgs args).isEmpty then [.self] else .self :: args

namespace Env

mutual

def term (env : Env) : Expr → Except Fault Term
  | .literal kind text => return .atom (literalText kind text)
  | .list items => return .list (← env.terms items)
  | .name ref | .scoped ref => return .atom (env.nameText ref)
  | .primitive type => return .atom (typeText type)
  | .self => return .self
  | .member object name => return .attr (← env.term object) (Script.identifier name)
  | .unary op operand => do
    let t ← env.term operand
    match op with
    | .deref | .addressOf => return t
    | .not => return .unary .not t
    | .neg => return .unary .neg t
    | .plus => return .unary .plus t
    | .bitNot => return .unary .invert t
  | .binary op left right => do
    let l ← env.term left
    return .binary op l (← env.term right)
  | .conditional condition ifTrue ifFalse => do
    let yes ← env.term ifTrue
    let test ← env.term condition
    return .conditional test yes (← env.term ifFalse)
  | .parens inner => return .paren (← env.term inner)
  | .index object position => do
    let t ← env.term object
    return .index t (← env.term position)
  | .cast type operand => do
    let t ← env.term operand
    return if type = .void then t else .call (.atom (castText type)) [t]
  | .call callee args => do
    let f ← env.term callee
    let ts ← env.terms args
    return .call f (if env.isUnboundMethod callee then withSelf ts else ts)
  | .new type args => do
    let t ← env.term type
    return .call t (← env.terms args)
  | .assign none target value => do
    let v ← env.term value
    env.checkTarget target
    return .walrus (← env.term target) v
  | .assign (some op) target value => do
    let t ← env.term target
    let v ← env.term value
    env.checkTarget target
    return .walrus t (.binary op t v)
  | .step increment before target => do
    let t ← env.term target
    env.checkTarget target
    let stepped := Term.walrus t (.binary (if increment then .add else .sub) t (.int 1))
    return if before then stepped
      else .binary (if increment then .sub else .add) stepped (.int 1)
  | .sizeof place => throw (.unsupported "sizeof" place)

def terms (env : Env) : List Expr → Except Fault (List Term)
  | [] => return []
  | e :: rest => do
    let t ← env.term e
    return t :: (← env.terms rest)

end

def valueTerm (env : Env) : Option Expr → Except Fault Term
  | none => return .none
  | some e => env.term e

end Env

end Serpentine.Lowering
