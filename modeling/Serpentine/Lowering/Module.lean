import Serpentine.Lowering.Stmt
import Serpentine.Script.Module

/-!
# Declarations as items of the script
-/

namespace Serpentine.Lowering

open Script (Term Item Def)

/-- The program and the bindings of its names. -/
structure Scene where
  store : Store
  table : Resolutions
deriving Repr, Inhabited

def allArgs : String := "*args"

def plainDef (name : String) (params : List (String × Option Term))
    (body : List Script.Stmt) : Def :=
  ⟨name, params, false, body⟩

/-- The parameter for the object that a method works on. -/
def selfParam : String × Option Term :=
  ("self", none)

def selfAttr (name : String) : Term :=
  .attr .self (Script.identifier name)

def superInit (args : List Term) : Script.Stmt :=
  .eval (.call (.attr (.call (.atom "super") []) "__init__") args)

/-! ## Globals -/

/-- The variables of the module that a body sets, in ascending order. -/
def Env.globals (env : Env) (body : List Stmt) : List String :=
  let targets := ((Stmt.exprsOfBlock body).flatMap Expr.parts).filterMap Expr.assigned?
  let bound := targets.filterMap fun t => t.targetName?.bind fun ref => env.table.get? ref.id
  let names := (bound.filter (·.binding == .global)).map fun r => Script.identifier r.name
  names.foldl (fun sorted name => Sorted.insert name sorted) []

/-- The statement that declares the globals that a body sets, if there are any. -/
def Env.globalLines (env : Env) (body : List Stmt) : List Script.Stmt :=
  match env.globals body with
  | [] => []
  | names => [.global names]

namespace Scene

variable (scene : Scene)

def env (id : DeclId) : Env :=
  ⟨scene.table, scene.store.place id⟩

/-! ## Routines -/

def param (env : Env) (id : DeclId) : Except Fault (String × Option Term) := do
  let name := Script.identifier ((scene.store.name? id).getD "")
  match scene.store.entity? id with
  | some (.parameter ⟨_, some value⟩) => return (name, some (← env.term value))
  | _ => return (name, none)

def params (env : Env) (r : Routine) : Except Fault (List (String × Option Term)) :=
  r.parameters.mapM (scene.param env)

/-- The statements of a body, behind the globals that they set. -/
def bodyLines (env : Env) (body : List Stmt) : Lower (List Script.Stmt) :=
  return env.globalLines body ++ (← block env [] body)

/-- A function or method of the script. -/
def function (id : DeclId) (r : Routine) (isMethod : Bool) : Lower Item := do
  let env := scene.env id
  let ps ← lift (scene.params env r)
  let body ← match r.statements with
    | some stmts => bodyLines env stmts
    | none => pure [.raise (some (.call (.atom "NotImplementedError") []))]
  let name := Script.identifier ((scene.store.name? id).getD "")
  let ps := if isMethod && !r.isStatic then selfParam :: ps else ps
  return .function ⟨name, ps, isMethod && r.isStatic, body⟩

/-- The attributes of the objects of a class with their first values. -/
def fields (c : ClassType) : List (String × Option Expr) :=
  c.members.order.filterMap fun id =>
    match scene.store.entity? id with
    | some (.attribute ⟨value, false⟩) => some ((scene.store.name? id).getD "", value)
    | _ => none

def attributeValue? (c : ClassType) (name : String) : Option Expr :=
  match (c.members.get? name).bind scene.store.entity? with
  | some (.attribute a) => a.value
  | _ => none

/-- The value that a constructor gives an attribute. -/
def initValue (env : Env) (default : Option Expr) : List Expr → Except Fault Term
  | [] => env.valueTerm default
  | [single] => env.term single
  | args =>
    match default with
    | some (.call callee _) => do
      let f ← env.term callee
      return .call f (← env.terms args)
    | _ => return .tuple (← env.terms args)

def baseName? (c : ClassType) : Option String :=
  match c.superclass with
  | some (.name ref) | some (.scoped ref) => some ref.base
  | _ => none

/-- The call of the constructor of the base class, if there is a base class. -/
def superLines (env : Env) (c : ClassType) (inits : List MemberInit) :
    Except Fault (List Script.Stmt) := do
  match inits.getLast? with
  | some init => return [superInit (← env.terms init.args)]
  | none => return if c.superclass.isSome then [superInit []] else []

/-- What a constructor does before its body: the base class, then the attributes that it does not
set itself, then those that it does. -/
def prelude (env : Env) (c : ClassType) (inits : List MemberInit) :
    Except Fault (List Script.Stmt) := do
  let (baseInits, memberInits) :=
    inits.partition fun init => some (TypeName.last init.name) == baseName? c
  let first ← superLines env c baseInits
  let defaults ← (scene.fields c).filterMapM fun (name, value) => do
    match value with
    | some value =>
      if memberInits.any (·.name == name) then return none
      else return some (Script.Stmt.assign [selfAttr name] (← env.term value))
    | none => return none
  let own ← memberInits.mapM fun init => do
    let value ← initValue env (scene.attributeValue? c init.name) init.args
    return Script.Stmt.assign [selfAttr init.name] value
  return first ++ defaults ++ own

def constructor (c : ClassType) (name : String) (id : DeclId) :
    Lower (List Item) := do
  match scene.store.routine? id with
  | none => return []
  | some r =>
    let env := scene.env id
    let ps ← lift (scene.params env r)
    let first ← lift (scene.prelude env c r.initializers)
    let body ← match r.statements with
      | some stmts => bodyLines env stmts
      | none => pure []
    return [.function (plainDef name (selfParam :: ps) (first ++ body))]

def destructor (id : DeclId) : Lower (List Item) := do
  match (scene.store.routine? id).bind fun r => r.statements.map (r, ·) with
  | none => return []
  | some (r, stmts) =>
    let env := scene.env id
    let ps ← lift (scene.params env r)
    return [.function (plainDef "__del__" (selfParam :: ps) (← bodyLines env stmts))]

/-! ## Several constructors -/

/-- The constructors by the number of their parameters, in ascending order. Of several with one
number the last is kept, with a warning. -/
def byArity (className : String) (constructors : List DeclId) :
    Lower (List (Nat × DeclId)) :=
  constructors.foldlM (fun sorted id => do
    let arity := ((scene.store.routine? id).map (·.parameters.length)).getD 0
    if (sorted.lookup arity).isSome then
      warn (scene.store.place id) ("several constructors of `" ++ className ++ "` take " ++
        toString arity ++ " arguments, keeping the last")
    return Sorted.update arity (fun _ => id) sorted) []

def initName (arity : Nat) : String :=
  "_init_" ++ toString arity

/-- The test for a number of arguments and the call of its constructor. -/
def arityBranch (arity : Nat) : Term × List Script.Stmt :=
  (.binary .eq (.call (.atom "len") [.atom "args"]) (.int arity),
    [.eval (.call (.attr .self (initName arity)) [.atom allArgs])])

/-- The message for a number of arguments that no constructor takes. -/
def arityMessage (className : String) (arities : List Nat) : String :=
  let texts := arities.map toString
  Script.identifier className ++ "() takes " ++ ", ".intercalate texts.dropLast ++ " or " ++
    texts.getLast?.getD "" ++ " arguments"

/-- The constructor that chooses one of several by the number of arguments. -/
def dispatcher (className : String) (arities : List Nat) : Item :=
  let message := "\"" ++ arityMessage className arities ++ "\""
  let failure := Term.call (.atom "TypeError") [.atom message]
  .function (plainDef "__init__" [selfParam, (allArgs, none)]
    (switchChain (arities.map arityBranch) (some [.raise (some failure)])))

def constructors (id : DeclId) (c : ClassType) : Lower (List Item) := do
  let className := (scene.store.name? id).getD ""
  match ← scene.byArity className (c.constructors.map (·.2)) with
  | [] =>
    if (scene.fields c).any (·.2.isSome) then
      let lines ← lift (scene.prelude (scene.env id) c [])
      return [.function (plainDef "__init__" [selfParam] lines)]
    else
      return []
  | [(_, only)] => scene.constructor c "__init__" only
  | several =>
    let own ← several.mapM fun (arity, ctor) => scene.constructor c (initName arity) ctor
    return dispatcher className (several.map (·.1)) :: own.flatten

/-! ## Items -/

def enumeratorLine (env : Env) (e : Enumerator) : Except Fault Script.Stmt := do
  let value ← match e.value with
    | .int n => pure (Term.int n)
    | .expr init => env.term init
    | .offset base amount =>
      pure (.binary .add (.atom (Script.identifier base)) (.int amount))
  return .assign [.atom (Script.identifier e.name)] value

def enumItems (env : Env) (name : Option String) (e : Enumeration) : Except Fault (List Item) := do
  let lines ← e.enumerators.mapM (enumeratorLine env)
  match name with
  | some name => return [.enumDef (Script.identifier name) lines]
  | none => return lines.map .stmt

/-- The methods of a class that have a body or must be overridden. -/
def methods (c : ClassType) : Lower (List Item) := do
  let items ← c.members.order.mapM fun id => do
    match scene.store.entity? id with
    | some (.routine .method r) =>
      if r.statements.isSome || r.isPure then return [← scene.function id r true] else return []
    | _ => return []
  return items.flatten

def isMethod (id : DeclId) : Bool :=
  match scene.store.entity? id with
  | some (.routine .method _) => true
  | _ => false

/-- A class: nested declarations, constructors, destructor and methods. -/
def classItem (nested : DeclId → Lower (List Item)) (id : DeclId)
    (c : ClassType) : Lower Item := do
  let env := scene.env id
  let base ← match c.superclass with
    | none => pure none
    | some e => some <$> lift (env.term e)
  let members ← (c.members.order.filter fun m => !scene.isMethod m).mapM nested
  let ctors ← scene.constructors id c
  let dtor ← match c.destructor with
    | none => pure []
    | some d => scene.destructor d
  let ms ← scene.methods c
  let name := Script.identifier ((scene.store.name? id).getD "")
  return .classDef name base (members.flatten ++ ctors ++ dtor ++ ms)

/-- The items of a declaration, with classes nested at most so deep. -/
def itemsWithin (scene : Scene) : Nat → DeclId → Lower (List Item)
  | 0, _ => return []
  | n + 1, id => do
    let env := scene.env id
    let name := scene.store.name? id
    match scene.store.entity? id with
    | some (.classType c) => return [← scene.classItem (scene.itemsWithin n) id c]
    | some (.enumeration e) => lift (enumItems env name e)
    | some (.routine .function r) =>
      if r.statements.isSome && name.isSome then return [← scene.function id r false] else return []
    | some (.variableOf v) => return [.stmt (← lift (env.assignment (name.getD "") v.value))]
    | some (.attribute a) =>
      if a.isStatic then return [.stmt (← lift (env.assignment (name.getD "") a.value))]
      else return []
    | _ => return []

def items (id : DeclId) : Lower (List Item) :=
  scene.itemsWithin scene.store.decls.size id

/-- What runs when the root module is run: its function `main`, if it has a body. -/
def mainGuard : List Item :=
  match scene.store.mainFunction? with
  | some r =>
    if r.statements.isSome then
      let argv := Term.attr (.atom "sys") "argv"
      let args := if r.parameters.isEmpty then [] else [.call (.atom "len") [argv], argv]
      let exit := Term.call (.attr (.atom "sys") "exit") [.call (.atom "main") args]
      [.stmt (.ifElse (.binary .eq (.atom "__name__") (.atom "\"__main__\"")) [.eval exit] [] none)]
    else []
  | none => []

/-- A module of the script. -/
def lowerModule (id : DeclId) : Lower Script.Module := do
  match scene.store.module? id with
  | none => lift (throw (.unknownModule (scene.store.modulePath id)))
  | some m =>
    let own ← m.members.order.mapM scene.items
    let guard := if id = Store.root then scene.mainGuard else []
    return ⟨m.imports, own.flatten ++ guard⟩

end Scene

end Serpentine.Lowering
