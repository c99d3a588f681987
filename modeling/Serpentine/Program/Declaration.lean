import Serpentine.Program.Enumeration
import Serpentine.Program.Members
import Serpentine.Sorted
import Serpentine.Tree.Stmt

/-!
# Declarations

What a program declares.
-/

namespace Serpentine

/-- What a module imports: paths in ascending order, each with the symbols taken from it. No symbols
mean the module itself. -/
abbrev Imports := List (String × List String)

/-- A module of the output: the root or a namespace. -/
structure Module where
  path : String
  members : Members
  submodules : Members
  imports : Imports
deriving Repr, DecidableEq, Inhabited

def Module.empty (path : String) : Module :=
  ⟨path, .empty, .empty, []⟩

def Module.addImport (m : Module) (path : String) (symbol : Option String) : Module :=
  let add (symbols : Option (List String)) : List String :=
    match symbol with
    | none => symbols.getD []
    | some s => Sorted.insert s (symbols.getD [])
  { m with imports := Sorted.update path add m.imports }

inductive ClassKey where
  | classKey | structKey | unionKey
deriving Repr, DecidableEq, Inhabited

/-- What a class holds. -/
structure ClassType where
  key : ClassKey
  superclass : Option Expr
  /-- The constructors by the types of their parameters, in ascending order. -/
  constructors : List (List String × DeclId)
  destructor : Option DeclId
  members : Members
deriving Repr, Inhabited

def ClassType.empty (key : ClassKey) : ClassType :=
  ⟨key, none, [], none, .empty⟩

structure MemberInit where
  name : String
  args : List Expr
  place : Position
deriving Repr, Inhabited

inductive RoutineKind where
  | function | method | constructor | destructor
deriving Repr, DecidableEq, Inhabited

/-- What a routine holds. -/
structure Routine where
  parameters : List DeclId
  statements : Option (List Stmt)
  locals : Members
  signature : List String
  returnType : String
  isStatic : Bool
  isVirtual : Bool
  isPure : Bool
  initializers : List MemberInit
deriving Repr, Inhabited

structure Attribute where
  value : Option Expr
  isStatic : Bool
deriving Repr, Inhabited

/-- A variable of a module or routine. An alias is another name for a class. -/
structure Variable where
  value : Option Expr
  isAlias : Bool
deriving Repr, Inhabited

structure Parameter where
  type : String
  default : Option Expr
deriving Repr, Inhabited

/-- What can be declared. -/
inductive Entity where
  | namespaceOf (m : Module)
  | enumeration (e : Enumeration)
  | classType (c : ClassType)
  | routine (kind : RoutineKind) (r : Routine)
  | attribute (a : Attribute)
  | variableOf (v : Variable)
  | parameter (p : Parameter)
deriving Repr, Inhabited

namespace Entity

def describe : Entity → String
  | .namespaceOf _ => "module"
  | .enumeration _ => "enumeration"
  | .classType _ => "class"
  | .routine .function _ => "function"
  | .routine .method _ => "method"
  | .routine .constructor _ => "constructor"
  | .routine .destructor _ => "destructor"
  | .attribute _ => "attribute"
  | .variableOf _ => "variable"
  | .parameter _ => "parameter"

def members? : Entity → Option Members
  | .namespaceOf m => some m.members
  | .classType c => some c.members
  | .routine _ r => some r.locals
  | _ => none

/-- The entity with another table of names, if it has one. -/
def setMembers (members : Members) : Entity → Entity
  | .namespaceOf m => .namespaceOf { m with members }
  | .classType c => .classType { c with members }
  | .routine kind r => .routine kind { r with locals := members }
  | e => e

/-- The expressions that an entity holds itself, in order. -/
def exprs : Entity → List Expr
  | .namespaceOf _ => []
  | .classType c => c.superclass.toList
  | .routine _ r => r.initializers.flatMap (·.args) ++ Stmt.exprsOfElse r.statements
  | .attribute a => a.value.toList
  | .variableOf v => v.value.toList
  | .parameter p => p.default.toList
  | .enumeration e => e.enumerators.flatMap (·.init.toList)

end Entity

/-- An entity with its name and place in the program. -/
structure Declaration where
  name : Option String
  parent : Option DeclId
  /-- The module that holds it, itself for a module. -/
  root : DeclId
  place : Position
  entity : Entity
deriving Repr, Inhabited

/-- A parameter as read. -/
structure ParameterSpec where
  name : Option String
  type : String
  default : Option Expr
  place : Position
deriving Repr, Inhabited

/-- A routine as read. -/
structure RoutineSpec where
  params : List ParameterSpec
  returnType : String
  isStatic : Bool
  isVirtual : Bool
  isPure : Bool
  hasBody : Bool
deriving Repr, Inhabited

/-- The types of the parameters. -/
def RoutineSpec.signature (spec : RoutineSpec) : List String :=
  spec.params.map fun p => TypeName.normalize p.type

def RoutineSpec.routine (spec : RoutineSpec) : Routine :=
  ⟨[], none, .empty, spec.signature, spec.returnType, spec.isStatic, spec.isVirtual, spec.isPure,
    []⟩

end Serpentine
