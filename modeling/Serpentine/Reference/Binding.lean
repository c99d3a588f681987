import Serpentine.Program.Lookup

/-!
# Bindings of names

What a use of a name stands for, and how it is spelled there. A name of another module asks for an
import.
-/

namespace Serpentine

/-- How a name is reached where it is used. -/
inductive Binding where
  /-- A parameter, a local variable or a name of the class body: as it is. -/
  | inScope
  /-- A variable of the same module: as it is, and declared global where it is assigned. -/
  | global
  /-- An attribute or method of the object at hand. -/
  | member
  | declared
  | unboundMethod
  | wholeModule
  /-- Declared nowhere: as it is. -/
  | external
deriving Repr, DecidableEq, Inhabited

/-- What a use of a name is bound to. -/
structure Resolution where
  /-- The spelling, dotted below the module. -/
  name : String
  /-- The path of the module of the target; empty if it does not matter. -/
  modulePath : String
  binding : Binding
deriving Repr, DecidableEq, Inhabited

/-- An import that a use of a name asks for: a path, and a symbol or the whole module. -/
abbrev ImportRequest := String × Option String

/-- A binding, and the import that it asks for. -/
structure Bound where
  resolution : Resolution
  request : Option ImportRequest
deriving Repr, DecidableEq, Inhabited

def Bound.bare (name : String) (binding : Binding) : Bound :=
  ⟨⟨name, "", binding⟩, none⟩

def Bound.below (b : Bound) (name : String) : Bound :=
  { b with resolution := { b.resolution with name := b.resolution.name ++ "." ++ name } }

/-- The sorts of declarations that are spelled in different ways. -/
inductive TargetKind where
  | wholeModule
  | field
  | method
  /-- A variable of the module that asks. -/
  | global
  | other
deriving Repr, DecidableEq, Inhabited

namespace Store

variable (s : Store)

/-- The sort of a declaration, seen from a module. -/
def targetKind (requester id : DeclId) : TargetKind :=
  match s.entity? id with
  | some (.namespaceOf _) => .wholeModule
  | some (.attribute a) => if a.isStatic then .other else .field
  | some (.routine .method r) => if r.isStatic then .other else .method
  | some (.variableOf v) =>
    if !v.isAlias && s.parent? id == some requester then .global else .other
  | _ => .other

/-- A declaration of this module or object, by its own name. -/
def bindOwn (id : DeclId) (binding : Binding) : Bound :=
  ⟨⟨(s.name? id).getD "", s.modulePath id, binding⟩, none⟩

def bindModule (requester id : DeclId) : Bound :=
  let path := s.modulePath id
  ⟨⟨path, path, .wholeModule⟩, if id = requester then none else some (path, none)⟩

def namesBelowModule (id : DeclId) : List String :=
  (s.pathBelowModule id).filterMap s.name?

/-- A declaration by its path below its module. -/
def bindDeclared (requester id : DeclId) : Bound :=
  let names := s.namesBelowModule id
  let path := s.modulePath id
  let request :=
    if s.owningModule id = requester then none else names.head?.map fun first => (path, some first)
  ⟨⟨".".intercalate names, path, .declared⟩, request⟩

def enumeratorName (enumeration : DeclId) (index : Nat) : String :=
  ((s.enumeration? enumeration).bind fun e => e.enumerators[index]?.map Enumerator.name).getD ""

/-- An enumerator by its enumeration. Those of an enumeration without a name belong to what is
around it. -/
def bindEnumerator (requester enumeration : DeclId) (index : Nat) : Bound :=
  let name := s.enumeratorName enumeration index
  if (s.name? enumeration).isSome then (s.bindDeclared requester enumeration).below name
  else
    let owner := (s.parent? enumeration).getD requester
    if s.isModule owner then
      let path := s.modulePath owner
      ⟨⟨name, path, .declared⟩, if owner = requester then none else some (path, some name)⟩
    else (s.bindDeclared requester owner).below name

/-- What a name that was found in a context around its use stands for. -/
def bindFound (requester scope context : DeclId) : Found → Bound
  | .enumerator enumeration index =>
    let name := s.enumeratorName enumeration index
    if context = enumeration then .bare name .inScope
    else if context = scope && (s.class? context).isSome then
      match s.name? enumeration with
      | some enumName => .bare (enumName ++ "." ++ name) .inScope
      | none => .bare name .inScope
    else s.bindEnumerator requester enumeration index
  | .decl id =>
    let bareName := Bound.bare ((s.name? id).getD "") .inScope
    if s.isModule context then
      match s.targetKind requester id with
      | .wholeModule => s.bindModule requester id
      | .global => s.bindOwn id .global
      | _ => s.bindDeclared requester id
    else if (s.class? context).isSome then
      match s.targetKind requester id with
      | .field | .method => s.bindOwn id .member
      | _ => if context = scope then bareName else s.bindDeclared requester id
    else bareName

/-- What a name of one part stands for: what the innermost context around it has under it. -/
def bindName (requester scope : DeclId) (name : String) : Bound :=
  let found := (s.ancestors scope).findSome? fun context =>
    (s.lookupMember context name).map (s.bindFound requester scope context)
  found.getD (.bare name .external)

def bindScoped (requester : DeclId) : Found → Bound
  | .enumerator enumeration index => s.bindEnumerator requester enumeration index
  | .decl id =>
    match s.targetKind requester id with
    | .wholeModule => s.bindModule requester id
    | .field => s.bindOwn id .member
    | .method =>
      let b := s.bindDeclared requester id
      { b with resolution := { b.resolution with binding := .unboundMethod } }
    | .global => s.bindOwn id .global
    | .other => s.bindDeclared requester id

/-- What a use of a name stands for. Only a scoped name must be declared. -/
def bind (ref : NameRef) : Except Fault Bound :=
  let requester := s.owningModule ref.scope
  match TypeName.segments ref.raw with
  | [name] => .ok (s.bindName requester ref.scope name)
  | segments =>
    match s.lookupQualified ref.scope segments with
    | .ok found => .ok (s.bindScoped requester found)
    | .error missing => .error (.unresolved ref.raw missing ref.place)

end Store

end Serpentine
