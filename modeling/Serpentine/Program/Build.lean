import Serpentine.Program.Store

/-!
# Building a program

The changes that the text of a file makes to a program, as data.
-/

namespace Serpentine

/-- The changes of a program, by what they answer. -/
inductive Build : Type → Type where
  | add (parent : DeclId) (name : Option String) (entity : Entity) (place : Position) :
      Build DeclId
  | addModule (parent : DeclId) (name : String) (place : Position) : Build DeclId
  | addRoutine (kind : RoutineKind) (parent : DeclId) (name : String) (spec : RoutineSpec)
      (place : Position) : Build DeclId
  | addConstructor (cls : DeclId) (spec : RoutineSpec) (place : Position) : Build DeclId
  | addDestructor (cls : DeclId) (spec : RoutineSpec) (place : Position) : Build DeclId
  | addLocal (routine : DeclId) (name : String) (place : Position) : Build DeclId
  | addEnumerator (id : DeclId) (name : String) (init : Option Expr) (place : Position) :
      Build Unit
  | setSuperclass (cls : DeclId) (superclass : Expr) : Build Unit
  | setInitializers (routine : DeclId) (inits : List MemberInit) : Build Unit
  | setStatements (routine : DeclId) (body : List Stmt) : Build Unit
  | setValue (id : DeclId) (value : Expr) : Build Unit
  | nameAnonymous (id : DeclId) (name : String) : Build Unit
  | dissolve (id : DeclId) : Build Unit
  | notice (text : String) : Build Unit

namespace Build

variable {α : Type}

def apply : Build α → Store → Except Fault (α × Store)
  | .add parent name entity place, s => .ok (s.add parent name entity place)
  | .addModule parent name place, s => .ok (s.addModule parent name place)
  | .addRoutine kind parent name spec place, s => .ok (s.addRoutine kind parent name spec place)
  | .addConstructor cls spec place, s => .ok (s.addConstructor cls spec place)
  | .addDestructor cls spec place, s => s.addDestructor cls spec place
  | .addLocal routine name place, s => .ok (s.addLocal routine name place)
  | .addEnumerator id name init place, s => .ok ((), s.addEnumerator id name init place)
  | .setSuperclass cls superclass, s => .ok ((), s.setSuperclass cls superclass)
  | .setInitializers routine inits, s => .ok ((), s.setInitializers routine inits)
  | .setStatements routine body, s => .ok ((), s.setStatements routine body)
  | .setValue id value, s => .ok ((), s.setValue id value)
  | .nameAnonymous id name, s => .ok ((), s.nameAnonymous id name)
  | .dissolve id, s => .ok ((), s.dissolve id)
  | .notice text, s => .ok ((), s.notice text)

end Build

end Serpentine
