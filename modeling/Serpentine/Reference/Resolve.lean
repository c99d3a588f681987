import Serpentine.Reference.Binding

/-!
# Resolving names

Every use of a name is bound once, in the order of the declarations, and its binding is kept.
-/

namespace Serpentine

abbrev Resolutions := List (RefId × Resolution)

def Resolutions.get? (r : Resolutions) (id : RefId) : Option Resolution :=
  r.lookup id

namespace Store

/-- All uses of names, in the order of the declarations. -/
def references (s : Store) : List NameRef :=
  s.decls.toList.flatMap fun d => d.entity.exprs.flatMap Expr.names

def addImport (s : Store) (id : DeclId) (request : ImportRequest) : Store :=
  s.modifyModule id (·.addImport request.1 request.2)

/-- The function that runs when the root module is run. -/
def mainFunction? (s : Store) : Option Routine := do
  let m ← s.module? root
  let id ← m.members.get? "main"
  match ← s.entity? id with
  | .routine .function r => some r
  | _ => none

/-- Puts in the import that the start of a program needs. -/
def importForMain (s : Store) : Store :=
  if s.mainFunction?.isSome then s.addImport root ("sys", none) else s

end Store

/-- A program while its names are bound. -/
structure Resolving where
  store : Store
  table : Resolutions
deriving Repr, Inhabited

/-- Binds a use of a name, unless it is bound. -/
def Resolving.step (r : Resolving) (ref : NameRef) : Except Fault Resolving :=
  match r.table.get? ref.id with
  | some _ => .ok r
  | none =>
    match r.store.bind ref with
    | .error fault => .error fault
    | .ok bound =>
      let store := match bound.request with
        | none => r.store
        | some request => r.store.addImport (r.store.owningModule ref.scope) request
      .ok ⟨store, (ref.id, bound.resolution) :: r.table⟩

/-- Binds uses of names until one fails. What was bound before is kept. -/
def Resolving.run (r : Resolving) : List NameRef → Except Fault Unit × Resolving
  | [] => (.ok (), r)
  | ref :: rest =>
    match r.step ref with
    | .error fault => (.error fault, r)
    | .ok next => next.run rest

/-- Binds all uses of names that are not bound yet. -/
def resolve (store : Store) (table : Resolutions) : Except Fault Unit × Resolving :=
  let (outcome, r) := Resolving.run ⟨store, table⟩ store.references
  match outcome with
  | .error fault => (.error fault, r)
  | .ok _ => (.ok (), { r with store := r.store.importForMain })

end Serpentine
