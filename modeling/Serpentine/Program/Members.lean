import Serpentine.Tree.Expr

/-!
# Members

The declarations inside another one, in the order in which their places were first taken, with a
table of their names.
-/

namespace Serpentine

/-- What a declaration lists, and by which names. -/
structure Members where
  order : List DeclId
  names : List (String × DeclId)
deriving Repr, DecidableEq, Inhabited

namespace Members

def empty : Members :=
  ⟨[], []⟩

def get? (m : Members) (name : String) : Option DeclId :=
  m.names.lookup name

/-- The name table with a name bound to a declaration. -/
def bind (m : Members) (name : String) (id : DeclId) : List (String × DeclId) :=
  (name, id) :: m.names.filter (·.1 != name)

/-- The order with the first place of `old` given to `new`. -/
def replaceFirst (old new : DeclId) : List DeclId → List DeclId
  | [] => []
  | id :: rest => if id = old then new :: rest else id :: replaceFirst old new rest

/-- Puts in a declaration, and tells which one it replaces. -/
def insert (m : Members) (name : Option String) (id : DeclId) : Option DeclId × Members :=
  match name with
  | none => (none, { m with order := m.order ++ [id] })
  | some name =>
    match m.get? name with
    | none => (none, ⟨m.order ++ [id], m.bind name id⟩)
    | some old => (some old, ⟨replaceFirst old id m.order, m.bind name id⟩)

/-- Names a declaration that is listed without a name, and tells which one it displaces. -/
def nameEntry (m : Members) (name : String) (id : DeclId) : Option DeclId × Members :=
  match m.get? name with
  | none => (none, { m with names := m.bind name id })
  | some old => (some old, ⟨m.order.filter (· != old), m.bind name id⟩)

/-- The members without one declaration in their order. -/
def unlist (m : Members) (id : DeclId) : Members :=
  { m with order := m.order.filter (· != id) }

end Members

end Serpentine
