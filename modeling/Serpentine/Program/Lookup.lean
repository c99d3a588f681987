import Serpentine.Program.Search
import Serpentine.Program.Store

/-!
# Looking names up

A name is looked up in the innermost declaration and then in those around it. Inside a class the
base classes are asked as well, whose names are themselves looked up around the class. A search that
comes to ask for the base class it is made for never ends.
-/

namespace Serpentine

/-- What a lookup can find. -/
inductive Found where
  | decl (id : DeclId)
  | enumerator (enumeration : DeclId) (index : Nat)
deriving Repr, DecidableEq, Inhabited

namespace Store

variable (s : Store)

/-- A declaration and those around it, in at most so many steps. -/
def ancestorsWithin (s : Store) : Nat → DeclId → List DeclId
  | 0, _ => []
  | n + 1, id =>
    id :: match s.parent? id with
      | none => []
      | some parent => s.ancestorsWithin n parent

/-- A declaration and those around it, innermost first. A declaration has a smaller number than
those inside it, so its number bounds the steps. -/
def ancestors (id : DeclId) : List DeclId :=
  s.ancestorsWithin (id + 1) id

/-- A name among members, or among the enumerators of an enumeration there that is not scoped. -/
def lookupIn (members : Members) (name : String) : Option Found :=
  match members.get? name with
  | some id => some (.decl id)
  | none => members.order.findSome? fun id =>
    match s.enumeration? id with
    | some e => if e.isScoped then none else (e.indexOf? name).map (.enumerator id)
    | none => none

/-! ## Searches -/

def maxBases : Nat := 17

def superclassName? (cls : DeclId) : Option String :=
  match (s.class? cls).bind ClassType.superclass with
  | some (.name ref) | some (.scoped ref) => some ref.raw
  | _ => none

/-- The base class of a class. One without a base class needs no search. -/
def baseOf (cls : DeclId) : Search (Option DeclId) :=
  if (s.superclassName? cls).isSome then .ask cls .done else return none

/-- A name in one declaration, given how many base classes may be followed. -/
def memberSearch (s : Store) : Nat → DeclId → String → Search (Option Found)
  | n, id, name =>
    match s.entity? id with
    | some (.enumeration e) => return (e.indexOf? name).map (.enumerator id)
    | some (.namespaceOf m) =>
      return (s.lookupIn m.members name).or ((m.submodules.get? name).map .decl)
    | some (.classType c) =>
      match s.lookupIn c.members name, n with
      | some found, _ => return some found
      | none, 0 => return none
      | none, n + 1 => do
        match ← s.baseOf id with
        | none => return none
        | some base => s.memberSearch n base name
    | some (.routine _ r) => return (r.locals.get? name).map .decl
    | _ => return none

def firstSearch (s : Store) (name : String) : List DeclId → Search (Option Found)
  | [] => return none
  | id :: rest => do
    match ← s.memberSearch maxBases id name with
    | some found => return some found
    | none => s.firstSearch name rest

def lexicalSearch (scope : DeclId) (name : String) : Search (Option Found) :=
  s.firstSearch name (s.ancestors scope)

/-- The parts of a scoped name behind what the parts before them were found to be. -/
def walkSearch (s : Store) : Found → List String → Search (Except String Found)
  | found, [] => return .ok found
  | .enumerator .., segment :: _ => return .error segment
  | .decl id, segment :: rest => do
    match ← s.memberSearch maxBases id segment with
    | none => return .error segment
    | some found => s.walkSearch found rest

/-- A scoped name, or the part of it that is not there. An empty first part means the root
module. -/
def qualifiedSearch (scope : DeclId) : List String → Search (Except String Found)
  | [] => return .error ""
  | first :: rest =>
    if first.isEmpty then
      match rest with
      | [] => return .error ""
      | second :: rest => do
        match ← s.memberSearch maxBases root second with
        | none => return .error second
        | some found => s.walkSearch found rest
    else do
      match ← s.lexicalSearch scope first with
      | none => return .error first
      | some found => s.walkSearch found rest

/-- The base class of a class: its name is searched for around the class. -/
def baseSearch (cls : DeclId) : Search (Option DeclId) :=
  match s.superclassName? cls, s.parent? cls with
  | some raw, some parent => do
    match ← s.qualifiedSearch parent (TypeName.segments raw) with
    | .ok (.decl id) => return if id ≠ cls ∧ (s.class? id).isSome then some id else none
    | _ => return none
  | _, _ => return none

/-! ## Results -/

/-- The result of the search for the base class of a class, if no more than so many searches have to
wait for each other. -/
def baseWithin (s : Store) : Nat → DeclId → Option (Option DeclId)
  | 0, _ => none
  | n + 1, cls => (s.baseSearch cls).run (s.baseWithin n)

/-- How many searches may wait for each other: as many as there are declarations, and then more
than any memory holds. A search that ends never comes so far. -/
def maxWaiting : Nat :=
  s.decls.size + 4294967296

/-- The result of the search for the base class of a class, if the search ends. -/
def findBase (cls : DeclId) : Option (Option DeclId) :=
  s.baseWithin s.maxWaiting cls

def superclassOf? (cls : DeclId) : Option DeclId :=
  (s.findBase cls).join

/-- The result of the search for a name in one declaration and its base classes. -/
def findMember (id : DeclId) (name : String) : Option (Option Found) :=
  (s.memberSearch maxBases id name).run s.findBase

/-- The result of the search for a name from a declaration outwards. -/
def findLexical (scope : DeclId) (name : String) : Option (Option Found) :=
  (s.lexicalSearch scope name).run s.findBase

/-- Looks a scoped name up. -/
def findQualified (scope : DeclId) (segments : List String) :
    Option (Except String Found) :=
  (s.qualifiedSearch scope segments).run s.findBase

/-- A name in one declaration and its base classes. -/
def lookupMember (id : DeclId) (name : String) : Option Found :=
  (s.findMember id name).join

def lookupLexical (scope : DeclId) (name : String) : Option Found :=
  (s.findLexical scope name).join

/-- A scoped name, or the part of it that is not there. -/
def lookupQualified (scope : DeclId) (segments : List String) :
    Except String Found :=
  (s.findQualified scope segments).getD (.error (segments.headD ""))

def isAlias (id : DeclId) : Bool :=
  match s.entity? id with
  | some (.variableOf v) => v.isAlias
  | _ => false

def namesClass (scope : DeclId) (segments : List String) : Bool :=
  match s.lookupQualified scope segments with
  | .ok (.decl id) => (s.class? id).isSome || s.isAlias id
  | _ => false

/-- The scoped name is that of a class, an enumeration or an alias of a class. -/
def namesType (scope : DeclId) (segments : List String) : Bool :=
  match s.lookupQualified scope segments with
  | .ok (.decl id) => (s.class? id).isSome || (s.enumeration? id).isSome || s.isAlias id
  | _ => false

def isModule (id : DeclId) : Bool :=
  (s.module? id).isSome

/-- A declaration and those around it up to its module, innermost first. -/
def belowModule (id : DeclId) : List DeclId :=
  (s.ancestors id).takeWhile fun d => !s.isModule d

/-- The innermost class around a declaration, itself included. -/
def enclosingClass? (id : DeclId) : Option DeclId :=
  (s.belowModule id).find? fun d => (s.class? d).isSome

/-- The declarations from below the module down to a declaration. -/
def pathBelowModule (id : DeclId) : List DeclId :=
  (s.belowModule id).reverse

end Store

end Serpentine
