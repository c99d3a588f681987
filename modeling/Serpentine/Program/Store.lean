import Serpentine.Fault
import Serpentine.Program.Declaration

/-!
# The store of declarations

All declarations of a program, numbered in the order in which they were made; number zero is the
root module. Declarations are only added and completed, never taken out, and the store notes what a
reader of the program should be warned about.
-/

namespace Serpentine

/-- A program, as declarations with numbers. -/
structure Store where
  decls : Array Declaration
  nextRef : RefId
  notices : List String
  /-- A declaration has a larger number than the one around it. -/
  nested : ∀ id parent, decls[id]?.bind Declaration.parent = some parent → parent < id
deriving Repr

namespace Store

variable (s : Store)

def root : DeclId := 0

/-- A program with a root module only. -/
def empty (rootName : String) : Store :=
  { decls := #[⟨some rootName, none, root, ⟨rootName, 0, none⟩, .namespaceOf (.empty rootName)⟩]
    nextRef := 0
    notices := []
    nested := by
      rintro (_ | id) parent h <;> simp at h }

instance : Inhabited Store where
  default := empty ""

/-! ## Reading -/

def entity? (id : DeclId) : Option Entity :=
  s.decls[id]?.map Declaration.entity

def name? (id : DeclId) : Option String :=
  s.decls[id]?.bind Declaration.name

def parent? (id : DeclId) : Option DeclId :=
  s.decls[id]?.bind Declaration.parent

def place (id : DeclId) : Position :=
  (s.decls[id]?.map Declaration.place).getD ⟨"", 0, none⟩

/-- The module that holds a declaration. -/
def owningModule (id : DeclId) : DeclId :=
  (s.decls[id]?.map Declaration.root).getD root

def module? (id : DeclId) : Option Module :=
  match s.entity? id with
  | some (.namespaceOf m) => some m
  | _ => none

def class? (id : DeclId) : Option ClassType :=
  match s.entity? id with
  | some (.classType c) => some c
  | _ => none

def routine? (id : DeclId) : Option Routine :=
  match s.entity? id with
  | some (.routine _ r) => some r
  | _ => none

def enumeration? (id : DeclId) : Option Enumeration :=
  match s.entity? id with
  | some (.enumeration e) => some e
  | _ => none

def members? (id : DeclId) : Option Members :=
  (s.entity? id).bind Entity.members?

def modulePath (id : DeclId) : String :=
  ((s.module? (s.owningModule id)).map Module.path).getD ""

def hasBody (id : DeclId) : Bool :=
  (s.routine? id).any fun r => r.statements.isSome

/-- The modules from one on, each before those inside it, in at most so many levels. -/
def modulesWithin (s : Store) : Nat → DeclId → List DeclId
  | 0, _ => []
  | n + 1, id =>
    id :: match s.module? id with
      | none => []
      | some m => m.submodules.order.flatMap (s.modulesWithin n)

/-- All modules, the root first, each before those inside it. -/
def modules : List DeclId :=
  s.modulesWithin s.decls.size root

def moduleByPath? (path : String) : Option DeclId :=
  s.modules.find? fun id => (s.module? id).any (·.path == path)

/-! ## Changing -/

/-- Changes one declaration, but not the declaration around it. -/
def modify (id : DeclId) (f : Declaration → Declaration)
    (hf : ∀ d, (f d).parent = d.parent) : Store :=
  { s with
    decls := s.decls.modify id f
    nested := by
      intro i parent h
      rw [Array.getElem?_modify] at h
      apply s.nested i parent
      split at h
      · cases hi : s.decls[i]? with
        | none => simp [hi] at h
        | some d => simpa [hi, hf d] using h
      · exact h }

def modifyEntity (id : DeclId) (f : Entity → Entity) : Store :=
  s.modify id (fun d => { d with entity := f d.entity }) fun _ => rfl

def modifyModule (id : DeclId) (f : Module → Module) : Store :=
  s.modifyEntity id fun
    | .namespaceOf m => .namespaceOf (f m)
    | e => e

def modifyClass (id : DeclId) (f : ClassType → ClassType) : Store :=
  s.modifyEntity id fun
    | .classType c => .classType (f c)
    | e => e

def modifyRoutine (id : DeclId) (f : Routine → Routine) : Store :=
  s.modifyEntity id fun
    | .routine kind r => .routine kind (f r)
    | e => e

def notice (text : String) : Store :=
  { s with notices := s.notices ++ [text] }

def freshRef : RefId × Store :=
  (s.nextRef, { s with nextRef := s.nextRef + 1 })

def alloc (parent : DeclId) (name : Option String) (place : Position)
    (entity : Entity) : DeclId × Store :=
  let id := s.decls.size
  let owner := match entity with
    | .namespaceOf _ => id
    | _ => s.owningModule parent
  let around := if parent < id then some parent else none
  (id, { s with
    decls := s.decls.push ⟨name, around, owner, place, entity⟩
    nested := by
      intro i p h
      rw [Array.getElem?_push] at h
      split at h
      · subst i
        simp only [Option.bind_some, around, Option.ite_none_right_eq_some, Option.some.injEq] at h
        exact h.2 ▸ h.1
      · exact s.nested i p h })

/-- Warns that one declaration took the name of another. -/
def noticeReplaced (place : Position) (name : String) (old : DeclId) : Store :=
  let word := ((s.entity? old).map Entity.describe).getD ""
  s.notice (place.text ++ ": `" ++ name ++ "` redeclared, replacing previous " ++ word)

/-- Asks for the import that a named enumeration needs. -/
def importEnum (id : DeclId) : Store :=
  s.modifyModule (s.owningModule id) (·.addImport "enum" (some "Enum"))

/-- The namespace of a name inside a module, made if it is not there. -/
def addModule (parent : DeclId) (name : String) (place : Position) : DeclId × Store :=
  match (s.module? parent).bind (·.submodules.get? name) with
  | some id => (id, s)
  | none =>
    let path := if parent = root then name else s.modulePath parent ++ "." ++ name
    let (id, s) := s.alloc parent (some name) place (.namespaceOf (.empty path))
    (id, s.modifyModule parent fun m =>
      { m with submodules := (m.submodules.insert (some name) id).2 })

/-- Makes a declaration and puts it in the table of its parent. One of the same name is replaced,
with a warning. -/
def add (parent : DeclId) (name : Option String) (entity : Entity)
    (place : Position) : DeclId × Store :=
  let (id, s) := s.alloc parent name place entity
  let s := match s.members? parent with
    | none => s
    | some members =>
      let (old, members) := members.insert name id
      let s := s.modifyEntity parent (Entity.setMembers members)
      match old with
      | none => s
      | some old => s.noticeReplaced place (name.getD "") old
  match entity, name with
  | .enumeration _, some _ => (id, s.importEnum id)
  | _, _ => (id, s)

/-- Adds a parameter to a routine. One without a name is called by its place. -/
def addParameter (routine : DeclId) (spec : ParameterSpec) (index : Nat) :
    DeclId × Store :=
  let name := spec.name.getD ("arg" ++ toString index)
  let (id, s) := s.add routine (some name) (.parameter ⟨spec.type, spec.default⟩) spec.place
  (id, s.modifyRoutine routine fun r => { r with parameters := r.parameters ++ [id] })

/-- Adds parameters to a routine, the first of which has place `index`. -/
def addParametersFrom (s : Store) (routine : DeclId) : Nat → List ParameterSpec → Store
  | _, [] => s
  | index, spec :: rest =>
    (s.addParameter routine spec index).2.addParametersFrom routine (index + 1) rest

def addParameters (routine : DeclId) (spec : RoutineSpec) : Store :=
  s.addParametersFrom routine 0 spec.params

/-- The local variable of a name in a routine. Uses of one name share it. -/
def addLocal (routine : DeclId) (name : String) (place : Position) : DeclId × Store :=
  match (s.members? routine).bind (·.get? name) with
  | some id => (id, s)
  | none => s.add routine (some name) (.variableOf ⟨none, false⟩) place

def setStatements (routine : DeclId) (body : List Stmt) : Store :=
  s.modifyRoutine routine fun r => { r with statements := some body }

/-- Gives a constructor what it sets before its body. -/
def setInitializers (routine : DeclId) (inits : List MemberInit) : Store :=
  s.modifyRoutine routine fun r => { r with initializers := inits }

/-- Gives a routine that was only announced the parameters of its definition. -/
def completeForward (routine : DeclId) (spec : RoutineSpec) : Store :=
  let s := s.modifyRoutine routine fun r =>
    { r with
      parameters := []
      locals := .empty
      isStatic := r.isStatic || spec.isStatic
      isVirtual := r.isVirtual || spec.isVirtual
      isPure := spec.isPure }
  s.addParameters routine spec

/-- The declaration is a routine of this sort with the signature of a head. -/
def isRoutineLike (id : DeclId) (kind : RoutineKind) (spec : RoutineSpec) : Bool :=
  match s.entity? id with
  | some (.routine k r) => k == kind && r.signature == spec.signature
  | _ => false

def addNewRoutine (kind : RoutineKind) (parent : DeclId) (name : String)
    (spec : RoutineSpec) (place : Position) : DeclId × Store :=
  let (id, s) := s.add parent (some name) (.routine kind spec.routine) place
  (id, s.addParameters id spec)

/-- Adds a function or method. A definition completes the announcement with its signature, and an
announcement of what is there changes nothing; any other routine replaces one of its name. -/
def addRoutine (kind : RoutineKind) (parent : DeclId) (name : String)
    (spec : RoutineSpec) (place : Position) : DeclId × Store :=
  match ((s.members? parent).bind (·.get? name)).filter (s.isRoutineLike · kind spec) with
  | some id =>
    if !spec.hasBody then (id, s)
    else if !s.hasBody id then (id, s.completeForward id spec)
    else s.addNewRoutine kind parent name spec place
  | none => s.addNewRoutine kind parent name spec place

/-- Makes a constructor and lists it under its signature. -/
def addNewConstructor (cls : DeclId) (spec : RoutineSpec) (place : Position) :
    DeclId × Store :=
  let (id, s) := s.alloc cls (s.name? cls) place (.routine .constructor spec.routine)
  let s := s.addParameters id spec
  (id, s.modifyClass cls fun c =>
    { c with constructors := Sorted.update spec.signature (fun _ => id) c.constructors })

/-- Adds a constructor. Constructors are told apart by their signatures. -/
def addConstructor (cls : DeclId) (spec : RoutineSpec) (place : Position) :
    DeclId × Store :=
  match (s.class? cls).bind (·.constructors.lookup spec.signature) with
  | none => s.addNewConstructor cls spec place
  | some id =>
    if !spec.hasBody then (id, s)
    else if !s.hasBody id then (id, s.completeForward id spec)
    else
      let text := place.text ++ ": duplicate constructor signature (" ++
        ", ".intercalate spec.signature ++ "), replacing previous definition"
      (s.notice text).addNewConstructor cls spec place

/-- Adds the destructor. A class has one, and it can be announced before it is defined. -/
def addDestructor (cls : DeclId) (spec : RoutineSpec) (place : Position) :
    Except Fault (DeclId × Store) :=
  match (s.class? cls).bind ClassType.destructor with
  | some id =>
    if !spec.hasBody then .ok (id, s)
    else if s.hasBody id then .error (.destructors ((s.name? cls).getD "") place)
    else .ok (id, s.completeForward id spec)
  | none =>
    let name := (s.name? cls).map ("~" ++ ·)
    let (id, s) := s.alloc cls name place (.routine .destructor spec.routine)
    .ok (id, s.modifyClass cls fun c => { c with destructor := some id })

/-- Names a class or enumeration that was declared without a name. -/
def nameAnonymous (id : DeclId) (name : String) : Store :=
  let s := s.modify id (fun d => { d with name := some name }) fun _ => rfl
  match s.parent? id with
  | none => s
  | some parent =>
    let s := match s.members? parent with
      | none => s
      | some members =>
        let (old, members) := members.nameEntry name id
        let s := s.modifyEntity parent (Entity.setMembers members)
        match old with
        | none => s
        | some old => s.noticeReplaced (s.place id) name old
    match s.entity? id with
    | some (.enumeration _) => s.importEnum id
    | _ => s

/-- Puts a declaration into another one, which has to have a smaller number. -/
def setParent (id parent : DeclId) (hlt : parent < id) : Store :=
  { s with
    decls := s.decls.modify id fun d => { d with parent := some parent }
    nested := by
      intro i p h
      rw [Array.getElem?_modify] at h
      split at h
      · subst i
        cases hi : s.decls[id]? with
        | none => simp [hi] at h
        | some d =>
          obtain rfl : parent = p := by simpa [hi] using h
          exact hlt
      · exact s.nested i p h }

/-- Moves a declaration into another one and its table. -/
def adopt (owner member : DeclId) (hlt : owner < member) : Store :=
  let s := s.setParent member owner hlt
  match s.members? owner with
  | none => s
  | some members =>
    s.modifyEntity owner (Entity.setMembers (members.insert (s.name? member) member).2)

/-- Moves declarations into another one, in their order. -/
def adoptAll (s : Store) (owner : DeclId) : (moved : List DeclId) →
    (∀ member ∈ moved, owner < member) → Store
  | [], _ => s
  | member :: rest, h =>
    (s.adopt owner member (h member List.mem_cons_self)).adoptAll owner rest fun i hi =>
      h i (List.mem_cons_of_mem member hi)

/-- What a class lists. -/
def classMembers (id : DeclId) : List DeclId :=
  ((s.class? id).map (·.members.order)).getD []

/-- Moves the members of a class without a name to the declaration around it. All of them must have
larger numbers than that declaration, as what was made inside the class has. -/
def dissolve (id : DeclId) : Store :=
  match s.parent? id with
  | none => s
  | some owner =>
    if h : ∀ member ∈ s.classMembers id, owner < member then
      let t := match s.members? owner with
        | none => s
        | some members => s.modifyEntity owner (Entity.setMembers (members.unlist id))
      t.adoptAll owner (s.classMembers id) h
    else s

def setSuperclass (cls : DeclId) (superclass : Expr) : Store :=
  s.modifyClass cls fun c => { c with superclass := some superclass }

def addEnumerator (id : DeclId) (name : String) (init : Option Expr)
    (place : Position) : Store :=
  s.modifyEntity id fun
    | .enumeration e => .enumeration (e.push name init place)
    | e => e

def setValue (id : DeclId) (value : Expr) : Store :=
  s.modifyEntity id fun
    | .attribute a => .attribute { a with value := some value }
    | .variableOf v => .variableOf { v with value := some value }
    | e => e

end Store

end Serpentine
