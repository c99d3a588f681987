import Serpentine.Grammar.Unit
import Serpentine.Macro.Directive
import Serpentine.Text.Path
import Serpentine.Writer

/-!
# Sessions

A session reads files into one program and writes its modules. The files share their declarations,
macros and what is known of names.
-/

namespace Serpentine

/-- A translation between two steps. -/
structure Session where
  store : Store
  names : Grammar.Names
  macros : Macro.Table
  table : Resolutions
  writer : Writer

/-- A result or fault, with the warnings given on the way. -/
structure Answer (α : Type) where
  result : Except Fault α
  warnings : List String

namespace Session

variable (s : Session)

def start (root : String) (macros : Macro.Table) (writer : Writer) : Session :=
  ⟨.empty root, .empty, macros, [], writer⟩

def takeNotices : List String × Session :=
  (s.store.notices, { s with store := { s.store with notices := [] } })

/-- Reads a file. A fault of the grammar keeps what was declared before it, but nothing of what was
known of names. -/
def parse (file text : String) : Answer Unit × Session :=
  let expanded := Macro.run s.macros file text
  let s := { s with macros := expanded.table }
  match expanded.text with
  | .error fault => (⟨.error fault, expanded.warnings⟩, s)
  | .ok text =>
    let (result, store) := Grammar.parseFile s.names s.store file text
    let (names, result) := match result with
      | .ok names => (names, .ok ())
      | .error fault => (Grammar.Names.empty, .error fault)
    let (notices, s) := { s with store, names }.takeNotices
    (⟨result, expanded.warnings ++ notices⟩, s)

/-- Binds the names that are not bound yet, and tells their number. -/
def resolve : Except Fault Nat × Session :=
  let (outcome, r) := Serpentine.resolve s.store s.table
  (outcome.map fun _ => r.table.length - s.table.length,
    { s with store := r.store, table := r.table })

def renderModule (id : DeclId) : Written :=
  s.writer.write s.store s.table id

def render (path : String) : Written :=
  match s.store.moduleByPath? path with
  | none => ⟨.error (.unknownModule path), []⟩
  | some id => s.renderModule id

def modulePaths : List String :=
  s.store.modules.map s.store.modulePath

/-- A module other than the root that has modules inside it. -/
def isPackage (id : DeclId) : Bool :=
  id != Store.root && (s.store.module? id).any fun m => !m.submodules.order.isEmpty

/-- The file that a module is written to. -/
def fileOf (id : DeclId) : String :=
  let path := (Script.pathParts (s.store.modulePath id)).foldl Path.join ""
  if s.isPackage id then Path.join path ("__init__." ++ s.writer.extension)
  else Path.withExtension path s.writer.extension

/-- The texts of modules with their files, up to the first fault. -/
def renderEach (s : Session) : List DeclId → Answer (List (String × String))
  | [] => ⟨.ok [], []⟩
  | id :: rest =>
    let written := s.renderModule id
    match written.text with
    | .error fault => ⟨.error fault, written.warnings⟩
    | .ok text =>
      let others := s.renderEach rest
      ⟨others.result.map ((s.fileOf id, text) :: ·), written.warnings ++ others.warnings⟩

def renderAll : Answer (List (String × String)) :=
  s.renderEach s.store.modules

/-- Reads files up to the first fault. -/
def parseAll (s : Session) : List (String × String) → Answer Unit × Session
  | [] => (⟨.ok (), []⟩, s)
  | (file, text) :: rest =>
    let (answer, next) := s.parse file text
    match answer.result with
    | .error _ => (answer, next)
    | .ok _ =>
      let (others, final) := next.parseAll rest
      (⟨others.result, answer.warnings ++ others.warnings⟩, final)

end Session

/-- The script of some files. -/
def scriptOf (root : String) (files : List (String × String)) : Answer String :=
  let (read, s) := (Session.start root (.ofTexts []) .script).parseAll files
  match read.result with
  | .error fault => ⟨.error fault, read.warnings⟩
  | .ok _ =>
    match s.resolve with
    | (.error fault, _) => ⟨.error fault, read.warnings⟩
    | (.ok _, s) =>
      let written := s.render root
      ⟨written.text, read.warnings ++ written.warnings⟩

end Serpentine
