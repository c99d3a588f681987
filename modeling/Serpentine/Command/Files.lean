import Serpentine.Sorted
import Serpentine.Text.Path

/-!
# File trees

Files and directories below a working directory.
-/

namespace Serpentine.Command

inductive AccessFault where
  | missing
  | exists
  | notDirectory
  | isDirectory
  /-- Any other cause, in the system's words. -/
  | other (text : String)
deriving Repr, DecidableEq, Inhabited

def AccessFault.message : AccessFault → String
  | .missing => "No such file or directory (os error 2)"
  | .exists => "File exists (os error 17)"
  | .notDirectory => "Not a directory (os error 20)"
  | .isDirectory => "Is a directory (os error 21)"
  | .other text => text

/-- The way from the working directory to a file. What is above the working directory starts with
`..`, and what is below the root of the system starts with `/`. -/
abbrev Place := List String

def Place.isOutside (p : Place) : Bool :=
  p.head? == some ".." || p.head? == some "/"

/-- The place is the root of the system or above the working directory. -/
def Place.isAbove (p : Place) : Bool :=
  p == ["/"] || p.all (· == "..")

def Place.up (p : Place) : Place :=
  if p == ["/"] then p
  else if p.isAbove then p ++ [".."]
  else p.dropLast

structure FileTree where
  files : List (Place × String)
  /-- The directories that were made. Those of the files are not among them. -/
  made : List Place
deriving Repr, DecidableEq, Inhabited

namespace FileTree

variable (t : FileTree)

def text? (p : Place) : Option String :=
  t.files.lookup p

def isDirectory (p : Place) : Bool :=
  p.isAbove || t.made.contains p ||
    t.files.any fun (q, _) => p.isPrefixOf q && p.length < q.length

/-- Goes on from a directory to the place of a path. -/
def goOn (t : FileTree) (here : Place) : List String → Except AccessFault Place
  | [] => .ok here
  | part :: rest =>
    if t.isDirectory here then t.goOn (if part == ".." then here.up else here ++ [part]) rest
    else if (t.text? here).isSome then .error .notDirectory
    else .error .missing

def startOf (path : String) : Place :=
  if path.startsWith "/" then ["/"] else []

def stepsOf (path : String) : List String :=
  (Path.parts path).filter (· != ".")

def namesDirectory (path : String) : Bool :=
  path.endsWith "/" || path.endsWith "/." || path == "."

def locate (path : String) : Except AccessFault Place :=
  t.goOn (startOf path) (stepsOf path)

def isFile (path : String) : Bool :=
  match t.locate path with
  | .ok p => (t.text? p).isSome && !namesDirectory path
  | .error _ => false

def read (path : String) : Except AccessFault String := do
  let p ← t.locate path
  match t.text? p with
  | some text => if namesDirectory path then .error .notDirectory else .ok text
  | none => if t.isDirectory p then .error .isDirectory else .error .missing

def put (p : Place) (text : String) : FileTree :=
  { t with files := Sorted.update p (fun _ => text) t.files }

def write (path text : String) : Except AccessFault FileTree := do
  let p ← t.locate path
  if namesDirectory path || t.isDirectory p then .error .isDirectory
  else .ok (t.put p text)

/-- Makes the directories that are missing on a way. -/
def createOnWay (t : FileTree) (here : Place) : List String → Except AccessFault FileTree
  | [] => .ok t
  | part :: rest =>
    let next := if part == ".." then here.up else here ++ [part]
    if t.isDirectory next then t.createOnWay next rest
    else if (t.text? next).isSome then
      .error (if rest.isEmpty then .exists else .notDirectory)
    else { t with made := next :: t.made }.createOnWay next rest

def createDirectories (path : String) : Except AccessFault FileTree :=
  t.createOnWay (startOf path) (stepsOf path)

def ofList (files : List (String × String)) : FileTree :=
  files.foldl (fun t (path, text) => t.put (stepsOf path) text) ⟨[], []⟩

/-- The files below the working directory that another tree does not have. -/
def addedSince (t before : FileTree) : List (String × String) :=
  (t.files.filter fun (p, _) => !p.isOutside && (before.text? p).isNone).map
    fun (p, text) => ("/".intercalate p, text)

end FileTree

end Serpentine.Command
