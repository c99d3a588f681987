import Serpentine.Command.Files
import Serpentine.Command.Options
import Serpentine.Config.Settings
import Serpentine.Session

/-!
# Runs

A run reads a configuration and source files and makes scripts of them.
-/

namespace Serpentine.Command

inductive Trouble where
  | fault (fault : Fault)
  | reading (path : String) (cause : AccessFault)
  | readingConfig (path : String) (cause : AccessFault)
  | parsingConfig (path : String)
  | creating (path : String) (cause : AccessFault)
  | writing (path : String) (cause : AccessFault)
deriving Repr, DecidableEq, Inhabited

def Trouble.message : Trouble → String
  | .fault f => f.message
  | .reading path cause => "error: reading " ++ path ++ ": " ++ cause.message
  | .readingConfig path cause => "error: reading config " ++ path ++ ": " ++ cause.message
  | .parsingConfig path => "error: parsing config " ++ path ++ ": TOML parse error"
  | .creating path cause => "error: creating " ++ path ++ ": " ++ cause.message
  | .writing path cause => "error: writing " ++ path ++ ": " ++ cause.message

/-- The exit code of a run that fails. An overflow cuts it short. -/
def Trouble.code : Trouble → Nat
  | .fault .overflow => 101
  | _ => 1

inductive Product where
  | text (s : String)
  | files (list : List (String × String))
deriving Repr, DecidableEq, Inhabited

/-- The text of a file, or why it cannot be read. -/
abbrev Access := String → Except AccessFault String

def defaultConfig : String := "cxxpy.toml"

/-- The macro that a flag defines. Without a value it is 1. -/
def macroOfFlag (flag : String) : String × String :=
  let name := flag.toList.takeWhile (· != '=')
  let value := match flag.toList.dropWhile (· != '=') with
    | [] => "1"
    | _ :: value => String.ofList value
  (String.ofList (trim name), value)

/-- The name of a module after the stem of a file. Other characters than letters and digits become
underscores, and so does what would leave it empty or starting with a digit. -/
def moduleNameOf (path : String) : String :=
  let name := ((Path.stem? path).getD "").map fun c => if c.isAlphanum then c else '_'
  if name.toList.head?.all Char.isDigit then "_" ++ name else name

namespace Options

def configFile? (o : Options) (hasDefault : Bool) : Option String :=
  o.config?.or (if hasDefault then some defaultConfig else none)

def settings (o : Options) (hasDefault : Bool) (read : Access) : Except Trouble Config.Settings :=
  match o.configFile? hasDefault with
  | none => .ok .default
  | some file =>
    match read file with
    | .error cause => .error (.readingConfig file cause)
    | .ok text =>
      match Config.Settings.parse? text with
      | none => .error (.parsingConfig file)
      | some settings => .ok settings

/-- The name of the root module: the one asked for, that of the settings, or that of the first
file. -/
def rootModule (o : Options) (settings : Config.Settings) : String :=
  (o.rootModule?.or settings.rootModule?).getD (moduleNameOf (o.files.headD ""))

/-- The macros before the first file. Those of the arguments win over those of the settings. -/
def macros (o : Options) (settings : Config.Settings) : Macro.Table :=
  .ofTexts (settings.macros ++ o.flags.map macroOfFlag)

def load (read : Access) : Session → List String → Except Trouble Session
  | s, [] => .ok s
  | s, file :: rest =>
    match read file with
    | .error cause => .error (.reading file cause)
    | .ok text =>
      match s.parse file text with
      | (⟨.error fault, _⟩, _) => .error (.fault fault)
      | (⟨.ok _, _⟩, s) => load read s rest

def produce (o : Options) (hasDefault : Bool) (read : Access) : Except Trouble Product := do
  let settings ← o.settings hasDefault read
  let root := o.rootModule settings
  let s ← load read (.start root (o.macros settings) .script) o.files
  match s.resolve with
  | (.error fault, _) => .error (.fault fault)
  | (.ok _, s) =>
    let product : Except Fault Product := match o.outDir? with
      | none => (s.render root).text.map .text
      | some dir =>
        s.renderAll.result.map fun files =>
          .files (files.map fun (file, text) => (Path.join dir file, text))
    product.mapError .fault

end Options

/-! ## Commands in a file tree -/

structure Outcome where
  code : Nat
  out : String
  err : String
  tree : FileTree
deriving Repr, DecidableEq, Inhabited

def store (t : FileTree) (path text : String) : Except Trouble FileTree := do
  let t ← match Path.parent? path with
    | none => .ok t
    | some parent => (t.createDirectories parent).mapError (.creating parent)
  (t.write path text).mapError (.writing path)

def storeAll (t : FileTree) : List (String × String) → Option Trouble × FileTree
  | [] => (none, t)
  | (path, text) :: rest =>
    match store t path text with
    | .error trouble => (some trouble, t)
    | .ok t => storeAll t rest

def run (t : FileTree) (args : List String) : Outcome :=
  let failed (trouble : Trouble) (t : FileTree) : Outcome := ⟨trouble.code, "", trouble.message ++ "\n", t⟩
  match Request.ofArguments args with
  | .misuse => ⟨2, "", usage ++ "\n", t⟩
  | .help | .version => ⟨0, usage ++ "\n", "", t⟩
  | .run options =>
    match options.produce (t.isFile defaultConfig) t.read with
    | .error trouble => failed trouble t
    | .ok (.text text) => ⟨0, text, "", t⟩
    | .ok (.files files) =>
      match storeAll t files with
      | (some trouble, t) => failed trouble t
      | (none, t) => ⟨0, "", "", t⟩

end Serpentine.Command
