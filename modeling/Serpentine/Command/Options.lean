/-!
# Options

What the arguments of a command ask for.

An option with a value takes it from its own argument or from the next one. A value of its own
argument follows `=`, or the letter itself. The argument `--` makes files of all that follow.
-/

namespace Serpentine.Command

def usage : String :=
  "Usage: cxxpy [-D NAME[=VALUE]] [--module NAME] [--config FILE] [--out-dir DIR] [-v] FILES..."

structure Options where
  /-- Definitions such as `NAME` and `NAME=VALUE`. -/
  flags : List String
  rootModule? : Option String
  config? : Option String
  outDir? : Option String
  verbose : Bool
  files : List String
deriving Repr, DecidableEq, Inhabited

inductive Request where
  | run (options : Options)
  | help
  | version
  /-- The arguments do not fit together. -/
  | misuse
deriving Repr, DecidableEq, Inhabited

inductive Setting where
  | define
  | rootModule
  | config
  | outDir
deriving Repr, DecidableEq, Inhabited

def once (old : Option String) (value : String) : Except Request (Option String) :=
  if old.isSome then .error .misuse else .ok (some value)

def path (value : String) : Except Request String :=
  if value.isEmpty then .error .misuse else .ok value

namespace Options

def initial : Options := ⟨[], none, none, none, false, []⟩

def set (o : Options) (setting : Setting) (value : String) : Except Request Options :=
  match setting with
  | .define => return { o with flags := o.flags ++ [value] }
  | .rootModule => return { o with rootModule? := ← once o.rootModule? value }
  | .config => return { o with config? := ← once o.config? (← path value) }
  | .outDir => return { o with outDir? := ← once o.outDir? (← path value) }

/-- The options with more output, which is asked for once at most. -/
def setVerbose (o : Options) : Except Request Options :=
  if o.verbose then .error .misuse else .ok { o with verbose := true }

def addFile (o : Options) (file : String) : Except Request Options :=
  return { o with files := o.files ++ [← path file] }

end Options

/-- The options so far, and what the next argument is. -/
structure Progress where
  options : Options
  awaiting : Option Setting
  filesOnly : Bool
deriving Repr, DecidableEq, Inhabited

namespace Progress

def isOption (arg : String) : Bool :=
  arg.startsWith "-" && arg != "-"

def long (p : Progress) (name : String) (value? : Option String) : Except Request Progress :=
  let valued (setting : Setting) : Except Request Progress :=
    match value? with
    | none => return { p with awaiting := some setting }
    | some value => return { p with options := ← p.options.set setting value }
  match name, value? with
  | "module", _ => valued .rootModule
  | "config", _ => valued .config
  | "out-dir", _ => valued .outDir
  | "verbose", none => return { p with options := ← p.options.setVerbose }
  | "help", none => .error .help
  | "version", none => .error .version
  | _, _ => .error .misuse

def short (p : Progress) : List Char → Except Request Progress
  | [] => return p
  | 'v' :: rest => do
    let options ← p.options.setVerbose
    short { p with options } rest
  | ['D'] => return { p with awaiting := some .define }
  | 'D' :: '=' :: rest => return { p with options := ← p.options.set .define (.ofList rest) }
  | 'D' :: rest => return { p with options := ← p.options.set .define (.ofList rest) }
  | 'h' :: _ => .error .help
  | 'V' :: _ => .error .version
  | _ => .error .misuse

def step (p : Progress) (arg : String) : Except Request Progress :=
  if p.filesOnly then return { p with options := ← p.options.addFile arg }
  else match p.awaiting with
    | some setting =>
      if isOption arg then .error .misuse
      else return { p with options := ← p.options.set setting arg, awaiting := none }
    | none =>
      match arg.toList with
      | ['-', '-'] => return { p with filesOnly := true }
      | '-' :: '-' :: rest =>
        let name := String.ofList (rest.takeWhile (· != '='))
        p.long name ((rest.dropWhile (· != '=')).tail?.map .ofList)
      | '-' :: c :: rest => p.short (c :: rest)
      | _ => return { p with options := ← p.options.addFile arg }

/-- The request of all arguments. A run needs a file. -/
def finish (p : Progress) : Request :=
  if p.awaiting.isSome || p.options.files.isEmpty then .misuse else .run p.options

end Progress

def Request.ofArguments (args : List String) : Request :=
  match args.foldlM Progress.step ⟨.initial, none, false⟩ with
  | .ok p => p.finish
  | .error request => request

end Serpentine.Command
