import Serpentine.Command.Run

/-!
# The command line

Reads the files that the arguments name, runs the command on their texts, and writes what it makes.
-/

namespace Serpentine.Command

def AccessFault.ofError : IO.Error → AccessFault
  | .noFileOrDirectory _ _ _ => .missing
  | .alreadyExists _ _ _ => .exists
  | .inappropriateType _ 20 _ => .notDirectory
  | .inappropriateType _ 21 _ => .isDirectory
  | error => .other (toString error)

def attempt {α : Type} (action : IO α) : IO (Except AccessFault α) := do
  match ← action.toBaseIO with
  | .ok a => return .ok a
  | .error error => return .error (.ofError error)

def readAll (paths : List String) : IO (List (String × Except AccessFault String)) :=
  paths.mapM fun (path : String) => return (path, ← attempt (IO.FS.readFile path))

def writeOut (path text : String) : IO (Except Trouble Unit) := do
  if let some parent := Path.parent? path then
    if !parent.isEmpty then
      if let .error cause ← attempt (IO.FS.createDirAll parent) then
        return .error (.creating parent cause)
  return (← attempt (IO.FS.writeFile path text)).mapError (.writing path)

/-- Writes what a run has made, and tells the exit code. -/
def deliver : Except Trouble Product → IO UInt32
  | .error trouble => do
    IO.eprintln trouble.message
    return 1
  | .ok (.text text) => do
    IO.print text
    return 0
  | .ok (.files files) => do
    for (path, text) in files do
      if let .error trouble ← writeOut path text then
        IO.eprintln trouble.message
        return 1
    return 0

end Serpentine.Command

open Serpentine.Command in
def main (args : List String) : IO UInt32 := do
  match Request.ofArguments args with
  | .misuse => IO.eprintln usage; return 2
  | .help | .version => IO.println usage; return 0
  | .run options =>
    let texts ← readAll (defaultConfig :: options.config?.toList ++ options.files)
    let read : Access := fun path => (texts.lookup path).getD (.error .missing)
    let hasDefault := match read defaultConfig with
      | .error .missing | .error .isDirectory => false
      | _ => true
    deliver (options.produce hasDefault read)
