/-!
# File paths

Paths whose parts are separated by `/`.
-/

namespace Serpentine.Path

/-- One path below another. A path that starts with `/` stands for itself. -/
def join (base path : String) : String :=
  if path.startsWith "/" then path
  else if base.isEmpty || base.endsWith "/" then base ++ path
  else base ++ "/" ++ path

def cutAtSlash : List Char → List (List Char)
  | [] => [[]]
  | c :: cs =>
    if c == '/' then [] :: cutAtSlash cs
    else match cutAtSlash cs with
      | [] => [[c]]
      | piece :: pieces => (c :: piece) :: pieces

/-- The parts of a path. Empty parts do not count, nor does `.` except as the first part. -/
def parts (path : String) : List String :=
  match (cutAtSlash path.toList).map String.ofList with
  | [] => []
  | first :: rest =>
    (if first.isEmpty then [] else [first]) ++ rest.filter fun p => !p.isEmpty && p != "."

/-- The last part of a path, unless it leads to the directory itself or the one above. -/
def fileName? (path : String) : Option String :=
  (parts path).getLast?.filter fun name => name != "." && name != ".."

/-- A name without what stands behind its last dot. A dot at the start does not count. -/
def dropExtension (name : String) : String :=
  let behind := name.toList.reverse.takeWhile (· != '.')
  let before := name.toList.take (name.length - behind.length - 1)
  if before.isEmpty then name else String.ofList before

def stem? (path : String) : Option String :=
  (fileName? path).map dropExtension

/-- The path with another extension. A path without a last part stays as it is. -/
def withExtension (path ext : String) : String :=
  match fileName? path with
  | none => path
  | some name =>
    let chars := (path.toList.reverse.dropWhile (· == '/')).reverse
    let directory := chars.take (chars.length - name.length)
    String.ofList directory ++ dropExtension name ++ "." ++ ext

/-- A path, read from its end, without what stands behind its last part. -/
def withoutTail : List Char → List Char
  | ['/'] => ['/']
  | '/' :: rest => withoutTail rest
  | '.' :: '/' :: rest => if rest.isEmpty then ['/'] else withoutTail rest
  | cs => cs

def parent? (path : String) : Option String :=
  if (parts path).isEmpty then none
  else
    let above := (withoutTail path.toList.reverse).dropWhile (· != '/')
    some (String.ofList (withoutTail above).reverse)

end Serpentine.Path
