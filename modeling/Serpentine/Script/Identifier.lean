/-!
# Identifiers of the script

A name of the source that is a keyword of Python gets a trailing underscore.
-/

namespace Serpentine.Script

/-- The words that cannot be names in a script. -/
def reserved : List String :=
  ["False", "None", "True", "and", "as", "assert", "async", "await", "break", "class", "continue",
   "def", "del", "elif", "else", "except", "finally", "for", "from", "global", "if", "import",
   "in", "is", "lambda", "nonlocal", "not", "or", "pass", "raise", "return", "try", "while",
   "with", "yield"]

def identifier (name : String) : String :=
  if reserved.contains name then name ++ "_" else name

def cutAtDots : List Char → List (List Char)
  | [] => [[]]
  | c :: cs =>
    if c == '.' then [] :: cutAtDots cs
    else match cutAtDots cs with
      | [] => [[c]]
      | piece :: pieces => (c :: piece) :: pieces

def pathParts (path : String) : List String :=
  (cutAtDots path.toList).map String.ofList

def dotted (path : String) : String :=
  ".".intercalate ((pathParts path).map identifier)

end Serpentine.Script
