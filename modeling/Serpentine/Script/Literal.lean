import Serpentine.Literal.Integer

/-!
# Literals of the script
-/

namespace Serpentine.Script

/-- The text with each digit separator written as `_`. -/
def separators (cs : List Char) : List Char :=
  cs.map fun c => if c == '\'' then '_' else c

/-- A number that starts with `0x` or `0b`, in either case. -/
def hasRadix : List Char → Bool
  | '0' :: c :: _ => c == 'x' || c == 'X' || c == 'b' || c == 'B'
  | _ => false

/-- An integer without its suffix, with `_` between digits. -/
def intLiteral (text : String) : String :=
  let digits := separators (Literal.dropSuffix Literal.isIntSuffix text.toList)
  if hasRadix digits then String.ofList digits
  else match digits with
    | '0' :: c :: rest =>
      let octal := (c :: rest).dropWhile fun d => d == '0' || d == '_'
      "0o" ++ String.ofList (if octal.isEmpty then ['0'] else octal)
    | _ => String.ofList digits

def isHex : List Char → Bool
  | '0' :: c :: _ => c == 'x' || c == 'X'
  | _ => false

def isFloatSuffix (c : Char) : Bool :=
  c == 'f' || c == 'F' || c == 'l' || c == 'L'

def floatLiteral (text : String) : String :=
  let cs := text.toList
  String.ofList (separators (if isHex cs then cs else Literal.dropSuffix isFloatSuffix cs))

inductive QuotePlace where
  | outside
  /-- Inside quotes, perhaps behind a backslash. -/
  | inside (quote : Char) (escaped : Bool)
deriving Repr, DecidableEq, Inhabited

/-- The quoted texts and the blanks between them. -/
def keepQuoted : QuotePlace → List Char → List Char
  | _, [] => []
  | .outside, c :: cs =>
    if c == '\"' || c == '\'' then c :: keepQuoted (.inside c false) cs
    else if c == ' ' then c :: keepQuoted .outside cs
    else keepQuoted .outside cs
  | .inside quote escaped, c :: cs =>
    let next :=
      if escaped then .inside quote false
      else if c == '\\' then .inside quote true
      else if c == quote then .outside
      else .inside quote false
    c :: keepQuoted next cs

/-- A character or string without the marks of its encoding. -/
def quotedLiteral (text : String) : String :=
  String.ofList (keepQuoted .outside text.toList)

end Serpentine.Script
