import Serpentine.Decimal.Shortest

/-!
# Configuration values

The values a configuration file can hold, and their text on one line.
-/

namespace Serpentine.Config

/-- How a table came to be, which decides what may be added to it. -/
inductive Form where
  | inline
  | headed
  /-- Passed through by the header of a table inside it. -/
  | implied
  /-- Passed through by a dotted key. -/
  | dotted
deriving Repr, DecidableEq, Inhabited

inductive Value where
  | text (s : String)
  | integer (i : Int)
  | float (x : Binary64)
  | boolean (b : Bool)
  /-- A date, a time or both, in normal form. -/
  | moment (s : String)
  /-- An array. One that headers made can grow. -/
  | array (growing : Bool) (items : List Value)
  /-- A table, with its entries in the order in which they were made. -/
  | table (form : Form) (entries : List (String × Value))
deriving Repr, Inhabited

abbrev Entries := List (String × Value)

/-! ## Texts and keys -/

/-- A character that keys may have without quotes. -/
def isBareKeyChar (c : Char) : Bool :=
  c.isAlphanum || c == '_' || c == '-'

def isControl (c : Char) : Bool :=
  (c.val ≤ 0x1f && c != '\t' && c != '\n') || c.val == 0x7f

def longestRun (c : Char) : List Char → Nat × Nat
  | [] => (0, 0)
  | d :: cs =>
    let (best, front) := longestRun c cs
    if d == c then (max best (front + 1), front + 1) else (best, 0)

def hexCode (n : Nat) : String :=
  let digits := (Nat.toDigits 16 n).map Char.toUpper
  "\\u" ++ String.ofList (List.replicate (4 - digits.length) '0' ++ digits)

/-- A character between double quotes, none of which it is. Three quotes on each side leave line
ends as they are. -/
def escaped (triple : Bool) (c : Char) : String :=
  match c with
  | '\x08' => "\\b"
  | '\t' => "\\t"
  | '\n' => if triple then "\n" else "\\n"
  | '\x0c' => "\\f"
  | '\r' => "\\r"
  | '\\' => "\\\\"
  | c => if isControl c then hexCode c.toNat else c.toString

/-- Text between double quotes, behind so many quotes of its own. Between three quotes on each side
two in a row are left as they are. -/
def escapedFrom (triple : Bool) : Nat → List Char → String
  | _, [] => ""
  | run, c :: cs =>
    if c == '"' then
      if triple && run < 2 then "\"" ++ escapedFrom triple (run + 1) cs
      else "\\\"" ++ escapedFrom triple 0 cs
    else escaped triple c ++ escapedFrom triple 0 cs

def doubleQuoted (s : String) : String :=
  "\"" ++ escapedFrom false 0 s.toList ++ "\""

def singleQuoted (s : String) : String :=
  "'" ++ s ++ "'"

def leadingLineEnd (s : String) : String :=
  if s.contains '\n' then "\n" else ""

def tripleDoubleQuoted (s : String) : String :=
  "\"\"\"" ++ leadingLineEnd s ++ escapedFrom true 0 s.toList ++ "\"\"\""

def tripleSingleQuoted (s : String) : String :=
  "'''" ++ leadingLineEnd s ++ s ++ "'''"

/-- Text with quotes. Double quotes without escapes come first, then single quotes, then each of
them three times, then double quotes with escapes. -/
def quoted (s : String) : String :=
  let cs := s.toList
  let controls := cs.any isControl
  let slashes := cs.contains '\\'
  let doubles := (longestRun '"' cs).1
  let singles := (longestRun '\'' cs).1
  let lines := cs.contains '\n'
  if !controls && !slashes && doubles == 0 && !lines then doubleQuoted s
  else if !controls && singles == 0 && !lines then singleQuoted s
  else if !controls && !slashes && doubles ≤ 2 then tripleDoubleQuoted s
  else if !controls && singles ≤ 2 then tripleSingleQuoted s
  else if lines then tripleDoubleQuoted s
  else doubleQuoted s

/-- A key. One with other characters than letters, digits, underscores and dashes has quotes,
single ones if they save escapes. -/
def keyText (key : String) : String :=
  let cs := key.toList
  let controls := cs.any fun c => isControl c || c == '\n'
  if !cs.isEmpty && cs.all isBareKeyChar then key
  else if !controls && !cs.contains '\\' && !cs.contains '"' then doubleQuoted key
  else if !controls && !cs.contains '\'' then singleQuoted key
  else doubleQuoted key

/-! ## Numbers -/

/-- A magnitude. A finite one has a point and digits on both sides of it. -/
def magnitudeText : Magnitude → String
  | .infinite => "inf"
  | .notANumber => "nan"
  | .finite 0 _ => "0.0"
  | .finite m q =>
    let text := (Decimal.shortest m q).positional
    if text.contains '.' then text else text ++ ".0"

/-- A float. What is not a number has no sign. -/
def floatText (x : Binary64) : String :=
  (if x.negative && x.magnitude != .notANumber then "-" else "") ++ magnitudeText x.magnitude

/-! ## Values -/

namespace Value

mutual

def line : Value → String
  | .text s => quoted s
  | .integer i => toString i
  | .float x => floatText x
  | .boolean b => if b then "true" else "false"
  | .moment s => s
  | .array _ items => "[" ++ ", ".intercalate (itemTexts items) ++ "]"
  | .table _ [] => "\x7b\x7d"
  | .table _ entries => "\x7b " ++ ", ".intercalate (entryTexts entries) ++ " \x7d"

def itemTexts : List Value → List String
  | [] => []
  | v :: vs => line v :: itemTexts vs

def entryTexts : List (String × Value) → List String
  | [] => []
  | (key, v) :: rest => (keyText key ++ " = " ++ line v) :: entryTexts rest

end

end Value

end Serpentine.Config
