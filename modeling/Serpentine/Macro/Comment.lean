import Serpentine.Token.Scan

/-!
# Comments

A comment up to the end of the line vanishes. A comment between `/*` and `*/` becomes a blank and
the newlines inside it. Nothing is a comment inside a literal, and a literal ends with its line.
-/

namespace Serpentine.Macro

inductive CommentState where
  /-- In the program; tells whether the last character was a digit. -/
  | code (afterDigit : Bool)
  /-- In a literal; tells whether the last character was a backslash that escapes. -/
  | literal (quote : Char) (escaped : Bool)
  | line
  | block
deriving Repr, DecidableEq, Inhabited

/-- The state behind a character of a literal that does not end its line. -/
def CommentState.inLiteral (quote : Char) (escaped : Bool) (c : Char) : CommentState :=
  if escaped then .literal quote false
  else if c == '\\' then .literal quote true
  else if c == quote then .code false
  else .literal quote false

/-- The text without comments, from some state on. A quote behind a digit separates digits. -/
def stripFrom : CommentState → List Char → List Char
  | _, [] => []
  | .line, c :: cs => if c == '\n' then c :: stripFrom (.code false) cs else stripFrom .line cs
  | .block, '*' :: '/' :: cs => stripFrom (.code false) cs
  | .block, c :: cs => if c == '\n' then c :: stripFrom .block cs else stripFrom .block cs
  | .literal quote escaped, c :: cs =>
    if c == '\n' then c :: stripFrom (.code false) cs
    else c :: stripFrom (.inLiteral quote escaped c) cs
  | .code _, '/' :: '/' :: cs => stripFrom .line cs
  | .code _, '/' :: '*' :: cs => ' ' :: stripFrom .block cs
  | .code afterDigit, c :: cs =>
    if isQuote c && !(c == '\'' && afterDigit) then c :: stripFrom (.literal c false) cs
    else c :: stripFrom (.code c.isDigit) cs

/-- The text without comments. -/
def stripComments (cs : List Char) : List Char :=
  stripFrom (.code false) cs

end Serpentine.Macro
