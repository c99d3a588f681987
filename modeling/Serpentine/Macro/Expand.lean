import Serpentine.Macro.Table

/-!
# Macro expansion

A line is cut into words and the text between them; words inside literals and numbers are text. A
word that names a macro is replaced by the expansion of its text, in which it is not replaced again.
-/

namespace Serpentine.Macro

inductive LineState where
  | plain
  | word
  | number
  | literal (quote : Char) (escaped : Bool)
deriving Repr, DecidableEq, Inhabited

/-- The state at a character that goes on with nothing before it. -/
def LineState.fresh (c : Char) : LineState :=
  if isQuote c then .literal c false
  else if c.isDigit then .number
  else if isNameStart c then .word
  else .plain

def isNumberChar (c : Char) : Bool :=
  isNameChar c || c == '.' || c == '\''

def LineState.step : LineState → Char → LineState
  | .plain, c => .fresh c
  | .word, c => if isNameChar c then .word else .fresh c
  | .number, c => if isNumberChar c then .number else .fresh c
  | .literal quote escaped, c =>
    if escaped then .literal quote false
    else if c == '\\' then .literal quote true
    else if c == quote then .plain
    else .literal quote false

structure Run where
  isWord : Bool
  text : List Char
deriving Repr, DecidableEq, Inhabited

/-- Puts a character in front of the runs behind it. -/
def consRun (isWord : Bool) (c : Char) : List Run → List Run
  | [] => [⟨isWord, [c]⟩]
  | r :: rs => if r.isWord = isWord then ⟨isWord, c :: r.text⟩ :: rs else ⟨isWord, [c]⟩ :: r :: rs

def runsFrom : LineState → List Char → List Run
  | _, [] => []
  | s, c :: cs =>
    let next := s.step c
    consRun (next == .word) c (runsFrom next cs)

/-- The words of a line and the text between them, in order. -/
def runs (line : List Char) : List Run :=
  runsFrom .plain line

/-- The line with its macros replaced, in at most `depth` levels. The `active` macros are those
whose text is being expanded. -/
def Table.expandWithin (t : Table) : Nat → List String → List Char → List Char
  | 0, _, line => line
  | depth + 1, active, line =>
    (runs line).flatMap fun run =>
      let name := String.ofList run.text
      match if run.isWord && !active.contains name then t.text? name else none with
      | none => run.text
      | some text => t.expandWithin depth (name :: active) text.toList

def Table.expand (t : Table) (line : List Char) : List Char :=
  t.expandWithin maxDepth [] line

end Serpentine.Macro
