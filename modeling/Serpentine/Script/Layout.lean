/-!
# Layout of indented text

Lines with indentation and blank lines between them. A line is indented when its first content
arrives. Blank lines are only asked for: the wish is granted when the next line starts, except on
the first line and directly behind the opening of a block.
-/

namespace Serpentine.Script

/-- A text that grows line by line. -/
structure Layout where
  text : String
  depth : Nat
  lineOpen : Bool
  /-- The blank lines wished for before the next line. -/
  blanks : Nat
  /-- Nothing has been written since the last block was opened. -/
  atBlockStart : Bool
deriving Repr, DecidableEq, Inhabited

namespace Layout

def empty : Layout :=
  ⟨"", 0, false, 0, false⟩

def replicate (n : Nat) (s : String) : String :=
  match n with
  | 0 => ""
  | n + 1 => s ++ replicate n s

def indent : String := "    "

def startLine (l : Layout) : Layout :=
  let gap := if l.text.isEmpty || l.atBlockStart then "" else replicate l.blanks "\n"
  { l with
    text := l.text ++ gap ++ replicate l.depth indent
    blanks := 0
    atBlockStart := false
    lineOpen := true }

/-- Adds content to the line, which is started if need be. -/
def write (l : Layout) (content : String) : Layout :=
  if content.isEmpty then l
  else
    let l := if l.lineOpen then l else l.startLine
    { l with text := l.text ++ content }

def endLine (l : Layout) : Layout :=
  if l.lineOpen then { l with text := l.text ++ "\n", lineOpen := false } else l

def line (l : Layout) (content : String) : Layout :=
  (l.write content).endLine

/-- At least one blank line before the next line. -/
def gap (l : Layout) : Layout :=
  let l := l.endLine
  { l with blanks := max l.blanks 1 }

/-- Two blank lines before the next line, or one inside a block. -/
def majorGap (l : Layout) : Layout :=
  let l := l.endLine
  { l with blanks := max l.blanks (if l.depth = 0 then 2 else 1) }

def openBlock (l : Layout) : Layout :=
  let l := l.endLine
  { l with depth := l.depth + 1, blanks := 0, atBlockStart := true }

def closeBlock (l : Layout) : Layout :=
  let l := l.endLine
  { l with depth := l.depth - 1, blanks := 0, atBlockStart := false }

def finish (l : Layout) : String :=
  l.endLine.text

end Layout

end Serpentine.Script
