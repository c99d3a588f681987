import Serpentine.Macro.Comment
import Serpentine.Macro.Condition
import Serpentine.Macro.Expand
import Serpentine.Macro.Splice

/-!
# Directives

A text is run line by line. A line that starts with `#` is a directive and leaves an empty line; any
other line is kept, with its macros replaced, where the open groups choose it.
-/

namespace Serpentine.Macro

/-- A group of lines that is open. -/
structure Group where
  active : Bool
  taken : Bool
  outer : Bool
  seenElse : Bool
deriving Repr, DecidableEq, Inhabited

/-- What has been read so far. The innermost group comes first. -/
structure Progress where
  table : Table
  groups : List Group
  warnings : List String
deriving Repr, DecidableEq, Inhabited

def Progress.active (p : Progress) : Bool :=
  match p.groups with
  | [] => true
  | g :: _ => g.active

def Progress.openGroup (p : Progress) (chosen : Bool) : Progress :=
  { p with groups := ⟨chosen, chosen, p.active, false⟩ :: p.groups }

def neededName (directive : String) (rest : List Char) : Except DirectiveCause String :=
  match nameAt? rest with
  | none => .error (.nameMissing directive)
  | some name => .ok name

def Progress.holds (p : Progress) (rest : List Char) : Except DirectiveCause Bool := do
  let value ← p.table.evaluate rest
  return value != 0

def Progress.knows (p : Progress) (directive : String) (rest : List Char) :
    Except DirectiveCause Bool := do
  let name ← neededName directive rest
  return p.table.isDefined name

def Progress.elif (p : Progress) (rest : List Char) : Except DirectiveCause Progress :=
  match p.groups with
  | [] => .error (.withoutIf "elif")
  | g :: groups =>
    if g.seenElse then .error .elifAfterElse
    else do
      let chosen ← if g.outer && !g.taken then p.holds rest else pure false
      return { p with groups := { g with active := chosen, taken := g.taken || chosen } :: groups }

def Progress.otherwise (p : Progress) : Except DirectiveCause Progress :=
  match p.groups with
  | [] => .error (.withoutIf "else")
  | g :: groups =>
    if g.seenElse then .error .duplicateElse
    else
      let g := { g with seenElse := true, active := g.outer && !g.taken, taken := true }
      .ok { p with groups := g :: groups }

def Progress.define (p : Progress) (rest : List Char) : Except DirectiveCause Progress := do
  let name ← neededName "define" rest
  let after := rest.drop name.length
  if after.head? == some '(' then return { p with table := p.table.defineFunction name }
  else return { p with table := p.table.define name (String.ofList (trim after)) }

/-- A directive among lines that are kept, other than those that open or change groups. -/
def Progress.plainDirective (p : Progress) (place : Position) (name : String) (rest : List Char) :
    Except DirectiveCause Progress :=
  match name with
  | "define" => p.define rest
  | "undef" => do
    let target ← neededName "undef" rest
    return { p with table := p.table.undefine target }
  | "include" | "pragma" | "line" | "ident" | "" => .ok p
  | "warning" =>
    let text := place.text ++ ": #warning " ++ String.ofList rest
    .ok { p with warnings := p.warnings ++ [text] }
  | "error" => .error (.raised (String.ofList rest))
  | other => .error (.unknown other)

/-- One directive, given by the trimmed text behind its `#`. -/
def Progress.directive (p : Progress) (place : Position) (text : List Char) :
    Except DirectiveCause Progress :=
  let name := String.ofList (text.takeWhile isNameChar)
  let rest := trim (text.dropWhile isNameChar)
  match name with
  | "if" => do
    let chosen ← if p.active then p.holds rest else pure false
    return p.openGroup chosen
  | "ifdef" => do
    let chosen ← if p.active then p.knows "ifdef" rest else pure false
    return p.openGroup chosen
  | "ifndef" => do
    let known ← if p.active then p.knows "ifndef" rest else pure true
    return p.openGroup !known
  | "elif" => p.elif rest
  | "else" => p.otherwise
  | "endif" =>
    match p.groups with
    | [] => .error (.withoutIf "endif")
    | _ :: groups => .ok { p with groups }
  | _ => if p.active then p.plainDirective place name rest else .ok p

def directiveText? (line : List Char) : Option (List Char) :=
  match trimStart line with
  | '#' :: cs => some (trim cs)
  | _ => none

/-- What comes of one line. -/
def Progress.line (p : Progress) (place : Position) (line : List Char) :
    Except DirectiveCause (List Char × Progress) :=
  match directiveText? line with
  | some text => do
    let p ← p.directive place text
    return ([], p)
  | none => .ok (if p.active then p.table.expand line else [], p)

def lines : List Char → List (List Char)
  | [] => [[]]
  | c :: cs =>
    if c == '\n' then [] :: lines cs
    else match lines cs with
      | [] => [[c]]
      | line :: rest => (c :: line) :: rest

def unlines : List (List Char) → List Char
  | [] => []
  | [line] => line
  | line :: rest => line ++ '\n' :: unlines rest

/-- Runs lines, the first of which is number `n`. The progress is that at the end or at the fault.
-/
def Progress.runLines (file : String) :
    Progress → Nat → List (List Char) → Except Fault (List (List Char)) × Progress
  | p, _, [] => (.ok [], p)
  | p, n, line :: rest =>
    let place : Position := ⟨file, n, none⟩
    match p.line place line with
    | .error cause => (.error (.directive cause place), p)
    | .ok (out, p) =>
      match runLines file p (n + 1) rest with
      | (.error fault, p) => (.error fault, p)
      | (.ok outs, p) => (.ok (out :: outs), p)

/-- What a run of a text leaves. -/
structure Outcome where
  text : Except Fault String
  table : Table
  warnings : List String

/-- Runs a whole text. The macros stay as they are at the end, or at the fault. -/
def run (table : Table) (file text : String) : Outcome :=
  let source := lines (stripComments (splice text.toList))
  match Progress.runLines file ⟨table, [], []⟩ 1 source with
  | (.error fault, p) => ⟨.error fault, p.table, p.warnings⟩
  | (.ok outs, p) =>
    if p.groups.isEmpty then ⟨.ok (String.ofList (unlines outs)), p.table, p.warnings⟩
    else ⟨.error (.directive .unterminated ⟨file, source.length, none⟩), p.table, p.warnings⟩

end Serpentine.Macro
