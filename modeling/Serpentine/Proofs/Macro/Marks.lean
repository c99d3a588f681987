import Serpentine.Macro.Directive

/-!
# What a line says

What a line does to the macros and groups depends on little of it: whether it is a directive, which
one, and the text behind its name (**`Progress.line_eq_mark`**).
-/

namespace Serpentine.Macro

/-- A directive that opens a group, with the text behind its name. -/
inductive Opening where
  | condition (rest : List Char)
  | defined (rest : List Char)
  | undefined (rest : List Char)
deriving Repr, DecidableEq

/-- The first branch of the group is chosen. -/
def Opening.chosen (t : Table) : Opening → Except DirectiveCause Bool
  | .condition rest => (t.evaluate rest).map (· != 0)
  | .defined rest => (neededName "ifdef" rest).map t.isDefined
  | .undefined rest => (neededName "ifndef" rest).map fun name => !t.isDefined name

/-- What a line says. -/
inductive Mark where
  | text (line : List Char)
  /-- A directive that has nothing to do with groups. -/
  | plain (name : String) (rest : List Char)
  | opening (o : Opening)
  | elif (rest : List Char)
  | otherwise
  | closing
deriving Repr, DecidableEq

def directiveMark (name : String) (rest : List Char) : Mark :=
  match name with
  | "if" => .opening (.condition rest)
  | "ifdef" => .opening (.defined rest)
  | "ifndef" => .opening (.undefined rest)
  | "elif" => .elif rest
  | "else" => .otherwise
  | "endif" => .closing
  | name => .plain name rest

def markOf (line : List Char) : Mark :=
  match directiveText? line with
  | none => .text line
  | some text =>
    directiveMark (String.ofList (text.takeWhile isNameChar)) (trim (text.dropWhile isNameChar))

namespace Progress

def mark (p : Progress) (place : Position) : Mark → Except DirectiveCause (List Char × Progress)
  | .text line => .ok (if p.active then p.table.expand line else [], p)
  | .plain name rest => do
    let q ← if p.active then p.plainDirective place name rest else pure p
    return ([], q)
  | .opening o => do
    let chosen ← if p.active then o.chosen p.table else pure false
    return ([], p.openGroup chosen)
  | .elif rest => do
    let q ← p.elif rest
    return ([], q)
  | .otherwise => do
    let q ← p.otherwise
    return ([], q)
  | .closing =>
    match p.groups with
    | [] => .error (.withoutIf "endif")
    | _ :: groups => .ok ([], { p with groups })

theorem knows_eq (p : Progress) (directive : String) (rest : List Char) :
    p.knows directive rest = (neededName directive rest).map p.table.isDefined := by
  rw [knows]
  cases neededName directive rest <;> rfl

theorem holds_eq (p : Progress) (rest : List Char) :
    p.holds rest = (p.table.evaluate rest).map (· != 0) := by
  rw [holds]
  cases p.table.evaluate rest <;> rfl

theorem line_eq_mark (p : Progress) (place : Position) (line : List Char) :
    p.line place line = p.mark place (markOf line) := by
  rw [Progress.line, markOf]
  cases directiveText? line with
  | none => rfl
  | some text =>
    dsimp only [directive]
    generalize String.ofList (text.takeWhile isNameChar) = name
    generalize trim (text.dropWhile isNameChar) = rest
    unfold directiveMark
    split
    case h_1 =>
      simp only [holds_eq, mark, Opening.chosen]
      cases p.active <;> cases p.table.evaluate rest <;> rfl
    case h_2 =>
      simp only [knows_eq, mark, Opening.chosen]
      cases p.active <;> cases neededName "ifdef" rest <;> rfl
    case h_3 =>
      simp only [knows_eq, mark, Opening.chosen]
      cases p.active <;> cases neededName "ifndef" rest <;> rfl
    case h_4 => rfl
    case h_5 => rfl
    case h_6 =>
      simp only [mark]
      cases p.groups <;> rfl
    case h_7 =>
      simp only [mark]
      cases p.active <;> rfl

/-- All that can happen at a line that is not refused. -/
inductive Passes (p : Progress) (place : Position) : Mark → List Char → Progress → Prop
  | text (line : List Char) :
    Passes p place (.text line) (if p.active then p.table.expand line else []) p
  | obeyed {name : String} {rest : List Char} {q : Progress} (hactive : p.active = true)
    (h : p.plainDirective place name rest = .ok q) : Passes p place (.plain name rest) [] q
  | skipped {name : String} {rest : List Char} (hactive : p.active = false) :
    Passes p place (.plain name rest) [] p
  | opened {o : Opening} (chosen : Bool) : Passes p place (.opening o) [] (p.openGroup chosen)
  | turned {rest : List Char} {g : Group} {groups : List Group} (chosen : Bool)
    (hgroups : p.groups = g :: groups) (helse : g.seenElse = false) :
    Passes p place (.elif rest) []
      { p with groups := { g with active := chosen, taken := g.taken || chosen } :: groups }
  | last {g g' : Group} {groups : List Group} (hgroups : p.groups = g :: groups)
    (helse : g.seenElse = false) (hlast : g'.seenElse = true) :
    Passes p place .otherwise [] { p with groups := g' :: groups }
  | closed {g : Group} {groups : List Group} (hgroups : p.groups = g :: groups) :
    Passes p place .closing [] { p with groups }

variable {p q : Progress} {place : Position} {out : List Char}

theorem passes_elif {rest : List Char} (h : p.mark place (.elif rest) = .ok (out, q)) :
    p.Passes place (.elif rest) out q := by
  rw [mark, Progress.elif] at h
  split at h
  case h_1 => cases h
  case h_2 g groups hgroups =>
    split at h
    case isTrue => cases h
    case isFalse helse =>
      have helse : g.seenElse = false := by simpa using helse
      split at h
      case isTrue =>
        cases hholds : p.holds rest with
        | error cause => rw [hholds] at h; cases h
        | ok chosen =>
          rw [hholds] at h
          cases h
          exact .turned chosen hgroups helse
      case isFalse =>
        cases h
        exact .turned false hgroups helse

theorem passes_otherwise (h : p.mark place .otherwise = .ok (out, q)) :
    p.Passes place .otherwise out q := by
  rw [mark, Progress.otherwise] at h
  split at h
  case h_1 => cases h
  case h_2 g groups hgroups =>
    split at h
    case isTrue => cases h
    case isFalse helse =>
      cases h
      exact .last hgroups (by simpa using helse) rfl

theorem passes_of_mark {m : Mark} (h : p.mark place m = .ok (out, q)) : p.Passes place m out q := by
  cases m with
  | text line =>
    cases h
    exact .text line
  | plain name rest =>
    rw [mark] at h
    split at h
    case isTrue hactive =>
      cases hdirective : p.plainDirective place name rest with
      | error cause => rw [hdirective] at h; cases h
      | ok q' =>
        rw [hdirective] at h
        cases h
        exact .obeyed hactive hdirective
    case isFalse hactive =>
      cases h
      exact .skipped (by simpa using hactive)
  | opening o =>
    rw [mark] at h
    split at h
    case isTrue =>
      cases hchosen : o.chosen p.table with
      | error cause => rw [hchosen] at h; cases h
      | ok chosen =>
        rw [hchosen] at h
        cases h
        exact .opened chosen
    case isFalse =>
      cases h
      exact .opened false
  | elif rest => exact passes_elif h
  | otherwise => exact passes_otherwise h
  | closing =>
    rw [mark] at h
    split at h
    case h_1 => cases h
    case h_2 g groups hgroups =>
      cases h
      exact .closed hgroups

end Progress

end Serpentine.Macro
