import Serpentine.Token.Scan

/-!
# Macros
-/

namespace Serpentine.Macro

/-- The macros with their texts; of those with parameters, only the names. -/
structure Table where
  texts : List (String × String)
  functions : List String
deriving Repr, DecidableEq, Inhabited

namespace Table

/-- A table of macros without parameters. A later entry for a name wins. -/
def ofTexts (texts : List (String × String)) : Table :=
  ⟨texts.reverse, []⟩

def text? (t : Table) (name : String) : Option String :=
  t.texts.lookup name

def define (t : Table) (name text : String) : Table :=
  { t with texts := (name, text) :: t.texts.filter (·.1 != name) }

def defineFunction (t : Table) (name : String) : Table :=
  { t with functions := if t.functions.contains name then t.functions else name :: t.functions }

def undefine (t : Table) (name : String) : Table :=
  ⟨t.texts.filter (·.1 != name), t.functions.filter (· != name)⟩

def isDefined (t : Table) (name : String) : Bool :=
  (t.text? name).isSome || t.functions.contains name

end Table

def nameAt? (cs : List Char) : Option String :=
  if cs.head?.any isNameStart then some (String.ofList (cs.takeWhile isNameChar)) else none

/-- How many macros may stand inside each other's expansions. -/
def maxDepth : Nat := 32

end Serpentine.Macro
