/-!
# Places in a text
-/

namespace Serpentine

/-- A line and a column, both counted from one. -/
structure Spot where
  line : Nat
  column : Nat
deriving Repr, DecidableEq, Inhabited

def Spot.first : Spot :=
  ⟨1, 1⟩

/-- The spot after the character `c`: a newline starts the next line. -/
def Spot.next (s : Spot) (c : Char) : Spot :=
  if c == '\n' then ⟨s.line + 1, 1⟩ else ⟨s.line, s.column + 1⟩

/-- The spot after some characters. -/
def Spot.past (s : Spot) (cs : List Char) : Spot :=
  cs.foldl Spot.next s

/-- A place as messages name it. -/
structure Position where
  file : String
  line : Nat
  column : Option Nat
deriving Repr, DecidableEq, Inhabited

def Spot.within (s : Spot) (file : String) : Position :=
  ⟨file, s.line, some s.column⟩

def Position.text (p : Position) : String :=
  let line := p.file ++ ", line " ++ toString p.line
  match p.column with
  | none => line
  | some column => line ++ ", column " ++ toString column

end Serpentine
