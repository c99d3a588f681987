/-!
# Continued lines

A backslash at the end of a line joins the next line to it. The newlines that vanish are put behind
the joined line, so that every later line keeps its number.
-/

namespace Serpentine.Macro

/-- Joins continued lines; `owed` newlines are still to be written. -/
def spliceFrom (owed : Nat) : List Char → List Char
  | [] => List.replicate owed '\n'
  | '\\' :: '\n' :: cs => spliceFrom (owed + 1) cs
  | '\\' :: '\r' :: '\n' :: cs => spliceFrom (owed + 1) cs
  | '\\' :: '\r' :: cs => spliceFrom (owed + 1) cs
  | '\r' :: cs => spliceFrom owed cs
  | '\n' :: cs => '\n' :: (List.replicate owed '\n' ++ spliceFrom 0 cs)
  | c :: cs => c :: spliceFrom owed cs

def splice (cs : List Char) : List Char :=
  spliceFrom 0 cs

end Serpentine.Macro
