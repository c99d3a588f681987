import Serpentine.Grammar.Declaration

/-!
# Files
-/

namespace Serpentine.Grammar

/-- The parse of a rule, given those of all rules. -/
def Rule.body (rules : Rules) {e : Effect} {α : Type} : Rule e α → Parse e α
  | .templateArgs => Grammar.templateArgs rules
  | .expr power => expression rules power
  | .unary => Grammar.unary rules
  | .exprList close => Grammar.exprList rules close
  | .declarator mode => Grammar.declarator rules mode
  | .templateParams => Grammar.templateParams rules
  | .statement => Grammar.statement rules
  | .declaration => Grammar.declaration rules

/-- The parses of the rules, given how deep rules may be nested. -/
def Rules.within : Nat → Rules
  | 0 => ⟨fun _ => tooDeep⟩
  | n + 1 => ⟨fun rule => rule.body (within n)⟩

/-- How deep rules can be nested in a text of so many characters. Of the rules that start at one
token, no more than three are open before it is taken. -/
def depthFor (size : Nat) : Nat :=
  4 * size + 8

/-- The declarations of a file. -/
def fileDeclarations : Parse .declare Unit := do
  let depth := depthFor (← read).stream.size
  declarations (.within depth) .eof

/-- Reads a file into a store, as far as it gets. -/
def parseFile (names : Names) (store : Store) (file text : String) : Except Fault Names × Store :=
  let start := State.start file text names store
  let (outcome, final) : Except Fault Unit × State :=
    match fileDeclarations.run start with
    | .ok _ s => (.ok (), s)
    | .error fault s => (.error fault, s)
  match final.stream.faults.head? with
  | some fault => (.error (.scan file fault), final.store)
  | none => (outcome.map fun _ => final.names, final.store)

/-- The program that a file leaves is that behind its declarations, whether they can be read or
not. -/
theorem parseFile_snd (names : Names) (store : Store) (file text : String) :
    (parseFile names store file text).2 =
      (fileDeclarations.run (.start file text names store)).state.store := by
  unfold parseFile
  dsimp only
  generalize fileDeclarations.run (.start file text names store) = outcome
  cases outcome with
  | ok a t =>
    dsimp only
    split <;> rfl
  | error fault t =>
    dsimp only
    split <;> rfl

end Serpentine.Grammar
