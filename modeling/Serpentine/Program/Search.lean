import Serpentine.Tree.Expr

/-!
# Searches

A search for a name asks for the base classes of classes on its way. The name of a base class is
itself searched for, so a search may start others, and nothing bounds how many.
-/

namespace Serpentine

/-- A search, up to the base classes that it asks for. -/
inductive Search (α : Type) where
  | done (a : α)
  | ask (cls : DeclId) (next : Option DeclId → Search α)

namespace Search

variable {α β : Type}

protected def bind : Search α → (α → Search β) → Search β
  | .done a, f => f a
  | .ask cls next, f => .ask cls fun base => (next base).bind f

instance : Monad Search where
  pure := .done
  bind := Search.bind

/-- The result of a search, given for each class the result of the search for its base class.
A search that has to wait for one without a result has none. -/
def run (base : DeclId → Option (Option DeclId)) : Search α → Option α
  | .done a => some a
  | .ask cls next => do (next (← base cls)).run base

theorem run_mono {base base' : DeclId → Option (Option DeclId)}
    (h : ∀ cls b, base cls = some b → base' cls = some b) {search : Search α} {a : α}
    (hrun : search.run base = some a) : search.run base' = some a := by
  induction search with
  | done _ => exact hrun
  | ask cls next ih =>
    obtain ⟨b, hb, hnext⟩ := Option.bind_eq_some_iff.1 hrun
    exact Option.bind_eq_some_iff.2 ⟨b, h cls b hb, ih b hnext⟩

end Search

end Serpentine
