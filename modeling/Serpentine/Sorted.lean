/-!
# Sorted tables

Lists kept in ascending order of their keys, with one entry for a key.
-/

namespace Serpentine.Sorted

variable {α β : Type} [LT α] [DecidableLT α]

/-- The list with a value in its place. A value that is there is not put in again. -/
def insert (a : α) : List α → List α
  | [] => [a]
  | b :: rest => if a < b then a :: b :: rest else if b < a then b :: insert a rest else b :: rest

/-- The table with the entry of a key made from the one that is there, if any. -/
def update (key : α) (f : Option β → β) : List (α × β) → List (α × β)
  | [] => [(key, f none)]
  | (k, v) :: rest =>
    if key < k then (key, f none) :: (k, v) :: rest
    else if k < key then (k, v) :: update key f rest
    else (k, f (some v)) :: rest

end Serpentine.Sorted
