import Serpentine.Proofs.Lowering.Modules
import Serpentine.Proofs.Reference.Stability

/-!
# Names that are printed

Names are collected from the expressions of all declarations, and a script prints expressions of
declarations only. So once all names are resolved the writer finds a binding for each name that it
comes to (**`Session.resolve_printed`**).
-/

namespace Serpentine

theorem Store.namesOfList_printed_subset (s : Store) :
    Expr.namesOfList s.printed ⊆ s.references := by
  intro ref href
  rw [Expr.namesOfList_eq, List.mem_flatMap] at href
  obtain ⟨e, he, href⟩ := href
  obtain ⟨d, hd, he⟩ := List.mem_flatMap.mp he
  refine List.mem_flatMap.mpr ⟨d, hd, List.mem_flatMap.mpr ⟨e, ?_, href⟩⟩
  exact d.entity.printed_subset he

namespace Lowering

theorem eq_of_warningRelocated_id {ws ws' : List String}
    (h : List.Forall₂ (WarningRelocated id) ws ws') : ws' = ws := by
  induction h with
  | nil => rfl
  | cons hfirst _ ih =>
    obtain ⟨place, text, rfl, rfl⟩ := hfirst
    rw [ih]
    rfl

theorem Lower.eq_of_relocated_id {α : Type} {x y : Lower α} (h : x.Relocated id y) : y = x := by
  obtain ⟨warnings, result⟩ := x
  obtain ⟨warnings', result'⟩ := y
  obtain rfl : warnings' = warnings := eq_of_warningRelocated_id h.warnings
  have hresult : result' = result.mapError (Fault.relocate id) := h.result
  rw [hresult]
  cases result with
  | ok a => rfl
  | error fault => rw [mapError_error, Fault.relocate_id]

end Lowering

namespace Session

/-- **Printed names are bound.** Once resolving has succeeded, every name in an expression that a
script may print, of whatever declaration, has a binding; and the text of a module depends on the
bindings of these names only, so that a name without a binding is never spelled. -/
theorem resolve_printed {s t : Session} {n : Nat} (h : s.resolve = (.ok n, t)) :
    (∀ ref ∈ Expr.namesOfList t.store.printed, (t.table.get? ref.id).isSome) ∧
      ∀ (table : Resolutions) (id : DeclId),
        (∀ ref ∈ Expr.namesOfList t.store.printed, table.get? ref.id = t.table.get? ref.id) →
          Writer.script.write t.store table id = Writer.script.write t.store t.table id := by
  have hok : (Serpentine.resolve s.store s.table).1 = .ok () := resolve_eq_ok h
  obtain rfl : s.resolve.2 = t := congrArg Prod.snd h
  refine ⟨fun ref href => ?_, fun table id htable => ?_⟩
  · refine isSome_resolve hok ref ?_
    rw [← Store.references_bare, ← bare_resolve s.store s.table, Store.references_bare]
    exact Store.namesOfList_printed_subset _ href
  · have hmodule : Lowering.Scene.lowerModule ⟨s.resolve.2.store, table⟩ id =
        Lowering.Scene.lowerModule ⟨s.resolve.2.store, s.resolve.2.table⟩ id := by
      refine Lowering.Lower.eq_of_relocated_id (Lowering.Scene.lowerModule_relocate ?_ htable rfl id)
      exact Store.relocated_id _
    simp only [Writer.script, hmodule]

/-- A base class and an enumerator whose value is kept as it is written. -/
@[irreducible] def writtenValue : Session :=
  (start "main" (.ofTexts []) .script).afterAll
    [.parse "a.cpp" "struct A \x7b \x7d; struct B : A \x7b enum \x7b X = f() \x7d; \x7d;"]

theorem resolve_printed_writtenValue :
    ∃ n t, writtenValue.resolve = (.ok n, t) ∧ (Expr.namesOfList t.store.printed).length = 2 ∧
      ∀ ref ∈ Expr.namesOfList t.store.printed, (t.table.get? ref.id).isSome := by
  have hrun : writtenValue.resolve.1.toOption.isSome ∧
      (Expr.namesOfList writtenValue.resolve.2.store.printed).length = 2 := by
    unfold writtenValue
    decide +kernel
  obtain ⟨n, hn⟩ := Option.isSome_iff_exists.mp hrun.1
  have hresolve : writtenValue.resolve = (.ok n, writtenValue.resolve.2) :=
    Prod.ext (eq_ok_of_toOption hn) rfl
  exact ⟨n, _, hresolve, hrun.2, (resolve_printed hresolve).1⟩

end Session

end Serpentine
