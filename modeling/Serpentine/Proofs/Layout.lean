import Serpentine.Proofs.Grammar.Layout
import Serpentine.Proofs.Reference.Likeness

/-!
# Layout of a program

The layout of a file is seen in the places of faults and warnings only. Everything that is made of
the file, up to the texts of the modules, depends on its words (**`translate_sameWords`**).
-/

namespace Serpentine

/-- **Layout does not count.** Texts without faults that are made of the same words, read into
programs that differ in places only:

* are both accepted, with the same knowledge of names, or both refused for the same reason;
* leave programs that differ in places only;
* have the same names bound to the same, or are both refused for the same reason;
* have the same modules, each with the same text, or with none for the same reason. -/
theorem translate_sameWords {text text' : String} (h : SameWords text text') {store store' : Store}
    (hstore : store.Like Position.hidden store') (names : Grammar.Names) (table : Resolutions)
    (file file' : String) :
    let read := Grammar.parseFile names store file text
    let read' := Grammar.parseFile names store' file' text'
    let bound := resolve read.2 table
    let bound' := resolve read'.2 table
    (read.1.mapError (Fault.relocate Position.hidden) =
        read'.1.mapError (Fault.relocate Position.hidden) ∧
      read.2.Like Position.hidden read'.2) ∧
    (bound.1.mapError (Fault.relocate Position.hidden) =
        bound'.1.mapError (Fault.relocate Position.hidden) ∧
      bound.2.Like Position.hidden bound'.2) ∧
    ∀ id, bound'.2.store.module? id = bound.2.store.module? id ∧
      bound'.2.store.modulePath id = bound.2.store.modulePath id ∧
      (Writer.script.write bound.2.store bound.2.table id).text.mapError
          (Fault.relocate Position.hidden) =
        (Writer.script.write bound'.2.store bound'.2.table id).text.mapError
          (Fault.relocate Position.hidden) := by
  intro read read' bound bound'
  have hread : read.1.mapError (Fault.relocate Position.hidden) =
        read'.1.mapError (Fault.relocate Position.hidden) ∧
      read.2.Like Position.hidden read'.2 :=
    Grammar.parseFile_sameWords h hstore names file file'
  clear_value read read'
  have hbound : bound.1.mapError (Fault.relocate Position.hidden) =
        bound'.1.mapError (Fault.relocate Position.hidden) ∧
      bound.2.Like Position.hidden bound'.2 :=
    hread.2.resolve table
  clear_value bound bound'
  refine ⟨hread, hbound, fun id => ⟨hbound.2.store.module? id, hbound.2.store.modulePath id, ?_⟩⟩
  rw [hbound.2.table]
  exact hbound.2.store.write rfl bound.2.table id

theorem translate_sameWords_spaced :
    SameWords "int x = y >> 1;" "int\n\tx=y>>1 ;" ∧
      ∃ bound, bound = (resolve
          (Grammar.parseFile .empty (.empty "main") "b.cpp" "int\n\tx=y>>1 ;").2 []).2 ∧
        (Writer.script.write bound.store bound.table Store.root).text.mapError
          (Fault.relocate Position.hidden) = .ok "x = y >> 1\n" := by
  have h : SameWords "int x = y >> 1;" "int\n\tx=y>>1 ;" :=
    ⟨by decide +kernel, by decide +kernel, by decide +kernel⟩
  have hmodule :=
    (translate_sameWords h (.refl (.empty "main")) .empty [] "a.cpp" "b.cpp").2.2 Store.root
  refine ⟨h, _, rfl, hmodule.2.2.symm.trans ?_⟩
  decide +kernel

end Serpentine
