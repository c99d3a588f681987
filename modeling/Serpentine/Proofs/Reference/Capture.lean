import Serpentine.Proofs.Program.Hierarchy
import Serpentine.Proofs.Reference.Stability

/-!
# Names that are printed alike

A name is printed as the path of what it stands for, without the module. So names for different
things may be printed alike, and an import may take the name of another one
(**`resolve_nameText_eq_iff`**).
-/

namespace Serpentine

namespace Store

variable {s : Store} {m holder id : DeclId} {names : List String} {p q : Found}

/-- The names by which something is spelled behind its module, and the declaration that has all of
them but that of an enumerator: an enumeration, or what is around one without a name. -/
inductive Spelt (s : Store) : Found → DeclId → List String → Prop
  | decl (id : DeclId) : Spelt s (.decl id) id (s.namesBelowModule id)
  | enumerator {id : DeclId} (hname : (s.name? id).isSome) (hinner : ¬s.isModule id) (index : Nat) :
    Spelt s (.enumerator id index) id (s.namesBelowModule id ++ [s.enumeratorName id index])
  | nameless {id owner : DeclId} (hnone : s.name? id = none) (hparent : s.parent? id = some owner)
    (index : Nat) : Spelt s (.enumerator id index) owner
      (s.namesBelowModule owner ++ [s.enumeratorName id index])

theorem Spelt.unique {other : DeclId} {others : List String} (h : s.Spelt p holder names)
    (h' : s.Spelt p other others) : names = others := by
  cases h with
  | decl => cases h'; rfl
  | enumerator hname =>
    cases h' with
    | enumerator => rfl
    | nameless hnone =>
      rw [hnone] at hname
      cases hname
  | nameless hnone hparent =>
    cases h' with
    | enumerator hname =>
      rw [hnone] at hname
      cases hname
    | nameless _ hparent' =>
      cases hparent.symm.trans hparent'
      rfl

/-- A use of a name that is bound by a path and stands for something that its names lead to: they
have no dot in them, and looked up from the module that holds it, they find it. -/
structure StandsFor (s : Store) (use : NameRef × Bound) (p : Found) (holder : DeclId)
    (names : List String) : Prop where
  bound : use.2.resolution.binding.isPath
  requester : s.isModule (s.owningModule use.1.scope)
  target : s.target? use.1 = some p
  spelt : s.Spelt p holder names
  held : (s.ancestors holder).find? s.isModule = some (s.owningModule holder)
  named : ∀ id ∈ s.pathBelowModule holder, (s.name? id).isSome
  proper : names ≠ []
  plain : ∀ name ∈ names, '.' ∉ name.toList
  found : (s.walkSearch (.decl (s.owningModule holder)) names).run s.findBase = some (.ok p)

theorem namesBelowModule_eq_nil (h : s.isModule id) : s.namesBelowModule id = [] := by
  rw [namesBelowModule, pathBelowModule, belowModule_of_isModule h]
  rfl

theorem namesBelowModule_ne_nil (h : ¬s.isModule id)
    (hnamed : ∀ i ∈ s.pathBelowModule id, (s.name? i).isSome) : s.namesBelowModule id ≠ [] := by
  have hmem : id ∈ s.pathBelowModule id := by
    rw [pathBelowModule, List.mem_reverse, belowModule, ancestors_eq,
      List.takeWhile_cons_of_pos (by simpa using h)]
    exact List.mem_cons_self
  obtain ⟨name, hname⟩ := Option.isSome_iff_exists.1 (hnamed id hmem)
  exact List.ne_nil_of_mem (List.mem_filterMap.2 ⟨id, hmem, hname⟩)

/-- The spelling and the import of what is inside a declaration. -/
theorem spelled_inside (h : s.namesBelowModule id ≠ []) (requester : DeclId) (name : String) :
    s.declSpelling id ++ "." ++ name = ".".intercalate (s.namesBelowModule id ++ [name]) ∧
      s.declImport requester id = if s.owningModule id = requester then none
        else (s.namesBelowModule id ++ [name]).head?.map fun first =>
          (s.modulePath id, some first) := by
  rw [declSpelling, declImport, List.head?_append_of_ne_nil _ h,
    String.intercalate_append_of_ne_nil h (List.cons_ne_nil _ _), String.intercalate_singleton]
  exact ⟨rfl, rfl⟩

/-- A use is spelled by its names, and asks for the first of them unless it stands for something of
the module that asks. -/
theorem StandsFor.spelled {use : NameRef × Bound} (h : s.StandsFor use p holder names)
    (hbind : s.bind use.1 = .ok use.2) :
    use.2.resolution.name = ".".intercalate names ∧
      use.2.request = if s.owningModule holder = s.owningModule use.1.scope then none
        else names.head?.map fun first => (s.modulePath holder, some first) := by
  obtain ⟨hbound, hrequester, htarget, hspelt, hheld, hnamed, hproper, -, -⟩ := h
  obtain ⟨ref, b⟩ := use
  rcases binds_bind hbind with ⟨name, -, rfl⟩ | ⟨found, hfound, hbinds⟩
  · cases hbound
  · cases hfound.symm.trans htarget
    dsimp only at hrequester hbinds ⊢
    generalize s.owningModule ref.scope = requester at hrequester hbinds ⊢
    cases hbinds with
    | bare | bareEnumerator | inClass => cases hbound
    | own hown =>
      cases hspelt
      rcases hown with rfl | ⟨rfl, hkind⟩
      · cases hbound
      · have hparent := parent?_of_targetKind hkind
        have hinner : ¬s.isModule holder := by
          rw [isModule_of_targetKind requester, hkind]
          decide
        have hbelow : s.pathBelowModule holder = [holder] := by
          rw [pathBelowModule, belowModule_of_parent hinner hparent,
            belowModule_of_isModule hrequester]
          rfl
        obtain ⟨name, hname⟩ := Option.isSome_iff_exists.1 (hnamed holder (by rw [hbelow]; simp))
        rw [ancestors_eq, hparent, Option.map_some, Option.getD_some, ancestors_eq,
          List.find?_cons_of_neg hinner, List.find?_cons_of_pos hrequester] at hheld
        rw [if_pos (Option.some.inj hheld).symm, namesBelowModule, hbelow, bindOwn, hname]
        simp [hname]
    | wholeModule hkind =>
      cases hspelt
      exact absurd (namesBelowModule_eq_nil ((isModule_of_targetKind ..).2 hkind)) hproper
    | declared =>
      cases hspelt
      exact ⟨rfl, rfl⟩
    | enumerator id index =>
      unfold bindEnumerator
      dsimp only
      cases hspelt with
      | enumerator hname hinner =>
        rw [if_pos hname]
        exact spelled_inside (namesBelowModule_ne_nil hinner hnamed) requester _
      | nameless hnone hparent =>
        rw [hnone, if_neg (by simp), hparent, Option.getD_some]
        split
        · next hmodule =>
          rw [ancestors_eq, List.find?_cons_of_pos hmodule] at hheld
          rw [← Option.some.inj hheld, namesBelowModule_eq_nil hmodule]
          exact ⟨String.intercalate_singleton.symm, rfl⟩
        · next hinner => exact spelled_inside (namesBelowModule_ne_nil hinner hnamed) requester _

/-- A module declares something under a name that is printed as a text, be it an enumerator. -/
def Declares (s : Store) (m : DeclId) (text : String) : Prop :=
  ∃ own found, Script.identifier own = text ∧
    (s.module? m).bind (fun held => s.lookupIn held.members own) = some found

end Store

end Serpentine
