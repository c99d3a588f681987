import Serpentine.Proofs.Reference.Uses
import Serpentine.Proofs.Script.Atom
import Serpentine.Session

/-!
# Spellings of names

What a use of a name is spelled as follows from what it is found to be.
-/

namespace Serpentine

/-- The binding is spelled by a path: it is no name of a body or attribute of an object. -/
def Binding.isPath : Binding → Bool
  | .global | .declared | .unboundMethod | .wholeModule => true
  | .inScope | .member | .external => false

namespace Store

variable (s : Store)

/-- What a use of a name is found to be. -/
def target? (ref : NameRef) : Option Found :=
  match TypeName.segments ref.raw with
  | [name] => (s.ancestors ref.scope).findSome? (s.lookupMember · name)
  | segments => (s.lookupQualified ref.scope segments).toOption

/-- The path of a declaration below its module. -/
def declSpelling (id : DeclId) : String :=
  ".".intercalate (s.namesBelowModule id)

/-- The import that a module needs for the path of a declaration. -/
def declImport (requester id : DeclId) : Option ImportRequest :=
  if s.owningModule id = requester then none
  else (s.namesBelowModule id).head?.map fun first => (s.modulePath id, some first)

/-- How it is spelled in a module. -/
def spelling (requester : DeclId) (binding : Binding) : Found → String
  | .decl id =>
    match binding with
    | .global => (s.name? id).getD ""
    | .wholeModule => s.modulePath id
    | _ => s.declSpelling id
  | .enumerator enumeration index =>
    let name := s.enumeratorName enumeration index
    if (s.name? enumeration).isSome then s.declSpelling enumeration ++ "." ++ name
    else
      let owner := (s.parent? enumeration).getD requester
      if s.isModule owner then name else s.declSpelling owner ++ "." ++ name

/-- The import that this needs. -/
def importFor (requester : DeclId) (binding : Binding) : Found → Option ImportRequest
  | .decl id =>
    match binding with
    | .global => none
    | .wholeModule => if id = requester then none else some (s.modulePath id, none)
    | _ => s.declImport requester id
  | .enumerator enumeration index =>
    if (s.name? enumeration).isSome then s.declImport requester enumeration
    else
      let owner := (s.parent? enumeration).getD requester
      if s.isModule owner then
        if owner = requester then none
        else some (s.modulePath owner, some (s.enumeratorName enumeration index))
      else s.declImport requester owner

variable {s} {requester : DeclId}

theorem eq_of_declImport {id : DeclId} {path : String} {symbol : Option String}
    (h : s.declImport requester id = some (path, symbol)) :
    s.modulePath id = path ∧ symbol = (s.namesBelowModule id).head? := by
  unfold declImport at h
  split at h
  · cases h
  · obtain ⟨first, hfirst, hpair⟩ := Option.map_eq_some_iff.1 h
    cases hpair
    exact ⟨rfl, hfirst.symm⟩

theorem isModule_of_targetKind (requester id : DeclId) :
    s.isModule id = true ↔ s.targetKind requester id = .wholeModule := by
  rw [isModule, module?, targetKind]
  cases s.entity? id with
  | none => simp
  | some e =>
    cases e with
    | routine kind r =>
      cases kind <;> simp
      split <;> simp
    | «attribute» a => cases h : a.isStatic <;> simp [h]
    | variableOf v => simp; split <;> simp
    | _ => simp

theorem parent?_of_targetKind {requester id : DeclId} (h : s.targetKind requester id = .global) :
    s.parent? id = some requester := by
  unfold targetKind at h
  split at h
  · cases h
  · split at h <;> cases h
  · split at h <;> cases h
  · split at h
    · next hglobal => simpa using (Bool.and_eq_true_iff.1 hglobal).2
    · cases h
  · cases h

/-- The ways to bind what was found for a use in a module. -/
inductive Binds (s : Store) (requester : DeclId) : Found → Bound → Prop
  | bare (id : DeclId) : Binds s requester (.decl id) (.bare ((s.name? id).getD "") .inScope)
  | own {id : DeclId} {binding : Binding}
    (h : binding = .member ∨ binding = .global ∧ s.targetKind requester id = .global) :
    Binds s requester (.decl id) (s.bindOwn id binding)
  | wholeModule {id : DeclId} (h : s.targetKind requester id = .wholeModule) :
    Binds s requester (.decl id) (s.bindModule requester id)
  /-- By its path, of what is no module or was found in a class. -/
  | declared {id : DeclId} {binding : Binding} (hb : binding = .declared ∨ binding = .unboundMethod)
    (h : s.targetKind requester id ≠ .wholeModule ∨ ∃ context name,
      (s.class? context).isSome ∧ s.lookupMember context name = some (.decl id)) :
    Binds s requester (.decl id) ⟨⟨s.declSpelling id, s.modulePath id, binding⟩,
      s.declImport requester id⟩
  | bareEnumerator (enumeration : DeclId) (index : Nat) :
    Binds s requester (.enumerator enumeration index)
      (.bare (s.enumeratorName enumeration index) .inScope)
  | inClass {enumeration : DeclId} {enumName : String} (h : s.name? enumeration = some enumName)
    (index : Nat) : Binds s requester (.enumerator enumeration index)
      (.bare (enumName ++ "." ++ s.enumeratorName enumeration index) .inScope)
  | enumerator (enumeration : DeclId) (index : Nat) :
    Binds s requester (.enumerator enumeration index)
      (s.bindEnumerator requester enumeration index)

theorem binds_bindFound (scope : DeclId) {context : DeclId} {name : String} {found : Found}
    (h : s.lookupMember context name = some found) :
    s.Binds requester found (s.bindFound requester scope context found) := by
  cases found with
  | enumerator enumeration index =>
    simp only [bindFound]
    split
    · exact .bareEnumerator _ _
    · split
      · split
        · next henum => exact .inClass henum index
        · exact .bareEnumerator _ _
      · exact .enumerator _ _
  | decl id =>
    simp only [bindFound]
    split
    · split
      · next hkind => exact .wholeModule hkind
      · next hkind => exact .own (.inr ⟨rfl, hkind⟩)
      · next hkind _ => exact .declared (.inl rfl) (.inl hkind)
    · split
      · next hclass =>
        split
        · exact .own (.inl rfl)
        · exact .own (.inl rfl)
        · split
          · exact .bare id
          · exact .declared (.inl rfl) (.inr ⟨context, name, hclass, h⟩)
      · exact .bare id

theorem binds_bindScoped (found : Found) :
    s.Binds requester found (s.bindScoped requester found) := by
  cases found with
  | enumerator enumeration index => exact .enumerator _ _
  | decl id =>
    simp only [bindScoped]
    split
    · next hkind => exact .wholeModule hkind
    · exact .own (.inl rfl)
    · next hkind => exact .declared (.inr rfl) (.inl (by rw [hkind]; decide))
    · next hkind => exact .own (.inr ⟨rfl, hkind⟩)
    · next hkind => exact .declared (.inl rfl) (.inl (by rw [hkind]; decide))

theorem binds_bindName (requester scope : DeclId) (name : String) :
    s.bindName requester scope name = .bare name .external ∨
      ∃ found, (s.ancestors scope).findSome? (s.lookupMember · name) = some found ∧
        s.Binds requester found (s.bindName requester scope name) := by
  unfold bindName
  induction s.ancestors scope with
  | nil => exact .inl rfl
  | cons context rest ih =>
    simp only [List.findSome?_cons]
    cases hfound : s.lookupMember context name with
    | none => exact ih
    | some found => exact .inr ⟨found, rfl, binds_bindFound scope hfound⟩

variable {ref : NameRef}

theorem target?_single {name : String}
    (h : TypeName.segments ref.raw = [name]) :
    s.target? ref = (s.ancestors ref.scope).findSome? (s.lookupMember · name) := by
  unfold target?
  rw [h]

theorem target?_scoped (h : ∀ name, TypeName.segments ref.raw ≠ [name]) :
    s.target? ref = (s.lookupQualified ref.scope (TypeName.segments ref.raw)).toOption := by
  unfold target?
  generalize TypeName.segments ref.raw = segments at h
  match segments with
  | [] | _ :: _ :: _ => rfl
  | [name] => exact absurd rfl (h name)

/-- A use stands for what is found for it, or for a name of one part that is declared nowhere. -/
theorem binds_bind {b : Bound} (h : s.bind ref = .ok b) :
    (∃ name, TypeName.segments ref.raw = [name] ∧ b = .bare name .external) ∨
      ∃ found, s.target? ref = some found ∧ s.Binds (s.owningModule ref.scope) found b := by
  unfold bind at h
  split at h
  · next name hsegments =>
    cases h
    rw [target?_single hsegments]
    exact (binds_bindName _ _ name).imp_left fun hnone => ⟨name, hsegments, hnone⟩
  · next segments hsegments =>
    split at h
    · next found hfound =>
      cases h
      refine .inr ⟨found, ?_, binds_bindScoped found⟩
      rw [target?_scoped hsegments, hfound]
      rfl
    · cases h

theorem bind_target {b : Bound} (h : s.bind ref = .ok b)
    (hpath : b.resolution.binding.isPath) :
    ∃ found, s.target? ref = some found ∧
      b.resolution.name = s.spelling (s.owningModule ref.scope) b.resolution.binding found ∧
      b.request = s.importFor (s.owningModule ref.scope) b.resolution.binding found := by
  rcases binds_bind h with ⟨name, -, rfl⟩ | ⟨found, hfound, hbinds⟩
  · cases hpath
  · refine ⟨found, hfound, ?_⟩
    cases hbinds with
    | bare | bareEnumerator | inClass => cases hpath
    | own hown =>
      rcases hown with rfl | ⟨rfl, -⟩
      · cases hpath
      · exact ⟨rfl, rfl⟩
    | wholeModule => exact ⟨rfl, rfl⟩
    | declared hb => rcases hb with rfl | rfl <;> exact ⟨rfl, rfl⟩
    | enumerator enumeration index =>
      unfold bindEnumerator spelling importFor
      dsimp only
      split
      · exact ⟨rfl, rfl⟩
      · split <;> exact ⟨rfl, rfl⟩

end Store

/-! ## Printed names -/

namespace Script

theorem dot_not_mem_identifier {name : String} (h : '.' ∉ name.toList) :
    '.' ∉ (identifier name).toList := by
  unfold identifier
  split
  · simpa using h
  · exact h

theorem dot_not_mem_pathParts {path part : String} (h : part ∈ pathParts path) :
    '.' ∉ part.toList := by
  have hcut : ∀ cs : List Char, ∀ piece ∈ cs.splitOn '.', '.' ∉ piece := by
    intro cs
    induction cs with
    | nil => simp
    | cons c cs ih =>
      obtain ⟨piece, pieces, hpieces⟩ := List.exists_cons_of_ne_nil (List.splitOn_ne_nil '.' cs)
      rw [hpieces, List.forall_mem_cons] at ih
      rw [List.splitOn_cons_eq_if_modifyHead, hpieces]
      split
      · simpa using ih
      · next hc => simpa [Ne.symm (by simpa using hc)] using ih
  obtain ⟨piece, hpiece, rfl⟩ := List.mem_map.mp h
  rw [String.toList_ofList]
  exact hcut _ piece (cutAtDots_eq _ ▸ hpiece)

theorem pathParts_append_dot (p q : String) :
    pathParts (p ++ "." ++ q) = pathParts p ++ pathParts q := by
  simp [pathParts, cutAtDots_eq, List.splitOn_append_cons_self]

theorem pathParts_dotted (path : String) :
    pathParts (dotted path) = (pathParts path).map identifier := by
  refine pathParts_intercalate (by simpa using pathParts_ne_nil path) fun part hpart => ?_
  obtain ⟨name, hname, rfl⟩ := List.mem_map.mp hpart
  exact dot_not_mem_identifier (dot_not_mem_pathParts hname)

end Script

theorem Lowering.Env.nameText_of_isPath {env : Lowering.Env} {r : Resolution}
    (hbound : env.table.get? ref.id = some r) (hpath : r.binding.isPath) :
    env.nameText ref = Script.dotted r.name := by
  have hmember : r.binding ≠ .member := by
    intro h
    rw [h] at hpath
    cases hpath
  unfold Lowering.Env.nameText
  rw [hbound]
  exact if_neg hmember

/-- Two namespaces with a variable of one name, and a variable that is made of both. -/
@[irreducible] def twoNamespaces : Store :=
  (Grammar.parseFile .empty (.empty "main") "t.cpp"
    "namespace A \x7b int f = 1; \x7d namespace B \x7b int f = 2; \x7d int g = A::f + B::f;").2

theorem resolve_twoNamespaces :
    ∃ r a b, resolve twoNamespaces [] = (.ok (), r) ∧
      twoNamespaces.bindAll [] twoNamespaces.references = .ok [a, b] ∧
      a.2.resolution = ⟨"f", "A", .declared⟩ ∧ b.2.resolution = ⟨"f", "B", .declared⟩ ∧
      twoNamespaces.target? a.1 = some (.decl 2) ∧ twoNamespaces.target? b.1 = some (.decl 4) ∧
      twoNamespaces.isModule Store.root ∧ twoNamespaces.owningModule a.1.scope = Store.root ∧
      twoNamespaces.owningModule b.1.scope = Store.root ∧
      twoNamespaces.importFor Store.root .declared (.decl 2) = some ("A", some "f") := by
  have hrun : ((resolve twoNamespaces []).1.toOption = some () ∧
      (twoNamespaces.bindAll [] twoNamespaces.references).toOption.map (·.map fun use =>
        (use.2.resolution, twoNamespaces.target? use.1, twoNamespaces.owningModule use.1.scope)) =
      some [(⟨"f", "A", .declared⟩, some (.decl 2), Store.root),
        (⟨"f", "B", .declared⟩, some (.decl 4), Store.root)]) ∧
      twoNamespaces.isModule Store.root ∧
      twoNamespaces.importFor Store.root .declared (.decl 2) = some ("A", some "f") := by
    unfold twoNamespaces
    decide +kernel
  obtain ⟨⟨hresolve, hbind⟩, hroot, hneeds⟩ := hrun
  obtain ⟨uses, huses, hmap⟩ := Option.map_eq_some_iff.mp hbind
  obtain ⟨a, _, rfl, ha, hmap⟩ := List.map_eq_cons_iff.mp hmap
  obtain ⟨b, _, rfl, hb, hmap⟩ := List.map_eq_cons_iff.mp hmap
  obtain rfl := List.map_eq_nil_iff.mp hmap
  simp only [Prod.mk.injEq] at ha hb
  exact ⟨_, a, b, Prod.ext (eq_ok_of_toOption hresolve) rfl, eq_ok_of_toOption huses, ha.1, hb.1,
    ha.2.1, hb.2.1, hroot, ha.2.2, hb.2.2, hneeds⟩

end Serpentine
