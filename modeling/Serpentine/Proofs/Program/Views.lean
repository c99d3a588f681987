import Serpentine.Program.Build
import Serpentine.Proofs.Sorted

/-!
# What is read of a changed program

A change of one declaration leaves what is read of the others, and a new declaration is read as it
was made.
-/

namespace Serpentine

def Entity.path? : Entity → Option String
  | .namespaceOf m => some m.path
  | _ => none

namespace Members

variable {m : Members} {name key : String} {id i : DeclId}

theorem get?_bind (order : List DeclId) (name key : String) :
    Members.get? ⟨order, m.bind name id⟩ key = if key = name then some id else m.get? key := by
  rw [get?, Members.bind, List.lookup_cons]
  by_cases hkey : key = name
  · simp [hkey]
  · rw [if_neg hkey, beq_eq_false_iff_ne.2 hkey]
    exact lookup_filter_ne hkey m.names

theorem eq_or_of_get?_bind {order : List DeclId}
    (h : Members.get? ⟨order, m.bind name id⟩ key = some i) : i = id ∨ m.get? key = some i := by
  rw [get?_bind] at h
  split at h
  · exact .inl (Option.some.inj h).symm
  · exact .inr h

theorem get?_insert {name : Option String} (h : (m.insert name id).2.get? key = some i) :
    i = id ∨ m.get? key = some i := by
  cases name with
  | none => exact .inr h
  | some name =>
    unfold Members.insert at h
    dsimp only at h
    split at h <;> exact eq_or_of_get?_bind h

theorem get?_nameEntry (h : (m.nameEntry name id).2.get? key = some i) :
    i = id ∨ m.get? key = some i := by
  unfold Members.nameEntry at h
  split at h <;> exact eq_or_of_get?_bind h

theorem mem_replaceFirst {old new : DeclId} {order : List DeclId}
    (h : i ∈ replaceFirst old new order) : i = new ∨ i ∈ order := by
  induction order with
  | nil => cases h
  | cons first rest ih =>
    rw [replaceFirst] at h
    split at h
    · exact (List.mem_cons.1 h).imp_right (List.mem_cons_of_mem _)
    · rcases List.mem_cons.1 h with rfl | h
      · exact .inr List.mem_cons_self
      · exact (ih h).imp_right (List.mem_cons_of_mem _)

theorem mem_insert {name : Option String} (h : i ∈ (m.insert name id).2.order) :
    i = id ∨ i ∈ m.order := by
  unfold Members.insert at h
  split at h
  · simpa [or_comm] using h
  · split at h
    · simpa [or_comm] using h
    · exact mem_replaceFirst h

theorem mem_nameEntry (h : i ∈ (m.nameEntry name id).2.order) : i ∈ m.order := by
  unfold Members.nameEntry at h
  split at h
  · exact h
  · exact (List.mem_filter.1 h).1

end Members

namespace Store

/-! ## Numbers of declarations -/

section Size

variable (s : Store)

@[simp]
theorem size_modifyEntity (id : DeclId) (f : Entity → Entity) :
    (s.modifyEntity id f).decls.size = s.decls.size :=
  Array.size_modify

@[simp]
theorem size_modifyModule (id : DeclId) (f : Module → Module) :
    (s.modifyModule id f).decls.size = s.decls.size :=
  Array.size_modify

@[simp]
theorem size_modifyRoutine (id : DeclId) (f : Routine → Routine) :
    (s.modifyRoutine id f).decls.size = s.decls.size :=
  Array.size_modify

@[simp]
theorem size_importEnum (id : DeclId) : (s.importEnum id).decls.size = s.decls.size :=
  size_modifyModule ..

@[simp]
theorem size_alloc (parent : DeclId) (name : Option String) (place : Position) (entity : Entity) :
    (s.alloc parent name place entity).2.decls.size = s.decls.size + 1 :=
  Array.size_push ..

@[simp]
theorem size_add (parent : DeclId) (name : Option String) (entity : Entity) (place : Position) :
    (s.add parent name entity place).2.decls.size = s.decls.size + 1 := by
  unfold add
  dsimp only
  repeat' (split <;> try simp [noticeReplaced, notice])

@[simp]
theorem size_addParameter (routine : DeclId) (spec : ParameterSpec) (index : Nat) :
    (s.addParameter routine spec index).2.decls.size = s.decls.size + 1 := by
  simp [addParameter]

@[simp]
theorem size_addParameters (routine : DeclId) (spec : RoutineSpec) :
    (s.addParameters routine spec).decls.size = s.decls.size + spec.params.length := by
  have hfrom (params : List ParameterSpec) (index : Nat) (t : Store) :
      (t.addParametersFrom routine index params).decls.size = t.decls.size + params.length := by
    induction params generalizing index t with
    | nil => rfl
    | cons param rest ih =>
      rw [addParametersFrom, ih, size_addParameter, List.length_cons]
      omega
  exact hfrom spec.params 0 s

end Size

/-! ## Changes of one declaration -/

variable {s t : Store}

section Map

variable {g : DeclId → Declaration → Declaration} {i : DeclId}
  (ht : ∀ i, t.decls[i]? = s.decls[i]?.map (g i))

include ht

theorem bind_of_getElem? {β : Type} {f : Declaration → Option β} (hf : ∀ d, f (g i d) = f d) :
    t.decls[i]?.bind f = s.decls[i]?.bind f := by
  rw [ht, Option.bind_map]
  exact congrArg _ (funext hf)

theorem map_of_getElem? {β : Type} {f : Declaration → β} (hf : ∀ d, f (g i d) = f d) :
    t.decls[i]?.map f = s.decls[i]?.map f := by
  rw [ht, Option.map_map]
  exact congrArg (Option.map · _) (funext hf)

theorem owningModule_of_getElem? (hroot : ∀ d, (g i d).root = d.root) :
    t.owningModule i = s.owningModule i :=
  congrArg (Option.getD · root) (map_of_getElem? ht hroot)

end Map

theorem getElem?_modify (id : DeclId) (f : Declaration → Declaration) (i : DeclId) :
    (s.decls.modify id f)[i]? = s.decls[i]?.map fun d => if i = id then f d else d := by
  rw [Array.getElem?_modify]
  by_cases h : id = i
  · simp [h]
  · simp [h, Ne.symm h]

section ModifyEntity

variable (id : DeclId) (f : Entity → Entity) (i : DeclId)

theorem getElem?_modifyEntity : (s.modifyEntity id f).decls[i]? =
    s.decls[i]?.map fun d => if i = id then { d with entity := f d.entity } else d :=
  getElem?_modify ..

theorem name?_modifyEntity : (s.modifyEntity id f).name? i = s.name? i :=
  bind_of_getElem? (getElem?_modifyEntity id f) fun d => by split <;> rfl

theorem parent?_modifyEntity : (s.modifyEntity id f).parent? i = s.parent? i :=
  bind_of_getElem? (getElem?_modifyEntity id f) fun d => by split <;> rfl

theorem owningModule_modifyEntity : (s.modifyEntity id f).owningModule i = s.owningModule i :=
  owningModule_of_getElem? (getElem?_modifyEntity id f) fun d => by split <;> rfl

theorem entity?_modifyEntity : (s.modifyEntity id f).entity? i =
    if i = id then (s.entity? i).map f else s.entity? i := by
  rw [entity?, getElem?_modifyEntity, Option.map_map, entity?]
  split
  · rw [Option.map_map]
    rfl
  · rfl

end ModifyEntity

theorem parent_withName (name : String) (d : Declaration) :
    ({ d with name := some name } : Declaration).parent = d.parent :=
  rfl

/-- Gives a declaration another name. -/
def rename (s : Store) (id : DeclId) (name : String) : Store :=
  s.modify id (fun d => { d with name := some name }) (parent_withName name)

section Rename

variable (id : DeclId) (name : String) (i : DeclId)

theorem getElem?_rename : (s.rename id name).decls[i]? =
    s.decls[i]?.map fun d => if i = id then { d with name := some name } else d :=
  getElem?_modify ..

theorem parent?_rename : (s.rename id name).parent? i = s.parent? i :=
  bind_of_getElem? (getElem?_rename id name) fun d => by split <;> rfl

theorem owningModule_rename : (s.rename id name).owningModule i = s.owningModule i :=
  owningModule_of_getElem? (getElem?_rename id name) fun d => by split <;> rfl

theorem entity?_rename : (s.rename id name).entity? i = s.entity? i :=
  map_of_getElem? (getElem?_rename id name) fun d => by split <;> rfl

theorem name?_rename : (s.rename id name).name? i =
    if i = id then s.decls[i]?.map fun _ => name else s.name? i := by
  rw [name?, getElem?_rename, Option.bind_map]
  split
  · cases s.decls[i]? <;> rfl
  · rfl

theorem name?_rename_self {id parent : DeclId} (h : s.parent? id = some parent) :
    (s.rename id name).name? id = some name := by
  rw [name?_rename, if_pos rfl]
  cases hd : s.decls[id]? with
  | none => simp [parent?, hd] at h
  | some d => rfl

end Rename

section SetParent

variable {id parent : DeclId} (hlt : parent < id) (i : DeclId)

theorem getElem?_setParent : (s.setParent id parent hlt).decls[i]? =
    s.decls[i]?.map fun d => if i = id then { d with parent := some parent } else d :=
  getElem?_modify ..

theorem name?_setParent : (s.setParent id parent hlt).name? i = s.name? i :=
  bind_of_getElem? (getElem?_setParent hlt) fun d => by split <;> rfl

theorem owningModule_setParent :
    (s.setParent id parent hlt).owningModule i = s.owningModule i :=
  owningModule_of_getElem? (getElem?_setParent hlt) fun d => by split <;> rfl

theorem entity?_setParent : (s.setParent id parent hlt).entity? i = s.entity? i :=
  map_of_getElem? (getElem?_setParent hlt) fun d => by split <;> rfl

/-- What holds before declarations are moved, and of those that are left after each, holds of none
in the end. -/
theorem adoptAll_induction {I : List DeclId → Store → Prop} {owner : DeclId}
    (hstep : ∀ member rest t hlt, I (member :: rest) t → I rest (t.adopt owner member hlt))
    {moved : List DeclId} (hlt : ∀ member ∈ moved, owner < member) (h : I moved s) :
    I [] (s.adoptAll owner moved hlt) := by
  induction moved generalizing s with
  | nil => exact h
  | cons member rest ih => exact ih _ (hstep member rest s _ h)

/-- A dissolution changes nothing, or takes the class out of the table around it and moves what the
class lists. -/
theorem dissolve_induction {I : DeclId → List DeclId → Store → Prop} {P : Store → Prop}
    {id : DeclId} (hstep : ∀ owner member rest t hlt, I owner (member :: rest) t →
      I owner rest (t.adopt owner member hlt)) (hend : ∀ owner t, I owner [] t → P t) (hsame : P s)
    (hmoved : ∀ owner, s.parent? id = some owner → I owner (s.classMembers id) s)
    (hlisted : ∀ owner members, s.parent? id = some owner → s.members? owner = some members →
      I owner (s.classMembers id) (s.modifyEntity owner (Entity.setMembers (members.unlist id)))) :
    P (s.dissolve id) := by
  unfold dissolve
  split
  · exact hsame
  · next owner howner =>
    split
    · next hlt =>
      refine hend owner _ (adoptAll_induction (hstep owner) hlt ?_)
      split
      · exact hmoved owner howner
      · next members hmembers => exact hlisted owner members howner hmembers
    · exact hsame

end SetParent

/-! ## New declarations -/

section Alloc

variable (parent : DeclId) (name : Option String) (place : Position) (entity : Entity) (i : DeclId)

theorem getElem?_alloc : (s.alloc parent name place entity).2.decls[i]? =
    if i = s.decls.size then
      some ⟨name, if parent < s.decls.size then some parent else none,
        match entity with
        | .namespaceOf _ => s.decls.size
        | _ => s.owningModule parent, place, entity⟩
    else s.decls[i]? :=
  Array.getElem?_push

theorem name?_alloc : (s.alloc parent name place entity).2.name? i =
    if i = s.decls.size then name else s.name? i := by
  rw [name?, getElem?_alloc]
  split <;> rfl

theorem entity?_alloc : (s.alloc parent name place entity).2.entity? i =
    if i = s.decls.size then some entity else s.entity? i := by
  rw [entity?, getElem?_alloc]
  split <;> rfl

theorem owningModule_alloc : (s.alloc parent name place entity).2.owningModule i =
      if i = s.decls.size then if entity.path?.isSome then i else s.owningModule parent
      else s.owningModule i := by
  rw [owningModule, getElem?_alloc]
  split
  · next hi =>
    subst hi
    cases entity <;> rfl
  · rfl

variable {i}

theorem isSome_name?_alloc (h : (s.name? i).isSome) :
    ((s.alloc parent name place entity).2.name? i).isSome := by
  have hne : i ≠ s.decls.size := by
    rintro rfl
    rw [name?, Array.getElem?_size] at h
    cases h
  rwa [name?_alloc, if_neg hne]

end Alloc

end Store

end Serpentine
