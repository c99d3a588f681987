import Serpentine.Proofs.Program.Namespaces
import Serpentine.Proofs.Program.Termination

/-!
# The hierarchy of declarations

A program is built by operations that make declarations inside others, name them and move them. The
declarations stay a tree under the root all the time, in which each knows the module that holds it
and each namespace has the path of the names around it (**`hierarchy_of_operations`**).
-/

namespace Serpentine

open Relation (ReflTransGen)

/-- What is asked of a change: it makes declarations under one that is there, namespaces under a
module. Which entities it may add and which declarations it may name and dissolve is given. -/
structure Build.Allowed {α : Type} (P : Entity → Prop) (A D : DeclId → Prop) (s : Store)
    (op : Build α) : Prop where
  parent : ∀ parent ∈ op.parent?, parent < s.decls.size
  outer : ∀ parent ∈ op.outer?, (s.module? parent).isSome
  made : ∀ e ∈ op.made?, P e
  named : ∀ id ∈ op.named?, A id
  dissolved : ∀ id ∈ op.dissolved?, D id

/-- What lasts of a module: its path and the namespaces inside it. -/
def Entity.plan? : Entity → Option (String × Members)
  | .namespaceOf m => some (m.path, m.submodules)
  | _ => none

theorem Entity.plan?_eq_none_iff {e : Entity} : e.plan? = none ↔ e.describe ≠ "module" := by
  cases e with
  | routine kind r => cases kind <;> simp [plan?, describe]
  | _ => simp [plan?, describe]

theorem Entity.path?_eq_map (e : Entity) : e.path? = e.plan?.map Prod.fst := by
  cases e <;> rfl

theorem Entity.isSome_path? (e : Entity) : e.path?.isSome = e.plan?.isSome := by
  rw [path?_eq_map, Option.isSome_map]

theorem Entity.plan?_of_frame? {e e' : Entity} (h : e'.frame? = e.frame?) : e'.plan? = e.plan? := by
  have hplan : ∀ e : Entity, e.plan? = e.frame?.map fun frame => (frame.1, frame.2.1) := by
    rintro (_ | _ | _ | _ | _ | _ | _) <;> rfl
  rw [hplan, h, hplan]

theorem Entity.plan?_setMembers (members : Members) (e : Entity) :
    (e.setMembers members).plan? = e.plan? := by
  cases e <;> rfl

theorem Entity.members?_setMembers {members after : Members} {e : Entity}
    (h : (e.setMembers members).members? = some after) : after = members := by
  cases e <;> cases h <;> rfl

namespace Store

/-- One operation, which adds only entities `P`, names only declarations `A` and dissolves only
declarations `D`. -/
inductive Operation (P : Entity → Prop) (A D : Store → DeclId → Prop) (s : Store) :
    Store → Prop where
  | build {α : Type} {a : α} {t : Store} (op : Build α) (h : op.Allowed P (A s) (D s) s)
      (ht : op.apply s = .ok (a, t)) : Operation P A D s t
  | addParameter (routine : DeclId) (spec : ParameterSpec) (index : Nat)
      (h : routine < s.decls.size) : Operation P A D s (s.addParameter routine spec index).2
  | addImport (id : DeclId) (path : String) (symbol : Option String) :
      Operation P A D s (s.modifyModule id (·.addImport path symbol))

variable {s t : Store} {P : Entity → Prop} {A D : Store → DeclId → Prop}

/-- An operation names a declaration, dissolves one, extends the program or adds an import. -/
theorem Operation.cases {L : Prop} (h : Operation P A D s t) (hP : ∀ e : Entity, e.Bare → P e)
    (hlinked : L → s.Linked) :
    (∃ id, A s id ∧ ∃ name, t = s.nameAnonymous id name) ∨
      (∃ id, D s id ∧ t = s.dissolve id) ∨ Extends L P (fun _ => True) s t ∨
      ∃ id path symbol, t = s.modifyModule id (·.addImport path symbol) := by
  cases h with
  | build op h ht =>
    rcases op.cases hP h.made (fun _ _ => trivial) (fun _ => h.parent)
      (fun _ => h.outer) hlinked ht with ⟨id, hid, name, rfl⟩ | ⟨id, hid, rfl⟩ | hextends
    · exact .inl ⟨id, h.named id hid, name, rfl⟩
    · exact .inr (.inl ⟨id, h.dissolved id hid, rfl⟩)
    · exact .inr (.inr (.inl hextends))
  | addParameter routine spec index h =>
    exact .inr (.inr (.inl (extends_addParameter hP (fun _ => h) spec index)))
  | addImport id path symbol => exact .inr (.inr (.inr ⟨id, path, symbol, rfl⟩))

theorem Operation.linked (h : Operation P A D s t) (hP : ∀ e : Entity, e.Bare → P e)
    (hroutines : ∀ e : Entity, P e → e.routines = []) (hs : s.Linked) : t.Linked := by
  rcases h.cases (L := True) hP fun _ => hs with ⟨id, -, name, rfl⟩ | ⟨id, -, rfl⟩ | hextends |
    ⟨id, path, symbol, rfl⟩
  · exact (edits_nameAnonymous (P := P) (N := fun _ => True) id name).linked hroutines hs
  · exact (edits_dissolve (P := P) (N := fun _ => True) id).linked hroutines hs
  · exact hextends.edits.linked hroutines hs
  · exact hs.modifyModule id _

/-! ## Order -/

/-- A later declaration that is no module, in the same module. -/
def Within (s : Store) (id member : DeclId) : Prop :=
  id < member ∧ member < s.decls.size ∧ s.plan? member = none ∧
    s.owningModule member = s.owningModule id

/-- A namespace is in the table of the module around it, and its path is made of that of the
module. -/
def Surrounds (s : Store) (parent id : DeclId) (path : String) : Prop :=
  ∃ outer inside name, s.plan? parent = some (outer, inside) ∧ s.name? id = some name ∧
    inside.get? name = some id ∧ path = if parent = root then name else outer ++ "." ++ name

/-- A declaration has its place, and a module the path of its place. -/
structure Seated (s : Store) (id : DeclId) (d : Declaration) : Prop where
  around : d.parent = none ↔ id = root
  owner : ∀ parent, d.parent = some parent → d.entity.path? = none →
    d.root = s.owningModule parent
  itself : d.entity.path?.isSome → d.root = id
  enclosed : ∀ path parent, d.entity.path? = some path → d.parent = some parent →
    s.Surrounds parent id path
  listed : ∀ members, d.entity.members? = some members → ∀ member ∈ members.order,
    s.Within id member

/-- What every operation keeps. -/
structure Ordered (s : Store) : Prop where
  top : (s.plan? root).isSome
  seated : ∀ id d, s.decls[id]? = some d → s.Seated id d

/-- A later program, in which modules keep their names and their paths, and lose nothing that is
inside them. -/
structure Keeps (s t : Store) : Prop where
  continues : s.Continues t
  plans : ∀ i path inside, s.plan? i = some (path, inside) → ∃ inside',
    t.plan? i = some (path, inside') ∧
      ∀ name id, inside.get? name = some id → inside'.get? name = some id
  names : ∀ i, (s.plan? i).isSome → t.name? i = s.name? i

theorem plan?_bind (id : DeclId) : s.plan? id = s.decls[id]?.bind fun d => d.entity.plan? := by
  rw [plan?, module?, entity?]
  cases s.decls[id]? with
  | none => rfl
  | some d => cases hd : d.entity <;> simp [Entity.plan?, hd]

theorem plan?_of_entity? {id : DeclId} (h : t.entity? id = s.entity? id) :
    t.plan? id = s.plan? id := by
  rw [plan?, module?, h, plan?, module?]

theorem members?_bind (id : DeclId) :
    s.members? id = s.decls[id]?.bind fun d => d.entity.members? := by
  rw [members?, entity?]
  cases s.decls[id]? <;> rfl

theorem lt_of_parent? {id parent : DeclId} (h : s.parent? id = some parent) :
    id < s.decls.size := by
  by_contra hid
  rw [parent?, Array.getElem?_eq_none (Nat.le_of_not_lt hid)] at h
  cases h

theorem keeps_of_plans (hcontinues : s.Continues t) (hplans : ∀ i, t.plan? i = s.plan? i)
    (hnames : ∀ i, (s.plan? i).isSome → t.name? i = s.name? i) : s.Keeps t :=
  ⟨hcontinues, fun i _ inside h => ⟨inside, (hplans i).trans h, fun _ _ h => h⟩, hnames⟩

theorem Within.of_continues (h : s.Continues t) {owner member : DeclId}
    (hin : s.Within owner member) : t.Within owner member := by
  obtain ⟨hlt, hmember, hnone, hroot⟩ := hin
  obtain ⟨d, hd⟩ : ∃ d, s.decls[member]? = some d := ⟨_, Array.getElem?_eq_getElem hmember⟩
  obtain ⟨d', hd', -, -, hsort⟩ := h member d hd
  refine ⟨hlt, (Array.getElem?_eq_some_iff.1 hd').1, ?_, ?_⟩
  · rw [plan?_bind, hd] at hnone
    rw [plan?_bind, hd']
    exact Entity.plan?_eq_none_iff.2 (hsort ▸ Entity.plan?_eq_none_iff.1 hnone)
  · have howner := owningModule_of_continues h
    rw [howner member hmember, howner owner (Nat.lt_trans hlt hmember), hroot]

variable {id : DeclId}

theorem Seated.mono {d : Declaration} (hseated : s.Seated id d) (hd : s.decls[id]? = some d)
    (h : s.Keeps t) : t.Seated id d := by
  have hid := (Array.getElem?_eq_some_iff.1 hd).1
  refine ⟨hseated.around, fun parent hparent hnone => ?_, hseated.itself,
    fun path parent hpath hparent => ?_, fun members hmembers member hmember =>
      (hseated.listed members hmembers member hmember).of_continues h.continues⟩
  · have hlt := s.nested id parent (by rw [hd]; exact hparent)
    rw [owningModule_of_continues h.continues parent (Nat.lt_trans hlt hid)]
    exact hseated.owner parent hparent hnone
  · obtain ⟨outer, inside, name, houter, hname, hget, rfl⟩ := hseated.enclosed path parent hpath hparent
    obtain ⟨inside', houter', hkept⟩ := h.plans parent outer inside houter
    refine ⟨outer, inside', name, houter', (h.names id ?_).trans hname, hkept name id hget, rfl⟩
    rw [plan?_bind, hd, Option.bind_some, ← Entity.isSome_path?, hpath]
    rfl

theorem Seated.refit {d : Declaration} (h : s.Seated id d) {e : Entity}
    (hpath : e.path? = d.entity.path?)
    (hlisted : ∀ members, e.members? = some members → ∀ member ∈ members.order, s.Within id member) :
    s.Seated id { d with entity := e } :=
  ⟨h.around, fun parent hparent hnone => h.owner parent hparent (hpath ▸ hnone),
    fun hsome => h.itself (hpath ▸ hsome),
    fun path parent hsome => h.enclosed path parent (hpath ▸ hsome), hlisted⟩

theorem Ordered.step (hs : s.Ordered) (hkeeps : s.Keeps t)
    (h : ∀ i d, t.decls[i]? = some d → s.decls[i]? = some d ∨ t.Seated i d) : t.Ordered := by
  refine ⟨?_, fun i d hd => (h i d hd).elim (fun hold => (hs.seated i d hold).mono hold hkeeps) id⟩
  obtain ⟨⟨path, inside⟩, hplan⟩ := Option.isSome_iff_exists.1 hs.top
  obtain ⟨inside', hplan', -⟩ := hkeeps.plans root path inside hplan
  rw [hplan']
  rfl

theorem Ordered.of_decls (hs : s.Ordered) (h : t.decls = s.decls) : t.Ordered := by
  refine hs.step (keeps_of_plans (.of_decls h) (fun i => ?_) fun i _ => ?_) fun i d hd => .inl ?_
  · rw [plan?_bind, h, plan?_bind]
  · rw [name?, h, name?]
  · rwa [← h]

namespace Ordered

variable {id parent : DeclId}

section

variable (hs : s.Ordered)

include hs

theorem exists_seated (hid : id < s.decls.size) : ∃ d, s.decls[id]? = some d ∧ s.Seated id d :=
  ⟨_, Array.getElem?_eq_getElem hid, hs.seated _ _ (Array.getElem?_eq_getElem hid)⟩

theorem parent?_root : s.parent? root = none := by
  obtain ⟨d, hd, hseated⟩ := hs.exists_seated (lt_of_plan? (Option.eq_some_of_isSome hs.top))
  rw [parent?, hd]
  exact hseated.around.2 rfl

theorem around (hid : id < s.decls.size) (hne : id ≠ root) :
    ∃ parent, s.parent? id = some parent := by
  obtain ⟨d, hd, hseated⟩ := hs.exists_seated hid
  rw [parent?, hd]
  exact Option.ne_none_iff_exists'.1 fun h => hne (hseated.around.1 h)

theorem owner (h : s.parent? id = some parent) (hid : s.plan? id = none) :
    s.owningModule id = s.owningModule parent := by
  obtain ⟨d, hd, hseated⟩ := hs.exists_seated (lt_of_parent? h)
  rw [plan?_bind, hd, Option.bind_some] at hid
  rw [parent?, hd] at h
  rw [owningModule, hd]
  exact hseated.owner parent h (by rw [Entity.path?_eq_map, hid]; rfl)

theorem itself (h : (s.plan? id).isSome) : s.owningModule id = id := by
  obtain ⟨d, hd, hseated⟩ := hs.exists_seated (lt_of_plan? (Option.eq_some_of_isSome h))
  rw [plan?_bind, hd, Option.bind_some, ← Entity.isSome_path?] at h
  rw [owningModule, hd]
  exact hseated.itself h

theorem enclosed {path : String} {inside : Members}
    (h : s.plan? id = some (path, inside)) (hparent : s.parent? id = some parent) :
    s.Surrounds parent id path := by
  obtain ⟨d, hd, hseated⟩ := hs.exists_seated (lt_of_parent? hparent)
  rw [plan?_bind, hd, Option.bind_some] at h
  rw [parent?, hd] at hparent
  exact hseated.enclosed path parent (by rw [Entity.path?_eq_map, h]; rfl) hparent

theorem listed {members : Members} (h : s.members? id = some members) :
    ∀ member ∈ members.order, s.Within id member := by
  rw [members?_bind, Option.bind_eq_some_iff] at h
  obtain ⟨d, hd, h⟩ := h
  exact (hs.seated id d hd).listed members h

end

end Ordered

/-! ## Changes of one declaration -/

theorem plan?_modifyEntity (id : DeclId) {f : Entity → Entity} (hf : ∀ e, (f e).plan? = e.plan?)
    (i : DeclId) : (s.modifyEntity id f).plan? i = s.plan? i := by
  rw [plan?_bind, plan?_bind]
  refine bind_of_getElem? (getElem?_modifyEntity id f) fun d => ?_
  split
  · exact hf d.entity
  · rfl

section

variable (hs : s.Ordered)

include hs

theorem Ordered.modifyEntity (id : DeclId) {f : Entity → Entity}
    (hsort : ∀ e, (f e).describe = e.describe) (hplan : ∀ e, (f e).plan? = e.plan?)
    (hlisted : ∀ e, s.entity? id = some e → ∀ members, (f e).members? = some members →
      ∀ member ∈ members.order, s.Within id member) : (s.modifyEntity id f).Ordered := by
  have hkeeps : s.Keeps (s.modifyEntity id f) :=
    keeps_of_plans (continues_modifyEntity fun e _ => hsort e) (plan?_modifyEntity id hplan)
      fun i _ => name?_modifyEntity ..
  refine hs.step hkeeps fun i d hd => ?_
  rw [getElem?_modifyEntity, Option.map_eq_some_iff] at hd
  obtain ⟨d, hd, rfl⟩ := hd
  split
  · next hi =>
    subst hi
    have he : s.entity? i = some d.entity := by
      rw [entity?, hd]
      rfl
    have hpath : (f d.entity).path? = d.entity.path? := by
      rw [Entity.path?_eq_map, hplan, Entity.path?_eq_map]
    exact .inr (((hs.seated i d hd).mono hd hkeeps).refit hpath
      fun members hmembers member hmember =>
        (hlisted d.entity he members hmembers member hmember).of_continues hkeeps.continues)
  · exact .inl hd

theorem Ordered.setMembers (id : DeclId) {members : Members}
    (h : ∀ member ∈ members.order, s.Within id member) :
    (s.modifyEntity id (Entity.setMembers members)).Ordered := by
  refine hs.modifyEntity id (fun e => (Entity.Alters.setMembers 0 members e).describe)
    (Entity.plan?_setMembers members) fun e _ after hafter => ?_
  cases Entity.members?_setMembers hafter
  exact h

theorem Ordered.relist (parent : DeclId)
    {relisted : Option (Option DeclId × Members)}
    (h : ∀ r ∈ relisted, ∀ member ∈ r.2.order, s.Within parent member) (place : Position)
    (name : String) : (s.relist parent relisted place name).Ordered := by
  rcases relisted with _ | ⟨_ | old, members⟩
  · exact hs
  · exact hs.setMembers parent (h _ rfl)
  · exact (hs.setMembers parent (h _ rfl)).of_decls rfl

theorem Ordered.addImport (id : DeclId) (path : String) (symbol : Option String) :
    (s.modifyModule id (·.addImport path symbol)).Ordered := by
  refine hs.modifyEntity id (fun e => ?_) (fun e => ?_) fun e he members hmembers => ?_
  · cases e <;> rfl
  · cases e <;> rfl
  · refine hs.listed ?_
    rw [members?, he]
    cases e <;> exact hmembers

theorem Ordered.revise (id : DeclId) {f : Entity → Entity}
    (hf : ∀ e : Entity, e.Revises s.decls.size (f e)) : (s.modifyEntity id f).Ordered := by
  refine hs.modifyEntity id (fun e => (hf e).describe) (fun e => Entity.plan?_of_frame? (hf e).frame?)
    fun e he members hmembers => ?_
  rcases (hf e).members? with hsame | hempty
  · refine hs.listed ?_
    rw [members?, he]
    exact hsame.symm.trans hmembers
  · cases hempty.symm.trans hmembers
    simp [Members.empty]

end

/-! ## New declarations -/

variable {parent : DeclId} {entity : Entity}

theorem parent?_alloc (hparent : parent < s.decls.size) {name : Option String} {place : Position}
    (i : DeclId) :
    (s.alloc parent name place entity).2.parent? i =
      if i = s.decls.size then some parent else s.parent? i := by
  rw [parent?, getElem?_alloc, if_pos hparent]
  split <;> rfl

theorem Ordered.push (hs : s.Ordered) (hparent : parent < s.decls.size) (name : Option String)
    (place : Position) (hbare : entity.Bare) : (s.alloc parent name place entity).2.Ordered := by
  have hpath : entity.path? = none := by
    cases entity with
    | namespaceOf m => cases hbare.fresh.1
    | _ => rfl
  have hnew {i : DeclId} (hi : (s.plan? i).isSome) : i ≠ s.decls.size :=
    Nat.ne_of_lt (lt_of_plan? (Option.eq_some_of_isSome hi))
  have hcontinues := continues_alloc (s := s) parent name place entity
  have hkeeps : s.Keeps (s.alloc parent name place entity).2 := by
    refine keeps_of_plans hcontinues (fun i => ?_) fun i hi => ?_
    · rw [plan?_eq, frame?_alloc, plan?_eq]
      split
      · next hi =>
        subst hi
        rw [hbare.fresh.1, frame?, entity?, Array.getElem?_size]
        rfl
      · rfl
    · rw [name?_alloc, if_neg (hnew hi)]
  refine hs.step hkeeps fun i d hd => ?_
  rw [getElem?_alloc, if_pos hparent] at hd
  split at hd
  · next hi =>
    subst hi
    cases hd
    refine .inr ⟨?_, fun p hp _ => ?_, fun h => ?_, fun path _ h => ?_, fun members h => ?_⟩
    · simp [Nat.ne_of_gt (Nat.zero_lt_of_lt hparent), root]
    · cases hp
      rw [owningModule_of_continues hcontinues parent hparent]
      cases entity with
      | namespaceOf m => cases hpath
      | _ => rfl
    · rw [hpath] at h
      cases h
    · rw [hpath] at h
      cases h
    · rw [hbare.fresh.2 members h]
      simp [Members.empty]
  · exact .inl hd

theorem members?_modifyModule (id : DeclId) {f : Module → Module}
    (hf : ∀ m, (f m).members = m.members) (i : DeclId) :
    (s.modifyModule id f).members? i = s.members? i := by
  rw [members?, modifyModule, entity?_modifyEntity, members?]
  split
  · rw [Option.bind_map]
    congr 1
    funext e
    cases e with
    | namespaceOf m => exact congrArg some (hf m)
    | _ => rfl
  · rfl

section Enclose

variable {parent : DeclId} {name : String}
  (hnew : (s.module? parent).bind (·.submodules.get? name) = none)

include hnew

theorem exists_addModule (place : Position) : ∃ path,
    path = (if parent = root then name else s.modulePath parent ++ "." ++ name) ∧
    (s.addModule parent name place).2 =
      (s.alloc parent (some name) place (.namespaceOf (.empty path))).2.modifyModule parent fun m =>
        { m with submodules := (m.submodules.insert (some name) s.decls.size).2 } := by
  refine ⟨_, rfl, ?_⟩
  unfold addModule
  rw [hnew]
  rfl

theorem parent?_addModule (place : Position) (hparent : parent < s.decls.size) (i : DeclId) :
    (s.addModule parent name place).2.parent? i =
      if i = s.decls.size then some parent else s.parent? i := by
  obtain ⟨path, -, hadd⟩ := exists_addModule hnew place
  rw [hadd]
  exact (parent?_modifyEntity ..).trans (parent?_alloc hparent i)

theorem name?_addModule (place : Position) (i : DeclId) :
    (s.addModule parent name place).2.name? i =
    if i = s.decls.size then some name else s.name? i := by
  obtain ⟨path, -, hadd⟩ := exists_addModule hnew place
  rw [hadd]
  exact (name?_modifyEntity ..).trans (name?_alloc ..)

theorem members?_addModule (place : Position) (i : DeclId) :
    (s.addModule parent name place).2.members? i =
    if i = s.decls.size then some .empty else s.members? i := by
  obtain ⟨path, -, hadd⟩ := exists_addModule hnew place
  rw [hadd, members?_modifyModule parent, members?, entity?_alloc]
  · split <;> rfl
  · exact fun _ => rfl

end Enclose

theorem Ordered.enclose (hs : s.Ordered) {name : String} (hmodule : (s.module? parent).isSome)
    (hnew : (s.module? parent).bind (·.submodules.get? name) = none) (place : Position) :
    (s.addModule parent name place).2.Ordered := by
  have hcontinues : s.Continues (s.addModule parent name place).2 :=
    (Edit.enclose (P := fun _ => True) (N := fun _ => True) parent name place trivial
      hnew).continues
  obtain ⟨plan, hplan⟩ : ∃ plan, s.plan? parent = some plan := by
    obtain ⟨m, hm⟩ := Option.isSome_iff_exists.1 hmodule
    exact ⟨_, by rw [plan?, hm]; rfl⟩
  have hparent := lt_of_plan? hplan
  have hfree : plan.2.get? name = none := get?_of_plan? hplan hnew
  have hinside : (s.addModule parent name place).2.plan? parent =
      some (plan.1, ⟨plan.2.order ++ [s.decls.size], (name, s.decls.size) :: plan.2.names⟩) := by
    rw [plan?_enclose hnew, if_neg (Nat.ne_of_lt hparent), hplan, Option.map_some, if_pos rfl,
      Members.insert_new hfree]
  have hkeeps : s.Keeps (s.addModule parent name place).2 := by
    refine ⟨hcontinues, fun i path inside h => ?_, fun i hi => ?_⟩
    · by_cases hi : i = parent
      · subst hi
        cases hplan.symm.trans h
        refine ⟨_, hinside, fun key id hget => ?_⟩
        have hne : key ≠ name := by
          rintro rfl
          rw [hfree] at hget
          cases hget
        rw [Members.get?, List.lookup_cons, beq_eq_false_iff_ne.2 hne]
        exact hget
      · refine ⟨inside, ?_, fun _ _ h => h⟩
        rw [plan?_enclose hnew, if_neg (Nat.ne_of_lt (lt_of_plan? h)), h, Option.map_some, if_neg hi]
    · rw [name?_addModule hnew place,
        if_neg (Nat.ne_of_lt (lt_of_plan? (Option.eq_some_of_isSome hi)))]
  have hpath : s.modulePath parent = plan.1 := by
    rw [modulePath, hs.itself (by rw [hplan]; rfl)]
    rw [plan?, Option.map_eq_some_iff] at hplan
    obtain ⟨m, hm, rfl⟩ := hplan
    rw [hm]
    rfl
  refine hs.step hkeeps fun i d hd => ?_
  obtain ⟨path, hnamed, hadd⟩ := exists_addModule hnew place
  rw [hadd, modifyModule, getElem?_modifyEntity, getElem?_alloc, if_pos hparent] at hd
  by_cases hi : i = s.decls.size
  · subst hi
    rw [if_pos rfl, Option.map_some, if_neg (Nat.ne_of_gt hparent)] at hd
    cases hd
    refine .inr ⟨?_, fun _ _ h => ?_, fun _ => rfl, fun _ p hp hp' => ?_, fun members h => ?_⟩
    · simp [Nat.ne_of_gt (Nat.zero_lt_of_lt hparent), root]
    · cases h
    · cases hp
      cases hp'
      refine ⟨plan.1, _, name, hinside, ?_, List.lookup_cons_self, hpath ▸ hnamed⟩
      rw [name?_addModule hnew place, if_pos rfl]
    · cases h
      simp [Module.empty, Members.empty]
  · rw [if_neg hi, Option.map_eq_some_iff] at hd
    obtain ⟨d, hd, rfl⟩ := hd
    split
    · have hseated := (hs.seated i d hd).mono hd hkeeps
      refine .inr (hseated.refit ?_ fun members h => hseated.listed members ?_)
      · cases d.entity <;> rfl
      · cases he : d.entity <;> rw [he] at h <;> exact h
    · exact .inl hd

theorem Ordered.enter (hs : s.Ordered) (hparent : parent < s.decls.size) (name : Option String)
    (place : Position) (hbare : entity.Bare) : (s.enter parent name entity place).Ordered := by
  have hpushed := hs.push hparent name place hbare
  refine hpushed.relist parent (fun r hr member hmember => ?_) place _
  obtain ⟨members, hmembers, rfl⟩ := Option.map_eq_some_iff.1 hr
  rcases Members.mem_insert hmember with rfl | hmember
  · have hnew : (s.alloc parent name place entity).2.parent? s.decls.size = some parent := by
      rw [parent?_alloc hparent, if_pos rfl]
    have hplan : (s.alloc parent name place entity).2.plan? s.decls.size = none := by
      rw [plan?_eq, frame?_alloc, if_pos rfl, hbare.fresh.1]
      rfl
    exact ⟨hparent, by rw [size_alloc]; exact Nat.lt_succ_self _, hplan,
      hpushed.owner hnew hplan⟩
  · exact hpushed.listed hmembers member hmember

theorem Extend.ordered (h : Extend True Entity.Bare N s t) (hs : s.Ordered) : t.Ordered := by
  cases h with
  | note hdecls => exact hs.of_decls hdecls
  | revise id f hf => exact hs.revise id hf
  | push parent name place entity hparent hbare => exact hs.push (hparent trivial) name place hbare
  | enter parent name entity place hparent hbare => exact hs.enter (hparent trivial) name place hbare
  | enclose parent name place _ hparent hnew => exact hs.enclose (hparent trivial) hnew place
  | importEnum id _ _ => exact hs.addImport ..

theorem Extends.ordered (h : Extends True Entity.Bare N s t) (hs : s.Ordered) : t.Ordered := by
  induction h with
  | refl => exact hs
  | tail _ hlast ih => exact hlast.ordered ih

/-! ## Declarations without a name -/

section

variable (hs : s.Ordered)

include hs

theorem Ordered.rename (hid : s.plan? id = none) (name : String) : (s.rename id name).Ordered := by
  have hcontinues : s.Continues (s.rename id name) :=
    continues_of_modify id (fun d => { d with name := some name }) rfl fun _ _ => ⟨rfl, rfl, rfl⟩
  have hkeeps : s.Keeps (s.rename id name) := by
    refine keeps_of_plans hcontinues (fun i => plan?_of_entity? (entity?_rename ..)) fun i hi => ?_
    rw [name?_rename, if_neg]
    rintro rfl
    rw [hid] at hi
    cases hi
  refine hs.step hkeeps fun i d hd => ?_
  rw [getElem?_rename, Option.map_eq_some_iff] at hd
  obtain ⟨d, hd, rfl⟩ := hd
  obtain ⟨around, owner, itself, enclosed, listed⟩ := (hs.seated i d hd).mono hd hkeeps
  split
  · exact .inr ⟨around, owner, itself, enclosed, listed⟩
  · exact .inl hd

theorem Ordered.nameAnonymous (hid : s.plan? id = none) (name : String) :
    (s.nameAnonymous id name).Ordered := by
  rw [nameAnonymous_eq]
  have hrenamed := hs.rename hid name
  dsimp only
  generalize s.rename id name = t at hrenamed
  split
  · exact hrenamed
  · next parent hparent =>
    have hlisted : (t.relist parent ((t.members? parent).map (·.nameEntry name id)) (t.place id)
        name).Ordered := by
      refine hrenamed.relist parent (fun r hr member hmember => ?_) _ _
      obtain ⟨members, hmembers, rfl⟩ := Option.map_eq_some_iff.1 hr
      exact hrenamed.listed hmembers member (Members.mem_nameEntry hmember)
    split
    · exact hlisted.addImport ..
    · exact hlisted

theorem Ordered.setParent {owner member : DeclId} (h : s.Within owner member) :
    (s.setParent member owner h.1).Ordered := by
  have hget := getElem?_setParent (s := s) h.1
  have hcontinues : s.Continues (s.setParent member owner h.1) :=
    (Edit.move (P := fun _ => True) (N := fun _ => True) member owner h.1).continues
  have hroot := (h.of_continues hcontinues).2.2.2
  have hkeeps : s.Keeps (s.setParent member owner h.1) :=
    keeps_of_plans hcontinues (fun i => plan?_of_entity? (entity?_setParent ..)) fun i _ =>
      name?_setParent ..
  refine hs.step hkeeps fun i d hd => ?_
  rw [hget, Option.map_eq_some_iff] at hd
  obtain ⟨d, hd, rfl⟩ := hd
  split
  · next hi =>
    subst hi
    obtain ⟨-, -, itself, -, listed⟩ := (hs.seated i d hd).mono hd hkeeps
    have hnone := h.2.2.1
    rw [plan?_bind, hd, Option.bind_some] at hnone
    refine .inr ⟨?_, fun p hp _ => ?_, itself, fun path p hpath _ => ?_, listed⟩
    · simp [Nat.ne_of_gt (Nat.zero_lt_of_lt h.1), root]
    · cases hp
      rw [← hroot, owningModule, hget, hd]
      simp
    · rw [Entity.path?_eq_map, hnone] at hpath
      cases hpath
  · exact .inl hd

theorem Ordered.adopt {owner member : DeclId} (h : s.Within owner member) :
    (s.adopt owner member h.1).Ordered := by
  have hmoved := hs.setParent h
  have hmove : Edit (fun _ => False) (fun _ => False) s _ := .move member owner h.1
  have hin := h.of_continues hmove.continues
  unfold Store.adopt
  dsimp only
  split
  · exact hmoved
  · next members hmembers =>
    refine hmoved.setMembers owner fun i hi => ?_
    rcases Members.mem_insert hi with rfl | hi
    · exact hin
    · exact hmoved.listed hmembers i hi

/-- What a class lists can be moved to the declaration around the class. -/
theorem Ordered.within_classMembers {owner : DeclId}
    (howner : s.parent? id = some owner) : ∀ member ∈ s.classMembers id, s.Within owner member := by
  intro member hmember
  rw [classMembers] at hmember
  cases hclass : s.class? id with
  | none =>
    rw [hclass] at hmember
    cases hmember
  | some c =>
    rw [hclass] at hmember
    have hentity := entity?_of_class? hclass
    have hplan : s.plan? id = none := by
      rw [plan?, module?, hentity]
      rfl
    obtain ⟨hlt, hsize, hnone, hroot⟩ := hs.listed (by rw [members?, hentity]; rfl) member hmember
    exact ⟨Nat.lt_trans (s.nested id owner howner) hlt, hsize, hnone,
      hroot.trans (hs.owner howner hplan)⟩

theorem Ordered.dissolve (id : DeclId) : (s.dissolve id).Ordered := by
  refine dissolve_induction
    (I := fun owner rest t => t.Ordered ∧ ∀ member ∈ rest, t.Within owner member) ?_
    (fun _ _ h => h.1) hs (fun _ howner => ⟨hs, hs.within_classMembers howner⟩)
    fun owner members howner hmembers => ⟨hs.setMembers owner fun i hi => ?_, fun i hi => ?_⟩
  · rintro owner member rest t hlt ⟨ht, h⟩
    obtain ⟨hmember, hrest⟩ := List.forall_mem_cons.1 h
    have hadopt : Edits (fun _ => False) (fun _ => False) t _ := edits_adopt hlt
    exact ⟨ht.adopt hmember, fun i hi => (hrest i hi).of_continues hadopt.continues⟩
  · exact hs.listed hmembers i (List.mem_of_mem_filter hi)
  · have hunlist : Edit (fun _ => False) (fun _ => False) s _ :=
      edit_setMembers owner (members.unlist id)
    exact (hs.within_classMembers howner i hi).of_continues hunlist.continues

end

theorem isModule_eq_isSome (id : DeclId) : s.isModule id = (s.plan? id).isSome := by
  rw [isModule, plan?, Option.isSome_map]

theorem Operation.ordered (h : Operation Entity.Bare (fun s id => ¬s.isModule id) D s t)
    (hlinked : s.Linked) (hs : s.Ordered) : t.Ordered := by
  rcases h.cases (fun _ he => he) fun _ : True => hlinked with ⟨id, hid, name, rfl⟩ | ⟨id, -, rfl⟩ | hextends |
    ⟨id, path, symbol, rfl⟩
  · rw [isModule_eq_isSome, Option.not_isSome_iff_eq_none] at hid
    exact hs.nameAnonymous hid name
  · exact hs.dissolve id
  · exact hextends.ordered hs
  · exact hs.addImport id path symbol

theorem eq_of_getElem?_empty {rootName : String} {d : Declaration}
    (h : (empty rootName).decls[id]? = some d) : id = root ∧
      d = ⟨some rootName, none, root, ⟨rootName, 0, none⟩, .namespaceOf (.empty rootName)⟩ := by
  obtain rfl : id = root := Nat.lt_one_iff.1 (Array.getElem?_eq_some_iff.1 h).1
  exact ⟨rfl, (Option.some.inj h).symm⟩

theorem members?_empty {rootName : String} {members : Members}
    (h : (empty rootName).members? id = some members) : members = .empty := by
  rw [members?_bind, Option.bind_eq_some_iff] at h
  obtain ⟨d, hd, h⟩ := h
  obtain ⟨-, rfl⟩ := eq_of_getElem?_empty hd
  exact (Option.some.inj h).symm

theorem ordered_empty (rootName : String) : (empty rootName).Ordered := by
  refine ⟨rfl, fun id d hd => ?_⟩
  obtain ⟨rfl, rfl⟩ := eq_of_getElem?_empty hd
  refine ⟨by simp, ?_, fun _ => rfl, ?_, ?_⟩
  · rintro _ ⟨⟩
  · rintro _ _ _ ⟨⟩
  · rintro _ ⟨⟩ _ ⟨⟩

theorem linked_empty (rootName : String) : (empty rootName).Linked := by
  intro id e he routine hroutine
  obtain ⟨d, hd, rfl⟩ := Option.map_eq_some_iff.1 he
  obtain ⟨-, rfl⟩ := eq_of_getElem?_empty hd
  cases hroutine

/-! ## The hierarchy -/

/-- Parents, modules, paths and the ways outwards fit together. -/
structure Hierarchy (s : Store) : Prop where
  /-- Every declaration but the root is in one with a smaller number. -/
  parent : ∀ id < s.decls.size, id ≠ root → ∃ parent < id, s.parent? id = some parent
  /-- The way outwards goes from parent to parent and ends at the root. -/
  outwards : ∀ id < s.decls.size,
    s.ancestors id = id :: ((s.parent? id).map s.ancestors).getD [] ∧
      (s.ancestors id).getLast? = some root
  /-- A declaration is held by the first module on this way, a module by itself. -/
  owner : ∀ id < s.decls.size, (s.ancestors id).find? s.isModule = some (s.owningModule id)
  /-- The namespaces inside a module have different names. -/
  submodules : ∀ a b parent, s.isModule a → s.isModule b → s.parent? a = some parent →
    s.parent? b = some parent → s.name? a = s.name? b → a = b
  /-- The path of a namespace is made of the names from below the root down to it. -/
  path : ∀ id m, id ≠ root → s.module? id = some m → ∃ names,
    (s.ancestors id).dropLast.reverse.map s.name? = names.map some ∧
      m.path = ".".intercalate names
  /-- A module has no way down from a module, and is in no class. -/
  ofModule : ∀ id, s.isModule id → s.pathBelowModule id = [] ∧ s.enclosingClass? id = none
  /-- Any other declaration is the last on the way down from its module, which goes on from that
  of its parent, and is in the class that its parent is in unless it is one itself. -/
  ofInner : ∀ id < s.decls.size, ¬s.isModule id → ∃ parent, s.parent? id = some parent ∧
    s.pathBelowModule id = s.pathBelowModule parent ++ [id] ∧
    s.enclosingClass? id =
      if (s.class? id).isSome then some id else s.enclosingClass? parent
  /-- The way down starts directly below the module that holds the declaration. -/
  below : ∀ id < s.decls.size, ∀ first, (s.pathBelowModule id).head? = some first →
    s.parent? first = some (s.owningModule id)
  /-- What a class lists may be moved out of it: a dissolution is never refused. -/
  movable : ∀ id owner, s.parent? id = some owner → ∀ member ∈ s.classMembers id, owner < member

theorem belowModule_of_isModule (h : s.isModule id) : s.belowModule id = [] := by
  rw [belowModule, ancestors_eq, List.takeWhile_cons, h]
  rfl

theorem belowModule_of_parent {id parent : DeclId} (hid : ¬s.isModule id)
    (hparent : s.parent? id = some parent) : s.belowModule id = id :: s.belowModule parent := by
  rw [belowModule, ancestors_eq, List.takeWhile_cons, hparent, eq_false_of_ne_true hid]
  rfl

namespace Ordered

section

variable (hs : s.Ordered)

include hs

theorem exists_parent (hid : id < s.decls.size) (hinner : ¬s.isModule id) :
    ∃ parent, s.parent? id = some parent ∧ parent < id ∧
      parent < s.decls.size ∧ s.owningModule id = s.owningModule parent := by
  have hne : id ≠ root := by
    rintro rfl
    rw [isModule_eq_isSome] at hinner
    exact hinner hs.top
  obtain ⟨parent, hparent⟩ := hs.around hid hne
  have hlt := s.nested id parent hparent
  rw [isModule_eq_isSome, Option.not_isSome_iff_eq_none] at hinner
  exact ⟨parent, hparent, hlt, Nat.lt_trans hlt hid, hs.owner hparent hinner⟩

theorem getLast?_ancestors (hid : id < s.decls.size) : (s.ancestors id).getLast? = some root := by
  induction id using Nat.strong_induction_on with
  | _ id ih =>
    rw [ancestors_eq]
    by_cases hroot : id = root
    · rw [hroot, hs.parent?_root]
      rfl
    · obtain ⟨parent, hparent⟩ := hs.around hid hroot
      have hlt := s.nested id parent hparent
      rw [hparent, Option.map_some, Option.getD_some, List.getLast?_cons,
        ih parent hlt (Nat.lt_trans hlt hid)]
      rfl

theorem find?_ancestors (hid : id < s.decls.size) :
    (s.ancestors id).find? s.isModule = some (s.owningModule id) := by
  induction id using Nat.strong_induction_on with
  | _ id ih =>
    rw [ancestors_eq, List.find?_cons]
    by_cases hmodule : s.isModule id
    · rw [hmodule, hs.itself (isModule_eq_isSome id ▸ hmodule)]
    · obtain ⟨parent, hparent, hlt, hsize, howner⟩ := hs.exists_parent hid hmodule
      rw [eq_false_of_ne_true hmodule, hparent, howner]
      exact ih parent hlt hsize

/-- The names from below the root down to a module make its path. -/
theorem path_eq {rootPath : String} {top : Members}
    (htop : s.plan? root = some (rootPath, top)) {path : String} {inside : Members}
    (h : s.plan? id = some (path, inside)) : ∃ names,
      (s.ancestors id).dropLast.reverse.map s.name? = names.map some ∧ (names = [] ↔ id = root) ∧
        path = pathAt rootPath names := by
  induction id using Nat.strong_induction_on generalizing path inside with
  | _ id ih =>
    rw [ancestors_eq]
    by_cases hroot : id = root
    · subst hroot
      cases htop.symm.trans h
      rw [hs.parent?_root]
      exact ⟨[], rfl, by simp, rfl⟩
    · obtain ⟨parent, hparent⟩ := hs.around (lt_of_plan? h) hroot
      obtain ⟨outer, table, name, houter, hname, -, rfl⟩ := hs.enclosed h hparent
      obtain ⟨names, hnames, hnil, rfl⟩ := ih parent (s.nested id parent hparent) houter
      have hne : s.ancestors parent ≠ [] := by
        rw [ancestors_eq]
        exact List.cons_ne_nil _ _
      refine ⟨names ++ [name], ?_, by simp [hroot], ?_⟩
      · rw [hparent, Option.map_some, Option.getD_some, List.dropLast_cons_of_ne_nil hne,
          List.reverse_cons, List.map_append, hnames, List.map_append, List.map_singleton, hname]
        rfl
      · rw [pathAt_append]
        exact if_congr hnil.symm rfl rfl

theorem parent?_head {id first : DeclId} (hid : id < s.decls.size)
    (h : (s.pathBelowModule id).head? = some first) :
    s.parent? first = some (s.owningModule id) := by
  induction id using Nat.strong_induction_on with
  | _ id ih =>
    rw [pathBelowModule] at h
    by_cases hmodule : s.isModule id
    · rw [belowModule_of_isModule hmodule] at h
      cases h
    · obtain ⟨parent, hparent, hlt, hsize, howner⟩ := hs.exists_parent hid hmodule
      rw [belowModule_of_parent hmodule hparent, List.reverse_cons] at h
      rw [howner]
      by_cases houter : s.isModule parent
      · rw [belowModule_of_isModule houter] at h
        cases h
        rw [hs.itself (isModule_eq_isSome parent ▸ houter), hparent]
      · obtain ⟨outer, hparent', -⟩ := hs.exists_parent hsize houter
        refine ih parent hlt hsize ?_
        rw [belowModule_of_parent houter hparent', List.reverse_cons] at h
        rw [pathBelowModule, belowModule_of_parent houter hparent', List.reverse_cons]
        cases hrest : (s.belowModule outer).reverse with
        | nil =>
          rw [hrest] at h
          exact h
        | cons top rest =>
          rw [hrest] at h
          exact h

theorem hierarchy : s.Hierarchy where
  parent id hid hne := by
    obtain ⟨parent, hparent⟩ := hs.around hid hne
    exact ⟨parent, s.nested id parent hparent, hparent⟩
  outwards id hid := ⟨s.ancestors_eq id, hs.getLast?_ancestors hid⟩
  owner id hid := hs.find?_ancestors hid
  submodules a b parent ha hb hpa hpb hname := by
    obtain ⟨⟨_, _⟩, hplan⟩ := Option.isSome_iff_exists.1 (isModule_eq_isSome a ▸ ha)
    obtain ⟨⟨_, _⟩, hplan'⟩ := Option.isSome_iff_exists.1 (isModule_eq_isSome b ▸ hb)
    obtain ⟨_, _, name, houter, hnamed, hget, -⟩ := hs.enclosed hplan hpa
    obtain ⟨_, _, name', houter', hnamed', hget', -⟩ := hs.enclosed hplan' hpb
    cases houter.symm.trans houter'
    cases hnamed.symm.trans (hname.trans hnamed')
    exact Option.some.inj (hget.symm.trans hget')
  path id m hne hm := by
    obtain ⟨⟨_, _⟩, htop⟩ := Option.isSome_iff_exists.1 hs.top
    have hplan : s.plan? id = some (m.path, m.submodules) := by
      rw [plan?, hm]
      rfl
    obtain ⟨names, hnames, hnil, hpath⟩ := hs.path_eq htop hplan
    refine ⟨names, hnames, hpath.trans ?_⟩
    cases names with
    | nil => exact absurd (hnil.1 rfl) hne
    | cons first rest => rfl
  ofModule id hid := by
    rw [pathBelowModule, enclosingClass?, belowModule_of_isModule hid]
    exact ⟨rfl, rfl⟩
  ofInner id hid hinner := by
    obtain ⟨parent, hparent, -⟩ := hs.exists_parent hid hinner
    refine ⟨parent, hparent, ?_, ?_⟩
    · rw [pathBelowModule, belowModule_of_parent hinner hparent, List.reverse_cons]
      rfl
    · rw [enclosingClass?, belowModule_of_parent hinner hparent, List.find?_cons]
      cases (s.class? id).isSome <;> rfl
  below id hid _ h := hs.parent?_head hid h
  movable _ _ howner member hmember := (hs.within_classMembers howner member hmember).1

end

end Ordered

/-! ## Runs of operations -/

theorem operation_add (parent : DeclId) (name : Option String) (place : Position)
    (hparent : parent < s.decls.size) (h : P entity) :
    Operation P A D s (s.add parent name entity place).2 := by
  refine .build (.add parent name entity place) ⟨?_, by simp [Build.outer?], ?_,
    by simp [Build.named?], by simp [Build.dissolved?]⟩ rfl
  · rintro _ ⟨⟩
    exact hparent
  · rintro _ ⟨⟩
    exact h

theorem operation_dissolve (id : DeclId) (h : D s id) : Operation P A D s (s.dissolve id) := by
  refine .build (.dissolve id) ⟨by simp [Build.parent?], by simp [Build.outer?],
    by simp [Build.made?], by simp [Build.named?], ?_⟩ rfl
  rintro _ ⟨⟩
  exact h

/-- An attribute `x` in a class without a name. -/
def heldInClass : Store :=
  let s := ((empty "main").add root none (.classType (.empty .classKey)) default).2
  (s.add 1 (some "x") (.attribute ⟨none, false⟩) default).2

theorem operations_heldInClass (hP : ∀ e : Entity, e.Bare → P e) :
    ReflTransGen (Operation P A D) (empty "main") heldInClass := by
  refine .tail (.single (operation_add root none default (by decide) (hP _ ⟨⟨rfl, ?_⟩, rfl⟩)))
    (operation_add 1 (some "x") default (by decide) (hP _ ⟨⟨rfl, by simp [Entity.members?]⟩, rfl⟩))
  rintro _ ⟨⟩
  rfl

/-- **The declarations of a program are a hierarchy**, whatever sequence of operations built it, if
what is added to a declaration is no module and holds nothing yet (`Entity.Bare`), and no module is
given another name. Under declarations that are there, with namespaces under modules, declarations
may be made, completed, named and dissolved in any order. -/
theorem hierarchy_of_operations {rootName : String}
    (h : ReflTransGen (Operation Entity.Bare (fun s id => ¬s.isModule id) fun _ _ => True)
      (empty rootName) s) : s.Hierarchy := by
  have hordered : s.Linked ∧ s.Ordered := by
    induction h with
    | refl => exact ⟨linked_empty rootName, ordered_empty rootName⟩
    | tail _ hlast ih =>
      obtain ⟨hlinked, hordered⟩ := ih
      exact ⟨hlast.linked (fun _ he => he) (fun _ he => he.routines) hlinked,
        hlast.ordered hlinked hordered⟩
  exact hordered.2.hierarchy

theorem hierarchy_of_operations_dissolved :
    (heldInClass.dissolve 1).Hierarchy ∧ (heldInClass.dissolve 1).parent? 2 = some root :=
  ⟨hierarchy_of_operations ((operations_heldInClass fun _ he => he).tail
    (operation_dissolve 1 trivial)), by decide⟩

/-- In a hierarchy, a module below the root has its name as its path. -/
theorem Hierarchy.path_eq_name (h : s.Hierarchy) {m : Module} (hm : s.module? 1 = some m)
    (hparent : s.parent? 1 = some root) (htop : s.parent? root = none) :
    s.name? 1 = some m.path := by
  obtain ⟨names, hnames, hpath⟩ := h.path 1 m (by decide) hm
  rw [ancestors_eq, hparent, Option.map_some, ancestors_eq, htop] at hnames
  obtain ⟨name, rfl⟩ : ∃ name, names = [name] := List.length_eq_one_iff.1 (by
    simpa using (congrArg List.length hnames).symm)
  rw [hpath]
  exact (List.cons.inj hnames).1

/-- A namespace that is given another name keeps its path, and a module may be added with any
path. -/
theorem nameAnonymous_breaks_hierarchy :
    (∃ s, ReflTransGen (Operation Entity.Bare (fun _ _ => True) fun _ _ => True) (empty "main") s ∧
      s.name? 1 = some "M" ∧ s.modulePath 1 = "N" ∧ ¬s.Hierarchy) ∧
    ∃ s, ReflTransGen (Operation Entity.Empty (fun _ _ => False) fun _ _ => False) (empty "main") s ∧
      s.name? 1 = some "M" ∧ s.modulePath 1 = "X.Y" ∧ ¬s.Hierarchy := by
  constructor
  · let s := ((empty "main").addModule root "N" default).2.nameAnonymous 1 "M"
    refine ⟨s, ?_, by decide, by decide, fun h => ?_⟩
    · refine .tail (.single (.build (.addModule root "N" default) ⟨?_, ?_, ?_, ?_, ?_⟩ rfl))
        (.build (.nameAnonymous 1 "M") ⟨?_, ?_, ?_, ?_, ?_⟩ rfl)
      all_goals simp [Build.parent?, Build.outer?, Build.made?, Build.named?, Build.dissolved?]
      decide
    · obtain ⟨m, hm⟩ := Option.isSome_iff_exists.1 (show (s.module? 1).isSome by decide)
      have hpath : (s.module? 1).map Module.path = some "N" := by decide
      rw [hm] at hpath
      have hname := h.path_eq_name hm (by decide) (by decide)
      rw [Option.some.inj hpath] at hname
      exact absurd hname (by decide)
  · let s := ((empty "main").add root (some "M") (.namespaceOf (.empty "X.Y")) default).2
    refine ⟨s, .single (operation_add root _ _ (by decide) ⟨?_, ?_, rfl⟩), by decide, by decide,
      fun h => ?_⟩
    · rintro _ ⟨⟩
      rfl
    · rintro _ ⟨⟩
      rfl
    · exact absurd (h.path_eq_name (m := .empty "X.Y") rfl (by decide) (by decide)) (by decide)

end Store

end Serpentine
