import Mathlib.Logic.Relation
import Serpentine.Proofs.Program.Views

/-!
# Changes of a program in small steps

Every change of a program is a sequence of a few sorts of edits (**`Build.cases`**,
**`Build.edits`**). What holds of each edit holds of all changes, and of whatever a parse does to
the program. Changes that have nothing to do with declarations without a name are made of fewer
sorts, which say more of the tables. The number of declarations never falls (**`Build.size_le`**).
-/

namespace Serpentine

/-- What a module is apart from its members: its path, the namespaces inside it and its imports. -/
def Entity.frame? : Entity → Option (String × Members × Imports)
  | .namespaceOf m => some (m.path, m.submodules, m.imports)
  | _ => none

/-- An entity as it is made: no module, and without members. -/
def Entity.Fresh (e : Entity) : Prop :=
  e.frame? = none ∧ ∀ members, e.members? = some members → members = .empty

/-- The constructors and the destructor of a class. -/
def Entity.routines : Entity → List DeclId
  | .classType c => c.constructors.map (·.2) ++ c.destructor.toList
  | _ => []

/-- An entity that holds no declarations: its tables are empty. -/
structure Entity.Empty (e : Entity) : Prop where
  members : ∀ members, e.members? = some members → members = .empty
  submodules : ∀ frame, e.frame? = some frame → frame.2.1 = .empty
  routines : e.routines = []

/-- An entity that holds no declarations and is no module. -/
structure Entity.Bare (e : Entity) : Prop where
  fresh : e.Fresh
  routines : e.routines = []

theorem Entity.Bare.empty {e : Entity} (h : e.Bare) : e.Empty where
  members := h.fresh.2
  submodules _ hframe := by cases h.fresh.1.symm.trans hframe
  routines := h.routines

/-- The entity after an edit is of the same sort, nothing of a module but its members has changed,
and a constructor or destructor that a class gains has a number below a bound. -/
structure Entity.Alters (bound : Nat) (e e' : Entity) : Prop where
  describe : e'.describe = e.describe
  frame? : e'.frame? = e.frame?
  routines : ∀ id ∈ e'.routines, id ∈ e.routines ∨ id < bound

theorem Entity.Alters.setMembers (bound : Nat) (members : Members) (e : Entity) :
    e.Alters bound (e.setMembers members) := by
  cases e with
  | routine kind r => cases kind <;> exact ⟨rfl, rfl, fun _ => .inl⟩
  | _ => exact ⟨rfl, rfl, fun _ => .inl⟩

/-- What an entity holds is revised: its table is as it was or empty. -/
structure Entity.Revises (bound : Nat) (e e' : Entity) : Prop extends e.Alters bound e' where
  members? : e'.members? = e.members? ∨ e'.members? = some .empty

theorem Entity.Revises.refl (bound : Nat) (e : Entity) : e.Revises bound e :=
  ⟨⟨rfl, rfl, fun _ => .inl⟩, .inl rfl⟩

/-- The entity that a change makes under whatever sort its maker chose. -/
def Build.made? {α : Type} : Build α → Option Entity
  | .add _ _ entity _ => some entity
  | _ => none

/-- The name of the namespace that a change makes. -/
def Build.enclosed? {α : Type} : Build α → Option String
  | .addModule _ name _ => some name
  | _ => none

/-- The declaration under which a change makes one that is no namespace. -/
def Build.parent? {α : Type} : Build α → Option DeclId
  | .add parent .. => some parent
  | .addRoutine _ parent .. => some parent
  | .addConstructor cls .. => some cls
  | .addDestructor cls .. => some cls
  | .addLocal routine .. => some routine
  | _ => none

/-- The declaration under which a change makes a namespace. -/
def Build.outer? {α : Type} : Build α → Option DeclId
  | .addModule parent .. => some parent
  | _ => none

def Build.named? {α : Type} : Build α → Option DeclId
  | .nameAnonymous id _ => some id
  | _ => none

def Build.dissolved? {α : Type} : Build α → Option DeclId
  | .dissolve id => some id
  | _ => none

variable {L : Prop}

namespace Store

open Relation (ReflTransGen)

/-- The single edits of a program, given what is made and named. -/
inductive Edit (P : Entity → Prop) (N : String → Prop) (s : Store) : Store → Prop where
  | note {t : Store} (h : t.decls = s.decls) (hrefs : s.nextRef ≤ t.nextRef) : Edit P N s t
  /-- What a declaration holds is changed. -/
  | alter (id : DeclId) (f : Entity → Entity) (hf : ∀ e : Entity, e.Alters s.decls.size (f e)) :
      Edit P N s (s.modifyEntity id f)
  /-- A declaration is made that is in no table yet. -/
  | push (parent : DeclId) (name : Option String) (place : Position) (entity : Entity)
      (h : P entity) : Edit P N s (s.alloc parent name place entity).2
  | enclose (parent : DeclId) (name : String) (place : Position) (hname : N name)
      (h : (s.module? parent).bind (·.submodules.get? name) = none) :
      Edit P N s (s.addModule parent name place).2
  /-- The import for an enumeration with a name is asked for. -/
  | importEnum (id : DeclId) (hname : (s.name? id).isSome)
      (h : (s.entity? id).map Entity.describe = some "enumeration") : Edit P N s (s.importEnum id)
  | rename (id : DeclId) (name : String) :
      Edit P N s (s.rename id name)
  /-- A declaration is put into another one. -/
  | move (id parent : DeclId) (hlt : parent < id) : Edit P N s (s.setParent id parent hlt)

/-- The program after a sequence of edits. -/
abbrev Edits (P : Entity → Prop) (N : String → Prop) : Store → Store → Prop :=
  ReflTransGen (Edit P N)

variable {P : Entity → Prop} {N : String → Prop} {s t : Store}

theorem Edit.edits (h : Edit P N s t) : Edits P N s t :=
  .single h

theorem Edit.size_le (h : Edit P N s t) : s.decls.size ≤ t.decls.size := by
  cases h with
  | note hdecls => exact Nat.le_of_eq (congrArg Array.size hdecls.symm)
  | push =>
    rw [size_alloc]
    exact Nat.le_succ _
  | enclose parent name place _ hnew =>
    unfold addModule
    rw [hnew]
    dsimp only
    rw [size_modifyModule, size_alloc]
    exact Nat.le_succ _
  | alter | importEnum | rename | move => exact Nat.le_of_eq Array.size_modify.symm

theorem Edit.nextRef_le (h : Edit P N s t) : s.nextRef ≤ t.nextRef := by
  cases h with
  | note _ hrefs => exact hrefs
  | enclose parent name place _ hnew =>
    unfold addModule
    rw [hnew]
    exact Nat.le_refl _
  | _ => exact Nat.le_refl _

theorem Edits.nextRef_le (h : Edits P N s t) : s.nextRef ≤ t.nextRef := by
  induction h with
  | refl => exact Nat.le_refl _
  | tail _ hlast ih => exact Nat.le_trans ih hlast.nextRef_le

/-- The table of a declaration with something put in, and perhaps a warning about what it
replaces. -/
def relist (s : Store) (parent : DeclId) (relisted : Option (Option DeclId × Members))
    (place : Position) (name : String) : Store :=
  match relisted with
  | none => s
  | some (none, members) => s.modifyEntity parent (Entity.setMembers members)
  | some (some old, members) =>
    (s.modifyEntity parent (Entity.setMembers members)).noticeReplaced place name old

/-- Makes a declaration and puts it in the table of its parent. -/
def enter (s : Store) (parent : DeclId) (name : Option String) (entity : Entity)
    (place : Position) : Store :=
  let t := (s.alloc parent name place entity).2
  t.relist parent ((t.members? parent).map (·.insert name s.decls.size)) place (name.getD "")

/-- The edits of most changes, which put new declarations into tables. -/
inductive Extend (L : Prop) (P : Entity → Prop) (N : String → Prop) (s : Store) : Store → Prop where
  | note {t : Store} (h : t.decls = s.decls) (hrefs : s.nextRef ≤ t.nextRef) : Extend L P N s t
  /-- What a declaration holds is revised. -/
  | revise (id : DeclId) (f : Entity → Entity)
      (hf : ∀ e : Entity, e.Revises s.decls.size (f e)) : Extend L P N s (s.modifyEntity id f)
  /-- A declaration is made that is in no table. -/
  | push (parent : DeclId) (name : Option String) (place : Position) (entity : Entity)
      (hparent : L → parent < s.decls.size) (h : P entity) :
      Extend L P N s (s.alloc parent name place entity).2
  /-- A declaration is made and put in the table of its parent. -/
  | enter (parent : DeclId) (name : Option String) (entity : Entity) (place : Position)
      (hparent : L → parent < s.decls.size) (h : P entity) :
      Extend L P N s (s.enter parent name entity place)
  | enclose (parent : DeclId) (name : String) (place : Position) (hname : N name)
      (hparent : L → (s.module? parent).isSome)
      (h : (s.module? parent).bind (·.submodules.get? name) = none) :
      Extend L P N s (s.addModule parent name place).2
  /-- The import for an enumeration with a name is asked for. -/
  | importEnum (id : DeclId) (hname : (s.name? id).isSome)
      (h : (s.entity? id).map Entity.describe = some "enumeration") :
      Extend L P N s (s.importEnum id)

/-- The program after a sequence of edits that extend it. -/
abbrev Extends (L : Prop) (P : Entity → Prop) (N : String → Prop) : Store → Store → Prop :=
  ReflTransGen (Extend L P N)

/-- Constructors and destructors are declarations of the program. -/
def Linked (s : Store) : Prop :=
  ∀ id e, s.entity? id = some e → ∀ routine ∈ e.routines, routine < s.decls.size

theorem Linked.of_decls (hs : s.Linked) (h : t.decls = s.decls) : t.Linked := by
  intro id e he
  rw [h]
  exact hs id e (by rwa [entity?, ← h])

theorem Linked.modifyEntity (hs : s.Linked) (id : DeclId) {f : Entity → Entity}
    (hf : ∀ e : Entity, ∀ i ∈ (f e).routines, i ∈ e.routines ∨ i < s.decls.size) :
    (s.modifyEntity id f).Linked := by
  intro i e he routine hroutine
  rw [size_modifyEntity]
  rw [entity?_modifyEntity] at he
  split at he
  · obtain ⟨old, hold, rfl⟩ := Option.map_eq_some_iff.1 he
    exact (hf old routine hroutine).elim (hs i old hold routine) fun h => h
  · exact hs i e he routine hroutine

theorem Linked.modifyModule (hs : s.Linked) (id : DeclId) (f : Module → Module) :
    (s.modifyModule id f).Linked :=
  hs.modifyEntity id fun e i hi => .inl (by cases e <;> exact hi)

theorem Linked.alloc (hs : s.Linked) (parent : DeclId) (name : Option String) (place : Position)
    {entity : Entity} (h : entity.routines = []) : (s.alloc parent name place entity).2.Linked := by
  intro i e he routine hroutine
  rw [size_alloc]
  rw [entity?_alloc] at he
  split at he
  · cases he
    rw [h] at hroutine
    cases hroutine
  · exact Nat.lt_succ_of_lt (hs i e he routine hroutine)

theorem Edit.linked (h : Edit P N s t) (hP : ∀ e : Entity, P e → e.routines = []) (hs : s.Linked) :
    t.Linked := by
  cases h with
  | note hdecls => exact hs.of_decls hdecls
  | alter id f hf => exact hs.modifyEntity id fun e => (hf e).routines
  | push parent name place entity hentity => exact hs.alloc parent name place (hP entity hentity)
  | enclose parent name place _ hnew =>
    unfold addModule
    rw [hnew]
    exact (hs.alloc parent (some name) place rfl).modifyModule parent _
  | importEnum id => exact hs.modifyModule _ _
  | rename id name =>
    intro i e he
    rw [show (s.rename id name).decls.size = s.decls.size from Array.size_modify]
    exact hs i e (by rwa [entity?_rename] at he)
  | move id parent hlt =>
    intro i e he
    rw [show (s.setParent id parent hlt).decls.size = s.decls.size from Array.size_modify]
    exact hs i e (by rwa [entity?_setParent] at he)

theorem Edits.linked (h : Edits P N s t) (hP : ∀ e : Entity, P e → e.routines = [])
    (hs : s.Linked) : t.Linked := by
  induction h with
  | refl => exact hs
  | tail _ hlast ih => exact hlast.linked hP ih

/-! ## Changes of one declaration -/

theorem edit_setMembers (id : DeclId) (members : Members) :
    Edit P N s (s.modifyEntity id (Entity.setMembers members)) :=
  .alter id _ fun e => .setMembers _ members e

theorem extend_modifyClass (id : DeclId) {f : ClassType → ClassType}
    (hmembers : ∀ c, (f c).members = c.members)
    (hroutines : ∀ c, ∀ i ∈ (Entity.classType (f c)).routines,
      i ∈ (Entity.classType c).routines ∨ i < s.decls.size) :
    Extend L P N s (s.modifyClass id f) := by
  refine .revise id _ fun e => ?_
  cases e with
  | classType c => exact ⟨⟨rfl, rfl, hroutines c⟩, .inl (congrArg some (hmembers c))⟩
  | _ => exact .refl _ _

theorem extend_modifyRoutine (id : DeclId) {f : Routine → Routine}
    (hlocals : ∀ r, (f r).locals = r.locals ∨ (f r).locals = .empty) :
    Extend L P N s (s.modifyRoutine id f) := by
  refine .revise id _ fun e => ?_
  cases e with
  | routine kind r =>
    have hmembers := (hlocals r).imp (congrArg some) (congrArg some)
    cases kind <;> exact ⟨⟨rfl, rfl, fun _ => .inl⟩, hmembers⟩
  | _ => exact .refl _ _

theorem edit_notice (text : String) : Edit P N s (s.notice text) :=
  .note rfl (Nat.le_refl _)

/-! ## New declarations -/

theorem place_modifyEntity (id : DeclId) (f : Entity → Entity) (i : DeclId) :
    (s.modifyEntity id f).place i = s.place i :=
  congrArg (Option.getD · _)
    (map_of_getElem? (getElem?_modifyEntity id f) fun d => by split <;> rfl)

theorem describe_modifyEntity (id : DeclId) {f : Entity → Entity}
    (hf : ∀ e, (f e).describe = e.describe) (i : DeclId) :
    ((s.modifyEntity id f).entity? i).map Entity.describe =
      (s.entity? i).map Entity.describe := by
  rw [entity?_modifyEntity]
  split
  · rw [Option.map_map]
    exact congrArg (Option.map · _) (funext hf)
  · rfl

section Relist

variable (parent : DeclId) (relisted : Option (Option DeclId × Members)) (place : Position)
  (name : String)

theorem edits_relist : Edits P N s (s.relist parent relisted place name) := by
  rcases relisted with _ | ⟨_ | old, members⟩
  · exact .refl
  · exact (edit_setMembers parent members).edits
  · exact (edit_setMembers parent members).edits.tail (edit_notice _)

theorem name?_relist (i : DeclId) : (s.relist parent relisted place name).name? i = s.name? i := by
  rcases relisted with _ | ⟨_ | old, members⟩
  · rfl
  · exact name?_modifyEntity ..
  · exact name?_modifyEntity ..

theorem describe_relist (i : DeclId) :
    ((s.relist parent relisted place name).entity? i).map Entity.describe =
      (s.entity? i).map Entity.describe := by
  rcases relisted with _ | ⟨_ | old, members⟩
  · rfl
  · exact describe_modifyEntity _ (fun e => (Entity.Alters.setMembers 0 members e).describe) _
  · exact describe_modifyEntity _ (fun e => (Entity.Alters.setMembers 0 members e).describe) _

end Relist

theorem add_eq (parent : DeclId) (name : Option String) (entity : Entity) (place : Position) :
    s.add parent name entity place =
      let id := s.decls.size
      let t := (s.alloc parent name place entity).2
      let u := t.relist parent ((t.members? parent).map (·.insert name id)) place (name.getD "")
      match entity, name with
      | .enumeration _, some _ => (id, u.importEnum id)
      | _, _ => (id, u) := by
  unfold add
  dsimp only
  rw [show (s.alloc parent name place entity).1 = s.decls.size from rfl]
  generalize (s.alloc parent name place entity).2 = t
  cases t.members? parent with
  | none => rfl
  | some members =>
    rw [Option.map_some]
    dsimp only
    generalize members.insert name s.decls.size = inserted
    obtain ⟨old, new⟩ := inserted
    cases old <;> rfl

theorem Extend.edits (h : Extend L P N s t) : Edits P N s t := by
  cases h with
  | note hdecls hrefs => exact (Edit.note hdecls hrefs).edits
  | revise id f hf => exact (Edit.alter id f fun e => (hf e).toAlters).edits
  | push parent name place entity _ h => exact (Edit.push parent name place entity h).edits
  | enter parent name entity place _ h =>
    exact (Edit.push parent name place entity h).edits.trans (edits_relist ..)
  | enclose parent name place hname _ h => exact (Edit.enclose parent name place hname h).edits
  | importEnum id hname h => exact (Edit.importEnum id hname h).edits

theorem Extends.edits (h : Extends L P N s t) : Edits P N s t := by
  induction h with
  | refl => exact .refl
  | tail _ hlast ih => exact ih.trans hlast.edits

theorem entity?_of_class? {id : DeclId} {c : ClassType} (h : s.class? id = some c) :
    s.entity? id = some (.classType c) := by
  unfold class? at h
  split at h
  · next heq =>
    cases h
    exact heq
  · cases h

theorem entity?_of_module? {id : DeclId} {m : Module} (h : s.module? id = some m) :
    s.entity? id = some (.namespaceOf m) := by
  unfold module? at h
  split at h
  · next heq =>
    cases h
    exact heq
  · cases h

section Extensions

variable {L : Prop}

variable {parent : DeclId}

theorem extends_add (name : Option String) {entity : Entity} (place : Position)
    (hparent : L → parent < s.decls.size) (h : P entity) :
    Extends L P N s (s.add parent name entity place).2 := by
  have hname := name?_alloc (s := s) parent name place entity s.decls.size
  have hentity := entity?_alloc (s := s) parent name place entity s.decls.size
  rw [if_pos rfl] at hname hentity
  have hentered : Extends L P N s (s.enter parent name entity place) :=
    .single (.enter parent name entity place hparent h)
  rw [add_eq]
  unfold enter at hentered
  dsimp only at hentered ⊢
  generalize (s.alloc parent name place entity).2 = t at hname hentity hentered ⊢
  split
  · next e name =>
    refine hentered.tail (.importEnum _ ?_ ?_)
    · rw [name?_relist, hname]
      rfl
    · rw [describe_relist, hentity]
      rfl
  · exact hentered

theorem extends_addModule {name : String} (place : Position) (hname : N name)
    (hparent : L → (s.module? parent).isSome) :
    Extends L P N s (s.addModule parent name place).2 := by
  cases h : (s.module? parent).bind (·.submodules.get? name) with
  | none => exact .single (.enclose parent name place hname hparent h)
  | some id =>
    unfold addModule
    rw [h]

variable (hP : ∀ e : Entity, e.Bare → P e)

include hP

theorem bare_routine (kind : RoutineKind) (spec : RoutineSpec) : P (.routine kind spec.routine) :=
  hP _ ⟨⟨rfl, fun _ h => (Option.some.inj h).symm⟩, rfl⟩

variable {routine : DeclId}

section

variable (hroutine : L → routine < s.decls.size)

include hroutine

theorem extends_addParameter (spec : ParameterSpec)
    (index : Nat) : Extends L P N s (s.addParameter routine spec index).2 := by
  refine (extends_add (some (spec.name.getD ("arg" ++ toString index))) spec.place hroutine
    (hP (.parameter ⟨spec.type, spec.default⟩) ⟨⟨rfl, nofun⟩, rfl⟩)).tail ?_
  exact extend_modifyRoutine _ fun _ => .inl rfl

theorem extends_addParametersFrom (index : Nat)
    (params : List ParameterSpec) : Extends L P N s (s.addParametersFrom routine index params) := by
  induction params generalizing s index with
  | nil => exact .refl
  | cons spec rest ih =>
    refine (extends_addParameter hP hroutine spec index).trans (ih ?_ (index + 1))
    intro hL
    rw [size_addParameter]
    exact Nat.lt_succ_of_lt (hroutine hL)

theorem extends_completeForward (spec : RoutineSpec) :
    Extends L P N s (s.completeForward routine spec) := by
  refine .head (extend_modifyRoutine routine fun _ => .inr rfl)
    (extends_addParametersFrom hP ?_ 0 spec.params)
  rwa [size_modifyRoutine]

end

theorem extends_addNewRoutine (kind : RoutineKind) (hparent : L → parent < s.decls.size)
    (name : String) (spec : RoutineSpec) (place : Position) :
    Extends L P N s (s.addNewRoutine kind parent name spec place).2 := by
  refine (extends_add (some name) place hparent (bare_routine hP kind spec)).trans
    (extends_addParametersFrom hP (fun _ => ?_) 0 spec.params)
  rw [size_add]
  exact Nat.lt_succ_self _

theorem extends_addRoutine (kind : RoutineKind) (hparent : L → parent < s.decls.size)
    (name : String) (spec : RoutineSpec) (place : Position) :
    Extends L P N s (s.addRoutine kind parent name spec place).2 := by
  unfold addRoutine
  split
  · next id hid =>
    split
    · exact .refl
    · split
      · refine extends_completeForward hP (fun _ => ?_) spec
        have hlike := (Option.filter_eq_some_iff.1 hid).2
        refine Nat.lt_of_not_le fun hle => ?_
        rw [isRoutineLike, entity?, Array.getElem?_eq_none hle] at hlike
        cases hlike
      · exact extends_addNewRoutine hP kind hparent name spec place
  · exact extends_addNewRoutine hP kind hparent name spec place

theorem extends_addNewConstructor {cls : DeclId} (hcls : L → cls < s.decls.size)
    (spec : RoutineSpec) (place : Position) :
    Extends L P N s (s.addNewConstructor cls spec place).2 := by
  refine ((ReflTransGen.single (Extend.push cls (s.name? cls) place _ hcls
    (bare_routine hP .constructor spec))).trans
    (extends_addParametersFrom hP (fun _ => ?_) 0 spec.params)).tail
    (extend_modifyClass _ (fun _ => rfl) fun c i hi => ?_)
  · rw [size_alloc]
    exact Nat.lt_succ_self _
  · simp only [Entity.routines, List.mem_append, List.mem_map] at hi ⊢
    rcases hi with ⟨entry, hentry, rfl⟩ | hi
    · rcases Sorted.mem_of_mem_update hentry with hnew | hold
      · refine .inr ?_
        rw [hnew, ← addParameters, size_addParameters, size_alloc]
        show s.decls.size < _
        omega
      · exact .inl (.inl ⟨entry, hold, rfl⟩)
    · exact .inl (.inr hi)

theorem extends_addConstructor {cls : DeclId} (hcls : L → cls < s.decls.size)
    (hlinked : L → s.Linked) (spec : RoutineSpec) (place : Position) :
    Extends L P N s (s.addConstructor cls spec place).2 := by
  unfold addConstructor
  split
  · exact extends_addNewConstructor hP hcls spec place
  · next id hid =>
    split
    · exact .refl
    · split
      · refine extends_completeForward hP (fun hL => ?_) spec
        obtain ⟨c, hc, hlookup⟩ := Option.bind_eq_some_iff.1 hid
        exact hlinked hL cls _ (entity?_of_class? hc) id
          (List.mem_append_left _ (List.mem_map_of_mem (mem_of_lookup hlookup)))
      · exact (ReflTransGen.single (.note rfl (Nat.le_refl _))).trans
          (extends_addNewConstructor hP (s := s.notice _) hcls spec place)

theorem extends_addDestructor {cls id : DeclId} (hcls : L → cls < s.decls.size)
    (hlinked : L → s.Linked) {spec : RoutineSpec} {place : Position}
    (h : s.addDestructor cls spec place = .ok (id, t)) : Extends L P N s t := by
  unfold addDestructor at h
  split at h
  · next old hold =>
    split at h
    · cases h
      exact .refl
    · split at h
      · cases h
      · cases h
        refine extends_completeForward hP (fun hL => ?_) spec
        obtain ⟨c, hc, hdestructor⟩ := Option.bind_eq_some_iff.1 hold
        refine hlinked hL cls _ (entity?_of_class? hc) id ?_
        simp [Entity.routines, hdestructor]
  · cases h
    refine (ReflTransGen.single (Extend.push cls _ place _ hcls
      (bare_routine hP .destructor spec))).tail
      (extend_modifyClass _ (fun _ => rfl) fun c i hi => ?_)
    simp only [Entity.routines, List.mem_append, Option.toList_some, List.mem_singleton] at hi ⊢
    rcases hi with hi | rfl
    · exact .inl (.inl hi)
    · rw [size_alloc]
      exact .inr (Nat.lt_succ_self _)

theorem extends_addLocal (hroutine : L → routine < s.decls.size) (name : String)
    (place : Position) : Extends L P N s (s.addLocal routine name place).2 := by
  unfold addLocal
  split
  · exact .refl
  · exact extends_add _ _ hroutine (hP _ ⟨⟨rfl, nofun⟩, rfl⟩)

end Extensions

/-! ## Declarations without a name -/

theorem edits_adopt {owner member : DeclId} (hlt : owner < member) :
    Edits P N s (s.adopt owner member hlt) := by
  have hmove : Edits P N s (s.setParent member owner hlt) := (Edit.move member owner hlt).edits
  unfold adopt
  dsimp only
  split
  · exact hmove
  · exact hmove.tail (edit_setMembers ..)

theorem edits_dissolve (id : DeclId) : Edits P N s (s.dissolve id) := by
  refine dissolve_induction (I := fun _ _ => Edits P N s) (fun _ _ _ _ hlt h => ?_) (fun _ _ h => h)
    .refl (fun _ _ => .refl) fun _ _ _ _ => (edit_setMembers ..).edits
  exact h.trans (edits_adopt hlt)

theorem nameAnonymous_eq (id : DeclId) (name : String) :
    s.nameAnonymous id name =
      let t := s.rename id name
      match t.parent? id with
      | none => t
      | some parent =>
        let u := t.relist parent ((t.members? parent).map (·.nameEntry name id)) (t.place id) name
        match u.entity? id with
        | some (.enumeration _) => u.importEnum id
        | _ => u := by
  unfold nameAnonymous
  rw [← rename]
  generalize s.rename id name = t
  dsimp only
  cases t.parent? id with
  | none => rfl
  | some parent =>
    dsimp only
    cases t.members? parent with
    | none => rfl
    | some members =>
      rw [Option.map_some]
      dsimp only
      generalize members.nameEntry name id = named
      obtain ⟨old, new⟩ := named
      cases old with
      | none => rfl
      | some old =>
        have hplace : (t.modifyEntity parent (Entity.setMembers new)).place id = t.place id :=
          place_modifyEntity ..
        rw [relist]
        dsimp only
        generalize (t.modifyEntity parent (Entity.setMembers new)).place id = place at hplace ⊢
        subst hplace
        rfl

theorem edits_nameAnonymous (id : DeclId) (name : String) :
    Edits P N s (s.nameAnonymous id name) := by
  have hrename : Edit P N s _ := .rename id name
  have hnamed (parent : DeclId) (h : (s.rename id name).parent? id = some parent) :
      (s.rename id name).name? id = some name := by
    rw [parent?_rename] at h
    exact name?_rename_self name h
  rw [nameAnonymous_eq]
  dsimp only
  generalize s.rename id name = t at hrename hnamed
  split
  · exact hrename.edits
  · next parent hparent =>
    have hlisted : Edits P N s (t.relist parent ((t.members? parent).map (·.nameEntry name id))
        (t.place id) name) :=
      hrename.edits.trans (edits_relist ..)
    split
    · next h =>
      refine hlisted.tail (.importEnum id ?_ ?_)
      · rw [name?_relist, hnamed parent hparent]
        rfl
      · rw [h]
        rfl
    · exact hlisted

/-! ## Contents -/

theorem extend_addEnumerator (id : DeclId) (name : String) (init : Option Expr) (place : Position) :
    Extend L P N s (s.addEnumerator id name init place) := by
  refine .revise id _ fun e => ?_
  cases e <;> exact ⟨⟨rfl, rfl, fun _ => .inl⟩, .inl rfl⟩

theorem extend_setValue (id : DeclId) (value : Expr) : Extend L P N s (s.setValue id value) := by
  refine .revise id _ fun e => ?_
  cases e <;> exact ⟨⟨rfl, rfl, fun _ => .inl⟩, .inl rfl⟩

end Store

open Store in
theorem Build.cases {P : Entity → Prop} {N : String → Prop} (hP : ∀ e : Entity, e.Bare → P e)
    {α : Type} (op : Build α) {s t : Store} {a : α} (hmade : ∀ e ∈ op.made?, P e)
    (hname : ∀ name ∈ op.enclosed?, N name)
    (hparent : L → ∀ parent ∈ op.parent?, parent < s.decls.size)
    (houter : L → ∀ parent ∈ op.outer?, (s.module? parent).isSome) (hlinked : L → s.Linked)
    (h : op.apply s = .ok (a, t)) :
    (∃ id ∈ op.named?, ∃ name, t = s.nameAnonymous id name) ∨
      (∃ id ∈ op.dissolved?, t = s.dissolve id) ∨ Extends L P N s t := by
  have hof {r : α × Store} (hr : (.ok r : Except Fault (α × Store)) = .ok (a, t))
      (hextends : Extends L P N s r.2) :
      (∃ id ∈ op.named?, ∃ name, t = s.nameAnonymous id name) ∨
        (∃ id ∈ op.dissolved?, t = s.dissolve id) ∨ Extends L P N s t := by
    cases hr
    exact .inr (.inr hextends)
  cases op with
  | add parent name entity place =>
    exact hof h (extends_add name place (hparent · parent rfl) (hmade entity rfl))
  | addModule parent name place =>
    exact hof h (extends_addModule place (hname name rfl) (houter · parent rfl))
  | addRoutine kind parent name spec place =>
    exact hof h (extends_addRoutine hP kind (hparent · parent rfl) name spec place)
  | addConstructor cls spec place =>
    exact hof h (extends_addConstructor hP (hparent · cls rfl) hlinked spec place)
  | addDestructor cls spec place =>
    exact .inr (.inr (extends_addDestructor hP (hparent · cls rfl) hlinked h))
  | addLocal routine name place =>
    exact hof h (extends_addLocal hP (hparent · routine rfl) name place)
  | addEnumerator id name init place => exact hof h (.single (extend_addEnumerator ..))
  | setSuperclass cls superclass =>
    exact hof h (.single (extend_modifyClass cls (fun _ => rfl) fun _ _ => .inl))
  | setInitializers routine inits =>
    exact hof h (.single (extend_modifyRoutine routine fun _ => .inl rfl))
  | setStatements routine body =>
    exact hof h (.single (extend_modifyRoutine routine fun _ => .inl rfl))
  | setValue id value => exact hof h (.single (extend_setValue ..))
  | nameAnonymous id name =>
    cases h
    exact .inl ⟨id, rfl, name, rfl⟩
  | dissolve id =>
    cases h
    exact .inr (.inl ⟨id, rfl, rfl⟩)
  | notice text => exact hof h (.single (.note rfl (Nat.le_refl _)))

open Store in
theorem Build.edits {P : Entity → Prop} {N : String → Prop} (hP : ∀ e : Entity, e.Fresh → P e)
    {α : Type} (op : Build α) (hmade : ∀ e ∈ op.made?, P e) (hname : ∀ name ∈ op.enclosed?, N name)
    {s t : Store} {a : α} (h : op.apply s = .ok (a, t)) : Edits P N s t := by
  rcases op.cases (L := False) (fun e he => hP e he.fresh) hmade hname False.elim False.elim
    False.elim h with ⟨id, -, name, rfl⟩ | ⟨id, -, rfl⟩ | hextends
  · exact edits_nameAnonymous id name
  · exact edits_dissolve id
  · exact hextends.edits

theorem Build.size_le {α : Type} (op : Build α) {s t : Store} {a : α}
    (h : op.apply s = .ok (a, t)) : s.decls.size ≤ t.decls.size := by
  have hedits : Store.Edits (fun _ => True) (fun _ => True) s t :=
    op.edits (fun _ _ => trivial) (fun _ _ => trivial) (fun _ _ => trivial) h
  clear h
  induction hedits with
  | refl => exact Nat.le_refl _
  | tail _ hlast ih => exact Nat.le_trans ih hlast.size_le

end Serpentine
