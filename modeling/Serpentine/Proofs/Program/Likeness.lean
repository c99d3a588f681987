import Mathlib.Data.List.Forall2
import Serpentine.Program.Build
import Serpentine.Proofs.Program.Relocation
import Serpentine.Proofs.Reference.Uses

/-!
# Programs that differ in places

Two programs with the same declarations at places that a function does not tell apart. No reading or
lookup tells the programs apart, and the same change made to both leaves two such programs
(**`Build.Like.apply`**).
-/

namespace Serpentine

variable {f : Position → Position}

/-! ## Entities -/

/-- Entities that differ in places only. -/
inductive Entity.Like (f : Position → Position) : Entity → Entity → Prop where
  | namespaceOf (m : Module) : Like f (.namespaceOf m) (.namespaceOf m)
  | enumeration {e e' : Enumeration} (h : e.relocate f = e'.relocate f) :
      Like f (.enumeration e) (.enumeration e')
  | classType {c c' : ClassType} (h : c.relocate f = c'.relocate f) :
      Like f (.classType c) (.classType c')
  | routine (kind : RoutineKind) {r r' : Routine} (h : r.relocate f = r'.relocate f) :
      Like f (.routine kind r) (.routine kind r')
  | attribute {value value' : Option Expr} (isStatic : Bool)
      (h : value.map (Expr.relocate f) = value'.map (Expr.relocate f)) :
      Like f (.attribute ⟨value, isStatic⟩) (.attribute ⟨value', isStatic⟩)
  | variableOf {value value' : Option Expr} (isAlias : Bool)
      (h : value.map (Expr.relocate f) = value'.map (Expr.relocate f)) :
      Like f (.variableOf ⟨value, isAlias⟩) (.variableOf ⟨value', isAlias⟩)
  | parameter {value value' : Option Expr} (type : String)
      (h : value.map (Expr.relocate f) = value'.map (Expr.relocate f)) :
      Like f (.parameter ⟨type, value⟩) (.parameter ⟨type, value'⟩)

theorem Entity.like_iff {e e' : Entity} : e.Like f e' ↔ e.relocate f = e'.relocate f := by
  constructor
  · intro h
    cases h with
    | namespaceOf m => rfl
    | _ => simpa [relocate]
  · intro h
    cases e <;> cases e' <;> simp only [relocate, reduceCtorEq, namespaceOf.injEq,
      enumeration.injEq, classType.injEq, routine.injEq, attribute.injEq, variableOf.injEq,
      parameter.injEq, Attribute.mk.injEq, Variable.mk.injEq, Parameter.mk.injEq] at h
    case namespaceOf.namespaceOf m _ => exact h ▸ .namespaceOf m
    case enumeration.enumeration => exact .enumeration h
    case classType.classType => exact .classType h
    case routine.routine => exact h.1 ▸ .routine _ h.2
    case attribute.attribute a a' =>
      obtain ⟨value, isStatic⟩ := a
      obtain ⟨value', isStatic'⟩ := a'
      obtain ⟨hvalue, rfl⟩ := h
      exact .attribute isStatic hvalue
    case variableOf.variableOf v v' =>
      obtain ⟨value, isAlias⟩ := v
      obtain ⟨value', isAlias'⟩ := v'
      obtain ⟨hvalue, rfl⟩ := h
      exact .variableOf isAlias hvalue
    case parameter.parameter p p' =>
      obtain ⟨type, value⟩ := p
      obtain ⟨type', value'⟩ := p'
      obtain ⟨rfl, hvalue⟩ := h
      exact .parameter type hvalue

/-! ## Programs -/

/-- Warnings that are the same, or say the same about places that count as the same. -/
def NoticeLike (f : Position → Position) (w w' : String) : Prop :=
  w = w' ∨ ∃ place place' text, f place = f place' ∧ w = place.text ++ ": " ++ text ∧
    w' = place'.text ++ ": " ++ text

theorem NoticeLike.of_place {place place' : Position} (h : f place = f place')
    (mark text : String) :
    NoticeLike f (place.text ++ (": " ++ mark) ++ text) (place'.text ++ (": " ++ mark) ++ text) :=
  .inr ⟨place, place', mark ++ text, h, by simp only [String.append_assoc],
    by simp only [String.append_assoc]⟩

namespace Entity

def mapModule (g : Module → Module) : Entity → Entity
  | .namespaceOf m => .namespaceOf (g m)
  | e => e

def mapClass (g : ClassType → ClassType) : Entity → Entity
  | .classType c => .classType (g c)
  | e => e

def mapRoutine (g : Routine → Routine) : Entity → Entity
  | .routine kind r => .routine kind (g r)
  | e => e

def mapEnumeration (g : Enumeration → Enumeration) : Entity → Entity
  | .enumeration e => .enumeration (g e)
  | e => e

/-- Gives an attribute or variable a value. -/
def withValue (value : Expr) : Entity → Entity
  | .attribute a => .attribute { a with value := some value }
  | .variableOf v => .variableOf { v with value := some value }
  | e => e

end Entity

namespace Store

def relocate (f : Position → Position) (s : Store) : Store :=
  { s with
    decls := s.decls.map (Declaration.relocate f)
    nested := s.nested_map fun _ => rfl }

theorem relocated_relocate (f : Position → Position) (s : Store) : s.Relocated f (s.relocate f) :=
  rfl

theorem Relocated.outline {s t : Store} (h : s.Relocated f t) : t.outline = s.outline := by
  have hdecl : ∀ d : Declaration, (d.relocate f).outline = d.outline := by
    rintro ⟨name, parent, root, place, entity⟩
    unfold Declaration.relocate Declaration.outline
    simp only [Declaration.mk.injEq, true_and]
    cases entity with
    | enumeration e =>
      simp only [Entity.relocate, Entity.outline, Enumeration.relocate, Enumeration.outline,
        List.map_map]
      rfl
    | classType c =>
      obtain ⟨key, superclass, constructors, destructor, members⟩ := c
      cases superclass with
      | none => rfl
      | some e => cases e <;> rfl
    | _ => rfl
  refine eq_of_decls ?_ rfl rfl
  show t.decls.map _ = s.decls.map _
  rw [show t.decls = s.decls.map (Declaration.relocate f) from h, Array.map_map]
  exact congrArg (Array.map · s.decls) (funext hdecl)

/-- Programs that differ in places, also in those of their warnings. -/
structure Like (f : Position → Position) (s t : Store) : Prop where
  decls : s.decls.map (Declaration.relocate f) = t.decls.map (Declaration.relocate f)
  nextRef : s.nextRef = t.nextRef
  notices : List.Forall₂ (NoticeLike f) s.notices t.notices

/-- The names of an enumeration made known around it; nothing for all else. -/
def importIfEnum (s : Store) (id : DeclId) : Store :=
  match s.entity? id with
  | some (.enumeration _) => s.importEnum id
  | _ => s

namespace Like

variable {s t : Store}

theorem refl (s : Store) : s.Like f s :=
  ⟨rfl, rfl, List.forall₂_same.2 fun _ _ => .inl rfl⟩

/-- The outcomes of a change: the same result and such programs, or faults at such places. -/
inductive Changed {α : Type} (f : Position → Position) :
    Except Fault (α × Store) → Except Fault (α × Store) → Prop where
  | ok (a : α) {s t : Store} (h : s.Like f t) : Changed f (.ok (a, s)) (.ok (a, t))
  | error {fault fault' : Fault} (h : fault.relocate f = fault'.relocate f) :
      Changed f (.error fault) (.error fault')

/-- The same result, and such programs. -/
structure Makes {α : Type} (f : Position → Position) (r r' : α × Store) : Prop where
  result : r'.1 = r.1
  like : r.2.Like f r'.2

theorem eq (h : s.Like id t) : s = t := by
  refine eq_of_decls ?_ h.nextRef ?_
  · simpa [show Declaration.relocate id = id from funext Declaration.relocate_id] using h.decls
  · refine List.forall₂_eq_eq_eq ▸ h.notices.imp ?_
    rintro w w' (rfl | ⟨place, place', text, hplace, rfl, rfl⟩)
    · rfl
    · rw [show place = place' from hplace]

/-! ### Reading -/

section Reading

variable (h : s.Like f t) (id : DeclId)

include h

theorem relocated : t.Relocated f (s.relocate f) :=
  h.decls

theorem size_eq : t.decls.size = s.decls.size :=
  h.relocated.size_eq.symm.trans (s.relocated_relocate f).size_eq

theorem name? : t.name? id = s.name? id :=
  (h.relocated.name? id).symm.trans ((s.relocated_relocate f).name? id)

theorem parent? : t.parent? id = s.parent? id :=
  (h.relocated.parent? id).symm.trans ((s.relocated_relocate f).parent? id)

theorem owningModule : t.owningModule id = s.owningModule id :=
  (h.relocated.owningModule id).symm.trans ((s.relocated_relocate f).owningModule id)

theorem module? : t.module? id = s.module? id :=
  (h.relocated.module? id).symm.trans ((s.relocated_relocate f).module? id)

theorem modulePath : t.modulePath id = s.modulePath id :=
  (h.relocated.modulePath id).symm.trans ((s.relocated_relocate f).modulePath id)

theorem map_entity? :
    (t.entity? id).map (Entity.relocate f) = (s.entity? id).map (Entity.relocate f) :=
  (h.relocated.entity? id).symm.trans ((s.relocated_relocate f).entity? id)

theorem map_class? :
    (t.class? id).map (ClassType.relocate f) = (s.class? id).map (ClassType.relocate f) :=
  (h.relocated.class? id).symm.trans ((s.relocated_relocate f).class? id)

theorem map_routine? :
    (t.routine? id).map (Routine.relocate f) = (s.routine? id).map (Routine.relocate f) :=
  (h.relocated.routine? id).symm.trans ((s.relocated_relocate f).routine? id)

theorem outline : t.outline = s.outline :=
  h.relocated.outline.symm.trans (s.relocated_relocate f).outline

theorem entity? : Option.Rel (Entity.Like f) (s.entity? id) (t.entity? id) := by
  have hmap := h.map_entity? id
  cases hs : s.entity? id with
  | none =>
    rw [hs, Option.map_none, Option.map_eq_none_iff] at hmap
    rw [hmap]
    exact .none
  | some e =>
    rw [hs, Option.map_some, Option.map_eq_some_iff] at hmap
    obtain ⟨e', ht, he⟩ := hmap
    rw [ht]
    exact .some (Entity.like_iff.2 he.symm)

theorem place : f (t.place id) = f (s.place id) := by
  have hplace : ∀ u : Store, f (u.place id) =
      (((u.decls.map (Declaration.relocate f))[id]?).map Declaration.place).getD
        (f ⟨"", 0, none⟩) := by
    intro u
    rw [Store.place, Array.getElem?_map, Option.map_map]
    cases u.decls[id]? <;> rfl
  rw [hplace, hplace, h.decls]

theorem members? : t.members? id = s.members? id := by
  have hmembers : ∀ u : Store, u.members? id =
      ((u.entity? id).map (Entity.relocate f)).bind Entity.members? := by
    intro u
    rw [Store.members?, Option.bind_map]
    exact congrArg (Option.bind _) (funext fun e => (e.members?_relocate f).symm)
  rw [hmembers, hmembers, h.map_entity?]

theorem hasBody : t.hasBody id = s.hasBody id := by
  have hbody : ∀ u : Store, u.hasBody id =
      ((u.routine? id).map (Routine.relocate f)).any fun r => r.statements.isSome := by
    intro u
    rw [Store.hasBody, Option.any_map]
    refine congrArg (Option.any · _) (funext fun r => ?_)
    simp only [Routine.relocate, Stmt.relocateElse_eq_map, Option.isSome_map]
  rw [hbody, hbody, h.map_routine?]

theorem isSome_class? : (t.class? id).isSome = (s.class? id).isSome := by
  have hmap := congrArg Option.isSome (h.map_class? id)
  rwa [Option.isSome_map, Option.isSome_map] at hmap

theorem isSome_routine? : (t.routine? id).isSome = (s.routine? id).isSome := by
  have hmap := congrArg Option.isSome (h.map_routine? id)
  rwa [Option.isSome_map, Option.isSome_map] at hmap

theorem lookupQualified (scope : DeclId) (segments : List String) :
    t.lookupQualified scope segments = s.lookupQualified scope segments := by
  rw [← t.lookupQualified_outline, h.outline, s.lookupQualified_outline]

theorem isModule : t.isModule id = s.isModule id := by
  rw [Store.isModule, Store.isModule, h.module?]

theorem isSome_enumeration? :
    (t.enumeration? id).isSome = (s.enumeration? id).isSome := by
  have hentity := h.entity? id
  unfold Store.enumeration?
  generalize s.entity? id = e, t.entity? id = e' at hentity
  cases hentity with
  | none => rfl
  | some he => cases he <;> rfl

theorem isAlias : t.isAlias id = s.isAlias id := by
  have hentity := h.entity? id
  unfold Store.isAlias
  generalize s.entity? id = e, t.entity? id = e' at hentity
  cases hentity with
  | none => rfl
  | some he => cases he <;> rfl

theorem namesClass (scope : DeclId) (segments : List String) :
    t.namesClass scope segments = s.namesClass scope segments := by
  simp only [Store.namesClass, h.lookupQualified, h.isSome_class?, h.isAlias]

theorem namesType (scope : DeclId) (segments : List String) :
    t.namesType scope segments = s.namesType scope segments := by
  simp only [Store.namesType, h.lookupQualified, h.isSome_class?, h.isSome_enumeration?, h.isAlias]

end Reading

/-! ### Changing -/

section Changing

variable (h : s.Like f t) (id : DeclId)

include h

theorem notice {w w' : String} (hw : NoticeLike f w w') : (s.notice w).Like f (t.notice w') :=
  ⟨h.decls, h.nextRef, List.rel_append h.notices (.cons hw .nil)⟩

theorem freshRef : (s.freshRef).2.Like f (t.freshRef).2 :=
  ⟨h.decls, congrArg (· + 1) h.nextRef, h.notices⟩

theorem map_modify_eq {g g' : Declaration → Declaration}
    (G : Declaration → Declaration) (hG : ∀ d, (g d).relocate f = G (d.relocate f))
    (hG' : ∀ d, (g' d).relocate f = G (d.relocate f)) :
    (s.decls.modify id g).map (Declaration.relocate f) =
      (t.decls.modify id g').map (Declaration.relocate f) := by
  have hdecls : ∀ (u : Array Declaration) (k : Declaration → Declaration),
      (∀ d, (k d).relocate f = G (d.relocate f)) →
      (u.modify id k).map (Declaration.relocate f) =
        (u.map (Declaration.relocate f)).modify id G := by
    intro u k hk
    refine Array.ext_getElem? fun i => ?_
    rw [Array.getElem?_map, Array.getElem?_modify, Array.getElem?_modify, Array.getElem?_map]
    split
    · rw [Option.map_map, Option.map_map]
      exact congrArg (Option.map · _) (funext hk)
    · rfl
  rw [hdecls _ _ hG, hdecls _ _ hG', h.decls]

theorem modify {g g' : Declaration → Declaration} (G : Declaration → Declaration)
    {hg : ∀ d, (g d).parent = d.parent} {hg' : ∀ d, (g' d).parent = d.parent}
    (hG : ∀ d, (g d).relocate f = G (d.relocate f))
    (hG' : ∀ d, (g' d).relocate f = G (d.relocate f)) :
    (s.modify id g hg).Like f (t.modify id g' hg') :=
  ⟨h.map_modify_eq id G hG hG', h.nextRef, h.notices⟩

theorem modifyEntity {g g' : Entity → Entity} (G : Entity → Entity)
    (hG : ∀ e, (g e).relocate f = G (e.relocate f))
    (hG' : ∀ e, (g' e).relocate f = G (e.relocate f)) :
    (s.modifyEntity id g).Like f (t.modifyEntity id g') := by
  refine h.modify id (fun d => { d with entity := G d.entity }) (fun d => ?_) fun d => ?_
  · rw [Declaration.relocate, hG]
    rfl
  · rw [Declaration.relocate, hG']
    rfl

theorem modifyModule (g : Module → Module) :
    (s.modifyModule id g).Like f (t.modifyModule id g) := by
  refine h.modifyEntity id (Entity.mapModule g) ?_ ?_ <;> exact fun e => by cases e <;> rfl

theorem modifyClass {g g' : ClassType → ClassType} (G : ClassType → ClassType)
    (hG : ∀ c, (g c).relocate f = G (c.relocate f))
    (hG' : ∀ c, (g' c).relocate f = G (c.relocate f)) :
    (s.modifyClass id g).Like f (t.modifyClass id g') := by
  refine h.modifyEntity id (Entity.mapClass G) ?_ ?_
  · intro e
    cases e with
    | classType c => exact congrArg Entity.classType (hG c)
    | _ => rfl
  · intro e
    cases e with
    | classType c => exact congrArg Entity.classType (hG' c)
    | _ => rfl

theorem modifyRoutine {g g' : Routine → Routine} (G : Routine → Routine)
    (hG : ∀ r, (g r).relocate f = G (r.relocate f))
    (hG' : ∀ r, (g' r).relocate f = G (r.relocate f)) :
    (s.modifyRoutine id g).Like f (t.modifyRoutine id g') := by
  refine h.modifyEntity id (Entity.mapRoutine G) ?_ ?_
  · intro e
    cases e with
    | routine kind r => exact congrArg (Entity.routine kind) (hG r)
    | _ => rfl
  · intro e
    cases e with
    | routine kind r => exact congrArg (Entity.routine kind) (hG' r)
    | _ => rfl

theorem setMembers (members : Members) :
    (s.modifyEntity id (Entity.setMembers members)).Like f
      (t.modifyEntity id (Entity.setMembers members)) :=
  h.modifyEntity id (Entity.setMembers members) (Entity.setMembers_relocate f members)
    (Entity.setMembers_relocate f members)

theorem importEnum : (s.importEnum id).Like f (t.importEnum id) := by
  unfold Store.importEnum
  rw [h.owningModule]
  exact h.modifyModule _ _

theorem setStatements (routine : DeclId) {body body' : List Stmt}
    (hbody : Stmt.relocateAll f body = Stmt.relocateAll f body') :
    (s.setStatements routine body).Like f (t.setStatements routine body') := by
  refine h.modifyRoutine routine
    (fun r => { r with statements := some (Stmt.relocateAll f body) }) (fun _ => rfl) fun r => ?_
  rw [hbody]
  rfl

theorem setInitializers (routine : DeclId) {inits inits' : List MemberInit}
    (hinits : inits.map (MemberInit.relocate f) = inits'.map (MemberInit.relocate f)) :
    (s.setInitializers routine inits).Like f (t.setInitializers routine inits') := by
  refine h.modifyRoutine routine
    (fun r => { r with initializers := inits.map (MemberInit.relocate f) }) (fun _ => rfl)
    fun r => ?_
  rw [hinits]
  rfl

theorem setSuperclass (cls : DeclId) {superclass superclass' : Expr}
    (hsuper : superclass.relocate f = superclass'.relocate f) :
    (s.setSuperclass cls superclass).Like f (t.setSuperclass cls superclass') := by
  refine h.modifyClass cls (fun c => { c with superclass := some (superclass.relocate f) })
    (fun _ => rfl) fun c => ?_
  rw [hsuper]
  rfl

theorem setValue {value value' : Expr}
    (hvalue : value.relocate f = value'.relocate f) :
    (s.setValue id value).Like f (t.setValue id value') := by
  refine h.modifyEntity id (Entity.withValue (value.relocate f)) (fun e => by cases e <;> rfl)
    fun e => ?_
  rw [hvalue]
  cases e <;> rfl

section Placed

variable {place place' : Position} (hplace : f place = f place')

include hplace

theorem noticeReplaced (name : String)
    (old : DeclId) : (s.noticeReplaced place name old).Like f (t.noticeReplaced place' name old) := by
  have hword : ∀ u : Store, ((u.entity? old).map Entity.describe).getD "" =
      (((u.entity? old).map (Entity.relocate f)).map Entity.describe).getD "" := by
    intro u
    rw [Option.map_map]
    exact congrArg (fun k => ((u.entity? old).map k).getD "")
      (funext fun e => (e.describe_relocate f).symm)
  unfold Store.noticeReplaced
  rw [hword t, h.map_entity?, ← hword s, show ": `" = ": " ++ "`" by decide]
  refine h.notice ?_
  have hlike := NoticeLike.of_place hplace "`" (name ++ "` redeclared, replacing previous " ++
    ((s.entity? old).map Entity.describe).getD "")
  simpa only [String.append_assoc] using hlike

theorem alloc (parent : DeclId) (name : Option String) {entity entity' : Entity}
    (hentity : entity.Like f entity') :
    Makes f (s.alloc parent name place entity) (t.alloc parent name place' entity') := by
  refine ⟨h.size_eq, ?_, h.nextRef, h.notices⟩
  show (s.decls.push _).map _ = (t.decls.push _).map _
  rw [Array.map_push, Array.map_push, h.decls, h.size_eq, h.owningModule]
  refine congrArg (Array.push _) ?_
  unfold Declaration.relocate
  rw [Entity.like_iff.1 hentity, hplace]
  cases hentity <;> rfl

theorem addModule (parent : DeclId) (name : String) :
    Makes f (s.addModule parent name place) (t.addModule parent name place') := by
  unfold Store.addModule
  rw [h.module?]
  cases (s.module? parent).bind (·.submodules.get? name) with
  | some id => exact ⟨rfl, h⟩
  | none =>
    rw [h.modulePath]
    obtain ⟨hid, halloc⟩ := h.alloc hplace parent (some name) (.namespaceOf
      (.empty (if parent = root then name else s.modulePath parent ++ "." ++ name)))
    dsimp only
    rw [hid]
    exact ⟨rfl, halloc.modifyModule _ _⟩

theorem replace (parent : DeclId) (members : Members) (name : String) (old : Option DeclId) :
    (match old with
      | none => s.modifyEntity parent (Entity.setMembers members)
      | some old =>
        (s.modifyEntity parent (Entity.setMembers members)).noticeReplaced place name old).Like f
    (match old with
      | none => t.modifyEntity parent (Entity.setMembers members)
      | some old =>
        (t.modifyEntity parent (Entity.setMembers members)).noticeReplaced place' name old) := by
  have hmembers := h.setMembers parent members
  cases old with
  | none => exact hmembers
  | some old => exact hmembers.noticeReplaced hplace name old

theorem add (parent : DeclId) (name : Option String) {entity entity' : Entity}
    (hentity : entity.Like f entity') :
    Makes f (s.add parent name entity place) (t.add parent name entity' place') := by
  obtain ⟨hid, halloc⟩ := h.alloc hplace parent name hentity
  unfold Store.add
  dsimp only
  rw [hid, halloc.members?]
  generalize (s.alloc parent name place entity).1 = id
  generalize (s.alloc parent name place entity).2 = u, (t.alloc parent name place' entity').2 = v
    at halloc
  -- Both entities are enumerations with a name, or none is.
  cases u.members? parent with
  | none =>
    cases hentity with
    | enumeration =>
      cases name with
      | none => exact ⟨rfl, halloc⟩
      | some name => exact ⟨rfl, halloc.importEnum id⟩
    | _ => exact ⟨rfl, halloc⟩
  | some members =>
    have hput := halloc.replace hplace parent (members.insert name id).2 (name.getD "")
      (members.insert name id).1
    cases hentity with
    | enumeration =>
      cases name with
      | none => exact ⟨rfl, hput⟩
      | some name => exact ⟨rfl, hput.importEnum id⟩
    | _ => exact ⟨rfl, hput⟩

theorem addLocal (routine : DeclId) (name : String) :
    Makes f (s.addLocal routine name place) (t.addLocal routine name place') := by
  unfold Store.addLocal
  rw [h.members?]
  cases (s.members? routine).bind (·.get? name) with
  | some id => exact ⟨rfl, h⟩
  | none => exact h.add hplace routine (some name) (.variableOf false rfl)

theorem addEnumerator (id : DeclId) (name : String) {init init' : Option Expr}
    (hinit : init.map (Expr.relocate f) = init'.map (Expr.relocate f)) :
    (s.addEnumerator id name init place).Like f (t.addEnumerator id name init' place') := by
  refine h.modifyEntity id (Entity.mapEnumeration fun e =>
    e.push name (init.map (Expr.relocate f)) (f place)) (fun e => ?_) fun e => ?_
  · cases e with
    | enumeration e => exact congrArg Entity.enumeration (e.push_relocate f name init place)
    | _ => rfl
  · cases e with
    | enumeration e =>
      rw [hinit, hplace]
      exact congrArg Entity.enumeration (e.push_relocate f name init' place')
    | _ => rfl

end Placed

theorem addParameter (routine : DeclId) {spec spec' : ParameterSpec}
    (hspec : spec.relocate f = spec'.relocate f) (index : Nat) :
    (s.addParameter routine spec index).2.Like f (t.addParameter routine spec' index).2 := by
  obtain ⟨name, type, default, place⟩ := spec
  obtain ⟨name', type', default', place'⟩ := spec'
  simp only [ParameterSpec.relocate, ParameterSpec.mk.injEq] at hspec
  obtain ⟨rfl, rfl, hdefault, hplace⟩ := hspec
  obtain ⟨hid, hadd⟩ := h.add hplace routine (some (name.getD ("arg" ++ toString index)))
    (.parameter type hdefault)
  unfold Store.addParameter
  dsimp only
  rw [hid]
  exact hadd.modifyRoutine routine (fun r => { r with parameters := r.parameters ++ [_] })
    (fun _ => rfl) fun _ => rfl

end Changing

theorem addParametersFrom (h : s.Like f t) (routine : DeclId) {specs specs' : List ParameterSpec}
    (hspecs : specs.map (ParameterSpec.relocate f) = specs'.map (ParameterSpec.relocate f))
    (index : Nat) :
    (s.addParametersFrom routine index specs).Like f (t.addParametersFrom routine index specs') := by
  induction specs generalizing s t specs' index with
  | nil =>
    rw [List.map_nil, eq_comm, List.map_eq_nil_iff] at hspecs
    rw [hspecs]
    exact h
  | cons spec specs ih =>
    cases specs' with
    | nil => simp at hspecs
    | cons spec' specs' =>
      rw [List.map_cons, List.map_cons, List.cons.injEq] at hspecs
      exact ih (h.addParameter routine hspecs.1 index) hspecs.2 (index + 1)

section Routines

variable (h : s.Like f t) {spec spec' : RoutineSpec} (hspec : spec.relocate f = spec'.relocate f)

include h hspec

theorem addParameters (routine : DeclId) :
    (s.addParameters routine spec).Like f (t.addParameters routine spec') :=
  h.addParametersFrom routine (congrArg RoutineSpec.params hspec) 0

theorem completeForward (routine : DeclId) :
    (s.completeForward routine spec).Like f (t.completeForward routine spec') := by
  have hstatic : spec'.isStatic = spec.isStatic := (congrArg RoutineSpec.isStatic hspec).symm
  have hvirtual : spec'.isVirtual = spec.isVirtual := (congrArg RoutineSpec.isVirtual hspec).symm
  have hpure : spec'.isPure = spec.isPure := (congrArg RoutineSpec.isPure hspec).symm
  unfold Store.completeForward
  dsimp only
  rw [hstatic, hvirtual, hpure]
  refine addParameters (h.modifyRoutine routine (fun r => { r with
    parameters := []
    locals := .empty
    isStatic := r.isStatic || spec.isStatic
    isVirtual := r.isVirtual || spec.isVirtual
    isPure := spec.isPure }) (fun _ => rfl) fun _ => rfl) hspec routine

omit h in
theorem signature_eq : spec'.signature = spec.signature := by
  rw [← spec'.signature_relocate f, ← hspec, spec.signature_relocate f]

omit h in
theorem hasBody_eq : spec'.hasBody = spec.hasBody :=
  (congrArg RoutineSpec.hasBody hspec).symm

omit h in
theorem routine_like (kind : RoutineKind) :
    (Entity.routine kind spec.routine).Like f (.routine kind spec'.routine) := by
  refine .routine kind ?_
  rw [← spec.routine_relocate f, hspec, spec'.routine_relocate f]

theorem isRoutineLike (id : DeclId) (kind : RoutineKind) :
    t.isRoutineLike id kind spec' = s.isRoutineLike id kind spec := by
  have hentity := h.entity? id
  unfold Store.isRoutineLike
  rw [signature_eq hspec]
  generalize s.entity? id = e, t.entity? id = e' at hentity
  cases hentity with
  | none => rfl
  | some he =>
    cases he with
    | @routine _ r r' hr =>
      have hsignature : (r.relocate f).signature = (r'.relocate f).signature := by rw [hr]
      dsimp only
      rw [show r.signature = r'.signature from hsignature]
    | _ => rfl

variable {place place' : Position} (hplace : f place = f place')

include hplace

theorem addNewRoutine (kind : RoutineKind) (parent : DeclId) (name : String) :
    Makes f (s.addNewRoutine kind parent name spec place)
      (t.addNewRoutine kind parent name spec' place') := by
  obtain ⟨hid, hadd⟩ := h.add hplace parent (some name) (routine_like hspec kind)
  unfold Store.addNewRoutine
  dsimp only
  rw [hid]
  exact ⟨rfl, hadd.addParameters hspec _⟩

theorem addRoutine (kind : RoutineKind) (parent : DeclId) (name : String) :
    Makes f (s.addRoutine kind parent name spec place) (t.addRoutine kind parent name spec' place') := by
  have hnew := h.addNewRoutine hspec hplace kind parent name
  unfold Store.addRoutine
  rw [h.members?, hasBody_eq hspec, show (t.isRoutineLike · kind spec') = (s.isRoutineLike · kind spec)
    from funext fun id => h.isRoutineLike hspec id kind]
  cases ((s.members? parent).bind (·.get? name)).filter (s.isRoutineLike · kind spec) with
  | none => exact hnew
  | some id =>
    dsimp only
    rw [h.hasBody]
    split_ifs
    · exact ⟨rfl, h⟩
    · exact ⟨rfl, h.completeForward hspec id⟩
    · exact hnew

theorem addNewConstructor (cls : DeclId) :
    Makes f (s.addNewConstructor cls spec place) (t.addNewConstructor cls spec' place') := by
  obtain ⟨hid, halloc⟩ := h.alloc hplace cls (s.name? cls) (routine_like hspec .constructor)
  unfold Store.addNewConstructor
  rw [h.name?]
  dsimp only
  rw [hid, signature_eq hspec]
  exact ⟨rfl, (halloc.addParameters hspec _).modifyClass cls
    (fun c => { c with constructors := Sorted.update spec.signature (fun _ => _) c.constructors })
    (fun _ => rfl) fun _ => rfl⟩

theorem addConstructor (cls : DeclId) :
    Makes f (s.addConstructor cls spec place) (t.addConstructor cls spec' place') := by
  have hlookup : (t.class? cls).bind (·.constructors.lookup spec'.signature) =
      (s.class? cls).bind (·.constructors.lookup spec.signature) := by
    have hmap := congrArg (Option.bind · (·.constructors.lookup spec.signature)) (h.map_class? cls)
    rw [Option.bind_map, Option.bind_map] at hmap
    rw [signature_eq hspec]
    exact hmap
  unfold Store.addConstructor
  rw [hlookup, hasBody_eq hspec, signature_eq hspec]
  cases (s.class? cls).bind (·.constructors.lookup spec.signature) with
  | none => exact h.addNewConstructor hspec hplace cls
  | some id =>
    dsimp only
    rw [h.hasBody]
    split_ifs
    · exact ⟨rfl, h⟩
    · exact ⟨rfl, h.completeForward hspec id⟩
    · refine addNewConstructor (h.notice ?_) hspec hplace cls
      have hlike := NoticeLike.of_place hplace "duplicate constructor signature ("
        (", ".intercalate spec.signature ++ "), replacing previous definition")
      rw [show ": " ++ "duplicate constructor signature (" =
        ": duplicate constructor signature (" by decide] at hlike
      simpa only [String.append_assoc] using hlike

theorem addDestructor (cls : DeclId) :
    Changed f (s.addDestructor cls spec place) (t.addDestructor cls spec' place') := by
  have hdestructor : (t.class? cls).bind ClassType.destructor =
      (s.class? cls).bind ClassType.destructor := by
    have hmap := congrArg (Option.bind · ClassType.destructor) (h.map_class? cls)
    rw [Option.bind_map, Option.bind_map] at hmap
    exact hmap
  unfold Store.addDestructor
  rw [hdestructor, hasBody_eq hspec]
  cases (s.class? cls).bind ClassType.destructor with
  | some id =>
    dsimp only
    rw [h.hasBody, h.name?]
    split_ifs
    · exact .ok id h
    · exact .error (by rw [Fault.relocate, Fault.relocate, hplace])
    · exact .ok id (h.completeForward hspec id)
  | none =>
    obtain ⟨hid, halloc⟩ := h.alloc hplace cls ((s.name? cls).map ("~" ++ ·))
      (routine_like hspec .destructor)
    dsimp only
    rw [h.name?, hid]
    exact .ok _ (halloc.modifyClass cls (fun c => { c with destructor := some _ }) (fun _ => rfl)
      fun _ => rfl)

end Routines

section Anonymous

variable (h : s.Like f t)

include h

theorem importIfEnum (id : DeclId) : (s.importIfEnum id).Like f (t.importIfEnum id) := by
  unfold Store.importIfEnum
  have hentity := h.entity? id
  generalize s.entity? id = e, t.entity? id = e' at hentity
  cases hentity with
  | none => exact h
  | some he =>
    cases he with
    | enumeration => exact h.importEnum id
    | _ => exact h

theorem nameAnonymous (id : DeclId) (name : String) :
    (s.nameAnonymous id name).Like f (t.nameAnonymous id name) := by
  have hnamed : (s.modify id (fun d => { d with name := some name }) fun _ => rfl).Like f
      (t.modify id (fun d => { d with name := some name }) fun _ => rfl) :=
    h.modify id (fun d => { d with name := some name }) (fun _ => rfl) fun _ => rfl
  unfold Store.nameAnonymous
  dsimp only
  generalize s.modify id (fun d => { d with name := some name }) _ = u,
    t.modify id (fun d => { d with name := some name }) _ = v at hnamed
  rw [hnamed.parent?]
  cases u.parent? id with
  | none => exact hnamed
  | some parent =>
    dsimp only
    rw [hnamed.members?]
    cases u.members? parent with
    | none => exact hnamed.importIfEnum id
    | some members =>
      refine importIfEnum ?_ id
      have hplace := (hnamed.setMembers parent (members.nameEntry name id).2).place id
      exact hnamed.replace hplace.symm parent (members.nameEntry name id).2 name
        (members.nameEntry name id).1

theorem setParent {id parent : DeclId} (hlt : parent < id) :
    (s.setParent id parent hlt).Like f (t.setParent id parent hlt) := by
  refine ⟨?_, h.nextRef, h.notices⟩
  unfold Store.setParent
  dsimp only
  exact h.map_modify_eq id (fun d => { d with parent := some parent }) (fun _ => rfl) fun _ => rfl

theorem adopt {owner member : DeclId} (hlt : owner < member) :
    (s.adopt owner member hlt).Like f (t.adopt owner member hlt) := by
  have hparent := h.setParent hlt
  unfold Store.adopt
  dsimp only
  rw [hparent.members?, hparent.name?]
  cases (s.setParent member owner hlt).members? owner with
  | none => exact hparent
  | some members => exact hparent.setMembers owner _

end Anonymous

theorem adoptAll (h : s.Like f t) {owner : DeclId} {moved : List DeclId}
    (hlt : ∀ member ∈ moved, owner < member) :
    (s.adoptAll owner moved hlt).Like f (t.adoptAll owner moved hlt) := by
  induction moved generalizing s t with
  | nil => exact h
  | cons member moved ih => exact ih (h.adopt (hlt member List.mem_cons_self)) _

theorem dissolve (h : s.Like f t) (id : DeclId) : (s.dissolve id).Like f (t.dissolve id) := by
  have hmoved : t.classMembers id = s.classMembers id := by
    have hmap := congrArg (Option.map (·.members.order)) (h.map_class? id)
    rw [Option.map_map, Option.map_map] at hmap
    exact congrArg (Option.getD · []) hmap
  unfold Store.dissolve
  rw [h.parent?]
  cases s.parent? id with
  | none => exact h
  | some owner =>
    dsimp only
    rw [h.members?]
    generalize t.classMembers id = moved at hmoved
    subst hmoved
    split
    · cases s.members? owner with
      | none => exact h.adoptAll _
      | some members => exact (h.setMembers owner _).adoptAll _
    · exact h

end Like

end Store

/-! ## Changes -/

namespace Build

/-- Changes that differ in places only. -/
inductive Like (f : Position → Position) : {α : Type} → Build α → Build α → Prop where
  | add (parent : DeclId) (name : Option String) {entity entity' : Entity}
      (h : entity.Like f entity') {place place' : Position} (hplace : f place = f place') :
      Like f (.add parent name entity place) (.add parent name entity' place')
  | addModule (parent : DeclId) (name : String) {place place' : Position}
      (hplace : f place = f place') :
      Like f (.addModule parent name place) (.addModule parent name place')
  | addRoutine (kind : RoutineKind) (parent : DeclId) (name : String) {spec spec' : RoutineSpec}
      (h : spec.relocate f = spec'.relocate f) {place place' : Position}
      (hplace : f place = f place') :
      Like f (.addRoutine kind parent name spec place) (.addRoutine kind parent name spec' place')
  | addConstructor (cls : DeclId) {spec spec' : RoutineSpec}
      (h : spec.relocate f = spec'.relocate f) {place place' : Position}
      (hplace : f place = f place') :
      Like f (.addConstructor cls spec place) (.addConstructor cls spec' place')
  | addDestructor (cls : DeclId) {spec spec' : RoutineSpec}
      (h : spec.relocate f = spec'.relocate f) {place place' : Position}
      (hplace : f place = f place') :
      Like f (.addDestructor cls spec place) (.addDestructor cls spec' place')
  | addLocal (routine : DeclId) (name : String) {place place' : Position}
      (hplace : f place = f place') :
      Like f (.addLocal routine name place) (.addLocal routine name place')
  | addEnumerator (id : DeclId) (name : String) {init init' : Option Expr}
      (h : init.map (Expr.relocate f) = init'.map (Expr.relocate f)) {place place' : Position}
      (hplace : f place = f place') :
      Like f (.addEnumerator id name init place) (.addEnumerator id name init' place')
  | setSuperclass (cls : DeclId) {superclass superclass' : Expr}
      (h : superclass.relocate f = superclass'.relocate f) :
      Like f (.setSuperclass cls superclass) (.setSuperclass cls superclass')
  | setInitializers (routine : DeclId) {inits inits' : List MemberInit}
      (h : inits.map (MemberInit.relocate f) = inits'.map (MemberInit.relocate f)) :
      Like f (.setInitializers routine inits) (.setInitializers routine inits')
  | setStatements (routine : DeclId) {body body' : List Stmt}
      (h : Stmt.relocateAll f body = Stmt.relocateAll f body') :
      Like f (.setStatements routine body) (.setStatements routine body')
  | setValue (id : DeclId) {value value' : Expr} (h : value.relocate f = value'.relocate f) :
      Like f (.setValue id value) (.setValue id value')
  | nameAnonymous (id : DeclId) (name : String) :
      Like f (.nameAnonymous id name) (.nameAnonymous id name)
  | dissolve (id : DeclId) : Like f (.dissolve id) (.dissolve id)
  | notice {w w' : String} (h : NoticeLike f w w') : Like f (.notice w) (.notice w')

theorem Like.apply {α : Type} {op op' : Build α} (hop : op.Like f op') {s t : Store}
    (h : s.Like f t) : Store.Like.Changed f (op.apply s) (op'.apply t) := by
  have hok : ∀ {β : Type} {r r' : β × Store}, Store.Like.Makes f r r' →
      Store.Like.Changed f (.ok r) (.ok r') := by
    rintro β ⟨_, u⟩ ⟨b, v⟩ ⟨rfl, huv⟩
    exact .ok b huv
  cases hop with
  | add parent name hentity hplace => exact hok (h.add hplace parent name hentity)
  | addModule parent name hplace => exact hok (h.addModule hplace parent name)
  | addRoutine kind parent name hspec hplace =>
    exact hok (h.addRoutine hspec hplace kind parent name)
  | addConstructor cls hspec hplace => exact hok (h.addConstructor hspec hplace cls)
  | addDestructor cls hspec hplace => exact h.addDestructor hspec hplace cls
  | addLocal routine name hplace => exact hok (h.addLocal hplace routine name)
  | addEnumerator id name hinit hplace => exact .ok () (h.addEnumerator hplace id name hinit)
  | setSuperclass cls hsuper => exact .ok () (h.setSuperclass cls hsuper)
  | setInitializers routine hinits => exact .ok () (h.setInitializers routine hinits)
  | setStatements routine hbody => exact .ok () (h.setStatements routine hbody)
  | setValue id hvalue => exact .ok () (h.setValue id hvalue)
  | nameAnonymous id name => exact .ok () (h.nameAnonymous id name)
  | dissolve id => exact .ok () (h.dissolve id)
  | notice hw => exact .ok () (h.notice hw)

end Build

end Serpentine
