import Serpentine.Reference.Resolve

/-!
# Uses of names

What names are bound to depends on the names, the tables and the sorts of declarations alone, and
neither on values and bodies nor on the imports of modules. So resolving binds each use as it is
bound in the program at the start, and then puts in the imports that the uses ask for.
-/

namespace Serpentine

/-! ## Outlines of programs -/

/-- The module without imports. -/
def Module.bare (m : Module) : Module :=
  { m with imports := [] }

/-- The entity without imports. -/
def Entity.bare : Entity → Entity
  | .namespaceOf m => .namespaceOf m.bare
  | e => e

/-- The declaration without imports. -/
def Declaration.bare (d : Declaration) : Declaration :=
  { d with entity := d.entity.bare }

/-- What lookups see of a base class: its name. -/
def Expr.outline : Expr → Expr
  | .name ref => .name ⟨0, ref.raw, 0, default⟩
  | .scoped ref => .scoped ⟨0, ref.raw, 0, default⟩
  | _ => .self

theorem Enumerator.init_of_zero : ∀ e, EnumValue.int 0 = .expr e → none = some e :=
  fun _ h => EnumValue.noConfusion h

/-- An enumerator without its value. -/
def Enumerator.outline (e : Enumerator) : Enumerator :=
  ⟨e.name, none, .int 0, default, Enumerator.init_of_zero⟩

theorem eq_ok_of_toOption {ε α : Type} {x : Except ε α} {a : α} (h : x.toOption = some a) :
    x = .ok a := by
  cases x with
  | error fault => cases h
  | ok b =>
    cases h
    rfl

/-- The names of the enumerators. -/
def Enumeration.outline (e : Enumeration) : Enumeration :=
  { e with enumerators := e.enumerators.map Enumerator.outline }

/-- A class with the name of its base. -/
def ClassType.outline (c : ClassType) : ClassType :=
  { c with superclass := c.superclass.map Expr.outline }

/-- A routine without its body. -/
def Routine.outline (r : Routine) : Routine :=
  { r with statements := none, initializers := [] }

/-- What lookups see of an entity. -/
def Entity.outline : Entity → Entity
  | .namespaceOf m => .namespaceOf m.bare
  | .enumeration e => .enumeration e.outline
  | .classType c => .classType c.outline
  | .routine kind r => .routine kind r.outline
  | .attribute a => .attribute { a with value := none }
  | .variableOf v => .variableOf { v with value := none }
  | .parameter p => .parameter { p with default := none }

/-- What lookups see of a declaration. -/
def Declaration.outline (d : Declaration) : Declaration :=
  { d with place := default, entity := d.entity.outline }

theorem Enumeration.indexOf?_outline (e : Enumeration) (name : String) :
    e.outline.indexOf? name = e.indexOf? name := by
  rw [indexOf?, outline, List.findIdx?_map]
  rfl

namespace Store

theorem nested_map (s : Store) {g : Declaration → Declaration} (hg : ∀ d, (g d).parent = d.parent)
    (id parent : DeclId) (h : ((s.decls.map g)[id]?.bind (·.parent)) = some parent) :
    parent < id := by
  rw [Array.getElem?_map, Option.bind_map] at h
  exact s.nested id parent (by simpa only [Function.comp_def, hg] using h)

/-- A program reduced to what lookups see. -/
def outline (s : Store) : Store :=
  { decls := s.decls.map Declaration.outline
    nextRef := 0
    notices := []
    nested := s.nested_map fun _ => rfl }

variable (s : Store) (id : DeclId)

theorem getElem?_outline :
    s.outline.decls[id]? = s.decls[id]?.map Declaration.outline :=
  Array.getElem?_map

theorem name?_outline : s.outline.name? id = s.name? id := by
  unfold name?
  rw [getElem?_outline, Option.bind_map]
  rfl

theorem parent?_outline : s.outline.parent? id = s.parent? id := by
  unfold parent?
  rw [getElem?_outline, Option.bind_map]
  rfl

theorem owningModule_outline : s.outline.owningModule id = s.owningModule id := by
  unfold owningModule
  rw [getElem?_outline, Option.map_map]
  rfl

theorem entity?_outline :
    s.outline.entity? id = (s.entity? id).map Entity.outline := by
  unfold entity?
  rw [getElem?_outline, Option.map_map, Option.map_map]
  rfl

theorem module?_outline : s.outline.module? id = (s.module? id).map Module.bare := by
  unfold module?
  rw [entity?_outline]
  rcases s.entity? id with _ | _ | _ | _ | _ | _ | _ | _ <;> rfl

theorem class?_outline :
    s.outline.class? id = (s.class? id).map ClassType.outline := by
  unfold class?
  rw [entity?_outline]
  rcases s.entity? id with _ | _ | _ | _ | _ | _ | _ | _ <;> rfl

theorem enumeration?_outline :
    s.outline.enumeration? id = (s.enumeration? id).map Enumeration.outline := by
  unfold enumeration?
  rw [entity?_outline]
  rcases s.entity? id with _ | _ | _ | _ | _ | _ | _ | _ <;> rfl

theorem isModule_outline : s.outline.isModule id = s.isModule id := by
  unfold isModule
  rw [module?_outline, Option.isSome_map]

theorem modulePath_outline : s.outline.modulePath id = s.modulePath id := by
  unfold modulePath
  rw [module?_outline, owningModule_outline, Option.map_map]
  rfl

/-! ## Lookups -/

theorem ancestorsWithin_outline (n : Nat) (id : DeclId) :
    s.outline.ancestorsWithin n id = s.ancestorsWithin n id := by
  induction n generalizing id with
  | zero => rfl
  | succ n ih =>
    unfold ancestorsWithin
    simp only [parent?_outline, ih]

theorem ancestors_outline : s.outline.ancestors id = s.ancestors id :=
  s.ancestorsWithin_outline _ id

theorem lookupIn_outline (members : Members) (name : String) :
    s.outline.lookupIn members name = s.lookupIn members name := by
  unfold lookupIn
  cases members.get? name with
  | some id => rfl
  | none =>
    refine congrArg (List.findSome? · members.order) (funext fun id => ?_)
    rw [enumeration?_outline]
    cases s.enumeration? id with
    | none => rfl
    | some e =>
      simp only [Option.map_some, Enumeration.indexOf?_outline]
      rfl

theorem superclassName?_outline (cls : DeclId) :
    s.outline.superclassName? cls = s.superclassName? cls := by
  unfold superclassName?
  rw [class?_outline, Option.bind_map]
  cases s.class? cls with
  | none => rfl
  | some c =>
    obtain ⟨key, superclass, constructors, destructor, members⟩ := c
    cases superclass with
    | none => rfl
    | some e => cases e <;> rfl

theorem memberSearch_outline (n : Nat) (id : DeclId) (name : String) :
    s.outline.memberSearch n id name = s.memberSearch n id name := by
  have hbase (id : DeclId) : s.outline.baseOf id = s.baseOf id := by
    unfold baseOf
    rw [superclassName?_outline]
  fun_induction memberSearch s n id name <;> rw [memberSearch, entity?_outline]
  case case7 =>
    generalize s.entity? _ = found at *
    rcases found with _ | _ | _ | _ | _ | _ | _ | _ <;> simp_all [Entity.outline]
  all_goals
    simp only [Option.map_some, Entity.outline, Enumeration.indexOf?_outline, ClassType.outline,
      Module.bare, Routine.outline, lookupIn_outline, *]

theorem firstSearch_outline (name : String) (ids : List DeclId) :
    s.outline.firstSearch name ids = s.firstSearch name ids := by
  induction ids with
  | nil => rfl
  | cons id rest ih =>
    unfold firstSearch
    rw [memberSearch_outline, ih]

theorem walkSearch_outline (found : Found) (segments : List String) :
    s.outline.walkSearch found segments = s.walkSearch found segments := by
  induction segments generalizing found with
  | nil => cases found <;> rfl
  | cons segment rest ih =>
    cases found with
    | enumerator => rfl
    | decl id =>
      unfold walkSearch
      simp only [memberSearch_outline, ih]

theorem qualifiedSearch_outline (scope : DeclId) (segments : List String) :
    s.outline.qualifiedSearch scope segments = s.qualifiedSearch scope segments := by
  unfold qualifiedSearch lexicalSearch
  simp only [memberSearch_outline, firstSearch_outline, ancestors_outline, walkSearch_outline]

theorem baseSearch_outline (cls : DeclId) : s.outline.baseSearch cls = s.baseSearch cls := by
  unfold baseSearch
  simp only [superclassName?_outline, parent?_outline, qualifiedSearch_outline, class?_outline,
    Option.isSome_map]

theorem findBase_outline : s.outline.findBase = s.findBase := by
  have hwithin : ∀ n, s.outline.baseWithin n = s.baseWithin n := by
    intro n
    induction n with
    | zero => rfl
    | succ n ih =>
      funext cls
      unfold baseWithin
      rw [baseSearch_outline, ih]
  have hsize : s.outline.maxWaiting = s.maxWaiting := by
    unfold maxWaiting
    rw [show s.outline.decls.size = s.decls.size from Array.size_map]
  funext cls
  unfold findBase
  rw [hwithin, hsize]

theorem lookupMember_outline (name : String) :
    s.outline.lookupMember id name = s.lookupMember id name := by
  unfold lookupMember findMember
  rw [memberSearch_outline, findBase_outline]

theorem lookupQualified_outline (scope : DeclId) (segments : List String) :
    s.outline.lookupQualified scope segments = s.lookupQualified scope segments := by
  unfold lookupQualified findQualified
  rw [qualifiedSearch_outline, findBase_outline]

/-! ## Bindings -/

theorem targetKind_outline (requester id : DeclId) :
    s.outline.targetKind requester id = s.targetKind requester id := by
  unfold targetKind
  rw [entity?_outline, parent?_outline]
  rcases s.entity? id with _ | _ | _ | _ | ⟨_ | _⟩ | _ | _ | _ <;> rfl

theorem namesBelowModule_outline :
    s.outline.namesBelowModule id = s.namesBelowModule id := by
  have hname : s.outline.name? = s.name? := funext s.name?_outline
  unfold namesBelowModule pathBelowModule belowModule
  simp only [ancestors_outline, isModule_outline, hname]

theorem bindDeclared_outline (requester id : DeclId) :
    s.outline.bindDeclared requester id = s.bindDeclared requester id := by
  unfold bindDeclared
  rw [namesBelowModule_outline, modulePath_outline, owningModule_outline]

theorem enumeratorName_outline (enumeration : DeclId) (index : Nat) :
    s.outline.enumeratorName enumeration index = s.enumeratorName enumeration index := by
  unfold enumeratorName
  rw [enumeration?_outline, Option.bind_map]
  cases s.enumeration? enumeration with
  | none => rfl
  | some e =>
    simp only [Option.bind_some, Function.comp_apply, Enumeration.outline, List.getElem?_map,
      Option.map_map]
    rfl

theorem bindEnumerator_outline (requester enumeration : DeclId) (index : Nat) :
    s.outline.bindEnumerator requester enumeration index =
      s.bindEnumerator requester enumeration index := by
  unfold bindEnumerator
  simp only [enumeratorName_outline, name?_outline, bindDeclared_outline, parent?_outline,
    isModule_outline, modulePath_outline]

theorem bind_outline (ref : NameRef) : s.outline.bind ref = s.bind ref := by
  unfold bind bindName bindFound bindScoped bindModule bindOwn
  simp only [owningModule_outline, ancestors_outline, lookupMember_outline, lookupQualified_outline,
    bindEnumerator_outline, bindDeclared_outline, targetKind_outline, isModule_outline,
    class?_outline, Option.isSome_map, name?_outline, modulePath_outline, enumeratorName_outline]

theorem eq_of_decls {s t : Store} (hdecls : s.decls = t.decls) (href : s.nextRef = t.nextRef)
    (hnotices : s.notices = t.notices) : s = t := by
  obtain ⟨decls, nextRef, notices, nested⟩ := s
  obtain ⟨decls', nextRef', notices', nested'⟩ := t
  cases hdecls
  cases href
  cases hnotices
  rfl

/-! ## Imports -/

theorem getElem?_addImport (id other : DeclId) (request : ImportRequest) :
    (s.addImport id request).decls[other]? =
      if id = other then s.decls[other]?.map fun d => { d with entity := match d.entity with
        | .namespaceOf m => .namespaceOf (m.addImport request.1 request.2)
        | e => e }
      else s.decls[other]? :=
  Array.getElem?_modify

/-- A program without imports. -/
def bare (s : Store) : Store :=
  { s with
    decls := s.decls.map Declaration.bare
    nested := s.nested_map fun _ => rfl }

theorem getElem?_bare : s.bare.decls[id]? = s.decls[id]?.map Declaration.bare :=
  Array.getElem?_map

theorem bare_addImport (request : ImportRequest) :
    (s.addImport id request).bare = s.bare := by
  refine eq_of_decls (Array.ext_getElem? fun other => ?_) rfl rfl
  rw [getElem?_bare, getElem?_bare, getElem?_addImport]
  split
  · cases s.decls[other]? with
    | none => rfl
    | some d =>
      obtain ⟨name, parent, root, place, entity⟩ := d
      cases entity <;> rfl
  · rfl

theorem outline_bare : s.bare.outline = s.outline := by
  refine eq_of_decls (Array.ext_getElem? fun id => ?_) rfl rfl
  rw [getElem?_outline, getElem?_outline, getElem?_bare, Option.map_map]
  congr 1
  funext d
  obtain ⟨name, parent, root, place, entity⟩ := d
  cases entity <;> rfl

section

variable (request : ImportRequest)

theorem outline_addImport :
    (s.addImport id request).outline = s.outline := by
  rw [← outline_bare, bare_addImport, outline_bare]

theorem bind_addImport (ref : NameRef) :
    (s.addImport id request).bind ref = s.bind ref := by
  rw [← bind_outline, outline_addImport, bind_outline]

theorem owningModule_addImport (other : DeclId) :
    (s.addImport id request).owningModule other = s.owningModule other := by
  rw [← owningModule_outline, outline_addImport, owningModule_outline]

theorem isModule_addImport (other : DeclId) :
    (s.addImport id request).isModule other = s.isModule other := by
  rw [← isModule_outline, outline_addImport, isModule_outline]

end

theorem mainFunction?_bare : s.bare.mainFunction? = s.mainFunction? := by
  have hentity (id : DeclId) : s.bare.entity? id = (s.entity? id).map Entity.bare := by
    unfold entity?
    rw [getElem?_bare, Option.map_map, Option.map_map]
    rfl
  have hmodule : s.bare.module? root = (s.module? root).map Module.bare := by
    unfold module?
    rw [hentity]
    rcases s.entity? root with _ | _ | _ | _ | _ | _ | _ | _ <;> rfl
  unfold mainFunction?
  rw [hmodule]
  cases s.module? root with
  | none => rfl
  | some m =>
    show (m.members.get? "main").bind _ = (m.members.get? "main").bind _
    congr 1
    funext id
    rw [hentity]
    rcases s.entity? id with _ | _ | _ | _ | ⟨_ | _⟩ | _ | _ | _ <;> rfl

end Store

/-! ## Bound uses -/

namespace Store

/-- The uses that get bound, each in its turn. -/
def bindAll (s : Store) : Resolutions → List NameRef → Except Fault (List (NameRef × Bound))
  | _, [] => .ok []
  | table, ref :: rest =>
    match table.get? ref.id with
    | some _ => s.bindAll table rest
    | none => do
      let b ← s.bind ref
      return (ref, b) :: (← s.bindAll ((ref.id, b.resolution) :: table) rest)

/-- The program with the imports that uses ask for. -/
def addRequests (s : Store) : List (NameRef × Bound) → Store
  | [] => s
  | (ref, b) :: rest =>
    match b.request with
    | none => s.addRequests rest
    | some request => (s.addImport (s.owningModule ref.scope) request).addRequests rest

theorem bindAll_addImport (s : Store) (id : DeclId) (request : ImportRequest) (table : Resolutions)
    (refs : List NameRef) : (s.addImport id request).bindAll table refs = s.bindAll table refs := by
  induction refs generalizing table with
  | nil => rfl
  | cons ref rest ih =>
    unfold bindAll
    simp only [bind_addImport, ih]

theorem bare_addRequests (s : Store) (uses : List (NameRef × Bound)) :
    (s.addRequests uses).bare = s.bare := by
  induction uses generalizing s with
  | nil => rfl
  | cons use rest ih =>
    obtain ⟨ref, b⟩ := use
    unfold addRequests
    cases b.request with
    | none => exact ih s
    | some request => exact (ih _).trans (bare_addImport s _ request)

theorem outline_addRequests (s : Store) (uses : List (NameRef × Bound)) :
    (s.addRequests uses).outline = s.outline := by
  rw [← outline_bare, bare_addRequests, outline_bare]

variable {s : Store} {table : Resolutions} {refs : List NameRef} {uses : List (NameRef × Bound)}

theorem bindAll_cons_eq_ok {ref : NameRef} (hnew : table.get? ref.id = none) :
    s.bindAll table (ref :: refs) = .ok uses ↔
      ∃ b rest, s.bind ref = .ok b ∧ s.bindAll ((ref.id, b.resolution) :: table) refs = .ok rest ∧
        uses = (ref, b) :: rest := by
  rw [bindAll, hnew]
  cases s.bind ref with
  | error fault => simp [Bind.bind, Except.bind]
  | ok b =>
    show (s.bindAll ((ref.id, b.resolution) :: table) refs >>= _) = _ ↔ _
    cases hrest : s.bindAll ((ref.id, b.resolution) :: table) refs with
    | error fault => simp [Bind.bind, Except.bind, hrest]
    | ok rest => simp [Bind.bind, Except.bind, pure, Except.pure, hrest, eq_comm]

theorem bindAll_cons_of_bound {ref : NameRef} {r : Resolution}
    (hold : table.get? ref.id = some r) : s.bindAll table (ref :: refs) = s.bindAll table refs := by
  rw [bindAll, hold]

section

variable (h : s.bindAll table refs = .ok uses)

include h

theorem use_of_bindAll : ∀ use ∈ uses, use.1 ∈ refs ∧ s.bind use.1 = .ok use.2 := by
  induction refs generalizing table uses with
  | nil =>
    cases h
    simp
  | cons ref refs ih =>
    cases hbound : table.get? ref.id with
    | some r =>
      rw [bindAll_cons_of_bound hbound] at h
      exact fun use huse => (ih h use huse).imp_left (List.mem_cons_of_mem _)
    | none =>
      obtain ⟨b, rest, hb, hrest, rfl⟩ := (bindAll_cons_eq_ok hbound).1 h
      exact List.forall_mem_cons.2 ⟨⟨List.mem_cons_self, hb⟩, fun use huse =>
        (ih hrest use huse).imp_left (List.mem_cons_of_mem _)⟩

theorem mem_of_bindAll : ∀ use ∈ uses, use.1 ∈ refs :=
  fun use huse => (use_of_bindAll h use huse).1

theorem bind_of_bindAll : ∀ use ∈ uses, s.bind use.1 = .ok use.2 :=
  fun use huse => (use_of_bindAll h use huse).2

theorem exists_use_of_bindAll :
    ∀ ref ∈ refs, table.get? ref.id = none → ∃ use ∈ uses, use.1.id = ref.id := by
  induction refs generalizing table uses with
  | nil => simp
  | cons ref refs ih =>
    cases hbound : table.get? ref.id with
    | some r =>
      rw [bindAll_cons_of_bound hbound] at h
      exact List.forall_mem_cons.2 ⟨fun hnew => absurd hbound (by simp [hnew]), ih h⟩
    | none =>
      obtain ⟨b, rest, hb, hrest, rfl⟩ := (bindAll_cons_eq_ok hbound).1 h
      refine List.forall_mem_cons.2 ⟨fun _ => ⟨(ref, b), List.mem_cons_self, rfl⟩, ?_⟩
      intro other hother hnew
      by_cases hid : other.id = ref.id
      · exact ⟨(ref, b), List.mem_cons_self, hid.symm⟩
      · have hlater : Resolutions.get? ((ref.id, b.resolution) :: table) other.id = none := by
          rw [Resolutions.get?, List.lookup_cons, beq_eq_false_iff_ne.mpr hid]
          exact hnew
        obtain ⟨use, huse, hsame⟩ := ih hrest other hother hlater
        exact ⟨use, List.mem_cons_of_mem _ huse, hsame⟩

end

end Store

/-! ## Tables that grow -/

namespace Resolutions

/-- The table has all bindings of another one. -/
def Extends (after before : Resolutions) : Prop :=
  ∀ id r, before.get? id = some r → after.get? id = some r

theorem Extends.refl (table : Resolutions) : table.Extends table :=
  fun _ _ h => h

theorem Extends.trans {t u v : Resolutions} (huv : v.Extends u) (htu : u.Extends t) : v.Extends t :=
  fun id r h => huv id r (htu id r h)

theorem extends_cons {table : Resolutions} {id : RefId} (hnew : table.get? id = none)
    (r : Resolution) : Extends ((id, r) :: table) table := by
  intro other old hold
  have hne : other ≠ id := by
    rintro rfl
    rw [hnew] at hold
    cases hold
  rw [get?, List.lookup_cons, beq_eq_false_iff_ne.mpr hne]
  exact hold

end Resolutions

namespace Resolving

variable {r next : Resolving} {ref : NameRef} {refs : List NameRef}

/-- What binding one name can do: nothing if it is bound, else an entry for it and at most one
import. -/
theorem step_cases (h : r.step ref = .ok next) :
    ((r.table.get? ref.id).isSome ∧ next = r) ∨
      r.table.get? ref.id = none ∧ ∃ b, r.store.bind ref = .ok b ∧
        next.table = (ref.id, b.resolution) :: r.table ∧
        (next.store = r.store ∨
          ∃ id, ∃ request ∈ b.request, next.store = r.store.addImport id request) := by
  unfold step at h
  cases hbound : r.table.get? ref.id with
  | some old =>
    simp only [hbound] at h
    cases h
    exact .inl ⟨rfl, rfl⟩
  | none =>
    simp only [hbound] at h
    cases hbind : r.store.bind ref with
    | error fault =>
      simp only [hbind] at h
      cases h
    | ok b =>
      simp only [hbind] at h
      cases h
      refine .inr ⟨rfl, b, rfl, rfl, ?_⟩
      cases b.request with
      | none => exact .inl rfl
      | some request => exact .inr ⟨_, request, rfl, rfl⟩

/-- What binding one name keeps, a run keeps, whether it ends in a fault or not. -/
theorem run_induction {P : Resolving → Prop}
    (hstep : ∀ r, ∀ ref ∈ refs, ∀ next, r.step ref = .ok next → P r → P next) (h : P r) :
    P (r.run refs).2 := by
  induction refs generalizing r with
  | nil => exact h
  | cons ref rest ih =>
    rw [run]
    cases hs : r.step ref with
    | error fault => exact h
    | ok next =>
      exact ih (fun r ref href => hstep r ref (List.mem_cons_of_mem _ href))
        (hstep r ref List.mem_cons_self next hs h)

theorem extends_run : (r.run refs).2.table.Extends r.table := by
  refine run_induction (P := fun u => u.table.Extends r.table) ?_ (.refl _)
  intro u ref _ next hs hu
  obtain ⟨-, rfl⟩ | ⟨hnew, b, -, htable, -⟩ := step_cases hs
  · exact hu
  · rw [htable]
    exact (Resolutions.extends_cons hnew _).trans hu

theorem run_ok {s : Store} {table : Resolutions}
    (h : Resolving.run ⟨s, table⟩ refs = (.ok (), r)) :
    ∃ uses, s.bindAll table refs = .ok uses ∧ r.store = s.addRequests uses ∧
      ∀ use ∈ uses, r.table.get? use.1.id = some use.2.resolution := by
  induction refs generalizing s table with
  | nil =>
    cases h
    exact ⟨[], rfl, rfl, by simp⟩
  | cons ref rest ih =>
    unfold run step at h
    cases hbound : table.get? ref.id with
    | some resolution =>
      simp only [hbound] at h
      rw [Store.bindAll_cons_of_bound hbound]
      exact ih h
    | none =>
      simp only [hbound] at h
      cases hbind : s.bind ref with
      | error fault =>
        simp only [hbind] at h
        cases h
      | ok b =>
        simp only [hbind] at h
        have hkept : r.table.get? ref.id = some b.resolution := by
          rw [show r = _ from (congrArg Prod.snd h).symm]
          exact extends_run _ _ (by rw [Resolutions.get?, List.lookup_cons_self])
        obtain ⟨uses, huses, hstore, htable⟩ := ih h
        refine ⟨(ref, b) :: uses, (Store.bindAll_cons_eq_ok hbound).2 ⟨b, uses, hbind, ?_, rfl⟩,
          ?_, List.forall_mem_cons.mpr ⟨hkept, htable⟩⟩
        · cases hrequest : b.request with
          | none =>
            rw [hrequest] at huses
            exact huses
          | some request =>
            rw [hrequest, Store.bindAll_addImport] at huses
            exact huses
        · rw [hstore, Store.addRequests]
          cases b.request <;> rfl

end Resolving

theorem resolve_ok {s : Store} {table : Resolutions} {r : Resolving}
    (h : resolve s table = (.ok (), r)) :
    ∃ uses, s.bindAll table s.references = .ok uses ∧
      r.store = (s.addRequests uses).importForMain ∧
      ∀ use ∈ uses, r.table.get? use.1.id = some use.2.resolution := by
  unfold resolve at h
  cases hrun : Resolving.run ⟨s, table⟩ s.references with
  | mk outcome last =>
    rw [hrun] at h
    cases outcome with
    | error fault => cases h
    | ok _ =>
      cases h
      obtain ⟨uses, huses, hstore, htable⟩ := Resolving.run_ok hrun
      refine ⟨uses, huses, ?_, htable⟩
      rw [← hstore]

end Serpentine
