import Serpentine.Proofs.Lowering.Composition

/-!
# Modules of the script, part by part

The text of a module depends on places in faults and warnings only, and on the bindings only of the
names in expressions that a script may print. What holds of the parts that it is put together from
holds of all its items (**`Scene.matched_lowerModule`**). Both are shown at once.
-/

namespace Serpentine

/-! ## Printed expressions -/

/-- The expression that an enumerator is written with, if its value is kept as it is. -/
def EnumValue.expr? : EnumValue → Option Expr
  | .expr e => some e
  | _ => none

/-- The expressions of an entity that a script may print. -/
def Entity.printed : Entity → List Expr
  | .enumeration e => e.enumerators.filterMap (·.value.expr?)
  | e => e.exprs

/-- The expressions of a program that a script may print. -/
def Store.printed (s : Store) : List Expr :=
  s.decls.toList.flatMap (·.entity.printed)

/-- The entity is a variable or an attribute. -/
def Entity.isValue : Entity → Bool
  | .attribute _ | .variableOf _ => true
  | _ => false

theorem Entity.printed_subset (e : Entity) : e.printed ⊆ e.exprs := by
  cases e with
  | enumeration e =>
    intro x hx
    obtain ⟨enumerator, hmem, hvalue⟩ := List.mem_filterMap.mp hx
    refine List.mem_flatMap.mpr ⟨enumerator, hmem, ?_⟩
    cases hexpr : enumerator.value with
    | expr written =>
      rw [hexpr] at hvalue
      cases hvalue
      rw [enumerator.init_of_value x hexpr]
      exact List.mem_singleton_self x
    | int | offset =>
      rw [hexpr] at hvalue
      cases hvalue
  | _ => exact List.Subset.refl _

variable {id : DeclId}

theorem Store.mem_printed {s : Store} {e : Entity} (h : s.entity? id = some e) {x : Expr}
    (hx : x ∈ e.printed) : x ∈ s.printed := by
  obtain ⟨d, hd, rfl⟩ := Option.map_eq_some_iff.mp h
  exact List.mem_flatMap.mpr ⟨d, Array.mem_toList_iff.mpr (Array.mem_of_getElem? hd), hx⟩

theorem Store.Relocated.place {f : Position → Position} {s t : Store} (h : s.Relocated f t)
    (hf : f ⟨"", 0, none⟩ = ⟨"", 0, none⟩) (id : DeclId) : t.place id = f (s.place id) := by
  unfold Store.place
  rw [h.getElem?]
  cases s.decls[id]? with
  | none => exact hf.symm
  | some d => rfl

namespace Lowering

open Script (Term Item Def)
open Script.Stmt (Holds HoldsAll holdsAll_append holdsAll_singleton holdsAll_iff)
open Lower

variable {f : Position → Position}

/-! ## Bodies -/

namespace Lower

variable {α β γ : Type}

instance : LawfulMonad Lower := by
  refine LawfulMonad.mk' _ ?_ ?_ ?_
  · intro α x
    obtain ⟨warnings, _ | a⟩ := x
    · rfl
    · show (⟨warnings ++ [], .ok a⟩ : Lower α) = ⟨warnings, .ok a⟩
      rw [List.append_nil]
  · intro α β a next
    rfl
  · intro α β γ x next last
    obtain ⟨warnings, _ | a⟩ := x
    · rfl
    · show Lower.bind (Lower.bind ⟨warnings, .ok a⟩ next) last =
        Lower.bind ⟨warnings, .ok a⟩ fun a => Lower.bind (next a) last
      unfold Lower.bind
      dsimp only
      rcases next a with ⟨others, _ | b⟩
      · rfl
      · dsimp only
        rw [List.append_assoc]

theorem matched_mapM {P : α → Prop} {p q : γ → Lower α} {l : List γ}
    (h : ∀ a ∈ l, Matched f P (p a) (q a)) :
    Matched f (fun as => ∀ a ∈ as, P a) (l.mapM p) (l.mapM q) := by
  induction l with
  | nil => exact matched_pure nofun
  | cons a rest ih =>
    obtain ⟨hfirst, hrest⟩ := List.forall_mem_cons.mp h
    rw [List.mapM_cons, List.mapM_cons]
    exact .bind hfirst fun _ ha => .bind (ih hrest) fun _ has =>
      matched_pure (List.forall_mem_cons.2 ⟨ha, has⟩)

theorem relocated_foldlM {p q : α → γ → Lower α} {l : List γ}
    (h : ∀ x, ∀ a ∈ l, Relocated f (p x a) (q x a)) (init : α) :
    Relocated f (l.foldlM p init) (l.foldlM q init) := by
  induction l generalizing init with
  | nil => exact relocated_pure _
  | cons a rest ih =>
    rw [List.foldlM_cons, List.foldlM_cons]
    refine relocated_bind (h init a List.mem_cons_self) fun x _ => ?_
    exact ih (fun x b hb => h x b (List.mem_cons_of_mem _ hb)) x

end Lower

theorem Env.globals_relocate {env env' : Env} {X : Expr → Prop} (ha : Alike f env env' X)
    {body : List Stmt} (hbody : ∀ e ∈ Stmt.exprsOfBlock body, e.Every X) :
    env'.globals (Stmt.relocateAll f body) = env.globals body := by
  have hbound : ∀ part ∈ (Stmt.exprsOfBlock body).flatMap Expr.parts,
      ((part.relocate f).assigned?.bind fun t =>
        t.targetName?.bind fun ref => env'.table.get? ref.id) =
      part.assigned?.bind fun t => t.targetName?.bind fun ref => env.table.get? ref.id := by
    intro part hpart
    rw [Expr.assigned?_relocate]
    cases htarget : part.assigned? with
    | none => rfl
    | some target =>
      rw [Option.map_some, Option.bind_some, Option.bind_some, Expr.targetName?_relocate]
      cases hname : target.targetName? with
      | none => rfl
      | some ref =>
        have hknown := Expr.every_of_assigned? hbody hpart htarget
        exact ha.table ref (target.every_targetName? hknown hname)
  have hbounds : ((((Stmt.exprsOfBlock (Stmt.relocateAll f body)).flatMap
      Expr.parts).filterMap Expr.assigned?).filterMap fun t =>
        t.targetName?.bind fun ref => env'.table.get? ref.id) =
      (((Stmt.exprsOfBlock body).flatMap Expr.parts).filterMap Expr.assigned?).filterMap fun t =>
        t.targetName?.bind fun ref => env.table.get? ref.id := by
    rw [Stmt.exprsOfBlock_relocate, Expr.parts_map_relocate, List.filterMap_filterMap,
      List.filterMap_filterMap, List.filterMap_map]
    exact List.filterMap_congr hbound
  unfold globals
  dsimp only
  rw [hbounds]

namespace Scene

/-- Programs with other places, and tables that agree on the names known. -/
structure Alike (f : Position → Position) (X : Expr → Prop) (scene scene' : Scene) : Prop where
  store : scene.store.Relocated f scene'.store
  table : ∀ ref, X (.name ref) ∨ X (.scoped ref) →
    scene'.table.get? ref.id = scene.table.get? ref.id
  /-- A place that is missing stays so. -/
  nowhere : f ⟨"", 0, none⟩ = ⟨"", 0, none⟩

/-- What is to be known besides the parts of statements: of the names and lines that declarations are
made with. `N` is about names, `A` about parameters, `I` about items. -/
structure Furnishes (scene : Scene) (X : Expr → Prop) (P : Stmt → Prop) (V W T : Term → Prop)
    (N : String → Prop) (L : Script.Stmt → Prop) (A : String × Option Term → Prop)
    (I : Item → Prop) : Prop where
  composes id : (scene.env id).Composes X V
  finishes id : Finishes (scene.env id) X P V W T N L
  exprs {e} : e ∈ scene.store.printed → e.Every X
  stmts {id r body} : scene.store.routine? id = some r → r.statements = some body →
    ∀ s ∈ Stmt.innerOfBlock body, P s
  globals id body : L (.global ((scene.env id).globals body))
  self : A selfParam
  param {id r p v} : scene.store.routine? id = some r → p ∈ r.parameters → (∀ t ∈ v, V t) →
    A (Script.identifier ((scene.store.name? p).getD ""), v)
  named {id e} : scene.store.entity? id = some e → (∀ m, e ≠ .namespaceOf m) →
    N (Script.identifier ((scene.store.name? id).getD ""))
  fixed : N "__init__" ∧ N "__del__" ∧ ∀ n, N (initName n)
  tuple {ts} : (∀ t ∈ ts, V t) → V (.tuple ts)
  base {ts} : (∀ t ∈ ts, V t) → L (superInit ts)
  field {id a v} : scene.store.entity? id = some (.attribute a) → V v →
    L (.assign [selfAttr ((scene.store.name? id).getD "")] v)
  own {id r} : scene.store.routine? id = some r → ∀ i ∈ r.initializers, ∀ v, V v →
    L (.assign [selfAttr i.name] v)
  missing : V (.atom "NotImplementedError")
  value {id e v} : scene.store.entity? id = some e → e.isValue → V v →
    L (.assign [.atom (Script.identifier ((scene.store.name? id).getD ""))] v)
  enumerator {id e x v} : scene.store.entity? id = some (.enumeration e) → x ∈ e.enumerators → V v →
    L (.assign [.atom (Script.identifier x.name)] v)
  previous {id e x base n} : scene.store.entity? id = some (.enumeration e) → x ∈ e.enumerators →
    x.value = .offset base n → V (.atom (Script.identifier base))
  stmt {s} : Holds W N L s → I (.stmt s)
  function {name ps s lines} : N name → (∀ p ∈ ps, A p) → HoldsAll W N L lines →
    I (.function ⟨name, ps, s, lines⟩)
  dispatcher {id c} arities : scene.store.entity? id = some (.classType c) →
    I (dispatcher ((scene.store.name? id).getD "") arities)
  enumDef {name lines} : N name → HoldsAll W N L lines → I (.enumDef name lines)
  classDef {name base items} : N name → (∀ t ∈ base, W t) → (∀ item ∈ items, I item) →
    I (.classDef name base items)
  guard : ∀ item ∈ scene.mainGuard, I item

variable {X : Expr → Prop} {P : Stmt → Prop} {V W T : Term → Prop} {N : String → Prop}
  {L : Script.Stmt → Prop} {A : String × Option Term → Prop} {I : Item → Prop}
  {scene scene' : Scene} (h : Scene.Alike f X scene scene')
  (hf : scene.Furnishes X P V W T N L A I)

/-! ## Routines -/

include h in
theorem Alike.env (id : DeclId) : Env.Alike f (scene.env id) (scene'.env id) X :=
  ⟨h.store.place h.nowhere id, h.table⟩

include h hf

theorem tracks_printed (id : DeclId) {e : Expr} (he : e ∈ scene.store.printed) :
    Tracks f V ((scene.env id).term e) ((scene'.env id).term (e.relocate f)) :=
  Env.tracks_term (h.env id) (hf.composes id) e (hf.exprs he)

theorem tracks_allPrinted (id : DeclId) {es : List Expr} (hes : es ⊆ scene.store.printed) :
    Tracks f (fun ts => ∀ t ∈ ts, V t) ((scene.env id).terms es)
      ((scene'.env id).terms (es.map (Expr.relocate f))) := by
  rw [← Expr.relocateAll_eq_map]
  refine Env.tracks_terms (h.env id) (hf.composes id) es ?_
  rw [Expr.partsOfList_eq]
  exact List.forall_mem_flatMap.2 fun e he => hf.exprs (hes he)

variable {r : Routine}

theorem tracks_params (hr : scene.store.routine? id = some r) :
    Tracks f (fun ps => ∀ p ∈ ps, A p) (scene.params (scene.env id) r)
      (scene'.params (scene'.env id) (r.relocate f)) := by
  have hparam : ∀ p ∈ r.parameters,
      Tracks f A (scene.param (scene.env id) p) (scene'.param (scene'.env id) p) := by
    intro p hp
    have hnone := hf.param hr hp (v := none) nofun
    unfold param
    rw [h.store.name?, h.store.entity?]
    cases hentity : scene.store.entity? p with
    | none => exact .pure hnone
    | some e =>
      cases e with
      | parameter q =>
        obtain ⟨type, default⟩ := q
        cases default with
        | none => exact .pure hnone
        | some value =>
          have hvalue := Store.mem_printed hentity (List.mem_singleton_self value)
          exact (tracks_printed h hf id hvalue).bind fun _ _ ht =>
            .pure (hf.param hr hp (by simpa using ht))
      | _ => exact .pure hnone
  have hmap := Tracks.mapM (r := fun p => p) hparam
  rwa [List.map_id'] at hmap

theorem tracks_initValue (id : DeclId) {default : Option Expr} {args : List Expr}
    (hdefault : ∀ e ∈ default, e ∈ scene.store.printed) (hargs : args ⊆ scene.store.printed) :
    Tracks f V (initValue (scene.env id) default args)
      (initValue (scene'.env id) (default.map (Expr.relocate f)) (args.map (Expr.relocate f))) := by
  have hterms := tracks_allPrinted h hf id hargs
  rcases args with _ | ⟨first, _ | ⟨second, rest⟩⟩
  · cases default with
    | none => exact .pure (hf.finishes id).nothing
    | some e => exact tracks_printed h hf id (hdefault e rfl)
  · exact tracks_printed h hf id (hargs List.mem_cons_self)
  · cases default with
    | none => exact hterms.bind fun _ _ hts => .pure (hf.tuple hts)
    | some e =>
      cases e with
      | call callee others =>
        have hcall := hdefault _ rfl
        refine (Env.tracks_term (h.env id) (hf.composes id) callee fun part hpart => ?_).bind
          fun _ _ hcallee => hterms.bind fun _ _ hts => .pure ((hf.composes id).call hcallee hts)
        exact hf.exprs hcall part (List.mem_cons_of_mem _ (List.mem_append_left _ hpart))
      | _ => exact hterms.bind fun _ _ hts => .pure (hf.tuple hts)

theorem tracks_superLines (id : DeclId) (c : ClassType) {inits : List MemberInit}
    (hinits : ∀ i ∈ inits, i.args ⊆ scene.store.printed) :
    Tracks f (HoldsAll W N L) (superLines (scene.env id) c inits)
      (superLines (scene'.env id) (c.relocate f) (inits.map (MemberInit.relocate f))) := by
  unfold superLines
  rw [List.getLast?_map]
  cases hlast : inits.getLast? with
  | none =>
    rw [Option.map_none, show (c.relocate f).superclass.isSome = c.superclass.isSome from
      Option.isSome_map]
    refine .pure ?_
    split
    · exact holdsAll_singleton (hf.base (List.forall_mem_nil _))
    · exact trivial
  | some init =>
    exact (tracks_allPrinted h hf id (hinits init (List.mem_of_getLast? hlast))).bind
      fun _ _ hts => .pure (holdsAll_singleton (hf.base hts))

omit hf in
theorem fields_relocate (c : ClassType) :
    scene'.fields (c.relocate f) =
      (scene.fields c).map fun field => (field.1, field.2.map (Expr.relocate f)) := by
  unfold fields
  rw [List.map_filterMap, show (c.relocate f).members.order = c.members.order from rfl]
  refine congrArg (List.filterMap · _) (funext fun id => ?_)
  rw [h.store.entity?, h.store.name?]
  cases scene.store.entity? id with
  | none => rfl
  | some e =>
    rcases e with _ | _ | _ | _ | ⟨value, _ | _⟩ | _ | _ <;> rfl

variable {c : ClassType}

omit h hf in
theorem exists_of_mem_fields {field : String × Option Expr} (hmem : field ∈ scene.fields c) :
    ∃ id a, scene.store.entity? id = some (.attribute a) ∧
      field = ((scene.store.name? id).getD "", a.value) := by
  obtain ⟨id, -, hid⟩ := List.mem_filterMap.mp hmem
  split at hid
  · next hentity =>
    cases hid
    exact ⟨id, _, hentity, rfl⟩
  · cases hid

omit hf in
theorem attributeValue?_relocate (c : ClassType) (name : String) :
    scene'.attributeValue? (c.relocate f) name =
      (scene.attributeValue? c name).map (Expr.relocate f) := by
  unfold attributeValue?
  rw [show (c.relocate f).members = c.members from rfl]
  cases c.members.get? name with
  | none => rfl
  | some id =>
    rw [Option.bind_some, Option.bind_some, h.store.entity?]
    rcases scene.store.entity? id with _ | _ | _ | _ | _ | _ | _ | _ <;> rfl

omit h hf in
theorem mem_printed_of_attributeValue? {name : String} {e : Expr}
    (hvalue : e ∈ scene.attributeValue? c name) : e ∈ scene.store.printed := by
  unfold attributeValue? at hvalue
  split at hvalue
  · next a hentity =>
    obtain ⟨id, -, hid⟩ := Option.bind_eq_some_iff.mp hentity
    exact Store.mem_printed hid (Option.mem_toList.mpr hvalue)
  · cases hvalue

omit h hf in
theorem baseName?_relocate (c : ClassType) : baseName? (c.relocate f) = baseName? c := by
  obtain ⟨key, superclass, constructors, destructor, members⟩ := c
  cases superclass with
  | none => rfl
  | some e => cases e <;> rfl

/-- What is set before a body that names the base class. -/
def isBaseInit (c : ClassType) (i : MemberInit) : Bool :=
  some (TypeName.last i.name) == baseName? c

/-- The line for an attribute that a constructor does not set itself. -/
def defaultLine (env : Env) (own : List MemberInit) (field : String × Option Expr) :
    Except Fault (Option Script.Stmt) := do
  match field.2 with
  | some value =>
    if own.any (·.name == field.1) then return none
    else return some (Script.Stmt.assign [selfAttr field.1] (← env.term value))
  | none => return none

/-- The line for an attribute that a constructor sets itself. -/
def ownLine (scene : Scene) (env : Env) (c : ClassType) (i : MemberInit) :
    Except Fault Script.Stmt := do
  let value ← initValue env (scene.attributeValue? c i.name) i.args
  return Script.Stmt.assign [selfAttr i.name] value

omit h hf in
theorem prelude_eq (id : DeclId) (c : ClassType) (inits : List MemberInit) :
    scene.prelude (scene.env id) c inits = (do
      let own := inits.filter fun i => !isBaseInit c i
      let first ← superLines (scene.env id) c (inits.filter (isBaseInit c))
      let defaults ← (scene.fields c).filterMapM (defaultLine (scene.env id) own)
      return first ++ defaults ++ (← own.mapM (scene.ownLine (scene.env id) c))) := by
  unfold prelude
  rw [List.partition_eq_filter_filter]
  rfl

theorem tracks_defaultLine (id : DeclId) (own : List MemberInit) {field : String × Option Expr}
    (hfield : field ∈ scene.fields c) :
    Tracks f (fun line => ∀ s ∈ line, Holds W N L s) (defaultLine (scene.env id) own field)
      (defaultLine (scene'.env id) (own.map (MemberInit.relocate f))
        (field.1, field.2.map (Expr.relocate f))) := by
  obtain ⟨of, ⟨value, static⟩, hentity, rfl⟩ := exists_of_mem_fields hfield
  have hset (name : String) :
      (own.map (MemberInit.relocate f)).any (·.name == name) = own.any (·.name == name) := by
    rw [List.any_map]
    rfl
  cases value with
  | none => exact .pure nofun
  | some value =>
    simp only [defaultLine, Option.map_some, hset]
    split
    · exact .pure nofun
    · have hvalue := Store.mem_printed hentity (List.mem_singleton_self value)
      exact (tracks_printed h hf id hvalue).bind fun _ _ hv =>
        .pure (by rintro _ ⟨⟩; exact hf.field hentity hv)

theorem tracks_prelude (id : DeclId) (c : ClassType) {inits : List MemberInit}
    (hargs : ∀ i ∈ inits, i.args ⊆ scene.store.printed)
    (hlines : ∀ i ∈ inits, ∀ v, V v → L (.assign [selfAttr i.name] v)) :
    Tracks f (HoldsAll W N L) (scene.prelude (scene.env id) c inits)
      (scene'.prelude (scene'.env id) (c.relocate f) (inits.map (MemberInit.relocate f))) := by
  have hbase (i : MemberInit) : isBaseInit (c.relocate f) (i.relocate f) = isBaseInit c i := by
    rw [isBaseInit, baseName?_relocate]
    rfl
  have hfilter (p : Bool → Bool) :
      (inits.map (MemberInit.relocate f)).filter (fun i => p (isBaseInit (c.relocate f) i)) =
        (inits.filter fun i => p (isBaseInit c i)).map (MemberInit.relocate f) := by
    rw [List.filter_map]
    simp only [Function.comp_def, hbase]
  rw [prelude_eq, prelude_eq, fields_relocate h]
  dsimp only
  rw [hfilter fun b => b, hfilter not]
  refine (tracks_superLines h hf id c fun i hi => hargs i (List.mem_of_mem_filter hi)).bind
    fun first _ hfirst => ?_
  refine (Tracks.filterMapM fun field => tracks_defaultLine h hf id _).bind
    fun defaults _ hdefaults => ?_
  refine (Tracks.mapM (P := Holds W N L) fun i hi => ?_).bind fun own _ hown => .pure
    (holdsAll_append (holdsAll_append hfirst (holdsAll_iff.2 hdefaults)) (holdsAll_iff.2 hown))
  have hi := List.mem_of_mem_filter hi
  unfold ownLine
  rw [show (i.relocate f).name = i.name from rfl, attributeValue?_relocate h]
  exact (tracks_initValue h hf id (fun _ => mem_printed_of_attributeValue?) (hargs i hi)).bind
    fun v _ hv => .pure (hlines i hi v hv)

omit h hf in
theorem printed_routine (hr : scene.store.routine? id = some r) :
    r.initializers.flatMap (·.args) ++ Stmt.exprsOfElse r.statements ⊆ scene.store.printed := by
  unfold Store.routine? at hr
  split at hr
  · next kind r' hentity =>
    cases hr
    exact fun e he => Store.mem_printed hentity he
  · cases hr

omit h hf in
theorem exprs_subset_printed {body : List Stmt}
    (hr : scene.store.routine? id = some r) (hbody : r.statements = some body) :
    Stmt.exprsOfBlock body ⊆ scene.store.printed := by
  refine fun e he => printed_routine hr (List.mem_append_right _ ?_)
  rw [hbody]
  exact he

omit h hf in
theorem furnishes_any (hX : ∀ e ∈ scene.store.printed, e.Every X) : scene.Furnishes X
    (fun s => ∀ e ∈ s.exprs, e.Every X) (fun _ => True) (fun _ => True) (fun _ => True)
    (fun _ => True) (fun _ => True) (fun _ => True) fun _ => True := by
  constructor
  case exprs => exact hX _
  case stmts =>
    intro id r body hr hbody s hs e he
    exact hX e (exprs_subset_printed hr hbody (Stmt.mem_exprsOfBlock hs he))
  all_goals simp [Env.composes_any, finishes_any]

omit h hf in
theorem args_subset_printed (hr : scene.store.routine? id = some r) :
    ∀ i ∈ r.initializers, i.args ⊆ scene.store.printed := by
  intro i hi e he
  exact printed_routine hr (List.mem_append_left _ (List.mem_flatMap.mpr ⟨i, hi, he⟩))

theorem matched_bodyLines {body : List Stmt} (hr : scene.store.routine? id = some r)
    (hbody : r.statements = some body) : Matched f (HoldsAll W N L)
      (bodyLines (scene.env id) body) (bodyLines (scene'.env id) (Stmt.relocateAll f body)) := by
  have hknown : ∀ e ∈ Stmt.exprsOfBlock body, e.Every X := fun e he =>
    hf.exprs (exprs_subset_printed hr hbody he)
  have hglobals : HoldsAll W N L ((scene.env id).globalLines body) := by
    unfold Env.globalLines
    split
    · exact trivial
    · exact holdsAll_singleton (hf.globals id body)
  have hsame : (scene'.env id).globalLines (Stmt.relocateAll f body) =
      (scene.env id).globalLines body := by
    rw [Env.globalLines, Env.globals_relocate (h.env id) hknown]
    rfl
  unfold bodyLines
  rw [hsame]
  exact .bind (matched_block (h.env id) (hf.composes id) (hf.finishes id) body
    (List.forall_mem_nil _) (Stmt.everyIn_iff_inner.2 (hf.stmts hr hbody))) fun _ hlines =>
      matched_pure (holdsAll_append hglobals hlines)

theorem matched_function {kind : RoutineKind}
    (hentity : scene.store.entity? id = some (.routine kind r)) (isMethod : Bool) :
    Matched f I (scene.function id r isMethod) (scene'.function id (r.relocate f) isMethod) := by
  have hr : scene.store.routine? id = some r := by rw [Store.routine?, hentity]
  unfold function
  rw [h.store.name?, show (r.relocate f).statements = Stmt.relocateElse f r.statements from rfl]
  refine .bind (matched_lift (tracks_params h hf hr)) fun ps hps => ?_
  have hall : ∀ p ∈ if isMethod && !r.isStatic then selfParam :: ps else ps, A p := by
    split
    · exact List.forall_mem_cons.2 ⟨hf.self, hps⟩
    · exact hps
  have hitem {lines : List Script.Stmt} (hlines : HoldsAll W N L lines) :=
    hf.function (s := isMethod && r.isStatic) (hf.named hentity nofun) hall hlines
  cases hbody : r.statements with
  | none =>
    have hmissing := (hf.composes id).call hf.missing (List.forall_mem_nil V)
    exact .bind (matched_pure (holdsAll_singleton ((hf.finishes id).raise hmissing)))
      fun _ hlines => matched_pure (hitem hlines)
  | some body =>
    exact .bind (matched_bodyLines h hf hr hbody) fun _ hlines => matched_pure (hitem hlines)

theorem matched_constructor (c : ClassType) {name : String} (hname : N name) (id : DeclId) :
    Matched f (fun items => ∀ item ∈ items, I item) (scene.constructor c name id)
      (scene'.constructor (c.relocate f) name id) := by
  unfold constructor
  rw [h.store.routine?]
  cases hr : scene.store.routine? id with
  | none => exact matched_pure nofun
  | some r =>
    refine .bind (matched_lift (tracks_params h hf hr)) fun ps hps => ?_
    refine .bind (matched_lift (tracks_prelude h hf id c (args_subset_printed hr) (hf.own hr)))
      fun first hfirst => ?_
    have hitem {lines : List Script.Stmt} (hlines : HoldsAll W N L lines) :=
      List.forall_mem_singleton.2 (hf.function (s := false) hname
        (List.forall_mem_cons.2 ⟨hf.self, hps⟩) (holdsAll_append hfirst hlines))
    rw [show (r.relocate f).statements = Stmt.relocateElse f r.statements from rfl]
    cases hbody : r.statements with
    | none => exact .bind (P := HoldsAll W N L) (matched_pure trivial) fun _ hlines =>
        matched_pure (hitem hlines)
    | some body =>
      exact .bind (matched_bodyLines h hf hr hbody) fun _ hlines => matched_pure (hitem hlines)

theorem matched_destructor (id : DeclId) : Matched f (fun items => ∀ item ∈ items, I item)
    (scene.destructor id) (scene'.destructor id) := by
  unfold destructor
  rw [h.store.routine?]
  cases hr : scene.store.routine? id with
  | none => exact matched_pure nofun
  | some r =>
    simp only [Option.map_some, Option.bind_some, Routine.relocate]
    cases hbody : r.statements with
    | none => exact matched_pure nofun
    | some body =>
      refine .bind (matched_lift (tracks_params h hf hr)) fun ps hps => ?_
      exact .bind (matched_bodyLines h hf hr hbody) fun _ hlines =>
        matched_pure (List.forall_mem_singleton.2 (hf.function hf.fixed.2.1
          (List.forall_mem_cons.2 ⟨hf.self, hps⟩) hlines))

omit hf in
theorem byArity_relocate (className : String) (constructors : List DeclId) :
    Relocated f (scene.byArity className constructors) (scene'.byArity className constructors) := by
  refine relocated_foldlM (fun sorted id _ => ?_) _
  have harity : ((scene'.store.routine? id).map (·.parameters.length)).getD 0 =
      ((scene.store.routine? id).map (·.parameters.length)).getD 0 := by
    rw [h.store.routine?, Option.map_map]
    rfl
  rw [harity, h.store.place h.nowhere]
  dsimp only
  split
  · exact relocated_bind (relocated_warn _ _) fun _ _ => relocated_pure _
  · exact relocated_pure _

theorem matched_constructors (hc : scene.store.entity? id = some (.classType c)) :
    Matched f (fun items => ∀ item ∈ items, I item) (scene.constructors id c)
      (scene'.constructors id (c.relocate f)) := by
  unfold constructors
  rw [h.store.name?]
  refine .bind ⟨byArity_relocate h _ _, gives_any⟩ fun sorted _ => ?_
  rcases sorted with _ | ⟨⟨arity, only⟩, _ | ⟨second, rest⟩⟩
  · have hany : (scene'.fields (c.relocate f)).any (·.2.isSome) =
        (scene.fields c).any (·.2.isSome) := by
      rw [fields_relocate h, List.any_map]
      refine congrArg (scene.fields c).any (funext fun field => ?_)
      exact Option.isSome_map
    simp only [hany]
    split
    · exact .bind (matched_lift (tracks_prelude h hf id c (List.forall_mem_nil _)
        (List.forall_mem_nil _))) fun _ hlines => matched_pure (List.forall_mem_singleton.2
          (hf.function hf.fixed.1 (List.forall_mem_singleton.2 hf.self) hlines))
    · exact matched_pure nofun
  · exact matched_constructor h hf c hf.fixed.1 only
  · exact .bind (matched_mapM fun entry _ => matched_constructor h hf c (hf.fixed.2.2 entry.1)
      entry.2) fun _ hown => matched_pure (List.forall_mem_cons.2
        ⟨hf.dispatcher _ hc, List.forall_mem_flatten.2 hown⟩)

/-! ## Items -/

theorem tracks_enumItems {e : Enumeration} (he : scene.store.entity? id = some (.enumeration e)) :
    Tracks f (fun items => ∀ item ∈ items, I item)
      (enumItems (scene.env id) (scene.store.name? id) e)
      (enumItems (scene'.env id) (scene.store.name? id) (e.relocate f)) := by
  have hline : ∀ x ∈ e.enumerators, Tracks f (Holds W N L) (enumeratorLine (scene.env id) x)
      (enumeratorLine (scene'.env id) (x.relocate f)) := by
    intro x hx
    unfold enumeratorLine
    rw [show (x.relocate f).value = x.value.relocate f from rfl]
    cases hvalue : x.value with
    | int n => exact .pure (hf.enumerator he hx ((hf.finishes id).int n))
    | offset base n => exact .pure (hf.enumerator he hx
        ((hf.composes id).binary .add (hf.previous he hx hvalue) ((hf.finishes id).int n)))
    | expr written =>
      have hwritten : written ∈ scene.store.printed :=
        Store.mem_printed he (List.mem_filterMap.mpr ⟨x, hx, by rw [hvalue]; rfl⟩)
      exact (tracks_printed h hf id hwritten).bind fun _ _ hv => .pure (hf.enumerator he hx hv)
  have hname := hf.named he nofun
  refine (Tracks.mapM hline).bind fun lines _ hlines => ?_
  cases hsome : scene.store.name? id with
  | none => exact .pure (List.forall_mem_map.2 fun s hs => hf.stmt (hlines s hs))
  | some name =>
    rw [hsome] at hname
    exact .pure (List.forall_mem_singleton.2 (hf.enumDef hname (holdsAll_iff.2 hlines)))

theorem matched_methods (c : ClassType) : Matched f (fun items => ∀ item ∈ items, I item)
    (scene.methods c) (scene'.methods (c.relocate f)) := by
  refine .bind (matched_mapM fun id _ => ?_) fun _ hitems =>
    matched_pure (List.forall_mem_flatten.2 hitems)
  rw [h.store.entity?]
  cases hentity : scene.store.entity? id with
  | none => exact matched_pure nofun
  | some e =>
    cases e with
    | routine kind r =>
      cases kind with
      | method =>
        simp only [Option.map_some, Entity.relocate, Routine.isSome_statements_relocate,
          show (r.relocate f).isPure = r.isPure from rfl]
        split
        · exact .bind (matched_function h hf hentity true) fun _ hitem =>
            matched_pure (List.forall_mem_singleton.2 hitem)
        · exact matched_pure nofun
      | _ => exact matched_pure nofun
    | _ => exact matched_pure nofun

omit hf in
theorem isMethod_relocate (id : DeclId) : scene'.isMethod id = scene.isMethod id := by
  unfold isMethod
  rw [h.store.entity?]
  rcases scene.store.entity? id with _ | _ | _ | _ | ⟨_ | _ | _ | _, _⟩ | _ | _ | _ <;> rfl

def baseTerm (env : Env) (c : ClassType) : Lower (Option Term) :=
  match c.superclass with
  | none => pure none
  | some e => some <$> lift (env.term e)

def destructors (scene : Scene) (c : ClassType) : Lower (List Item) :=
  match c.destructor with
  | none => pure []
  | some d => scene.destructor d

omit h hf in
theorem classItem_eq (nested : DeclId → Lower (List Item)) (id : DeclId) (c : ClassType) :
    scene.classItem nested id c = (do
      let base ← baseTerm (scene.env id) c
      let members ← (c.members.order.filter fun m => !scene.isMethod m).mapM nested
      let ctors ← scene.constructors id c
      let dtor ← scene.destructors c
      let ms ← scene.methods c
      let name := Script.identifier ((scene.store.name? id).getD "")
      return .classDef name base (members.flatten ++ ctors ++ dtor ++ ms)) := by
  unfold classItem baseTerm destructors
  cases c.superclass <;> cases c.destructor <;> rfl

theorem matched_baseTerm (hc : scene.store.entity? id = some (.classType c)) :
    Matched f (fun base => ∀ t ∈ base, W t) (baseTerm (scene.env id) c)
      (baseTerm (scene'.env id) (c.relocate f)) := by
  unfold baseTerm
  rw [show (c.relocate f).superclass = c.superclass.map (Expr.relocate f) from rfl]
  cases hbase : c.superclass with
  | none => exact matched_pure nofun
  | some e =>
    have he : e ∈ scene.store.printed :=
      Store.mem_printed hc (Option.mem_toList.mpr hbase)
    exact .bind (matched_lift (tracks_printed h hf id he)) fun _ ht =>
      matched_pure (by rintro _ ⟨⟩; exact (hf.finishes id).test ht)

theorem matched_destructors (c : ClassType) : Matched f (fun items => ∀ item ∈ items, I item)
    (scene.destructors c) (scene'.destructors (c.relocate f)) := by
  unfold destructors
  rw [show (c.relocate f).destructor = c.destructor from rfl]
  cases c.destructor with
  | none => exact matched_pure nofun
  | some d => exact matched_destructor h hf d

theorem matched_classItem {nested nested' : DeclId → Lower (List Item)}
    (hnested : ∀ id, Matched f (fun items => ∀ item ∈ items, I item) (nested id) (nested' id))
    (hc : scene.store.entity? id = some (.classType c)) :
    Matched f I (scene.classItem nested id c) (scene'.classItem nested' id (c.relocate f)) := by
  rw [classItem_eq, classItem_eq, h.store.name?,
    show scene'.isMethod = scene.isMethod from funext (isMethod_relocate h)]
  refine .bind (matched_baseTerm h hf hc) fun base hbase => ?_
  refine .bind (matched_mapM fun m _ => hnested m) fun members hmembers => ?_
  refine .bind (matched_constructors h hf hc) fun ctors hctors => ?_
  refine .bind (matched_destructors h hf c) fun dtor hdtor => ?_
  refine .bind (matched_methods h hf c) fun ms hms =>
    matched_pure (hf.classDef (hf.named hc nofun) hbase ?_)
  simp only [List.forall_mem_append]
  exact ⟨⟨⟨List.forall_mem_flatten.2 hmembers, hctors⟩, hdtor⟩, hms⟩

theorem matched_itemsWithin (n : Nat) (id : DeclId) :
    Matched f (fun items => ∀ item ∈ items, I item) (scene.itemsWithin n id)
      (scene'.itemsWithin n id) := by
  induction n generalizing id with
  | zero => exact matched_pure nofun
  | succ n ih =>
    have hvalue {e : Entity} (hentity : scene.store.entity? id = some e) (he : e.isValue)
        {value : Option Expr} (hprinted : value.toList ⊆ e.printed) :
        Matched f (fun items => ∀ item ∈ items, I item)
          (do return [.stmt (← lift
            ((scene.env id).assignment ((scene.store.name? id).getD "") value))])
          (do return [.stmt (← lift ((scene'.env id).assignment ((scene.store.name? id).getD "")
            (value.map (Expr.relocate f))))]) := by
      refine .bind (P := Holds W N L) (matched_lift (.bind ?_ fun _ _ hv =>
        .pure (hf.value hentity he hv))) fun _ hs =>
          matched_pure (List.forall_mem_singleton.2 (hf.stmt hs))
      exact tracks_valueTerm (h.env id) (hf.composes id) (hf.finishes id) fun x hx =>
        hf.exprs (Store.mem_printed hentity (hprinted hx))
    unfold itemsWithin
    rw [h.store.name?, h.store.entity?]
    cases hentity : scene.store.entity? id with
    | none => exact matched_pure nofun
    | some e =>
      rcases e with m | e | c | ⟨kind, r⟩ | a | v | p
      · exact matched_pure nofun
      · exact matched_lift (tracks_enumItems h hf hentity)
      · exact .bind (matched_classItem h hf ih hentity) fun _ hitem =>
          matched_pure (List.forall_mem_singleton.2 hitem)
      · cases kind with
        | function =>
          simp only [Option.map_some, Entity.relocate, Routine.isSome_statements_relocate]
          split
          · exact .bind (matched_function h hf hentity false) fun _ hitem =>
              matched_pure (List.forall_mem_singleton.2 hitem)
          · exact matched_pure nofun
        | _ => exact matched_pure nofun
      · simp only [Option.map_some, Entity.relocate]
        split
        · exact hvalue hentity rfl (List.Subset.refl _)
        · exact matched_pure nofun
      · exact hvalue hentity rfl (List.Subset.refl _)
      · exact matched_pure nofun

omit hf in
theorem mainGuard_relocate : scene'.mainGuard = scene.mainGuard := by
  have hmain : scene'.store.mainFunction? =
      scene.store.mainFunction?.map (Routine.relocate f) := by
    unfold Store.mainFunction?
    rw [h.store.module?]
    cases scene.store.module? Store.root with
    | none => rfl
    | some m =>
      simp only [Option.bind_eq_bind, Option.bind_some]
      cases m.members.get? "main" with
      | none => rfl
      | some id =>
        simp only [Option.bind_some, h.store.entity?]
        rcases scene.store.entity? id with _ | _ | _ | _ | ⟨_ | _ | _ | _, _⟩ | _ | _ | _ <;> rfl
  unfold mainGuard
  rw [hmain]
  cases scene.store.mainFunction? with
  | none => rfl
  | some r =>
    simp only [Option.map_some, Routine.isSome_statements_relocate]
    rfl

theorem matched_lowerModule (id : DeclId) : Matched f (fun script =>
      (scene.store.module? id).map Module.imports = some script.imports ∧
        ∀ item ∈ script.items, I item)
    (scene.lowerModule id) (scene'.lowerModule id) := by
  have hitems : ∀ id, Matched f (fun items => ∀ item ∈ items, I item) (scene.items id)
      (scene'.items id) := by
    intro id
    unfold items
    rw [h.store.size_eq]
    exact matched_itemsWithin h hf _ id
  unfold lowerModule
  rw [h.store.module?, mainGuard_relocate h, h.store.modulePath]
  cases scene.store.module? id with
  | none => exact matched_lift ⟨rfl, nofun⟩
  | some m =>
    refine .bind (matched_mapM fun id _ => hitems id) fun _ hown =>
      matched_pure ⟨rfl, List.forall_mem_append.2 ⟨List.forall_mem_flatten.2 hown, ?_⟩⟩
    split
    · exact hf.guard
    · exact nofun

omit h in
theorem gives_lowerModule (id : DeclId) : (scene.lowerModule id).Gives fun script =>
    (scene.store.module? id).map Module.imports = some script.imports ∧
      ∀ item ∈ script.items, I item :=
  (matched_lowerModule (f := fun place => place) ⟨Store.relocated_id _, fun _ _ => rfl, rfl⟩ hf
    id).gives

omit h hf in
/-- A module of a program with other places, under a table that binds the names to be printed
alike. -/
theorem lowerModule_relocate (hstore : scene.store.Relocated f scene'.store)
    (htable : ∀ ref ∈ Expr.namesOfList scene.store.printed,
      scene'.table.get? ref.id = scene.table.get? ref.id)
    (hnowhere : f ⟨"", 0, none⟩ = ⟨"", 0, none⟩) (id : DeclId) :
    Relocated f (scene.lowerModule id) (scene'.lowerModule id) := by
  let X (e : Expr) : Prop := ∀ ref, e.ownName? = some ref →
    scene'.table.get? ref.id = scene.table.get? ref.id
  have halike : Scene.Alike f X scene scene' :=
    ⟨hstore, fun ref h => h.elim (· ref rfl) (· ref rfl), hnowhere⟩
  have hexprs : ∀ e ∈ scene.store.printed, e.Every X := by
    refine fun e he part hpart ref href => htable ref ?_
    rw [Expr.namesOfList_eq]
    exact List.mem_flatMap.2 ⟨e, he, Expr.mem_names_of_mem_parts href e hpart⟩
  exact (matched_lowerModule halike (furnishes_any hexprs) id).toRelocated

end Scene

end Lowering

end Serpentine
