import Serpentine.Proofs.Program.Tables

/-!
# Announcements and definitions of a routine

A routine can be announced any number of times before and after it is defined. All that is said of
it is gathered in one declaration (**`Store.declareAll_member`**).
-/

namespace Serpentine

/-- The names of parameters, of which the first has place `index`. -/
def namesFrom : Nat → List ParameterSpec → List String
  | _, [] => []
  | index, spec :: rest => spec.name.getD ("arg" ++ toString index) :: namesFrom (index + 1) rest

/-- The names of the parameters, also of those without one. -/
def RoutineSpec.names (spec : RoutineSpec) : List String :=
  namesFrom 0 spec.params

/-- An occurrence of a routine: its head, and the statements behind it if it has a body. -/
structure Occurrence where
  spec : RoutineSpec
  body : List Stmt
  place : Position

namespace Occurrence

def statements? (o : Occurrence) : Option (List Stmt) :=
  if o.spec.hasBody then some o.body else none

/-- Gives a routine the statements of its body. -/
def finish (o : Occurrence) (id : DeclId) (s : Store) : Store :=
  if o.spec.hasBody then s.setStatements id o.body else s

end Occurrence

namespace Store

variable {s t u : Store} {id i parent : DeclId} {kind : RoutineKind} {r : Routine}
  {S : List DeclId} {names : List String}

/-! ## Changes of some declarations -/

/-- No declaration with a table is changed or new, but for the given ones. -/
structure Changes (s t : Store) (S : List DeclId) : Prop where
  size_le : s.decls.size ≤ t.decls.size
  name? : ∀ i < s.decls.size, t.name? i = s.name? i
  entity? : ∀ i ∉ S, ∀ e : Entity, e.members?.isSome →
    (t.entity? i = some e ↔ s.entity? i = some e)

theorem lt_of_entity? {e : Entity} (h : s.entity? id = some e) : id < s.decls.size := by
  obtain ⟨d, hd, -⟩ := Option.map_eq_some_iff.1 h
  exact (Array.getElem?_eq_some_iff.1 hd).1

namespace Changes

theorem of_decls (h : t.decls = s.decls) (S : List DeclId) : s.Changes t S := by
  refine ⟨(congrArg Array.size h).ge, fun i _ => ?_, fun i _ e _ => ?_⟩
  · rw [Store.name?, h, Store.name?]
  · rw [Store.entity?, h, Store.entity?]

section

variable (h : s.Changes t S)

include h

theorem trans (h' : t.Changes u S) : s.Changes u S where
  size_le := h.size_le.trans h'.size_le
  name? i hi := (h'.name? i (hi.trans_le h.size_le)).trans (h.name? i hi)
  entity? i hi e he := (h'.entity? i hi e he).trans (h.entity? i hi e he)

theorem mono {S' : List DeclId} (hS : S ⊆ S') : s.Changes t S' :=
  ⟨h.size_le, h.name?, fun i hi => h.entity? i fun hmem => hi (hS hmem)⟩

theorem members? (hi : i ∉ S) {m : Members} (hm : s.members? i = some m) :
    t.members? i = some m := by
  obtain ⟨e, he, hm⟩ := Option.bind_eq_some_iff.1 hm
  rw [Store.members?, (h.entity? i hi e (Option.isSome_of_eq_some hm)).2 he]
  exact hm

theorem map_name? {ps : List DeclId} (hps : ps.map s.name? = names.map some) :
    ps.map t.name? = names.map some := by
  rw [← hps]
  refine List.map_congr_left fun i hi => h.name? i ?_
  obtain ⟨name, -, hname⟩ := List.mem_map.1 (hps ▸ List.mem_map_of_mem hi)
  obtain ⟨d, hd, -⟩ := Option.bind_eq_some_iff.1 hname.symm
  exact (Array.getElem?_eq_some_iff.1 hd).1

end

end Changes

theorem changes_modifyEntity (id : DeclId) (f : Entity → Entity) :
    s.Changes (s.modifyEntity id f) [id] where
  size_le := (size_modifyEntity s id f).ge
  name? i _ := name?_modifyEntity id f i
  entity? i hi e _ := by rw [entity?_modifyEntity, if_neg (List.mem_singleton.not.1 hi)]

theorem changes_alloc {name : Option String} {place : Position} {entity : Entity}
    (h : entity.members?.isSome → s.decls.size ∈ S) :
    s.Changes (s.alloc parent name place entity).2 S where
  size_le := by simp
  name? i hi := by rw [name?_alloc, if_neg hi.ne]
  entity? i hi e he := by
    rw [entity?_alloc]
    split
    · next heq =>
      refine iff_of_false ?_ fun hnew => (lt_of_entity? hnew).ne heq
      rintro ⟨⟩
      exact hi (heq ▸ h he)
    · rfl

theorem changes_relist (parent : DeclId) (relisted : Option (Option DeclId × Members))
    (place : Position) (name : String) :
    s.Changes (s.relist parent relisted place name) [parent] := by
  rcases relisted with _ | ⟨_ | old, members⟩
  · exact .of_decls rfl _
  · exact changes_modifyEntity parent _
  · obtain ⟨hsize, hname, hentity⟩ := s.changes_modifyEntity parent (Entity.setMembers members)
    exact ⟨hsize, hname, hentity⟩

/-! ## Routines and their parameters -/

/-- A declaration is a routine whose parameters have these names, and for the rest as `r` says. -/
def IsRoutine (s : Store) (id : DeclId) (kind : RoutineKind) (r : Routine) (names : List String) :
    Prop :=
  ∃ ps locals, s.entity? id = some (.routine kind { r with parameters := ps, locals := locals }) ∧
    ps.map s.name? = names.map some

theorem IsRoutine.of_changes (h : s.IsRoutine id kind r names) (hchanges : s.Changes t S)
    (hid : id ∉ S) : t.IsRoutine id kind r names := by
  obtain ⟨ps, locals, hentity, hps⟩ := h
  exact ⟨ps, locals, (hchanges.entity? id hid _ rfl).2 hentity, hchanges.map_name? hps⟩

theorem IsRoutine.hasBody_eq (h : s.IsRoutine id kind r names) :
    s.hasBody id = r.statements.isSome := by
  obtain ⟨ps, locals, hid, -⟩ := h
  rw [hasBody, routine?, hid]
  rfl

theorem isRoutine_alloc (s : Store) (parent : DeclId) (name : Option String) (place : Position)
    (kind : RoutineKind) (spec : RoutineSpec) :
    (s.alloc parent name place (.routine kind spec.routine)).2.IsRoutine s.decls.size kind
      spec.routine [] :=
  ⟨[], .empty, by rw [entity?_alloc, if_pos rfl]; rfl, rfl⟩

theorem isRoutine_modifyRoutine (hid : s.entity? id = some (.routine kind r))
    (f : Routine → Routine) (hps : (f r).parameters.map s.name? = names.map some) :
    (s.modifyRoutine id f).IsRoutine id kind (f r) names ∧
      s.Changes (s.modifyRoutine id f) [id] := by
  have hchanges : s.Changes (s.modifyRoutine id f) [id] := changes_modifyEntity id _
  refine ⟨⟨(f r).parameters, (f r).locals, ?_, hchanges.map_name? hps⟩, hchanges⟩
  rw [modifyRoutine, entity?_modifyEntity, if_pos rfl, hid]
  rfl

theorem exists_entity?_relist (hid : s.entity? id = some (.routine kind r))
    (relisted : Option (Option DeclId × Members)) (place : Position) (name : String) :
    ∃ locals, (s.relist id relisted place name).entity? id =
      some (.routine kind { r with locals := locals }) := by
  have hset (members : Members) : (s.modifyEntity id (Entity.setMembers members)).entity? id =
      some (.routine kind { r with locals := members }) := by
    rw [entity?_modifyEntity, if_pos rfl, hid]
    rfl
  rcases relisted with _ | ⟨_ | old, members⟩
  · exact ⟨r.locals, hid⟩
  · exact ⟨members, hset members⟩
  · exact ⟨members, hset members⟩

section

variable (h : s.IsRoutine id kind r names)

include h

theorem isRoutine_addParameter (spec : ParameterSpec) (index : Nat) :
    (s.addParameter id spec index).2.IsRoutine id kind r
        (names ++ [spec.name.getD ("arg" ++ toString index)]) ∧
      s.Changes (s.addParameter id spec index).2 [id] := by
  obtain ⟨ps, locals, hid, hps⟩ := h
  unfold addParameter
  dsimp only
  rw [add_eq]
  generalize spec.name.getD ("arg" ++ toString index) = name
  dsimp only
  generalize ht : (s.alloc id (some name) spec.place (.parameter ⟨spec.type, spec.default⟩)).2 = t
  have halloc : s.Changes t [id] := ht ▸ changes_alloc nofun
  have hname : t.name? s.decls.size = some name := by rw [← ht, name?_alloc, if_pos rfl]
  have hentity : t.entity? id = s.entity? id := by
    rw [← ht, entity?_alloc, if_neg (lt_of_entity? hid).ne]
  generalize (t.members? id).map (·.insert (some name) s.decls.size) = relisted
  obtain ⟨locals', hlisted⟩ := exists_entity?_relist (hentity.trans hid) relisted spec.place name
  have hchanges := halloc.trans (t.changes_relist id relisted spec.place name)
  have hnames : (ps ++ [s.decls.size]).map (t.relist id relisted spec.place name).name? =
      (names ++ [name]).map some := by
    rw [List.map_append, hchanges.map_name? hps, List.map_singleton, name?_relist, hname,
      List.map_append, List.map_singleton]
  obtain ⟨hroutine, hchanges'⟩ := isRoutine_modifyRoutine hlisted
    (fun r => { r with parameters := r.parameters ++ [s.decls.size] }) hnames
  exact ⟨hroutine, hchanges.trans hchanges'⟩

/-- A routine that is given parameters has them behind those it had. -/
theorem isRoutine_addParametersFrom (index : Nat) (params : List ParameterSpec) :
    (s.addParametersFrom id index params).IsRoutine id kind r (names ++ namesFrom index params) ∧
      s.Changes (s.addParametersFrom id index params) [id] := by
  induction params generalizing s names index with
  | nil =>
    rw [namesFrom, List.append_nil]
    exact ⟨h, .of_decls rfl _⟩
  | cons spec rest ih =>
    obtain ⟨hfirst, hchanges⟩ := isRoutine_addParameter h spec index
    obtain ⟨hrest, hchanges'⟩ := ih hfirst (index + 1)
    rw [addParametersFrom, namesFrom, List.append_cons]
    exact ⟨hrest, hchanges.trans hchanges'⟩

theorem isRoutine_finish (o : Occurrence) :
    (o.finish id s).IsRoutine id kind { r with statements := o.statements?.or r.statements } names ∧
      s.Changes (o.finish id s) [id] := by
  unfold Occurrence.finish Occurrence.statements?
  cases o.spec.hasBody with
  | false => exact ⟨h, .of_decls rfl _⟩
  | true =>
    obtain ⟨ps, locals, hid, hps⟩ := h
    exact isRoutine_modifyRoutine hid (fun r => { r with statements := some o.body }) hps

/-- A definition completes what was announced. -/
theorem exists_complete (o : Occurrence) : ∃ t r', o.finish id (s.completeForward id o.spec) = t ∧
      t.IsRoutine id kind r' o.spec.names ∧ s.Changes t [id] ∧ r'.signature = r.signature ∧
      r'.statements = o.statements?.or r.statements ∧
      r'.isStatic = (r.isStatic || o.spec.isStatic) := by
  obtain ⟨ps, locals, hid, -⟩ := h
  obtain ⟨hcleared, hchanges⟩ := isRoutine_modifyRoutine hid (fun r => { r with
    parameters := []
    locals := .empty
    isStatic := r.isStatic || o.spec.isStatic
    isVirtual := r.isVirtual || o.spec.isVirtual
    isPure := o.spec.isPure }) (List.map_nil.trans List.map_nil.symm)
  obtain ⟨hgiven, hchanges'⟩ := isRoutine_addParametersFrom hcleared 0 o.spec.params
  obtain ⟨hdefined, hchanges''⟩ := isRoutine_finish hgiven o
  exact ⟨_, _, rfl, hdefined, (hchanges.trans hchanges').trans hchanges'', rfl, rfl, rfl⟩

end

/-! ## Occurrences -/

/-- Declares a routine, and gives it the statements of its body at once. -/
def declare (s : Store) (kind : RoutineKind) (parent : DeclId) (name : String) (o : Occurrence) :
    DeclId × Store :=
  let (id, t) := s.addRoutine kind parent name o.spec o.place
  (id, o.finish id t)

/-- Declares a routine over and over, and tells what declarations it was given. -/
def declareAll (s : Store) (kind : RoutineKind) (parent : DeclId) (name : String) :
    List Occurrence → List DeclId × Store
  | [] => ([], s)
  | o :: rest =>
    let first := s.declare kind parent name o
    let later := first.2.declareAll kind parent name rest
    (first.1 :: later.1, later.2)

/-- A routine is found under its name in the table of a declaration. -/
structure Declared (s : Store) (kind : RoutineKind) (parent : DeclId) (name : String) (m : Members)
    (id : DeclId) (r : Routine) (names : List String) : Prop where
  table : s.members? parent = some m
  named : m.get? name = some id
  apart : parent ∉ [id]
  routine : s.IsRoutine id kind r names

variable {name : String} {m : Members} {o d : Occurrence} {before after : List Occurrence}

namespace Declared

section

variable (h : s.Declared kind parent name m id r names)

include h

theorem of_changes (hchanges : s.Changes t [id])
    {r' : Routine} {names' : List String} (hroutine : t.IsRoutine id kind r' names') :
    t.Declared kind parent name m id r' names' :=
  ⟨hchanges.members? h.apart h.table, h.named, h.apart, hroutine⟩

theorem addRoutine_eq {spec : RoutineSpec}
    (hsig : spec.signature = r.signature) (place : Position) :
    s.addRoutine kind parent name spec place =
      if !spec.hasBody then (id, s)
      else if !r.statements.isSome then (id, s.completeForward id spec)
      else s.addNewRoutine kind parent name spec place := by
  obtain ⟨ps, locals, hid, -⟩ := h.routine
  have hlike : s.isRoutineLike id kind spec = true := by
    rw [isRoutineLike, hid]
    simp [hsig]
  rw [addRoutine, h.table, Option.bind_some, h.named, Option.filter_some, if_pos hlike,
    ← h.routine.hasBody_eq]

/-- An announcement of what is there changes nothing. -/
theorem declare_eq (hsig : o.spec.signature = r.signature) (hbody : o.spec.hasBody = false) :
    s.declare kind parent name o = (id, s) := by
  rw [declare, h.addRoutine_eq hsig]
  simp [Occurrence.finish, hbody]

theorem declareAll_append (hsig : ∀ o ∈ before, o.spec.signature = r.signature)
    (hbody : ∀ o ∈ before, o.spec.hasBody = false) (rest : List Occurrence) :
    s.declareAll kind parent name (before ++ rest) =
      (List.replicate before.length id ++ (s.declareAll kind parent name rest).1,
        (s.declareAll kind parent name rest).2) := by
  induction before with
  | nil => rfl
  | cons o more ih =>
    obtain ⟨hfirst, hmore⟩ := List.forall_mem_cons.1 hsig
    obtain ⟨hfirst', hmore'⟩ := List.forall_mem_cons.1 hbody
    rw [List.cons_append, declareAll, h.declare_eq hfirst hfirst', ih hmore hmore']
    rfl

theorem declareAll_eq (hsig : ∀ o ∈ after, o.spec.signature = r.signature)
    (hbody : ∀ o ∈ after, o.spec.hasBody = false) :
    s.declareAll kind parent name after = (List.replicate after.length id, s) := by
  simpa [declareAll] using h.declareAll_append hsig hbody []

/-- What was announced is completed by the one definition among later occurrences. -/
theorem exists_declareAll
    (hnone : r.statements = none) (hsig : ∀ o ∈ before ++ after, o.spec.signature = r.signature)
    (hbody : ∀ o ∈ before ++ after, o.spec.hasBody = false)
    (hsigd : d.spec.signature = r.signature) (hd : d.spec.hasBody = true) :
    ∃ t r', s.declareAll kind parent name (before ++ d :: after) =
        (List.replicate (before ++ d :: after).length id, t) ∧
      t.Declared kind parent name m id r' d.spec.names ∧ s.Changes t [id] ∧
      r'.statements = some d.body ∧ r'.isStatic = (r.isStatic || d.spec.isStatic) := by
  obtain ⟨t, r', ht, hroutine, hchanges, hsig', hstatements, hstatic⟩ := exists_complete h.routine d
  have hdeclared := h.of_changes hchanges hroutine
  have hdeclare : s.declare kind parent name d = (id, t) := by
    rw [declare, h.addRoutine_eq hsigd]
    simp [hd, hnone, ht]
  obtain ⟨hbefore, hafter⟩ := List.forall_mem_append.1 hsig
  obtain ⟨hbefore', hafter'⟩ := List.forall_mem_append.1 hbody
  refine ⟨t, r', ?_, hdeclared, hchanges, ?_, hstatic⟩
  · rw [h.declareAll_append hbefore hbefore', declareAll, hdeclare]
    dsimp only
    rw [hdeclared.declareAll_eq (by rwa [hsig']) hafter']
    simp [List.replicate_add, List.replicate_succ]
  · rw [hstatements, Occurrence.statements?, if_pos hd, Option.some_or]

end

end Declared

/-- A routine under a new name becomes a new member. -/
theorem exists_declare_new (kind : RoutineKind) (hm : s.members? parent = some m)
    (hname : m.get? name = none) (o : Occurrence) :
    ∃ t m' r, s.declare kind parent name o = (s.decls.size, t) ∧
      m'.order = m.order ++ [s.decls.size] ∧
      t.Declared kind parent name m' s.decls.size r o.spec.names ∧
      s.Changes t [parent, s.decls.size] ∧ t.name? s.decls.size = some name ∧
      r.signature = o.spec.signature ∧ r.statements = o.statements? ∧
      r.isStatic = o.spec.isStatic := by
  obtain ⟨e, he, -⟩ := Option.bind_eq_some_iff.1 hm
  have hlt : parent < s.decls.size := lt_of_entity? he
  have htable := members?_addNewRoutine kind name o.spec o.place hlt
  rw [hm, Option.map_some, Members.insert_new hname] at htable
  have hadd : s.addRoutine kind parent name o.spec o.place =
      (s.decls.size, (s.addNewRoutine kind parent name o.spec o.place).2) := by
    rw [addRoutine, hm, Option.bind_some, hname, Option.filter_none]
    rfl
  rw [declare, hadd]
  dsimp only
  revert htable
  unfold addNewRoutine
  rw [add_eq]
  dsimp only
  generalize ht : (s.alloc parent (some name) o.place (.routine kind o.spec.routine)).2 = t
  generalize (t.members? parent).map (·.insert (some name) s.decls.size) = relisted
  intro htable
  have halloc : s.Changes t [parent, s.decls.size] := ht ▸ changes_alloc (by simp)
  have hlisted := t.changes_relist parent relisted o.place name
  have hapart : s.decls.size ∉ [parent] := List.mem_singleton.not.2 hlt.ne'
  have hnew : t.IsRoutine s.decls.size kind o.spec.routine [] := ht ▸ isRoutine_alloc ..
  have hstarted := hnew.of_changes hlisted hapart
  obtain ⟨hroutine, hgiven⟩ := isRoutine_addParametersFrom hstarted 0 o.spec.params
  obtain ⟨hdefined, hfinish⟩ := isRoutine_finish hroutine o
  have hchanges := hgiven.trans hfinish
  have hapart' : parent ∉ [s.decls.size] := List.mem_singleton.not.2 hlt.ne
  refine ⟨_, _, _, rfl, rfl, ⟨hfinish.members? hapart' htable, List.lookup_cons_self, hapart',
    hdefined⟩, (halloc.trans (hlisted.mono (by simp))).trans (hchanges.mono (by simp)), ?_, rfl,
    Option.or_none, rfl⟩
  have hlt' : s.decls.size < t.decls.size := by simp [← ht]
  refine (hchanges.name? _ (hlt'.trans_le hlisted.size_le)).trans ?_
  rw [name?_relist, ← ht, name?_alloc, if_pos rfl]

/-! ## Sequences of occurrences -/

/-- **Announcements and one definition give one member**, in whatever order they occur under a new
name. It is what all of them are given, and stands behind the members that were there before the
first. No other member has its name. Its statements and the names of its parameters are those of the
definition, and it is static if the first occurrence or the definition is. -/
theorem declareAll_member (kind : RoutineKind) (hm : s.members? parent = some m)
    (htable : s.Tabulates parent m) (hname : m.get? name = none)
    (hsig : ∀ o ∈ before ++ after, o.spec.signature = d.spec.signature)
    (hbody : ∀ o ∈ before ++ after, o.spec.hasBody = false) (hd : d.spec.hasBody = true) :
    ∃ id t m' r, s.declareAll kind parent name (before ++ d :: after) =
        (List.replicate (before ++ d :: after).length id, t) ∧
      t.members? parent = some m' ∧ m'.order = m.order ++ [id] ∧ m'.get? name = some id ∧
      (∀ i ∈ m'.order, t.name? i = some name ↔ i = id) ∧
      t.entity? id = some (.routine kind r) ∧ r.statements = some d.body ∧
      r.parameters.map t.name? = d.spec.names.map some ∧
      r.isStatic = ((before.headD d).spec.isStatic || d.spec.isStatic) := by
  obtain ⟨t, m', r, hfirst, horder, hdeclared, hchanges, hnew, hsig', hstatements, hstatic⟩ :=
    exists_declare_new kind hm hname (before.headD d)
  have hlater : ∃ u r', s.declareAll kind parent name (before ++ d :: after) =
      (List.replicate (before ++ d :: after).length s.decls.size, u) ∧
      u.Declared kind parent name m' s.decls.size r' d.spec.names ∧
      t.Changes u [s.decls.size] ∧ r'.statements = some d.body ∧
      r'.isStatic = ((before.headD d).spec.isStatic || d.spec.isStatic) := by
    cases before with
    | nil =>
      rw [List.nil_append] at *
      refine ⟨t, r, ?_, hdeclared, .of_decls rfl _, ?_, hstatic.trans (Bool.or_self _).symm⟩
      · rw [declareAll, show s.declare kind parent name d = _ from hfirst]
        dsimp only
        rw [hdeclared.declareAll_eq (by rwa [hsig']) hbody]
        rfl
      · rw [hstatements]
        exact if_pos hd
    | cons o rest =>
      obtain ⟨hsame, hrest⟩ := List.forall_mem_cons.1 hsig
      obtain ⟨hnone, hrest'⟩ := List.forall_mem_cons.1 hbody
      have hsigd : r.signature = d.spec.signature := hsig'.trans hsame
      rw [List.headD_cons, Occurrence.statements?, hnone] at hstatements
      obtain ⟨u, r', hall, hdone⟩ :=
        hdeclared.exists_declareAll hstatements (by rwa [hsigd]) hrest' hsigd.symm hd
      refine ⟨u, r', ?_, hstatic ▸ hdone⟩
      rw [List.cons_append, declareAll, show s.declare kind parent name o = _ from hfirst]
      dsimp only
      rw [hall]
      rfl
  obtain ⟨u, r', hall, hdone, hkept, hstatements', hstatic'⟩ := hlater
  obtain ⟨ps, locals, hid, hps⟩ := hdone.routine
  refine ⟨_, u, m', _, hall, hdone.table, horder, hdone.named, fun i hi => ?_, hid, hstatements', hps,
    hstatic'⟩
  rw [horder] at hi
  rcases List.mem_append.1 hi with hi | hi
  · -- A member that was there before has another name.
    have hi' : i < s.decls.size := lt_of_parent? (htable.inside i hi)
    have hother : u.name? i ≠ some name := by
      rw [hkept.name? i (hi'.trans_le hchanges.size_le), hchanges.name? i hi']
      intro hi''
      cases hname.symm.trans (htable.tidy.named i hi name hi'')
    exact iff_of_false hother hi'.ne
  · obtain rfl := List.mem_singleton.1 hi
    obtain ⟨ps', locals', hid', -⟩ := hdeclared.routine
    exact iff_of_true ((hkept.name? _ (lt_of_entity? hid')).trans hnew) rfl

/-- A head with a parameter of a type. -/
def pointerHead (param : Option String) (type : String) (isStatic hasBody : Bool) : RoutineSpec :=
  ⟨[⟨param, type, none, ⟨"t.cpp", 1, none⟩⟩], "int", isStatic, false, false, hasBody⟩

/-- A static method that is announced before and behind its definition. -/
theorem declareAll_member_announced :
    let place : Position := ⟨"t.cpp", 1, none⟩
    let first : Occurrence := ⟨pointerHead none "int*" true false, [], place⟩
    let definition : Occurrence := ⟨pointerHead (some "p") "int *" false true, [.ret none], place⟩
    let last : Occurrence := ⟨pointerHead (some "q") "int  *" false false, [], place⟩
    (empty "main").Tabulates root .empty ∧ ∃ id t m' r,
      (empty "main").declareAll .method root "f" [first, definition, last] = ([id, id, id], t) ∧
      t.members? root = some m' ∧ m'.order = [id] ∧
      t.entity? id = some (.routine .method r) ∧ r.statements = some [.ret none] ∧
      r.parameters.map t.name? = [some "p"] ∧ r.isStatic = true := by
  intro place first definition last
  have hsig : ∀ o ∈ [first] ++ [last], o.spec.signature = definition.spec.signature := by
    intro o ho
    rcases (by simpa using ho : o = first ∨ o = last) with rfl | rfl <;> decide
  have hbody : ∀ o ∈ [first] ++ [last], o.spec.hasBody = false := by
    intro o ho
    rcases (by simpa using ho : o = first ∨ o = last) with rfl | rfl <;> rfl
  obtain ⟨id, t, m', r, hall, hmembers, horder, -, -, hentity, hstatements, hnames, hstatic⟩ :=
    declareAll_member .method (rfl : (empty "main").members? root = some .empty) tabulates_empty
      (rfl : Members.empty.get? "f" = none) hsig hbody rfl
  exact ⟨tabulates_empty, id, t, m', r, hall, hmembers, horder, hentity, hstatements, hnames, hstatic⟩

end Store

end Serpentine
