import Serpentine.Proofs.Program.Edits
import Serpentine.Proofs.Tree.Wording

/-!
# The wording of a program

The names and literals in a program that is read come from the tokens of a text, so they are words
and literals. What is built from such names and literals keeps this (**`Build.worded`**).
-/

namespace Serpentine

open Script (IsWord)

/-! ## Names -/

/-- The path of a namespace: names with dots between them. -/
def IsModulePath (path : String) : Prop :=
  ∃ names, names ≠ [] ∧ (∀ name ∈ names, IsName name) ∧ path = ".".intercalate names

variable {name : String}

theorem IsName.isModulePath (h : IsName name) : IsModulePath name :=
  ⟨[name], List.cons_ne_nil _ _, by simpa using h, String.intercalate_singleton.symm⟩

theorem IsModulePath.append {path name : String} (h : IsModulePath path) (hname : IsName name) :
    IsModulePath (path ++ "." ++ name) := by
  obtain ⟨names, hne, hnames, rfl⟩ := h
  refine ⟨names ++ [name], by simp, ?_, ?_⟩
  · simpa [or_imp, forall_and] using ⟨hnames, hname⟩
  · rw [String.intercalate_append_of_ne_nil hne (List.cons_ne_nil _ _), String.intercalate_singleton]

/-- The name of a declaration: a word, or a word behind `~`. -/
def IsTitle (name : String) : Prop :=
  IsWord (name.toList.dropWhile (· == '~'))

theorem isTitle_of_isWord (h : IsWord name.toList) : IsTitle name := by
  obtain ⟨c, cs, hname, hstart⟩ := h.exists_cons
  have hc : c ≠ '~' := by
    rintro rfl
    cases hstart
  rw [IsTitle, hname, List.dropWhile_cons_of_neg (by simpa using hc), ← hname]
  exact h

theorem IsName.isTitle (h : IsName name) : IsTitle name :=
  isTitle_of_isWord h.word

theorem IsTitle.tilde (h : IsTitle name) : IsTitle ("~" ++ name) := by
  rw [IsTitle, String.toList_append]
  exact h

theorem isWord_append_digits {word : List Char} (h : IsWord word) (n : Nat) :
    IsWord (word ++ (toString n).toList) := by
  refine ⟨?_, ?_⟩
  · cases word with
    | nil => exact absurd h.1 (by decide)
    | cons c cs => exact h.1
  · rw [List.all_append, h.2, Bool.true_and, List.all_eq_true]
    intro c hc
    have hdigits : c ∈ Nat.toDigits 10 n := by simpa [toString, Nat.repr] using hc
    have hdigit := Script.isHexDigit_of_isDigit
      (Nat.isDigit_of_mem_toDigits (by decide) (by decide) hdigits)
    exact Script.of_isHexDigit (by decide) hdigit

/-! ## Declarations -/

/-- Its name and arguments are as tokens give them. -/
structure MemberInit.Worded (W : NameRef → Prop) (init : MemberInit) : Prop where
  name : IsScopedName init.name
  args : ∀ arg ∈ init.args, arg.Worded W

structure Enumerator.Worded (W : NameRef → Prop) (x : Enumerator) : Prop where
  name : IsName x.name
  init : ∀ e ∈ x.init, e.Worded W
  base : ∀ base amount, x.value = .offset base amount → IsName base

/-- Imports stay in their lines. -/
def Imports.InLine (imports : Imports) : Prop :=
  ∀ i ∈ imports, IsOneLine i.1 ∧ ∀ symbol ∈ i.2, IsOneLine symbol

def Entity.Worded (W : NameRef → Prop) : Entity → Prop
  | .namespaceOf m => m.imports.InLine
  | .enumeration e => ∀ x ∈ e.enumerators, x.Worded W
  | .classType c => ∀ e ∈ c.superclass, e.Worded W
  | .routine _ r =>
    (∀ init ∈ r.initializers, init.Worded W) ∧ (∀ body ∈ r.statements, ∀ s ∈ body, s.Worded W) ∧
      ∀ id ∈ r.parameters, id ≠ Store.root
  | .attribute a => ∀ e ∈ a.value, e.Worded W
  | .variableOf v => ∀ e ∈ v.value, e.Worded W
  | .parameter p => ∀ e ∈ p.default, e.Worded W

variable {W : NameRef → Prop} {e : Entity}

theorem Entity.Worded.exprs (h : e.Worded W) : ∀ x ∈ e.exprs, x.Worded W := by
  have hoption {value : Option Expr} (hvalue : ∀ x ∈ value, x.Worded W) :
      ∀ x ∈ value.toList, x.Worded W := fun x hx => hvalue x (Option.mem_toList.1 hx)
  cases e with
  | namespaceOf m => rintro _ ⟨⟩
  | classType c => exact hoption h
  | «attribute» a => exact hoption h
  | variableOf v => exact hoption h
  | parameter p => exact hoption h
  | enumeration e =>
    intro x hx
    obtain ⟨enumerator, henumerator, hx⟩ := List.mem_flatMap.1 hx
    exact hoption (h enumerator henumerator).init x hx
  | routine kind r =>
    refine List.forall_mem_append.2 ⟨fun x hx => ?_, ?_⟩
    · obtain ⟨init, hinit, hx⟩ := List.mem_flatMap.1 hx
      exact (h.1 init hinit).args x hx
    · cases hbody : r.statements with
      | none => rintro _ ⟨⟩
      | some body => exact Stmt.worded_exprsOfBlock (Stmt.everyIn_iff.2 (h.2.1 body hbody))

theorem Entity.worded_setMembers (members : Members) (h : e.Worded W) :
    (e.setMembers members).Worded W := by
  cases e <;> exact h

theorem Module.inLine_addImport {m : Module} (h : m.imports.InLine) {path : String}
    (hpath : IsOneLine path) {symbol : Option String} (hsymbol : ∀ x ∈ symbol, IsOneLine x) :
    (m.addImport path symbol).imports.InLine := by
  have hadd : ∀ symbols : List String, (∀ x ∈ symbols, IsOneLine x) →
      ∀ x ∈ symbol.elim symbols (Sorted.insert · symbols), IsOneLine x := by
    intro symbols hsymbols
    cases symbol with
    | none => exact hsymbols
    | some x => exact Sorted.forall_insert (hsymbol x rfl) hsymbols
  refine Sorted.forall_update h ⟨hpath, ?_⟩ fun path symbols hold => ⟨hold.1, ?_⟩
  · have hnone := hadd [] nofun
    cases symbol <;> exact hnone
  · have hsome := hadd symbols hold.2
    cases symbol <;> exact hsome

/-- The entity is a module, a variable or an attribute, which always have names. -/
def Entity.isNamed : Entity → Bool
  | .namespaceOf _ | .attribute _ | .variableOf _ => true
  | _ => false

/-- What decides how a declaration can be called. -/
def Entity.standing (e : Entity) : Option String × Bool :=
  (e.path?, e.isNamed)

theorem Entity.standing_setMembers (members : Members) (e : Entity) :
    (e.setMembers members).standing = e.standing := by
  cases e <;> rfl

theorem Enumeration.worded_push {e : Enumeration} (h : (Entity.enumeration e).Worded W)
    (hname : IsName name) {init : Option Expr} (hinit : ∀ e ∈ init, e.Worded W) (place : Position) :
    (Entity.enumeration (e.push name init place)).Worded W := by
  have hbase : ∀ base amount, e.valueFor init = .offset base amount → IsName base := by
    intro base amount hvalue
    cases init with
    | some init =>
      rw [valueFor] at hvalue
      split at hvalue <;> cases hvalue
    | none =>
      rw [valueFor, nextValue] at hvalue
      split at hvalue
      · cases hvalue
      · next last hlast =>
        have hworded := h last (List.mem_of_getLast? hlast)
        split at hvalue
        · cases hvalue
        · cases hvalue
          exact hworded.name
        · next hoffset =>
          cases hvalue
          exact hworded.base _ _ hoffset
  intro x hx
  rcases List.mem_append.1 hx with hold | hnew
  · exact h x hold
  · obtain rfl := List.mem_singleton.1 hnew
    exact ⟨hname, hinit, hbase⟩

structure ParameterSpec.Worded (W : NameRef → Prop) (p : ParameterSpec) : Prop where
  name : ∀ name ∈ p.name, IsName name
  default : ∀ e ∈ p.default, e.Worded W

def RoutineSpec.Worded (W : NameRef → Prop) (spec : RoutineSpec) : Prop :=
  ∀ p ∈ spec.params, p.Worded W

/-- New namespaces can be put into the declaration: it is a module, or a module lists it. -/
def Store.Encloses (s : Store) (id : DeclId) : Prop :=
  (s.module? id).isSome ∨ ∃ around name, (s.module? around).bind (·.submodules.get? name) = some id

def Build.Worded {α : Type} (W : NameRef → Prop) (s : Store) : Build α → Prop
  | .add _ name entity _ =>
    (∀ n ∈ name, IsName n) ∧ (entity.isNamed → name.isSome) ∧ entity.Worded W ∧ entity.Fresh
  | .addModule parent name _ => IsName name ∧ s.Encloses parent
  | .addLocal _ name _ => IsName name
  | .nameAnonymous id name => IsName name ∧ s.name? id = none
  | .addRoutine _ _ name spec _ => IsWord name.toList ∧ spec.Worded W
  | .addConstructor cls spec _ | .addDestructor cls spec _ => (s.class? cls).isSome ∧ spec.Worded W
  | .addEnumerator _ name init _ => IsName name ∧ ∀ e ∈ init, e.Worded W
  | .setSuperclass _ e | .setValue _ e => e.Worded W
  | .setInitializers _ inits => ∀ init ∈ inits, init.Worded W
  | .setStatements _ body => ∀ s ∈ body, s.Worded W
  | .dissolve _ | .notice _ => True

namespace Store

/-- A declaration that is no module. -/
def Ordinary (s : Store) (id : DeclId) : Prop :=
  ∃ e, s.entity? id = some e ∧ e.path? = none

/-- A table of members lists no modules, and by name nothing without a name. -/
structure Listed (s : Store) (members : Members) : Prop where
  order : ∀ id ∈ members.order, s.Ordinary id
  names : ∀ name id, members.get? name = some id → s.Ordinary id ∧ (s.name? id).isSome

/-- An entity of a program is worded, and so are its tables. -/
structure Holds (W : NameRef → Prop) (s : Store) (e : Entity) : Prop where
  worded : e.Worded W
  members : ∀ members, e.members? = some members → s.Listed members
  submodules : ∀ m name id, e = .namespaceOf m → m.submodules.get? name = some id →
    id ≠ root ∧ s.isModule id

/-- All of a program is worded, and what its tables list has a name. -/
structure Worded (W : NameRef → Prop) (s : Store) : Prop where
  root : s.isModule root
  names : ∀ id name, id ≠ Store.root → s.name? id = some name → IsTitle name
  named : ∀ id e, s.entity? id = some e → e.isNamed → (s.name? id).isSome
  owned : ∀ id, s.isModule id → s.owningModule id = id
  paths : ∀ id e path, id ≠ Store.root → s.entity? id = some e → e.path? = some path → IsModulePath path
  holds : ∀ id e, s.entity? id = some e → s.Holds W e

variable {s t : Store}

/-- What has a name keeps one, and declarations stay modules or not. -/
structure Retains (s t : Store) : Prop where
  names : ∀ id, (s.name? id).isSome → (t.name? id).isSome
  modules : ∀ id, s.isModule id → t.isModule id
  ordinary : ∀ id, s.Ordinary id → t.Ordinary id

theorem Retains.trans {u : Store} (hst : s.Retains t) (htu : t.Retains u) : s.Retains u :=
  ⟨fun id h => htu.names id (hst.names id h), fun id h => htu.modules id (hst.modules id h),
    fun id h => htu.ordinary id (hst.ordinary id h)⟩

theorem isModule_eq (id : DeclId) : s.isModule id = ((s.entity? id).bind Entity.path?).isSome := by
  rw [isModule, module?]
  cases s.entity? id with
  | none => rfl
  | some e => cases e <;> rfl

variable {id : DeclId}

theorem Ordinary.isModule (h : s.Ordinary id) : s.isModule id = false := by
  obtain ⟨e, he, hpath⟩ := h
  rw [isModule_eq, he, Option.bind_some, hpath]
  rfl

theorem retains_of_standing (hnames : ∀ id, (s.name? id).isSome → (t.name? id).isSome)
    (h : ∀ id, (t.entity? id).map Entity.standing = (s.entity? id).map Entity.standing) :
    s.Retains t := by
  refine ⟨hnames, fun id hid => ?_, ?_⟩
  · have hmodule := congrArg (fun o => (o.bind Prod.fst).isSome) (h id)
    simp only [Option.bind_map, Function.comp_def, Entity.standing, ← isModule_eq] at hmodule
    exact hmodule.trans hid
  · rintro id ⟨e, he, hpath⟩
    have hsame := h id
    rw [he, Option.map_some] at hsame
    obtain ⟨e', he', hstanding⟩ := Option.map_eq_some_iff.1 hsame
    exact ⟨e', he', (congrArg Prod.fst hstanding).trans hpath⟩

/-! ## Tables -/

theorem listed_empty : s.Listed .empty :=
  ⟨nofun, nofun⟩

variable {members : Members}

theorem Listed.mono (h : s.Listed members) (hst : s.Retains t) : t.Listed members :=
  ⟨fun id hid => hst.ordinary id (h.order id hid),
    fun name id hid => (h.names name id hid).imp (hst.ordinary id) (hst.names id)⟩

theorem Holds.mono (h : s.Holds W e) (hst : s.Retains t) : t.Holds W e :=
  ⟨h.worded, fun members hm => (h.members members hm).mono hst,
    fun m name id hm hid => (h.submodules m name id hm hid).imp_right (hst.modules id)⟩

theorem holds_of_fresh (h : e.Fresh) (hworded : e.Worded W) : s.Holds W e := by
  refine ⟨hworded, fun members hm => ?_, ?_⟩
  · rw [h.2 members hm]
    exact listed_empty
  · rintro m name id rfl
    cases h.1

theorem Listed.of_entries {members new : Members} (h : s.Listed members)
    (horder : ∀ i ∈ new.order, i = id ∨ i ∈ members.order)
    (hnames : ∀ name i, new.get? name = some i → i = id ∨ members.get? name = some i)
    (hordinary : s.Ordinary id) (hid : new.get? = members.get? ∨ (s.name? id).isSome) :
    s.Listed new := by
  refine ⟨fun i hi => ?_, fun name i hi => ?_⟩
  · rcases horder i hi with rfl | hold
    · exact hordinary
    · exact h.order i hold
  · rcases hid with hsame | hid
    · exact h.names name i (hsame ▸ hi)
    · rcases hnames name i hi with rfl | hold
      · exact ⟨hordinary, hid⟩
      · exact h.names name i hold

theorem Listed.insert (h : s.Listed members) {name : Option String} (hordinary : s.Ordinary id)
    (hid : name.isSome → (s.name? id).isSome) : s.Listed (members.insert name id).2 := by
  refine h.of_entries (fun _ => Members.mem_insert) (fun _ _ => Members.get?_insert) hordinary ?_
  cases name with
  | none => exact .inl rfl
  | some name => exact .inr (hid rfl)

theorem Listed.nameEntry (h : s.Listed members) (hordinary : s.Ordinary id) (name : String)
    (hid : (s.name? id).isSome) : s.Listed (members.nameEntry name id).2 :=
  h.of_entries (fun _ hi => .inr (Members.mem_nameEntry hi)) (fun _ _ => Members.get?_nameEntry)
    hordinary (.inr hid)

theorem Listed.unlist (h : s.Listed members) (id : DeclId) : s.Listed (members.unlist id) :=
  ⟨fun i hi => h.order i ((List.mem_filter.1 hi).1), h.names⟩

/-! ## Changes of one declaration -/

namespace Worded

section Changes

variable (hs : s.Worded W)

include hs

theorem of_standing
    (hnames : ∀ id name, id ≠ Store.root → t.name? id = some name → IsTitle name)
    (hsome : ∀ id, (s.name? id).isSome → (t.name? id).isSome)
    (howner : ∀ id, t.owningModule id = s.owningModule id)
    (hstanding : ∀ id, (t.entity? id).map Entity.standing = (s.entity? id).map Entity.standing)
    (hholds : s.Retains t → ∀ id e, t.entity? id = some e → t.Holds W e) : t.Worded W := by
  have hretains := retains_of_standing hsome hstanding
  have hentity : ∀ id e, t.entity? id = some e →
      ∃ old, s.entity? id = some old ∧ old.standing = e.standing := by
    intro id e he
    have h := hstanding id
    rw [he] at h
    exact Option.map_eq_some_iff.1 h.symm
  have hmodule : ∀ id, t.isModule id = s.isModule id := by
    intro id
    have h := congrArg (fun o => (o.bind Prod.fst).isSome) (hstanding id)
    simpa [Option.bind_map, Function.comp_def, Entity.standing, isModule_eq] using h
  refine ⟨hretains.modules _ hs.root, hnames, fun id e he hvalue => ?_, fun id hid => ?_,
    fun id e path hid he hpath => ?_, hholds hretains⟩
  · obtain ⟨old, hold, hsame⟩ := hentity id e he
    exact hsome id (hs.named id old hold ((congrArg Prod.snd hsame).trans hvalue))
  · rw [howner]
    exact hs.owned id (hmodule id ▸ hid)
  · obtain ⟨old, hold, hsame⟩ := hentity id e he
    exact hs.paths id old path hid hold ((congrArg Prod.fst hsame).trans hpath)

theorem of_decls (h : t.decls = s.decls) : t.Worded W := by
  have hname (id : DeclId) : t.name? id = s.name? id := by rw [name?, h, name?]
  have hentity (id : DeclId) : t.entity? id = s.entity? id := by rw [entity?, h, entity?]
  exact hs.of_standing (fun id name hid hn => hs.names id name hid (hname id ▸ hn))
    (fun id hid => hname id ▸ hid) (fun id => by rw [owningModule, h, owningModule])
    (fun id => by rw [hentity]) fun hretains id e he =>
      (hs.holds id e (hentity id ▸ he)).mono hretains

theorem ne_root_of_entity (h : s.entity? id = some e) (he : e.frame? = none) : id ≠ Store.root := by
  rintro rfl
  have hroot := hs.root
  rw [isModule_eq, h] at hroot
  cases e with
  | namespaceOf => cases he
  | _ => cases hroot

theorem ne_root_of_class (h : (s.class? id).isSome) : id ≠ Store.root := by
  obtain ⟨c, hc⟩ := Option.isSome_iff_exists.1 h
  exact hs.ne_root_of_entity (entity?_of_class? hc) rfl

omit hs in
theorem standing_modifyEntity (id : DeclId) {f : Entity → Entity}
    (hf : ∀ e, (f e).standing = e.standing) (i : DeclId) :
    ((s.modifyEntity id f).entity? i).map Entity.standing =
      (s.entity? i).map Entity.standing := by
  rw [entity?_modifyEntity]
  split
  · rw [Option.map_map]
    exact congrArg (Option.map · (s.entity? i)) (funext hf)
  · rfl

omit hs in
theorem retains_setMembers (id : DeclId) (members : Members) :
    s.Retains (s.modifyEntity id (Entity.setMembers members)) :=
  retains_of_standing (fun i hi => by rw [name?_modifyEntity]; exact hi)
    (standing_modifyEntity id (Entity.standing_setMembers members))

theorem modifyEntity (id : DeclId) {f : Entity → Entity}
    (hf : ∀ e, s.entity? id = some e → s.Holds W e → s.Holds W (f e))
    (hstanding : ∀ e, (f e).standing = e.standing) : (s.modifyEntity id f).Worded W := by
  refine hs.of_standing (fun i name hi hn => hs.names i name hi (name?_modifyEntity id f i ▸ hn))
    (fun i hi => by rw [name?_modifyEntity]; exact hi) (owningModule_modifyEntity id f)
    (standing_modifyEntity id hstanding) fun hretains i e he => ?_
  rw [entity?_modifyEntity] at he
  split at he
  · next hid =>
    subst hid
    obtain ⟨e, hold, rfl⟩ := Option.map_eq_some_iff.1 he
    exact (hf e hold (hs.holds i e hold)).mono hretains
  · exact (hs.holds i e he).mono hretains

theorem setMembers (id : DeclId) (h : s.Listed members) :
    (s.modifyEntity id (Entity.setMembers members)).Worded W := by
  refine hs.modifyEntity id (fun e _ he => ?_) (Entity.standing_setMembers members)
  refine ⟨Entity.worded_setMembers members he.worded, fun new hnew => ?_,
    fun m name inner hm => ?_⟩
  · cases e with
    | namespaceOf | classType | routine =>
      cases hnew
      exact h
    | _ => cases hnew
  · cases e with
    | namespaceOf m =>
      cases hm
      exact he.submodules m name inner rfl
    | _ => cases hm

theorem modifyModule (id : DeclId) {f : Module → Module}
    (hmembers : ∀ m, (f m).members = m.members) (hpath : ∀ m, (f m).path = m.path)
    (himports : ∀ m, m.imports.InLine → (f m).imports.InLine)
    (hsubmodules : ∀ m name inner, (f m).submodules.get? name = some inner →
      m.submodules.get? name = some inner ∨ inner ≠ Store.root ∧ s.isModule inner) :
    (s.modifyModule id f).Worded W := by
  refine hs.modifyEntity id (fun e hid he => ?_) fun e => ?_
  · cases e with
    | namespaceOf m =>
      refine ⟨himports m he.worded, fun members hm => ?_, fun m' name inner hm' hinner => ?_⟩
      · refine he.members members ?_
        rw [← hm]
        exact congrArg some (hmembers m).symm
      · cases hm'
        exact (hsubmodules m name inner hinner).elim (he.submodules m name inner rfl) fun h => h
    | _ => exact he
  · cases e with
    | namespaceOf m => exact congrArg (fun path => (some path, true)) (hpath m)
    | _ => rfl

theorem modifyClass (id : DeclId) {f : ClassType → ClassType}
    (hmembers : ∀ c, (f c).members = c.members)
    (hf : ∀ c, (Entity.classType c).Worded W → (Entity.classType (f c)).Worded W) :
    (s.modifyClass id f).Worded W := by
  refine hs.modifyEntity id (fun e _ he => ?_) fun e => by cases e <;> rfl
  cases e with
  | classType c =>
    refine ⟨hf c he.worded, fun members hm => ?_, nofun⟩
    refine he.members members ?_
    rw [← hm]
    exact congrArg some (hmembers c).symm
  | _ => exact he

theorem modifyRoutine (id : DeclId) {f : Routine → Routine}
    (hmembers : ∀ r, (f r).locals = r.locals ∨ (f r).locals = .empty)
    (hf : ∀ kind r, (Entity.routine kind r).Worded W → (Entity.routine kind (f r)).Worded W) :
    (s.modifyRoutine id f).Worded W := by
  refine hs.modifyEntity id (fun e _ he => ?_) fun e => by cases e <;> rfl
  cases e with
  | routine kind r =>
    refine ⟨hf kind r he.worded, fun members hm => ?_, nofun⟩
    have hlocals : (f r).locals = members := Option.some.inj hm
    rcases hmembers r with hsame | hempty
    · exact he.members members (congrArg some (hsame ▸ hlocals))
    · rw [← hlocals, hempty]
      exact listed_empty
  | _ => exact he

theorem notice (text : String) : (s.notice text).Worded W :=
  hs.of_decls rfl

/-! ## New declarations -/

theorem size_pos : 0 < s.decls.size := by
  have hroot := hs.root
  by_contra hsize
  have hnone : s.decls[Store.root]? = none :=
    Array.getElem?_eq_none (by rw [Store.root]; omega)
  rw [isModule_eq, entity?, hnone] at hroot
  cases hroot

omit hs in
theorem retains_alloc (parent : DeclId) (name : Option String) (place : Position)
    (entity : Entity) : s.Retains (s.alloc parent name place entity).2 := by
  have hold {i : DeclId} {e : Entity} (h : s.entity? i = some e) :
      (s.alloc parent name place entity).2.entity? i = some e := by
    have hne : i ≠ s.decls.size := by
      rintro rfl
      rw [entity?, Array.getElem?_size] at h
      cases h
    rw [entity?_alloc, if_neg hne, h]
  refine ⟨fun i hi => isSome_name?_alloc _ _ _ _ hi, fun i hi => ?_, ?_⟩
  · rw [isModule_eq] at hi ⊢
    obtain ⟨path, hpath⟩ := Option.isSome_iff_exists.1 hi
    obtain ⟨e, he, -⟩ := Option.bind_eq_some_iff.1 hpath
    rw [hold he, ← he]
    exact hi
  · rintro i ⟨e, he, hpath⟩
    exact ⟨e, hold he, hpath⟩

theorem alloc (parent : DeclId) (name : Option String) (place : Position)
    (entity : Entity) (hname : ∀ n ∈ name, IsTitle n) (hvalue : entity.isNamed → name.isSome)
    (hpath : ∀ path, entity.path? = some path → IsModulePath path) (he : s.Holds W entity) :
    (s.alloc parent name place entity).2.Worded W := by
  have hretains := retains_alloc (s := s) parent name place entity
  refine ⟨hretains.modules _ hs.root, fun i n hi hn => ?_, fun i e hi hv => ?_, fun i hi => ?_,
    fun i e path hroot hi hp => ?_, fun i e hi => ?_⟩
  · rw [name?_alloc] at hn
    split at hn
    · exact hname n hn
    · exact hs.names i n hi hn
  · rw [entity?_alloc] at hi
    rw [name?_alloc]
    split at hi
    · next hnew =>
      cases hi
      rw [if_pos hnew]
      exact hvalue hv
    · next hold =>
      rw [if_neg hold]
      exact hs.named i e hi hv
  · rw [isModule_eq, entity?_alloc] at hi
    rw [owningModule_alloc]
    split at hi
    · next hnew =>
      rw [if_pos hnew]
      exact if_pos hi
    · next hold =>
      rw [if_neg hold]
      exact hs.owned i (by rw [isModule_eq]; exact hi)
  · rw [entity?_alloc] at hi
    split at hi
    · cases hi
      exact hpath path hp
    · exact hs.paths i e path hroot hi hp
  · rw [entity?_alloc] at hi
    split at hi
    · cases hi
      exact he.mono hretains
    · exact (hs.holds i e hi).mono hretains

theorem relist (parent : DeclId) (f : Members → Option DeclId × Members)
    (hf : ∀ members, s.Listed members → s.Listed (f members).2) (place : Position)
    (name : String) : (s.relist parent ((s.members? parent).map f) place name).Worded W := by
  cases hmembers : s.members? parent with
  | none => exact hs
  | some members =>
    obtain ⟨e, he, hold⟩ := Option.bind_eq_some_iff.1 hmembers
    have hset := hs.setMembers parent (hf members ((hs.holds parent e he).members members hold))
    rw [Option.map_some]
    generalize f members = relisted at hset
    obtain ⟨old, new⟩ := relisted
    cases old with
    | none => exact hset
    | some old => exact hset.notice _

theorem addImport (id : DeclId) {path : String} (hpath : IsOneLine path)
    {symbol : Option String} (hsymbol : ∀ x ∈ symbol, IsOneLine x) :
    (s.modifyModule id (·.addImport path symbol)).Worded W :=
  hs.modifyModule id (fun _ => rfl) (fun _ => rfl)
    (fun _ h => Module.inLine_addImport h hpath hsymbol) fun _ _ _ h => .inl h

theorem importEnum (id : DeclId) : (s.importEnum id).Worded W :=
  hs.addImport _ (by simp [IsOneLine]) (by simp [IsOneLine])

theorem add (parent : DeclId) (name : Option String) (entity : Entity)
    (place : Position) (hname : ∀ n ∈ name, IsTitle n) (hvalue : entity.isNamed → name.isSome)
    (hpath : entity.path? = none) (he : s.Holds W entity) :
    (s.add parent name entity place).2.Worded W := by
  have hnew := name?_alloc (s := s) parent name place entity s.decls.size
  rw [if_pos rfl] at hnew
  have hordinary : (s.alloc parent name place entity).2.Ordinary s.decls.size :=
    ⟨entity, by rw [entity?_alloc, if_pos rfl], hpath⟩
  have halloc := hs.alloc parent name place entity hname hvalue (by simp [hpath]) he
  rw [add_eq]
  dsimp only
  generalize (s.alloc parent name place entity).2 = t at hnew hordinary halloc
  have hlisted : (t.relist parent ((t.members? parent).map (·.insert name s.decls.size)) place
      (name.getD "")).Worded W := by
    refine halloc.relist parent _ (fun members hmembers => hmembers.insert hordinary ?_) place _
    rw [hnew]
    exact id
  split
  · exact hlisted.importEnum _
  · exact hlisted

theorem isModule_of_encloses (h : s.Encloses id) : s.isModule id := by
  rcases h with hmodule | ⟨around, name, hname⟩
  · exact hmodule
  · obtain ⟨m, hm, hid⟩ := Option.bind_eq_some_iff.1 hname
    exact ((hs.holds around _ (entity?_of_module? hm)).submodules m name id rfl hid).2

omit hs in
theorem encloses_addModule (parent : DeclId) (name : String) (place : Position) :
    (s.addModule parent name place).2.Encloses (s.addModule parent name place).1 := by
  unfold Store.addModule
  split
  · next inner hinner => exact .inr ⟨parent, name, hinner⟩
  · dsimp only
    generalize (if parent = Store.root then name else s.modulePath parent ++ "." ++ name) = path
    refine .inl ?_
    show isModule _ s.decls.size = true
    rw [isModule_eq, Store.modifyModule, entity?_modifyEntity, entity?_alloc, if_pos rfl]
    split <;> rfl

theorem isModulePath_modulePath (h : s.isModule id) (hid : id ≠ Store.root) :
    IsModulePath (s.modulePath id) := by
  rw [modulePath, hs.owned id h]
  unfold isModule module? at h
  unfold module?
  split at h
  · next m hentity =>
    exact hs.paths id _ m.path hid hentity rfl
  · cases h

theorem addModule {parent : DeclId} (hparent : s.Encloses parent)
    (hname : IsName name) (place : Position) : (s.addModule parent name place).2.Worded W := by
  unfold Store.addModule
  split
  · exact hs
  · dsimp only
    have hpath : IsModulePath (if parent = Store.root then name
        else s.modulePath parent ++ "." ++ name) := by
      split
      · exact hname.isModulePath
      · next hroot =>
        exact (hs.isModulePath_modulePath (hs.isModule_of_encloses hparent) hroot).append hname
    generalize (if parent = Store.root then name else s.modulePath parent ++ "." ++ name) = path
      at hpath
    have hmodule : (s.alloc parent (some name) place (.namespaceOf (.empty path))).2.isModule
        s.decls.size := by
      rw [isModule_eq, entity?_alloc, if_pos rfl]
      rfl
    have halloc := hs.alloc parent (some name) place (.namespaceOf (.empty path))
      (by simpa using hname.isTitle) (fun _ => rfl) (fun _ h => by cases h; exact hpath)
      ⟨nofun, fun _ h => by cases h; exact listed_empty,
        fun _ _ _ h hinner => by cases h; cases hinner⟩
    refine halloc.modifyModule _ (fun _ => rfl) (fun _ => rfl) (fun _ h => h)
      fun m key inner hinner => ?_
    rcases Members.get?_insert hinner with rfl | hold
    · exact .inr ⟨Nat.ne_of_gt hs.size_pos, hmodule⟩
    · exact .inl hold

/-! ## Routines -/

theorem addParametersFrom (routine : DeclId) (index : Nat)
    {params : List ParameterSpec} (h : ∀ p ∈ params, p.Worded W) :
    (s.addParametersFrom routine index params).Worded W := by
  induction params generalizing s index with
  | nil => exact hs
  | cons p rest ih =>
    have hp := h p List.mem_cons_self
    refine ih ?_ _ fun q hq => h q (List.mem_cons_of_mem _ hq)
    have hname : IsTitle (p.name.getD ("arg" ++ toString index)) := by
      cases hpname : p.name with
      | none =>
        refine isTitle_of_isWord ?_
        rw [Option.getD_none, String.toList_append]
        exact isWord_append_digits ⟨rfl, rfl⟩ index
      | some name => exact (hp.name name hpname).isTitle
    have hadded := hs.add routine (some (p.name.getD ("arg" ++ toString index)))
      (.parameter ⟨p.type, p.default⟩) p.place (by simpa using hname) nofun rfl
      ⟨hp.default, nofun, nofun⟩
    refine hadded.modifyRoutine routine (fun _ => .inl rfl) fun _ _ hr => ⟨hr.1, hr.2.1, ?_⟩
    exact List.forall_mem_append.2
      ⟨hr.2.2, List.forall_mem_singleton.2 (Nat.ne_of_gt hs.size_pos)⟩

variable {spec : RoutineSpec}

theorem completeForward (routine : DeclId) (h : spec.Worded W) :
    (s.completeForward routine spec).Worded W := by
  refine addParametersFrom ?_ routine 0 h
  exact hs.modifyRoutine routine (fun _ => .inr rfl) fun _ _ hr =>
    ⟨hr.1, hr.2.1, fun _ hmem => absurd hmem List.not_mem_nil⟩

omit hs in
theorem holds_routine (kind : RoutineKind) (spec : RoutineSpec) :
    s.Holds W (.routine kind spec.routine) :=
  ⟨⟨nofun, nofun, nofun⟩, fun _ h => by cases h; exact listed_empty, nofun⟩

theorem addNewRoutine (kind : RoutineKind) (parent : DeclId) (hname : IsTitle name)
    (h : spec.Worded W) (place : Position) : (s.addNewRoutine kind parent name spec place).2.Worded W :=
  (hs.add parent (some name) (.routine kind spec.routine) place (by simpa using hname) nofun rfl
    (holds_routine kind spec)).addParametersFrom _ 0 h

theorem addRoutine (kind : RoutineKind) (parent : DeclId) (hname : IsTitle name)
    (h : spec.Worded W) (place : Position) : (s.addRoutine kind parent name spec place).2.Worded W := by
  unfold Store.addRoutine
  split
  · split
    · exact hs
    · split
      · exact hs.completeForward _ h
      · exact hs.addNewRoutine kind parent hname h place
  · exact hs.addNewRoutine kind parent hname h place

theorem addNewConstructor {cls : DeclId} (hcls : cls ≠ Store.root) (h : spec.Worded W)
    (place : Position) : (s.addNewConstructor cls spec place).2.Worded W := by
  have hnew := hs.alloc cls (s.name? cls) place (.routine .constructor spec.routine)
    (fun n hn => hs.names cls n hcls hn) nofun nofun (holds_routine .constructor spec)
  exact (hnew.addParametersFrom _ 0 h).modifyClass cls (fun _ => rfl) fun _ hc => hc

theorem addConstructor {cls : DeclId} (hcls : cls ≠ Store.root) (h : spec.Worded W)
    (place : Position) : (s.addConstructor cls spec place).2.Worded W := by
  unfold Store.addConstructor
  split
  · exact hs.addNewConstructor hcls h place
  · split
    · exact hs
    · split
      · exact hs.completeForward _ h
      · exact (hs.notice _).addNewConstructor hcls h place

theorem addDestructor {cls id : DeclId} (hcls : cls ≠ Store.root) (h : spec.Worded W)
    {place : Position} (hadd : s.addDestructor cls spec place = .ok (id, t)) : t.Worded W := by
  unfold Store.addDestructor at hadd
  split at hadd
  · split at hadd
    · cases hadd
      exact hs
    · split at hadd
      · cases hadd
      · cases hadd
        exact hs.completeForward _ h
  · cases hadd
    have hname : ∀ n ∈ (s.name? cls).map ("~" ++ ·), IsTitle n := by
      intro n hn
      obtain ⟨name, hold, rfl⟩ := Option.map_eq_some_iff.1 hn
      exact (hs.names cls name hcls hold).tilde
    exact (hs.alloc cls _ place (.routine .destructor spec.routine) hname nofun nofun
      (holds_routine .destructor spec)).modifyClass cls
      (fun _ => rfl) fun _ hc => hc

theorem addLocal (routine : DeclId) (hname : IsName name) (place : Position) :
    (s.addLocal routine name place).2.Worded W := by
  unfold Store.addLocal
  split
  · exact hs
  · exact hs.add _ (some name) (.variableOf ⟨none, false⟩) _ (by simpa using hname.isTitle)
      (fun _ => rfl) rfl ⟨nofun, nofun, nofun⟩

/-! ## Declarations without a name -/

theorem rename (id : DeclId) (hname : IsTitle name) : (s.rename id name).Worded W := by
  refine hs.of_standing (fun i n hi hn => ?_) (fun i hi => ?_) (owningModule_rename id name)
    (fun i => by rw [entity?_rename]) fun hretains i e he =>
      (hs.holds i e (entity?_rename id name i ▸ he)).mono hretains
  · rw [name?_rename] at hn
    split at hn
    · obtain ⟨_, -, rfl⟩ := Option.map_eq_some_iff.1 hn
      exact hname
    · exact hs.names i n hi hn
  · rw [name?_rename]
    split
    · rw [name?] at hi
      cases hd : s.decls[i]? with
      | none => simp [hd] at hi
      | some d => rfl
    · exact hi

omit hs in
theorem retains_setParent {parent : DeclId} (hlt : parent < id) :
    s.Retains (s.setParent id parent hlt) :=
  retains_of_standing (fun i hi => by rw [name?_setParent]; exact hi) fun i => by
    rw [entity?_setParent]

theorem setParent {parent : DeclId} (hlt : parent < id) : (s.setParent id parent hlt).Worded W := by
  exact hs.of_standing (fun i n hi hn => hs.names i n hi (name?_setParent hlt i ▸ hn))
    (retains_setParent hlt).names (owningModule_setParent hlt)
    (fun i => by rw [entity?_setParent])
    fun hretains i e he => (hs.holds i e (entity?_setParent hlt i ▸ he)).mono hretains

theorem path?_of_nameless (hid : s.name? id = none) (he : s.entity? id = some e) :
    e.path? = none := by
  cases e with
  | namespaceOf m =>
    have hname := hs.named id _ he rfl
    rw [hid] at hname
    cases hname
  | _ => rfl

theorem nameAnonymous (hid : s.name? id = none) (hname : IsTitle name) :
    (s.nameAnonymous id name).Worded W := by
  have hrename := hs.rename id hname
  have hnamed (parent : DeclId) (h : (s.rename id name).parent? id = some parent) :
      (s.rename id name).Ordinary id ∧ (s.rename id name).name? id = some name := by
    rw [parent?_rename] at h
    refine ⟨?_, name?_rename_self name h⟩
    obtain ⟨d, hd, -⟩ := Option.bind_eq_some_iff.1 h
    have he : s.entity? id = some d.entity := by
      rw [entity?, hd]
      rfl
    exact ⟨d.entity, (entity?_rename ..).trans he, hs.path?_of_nameless hid he⟩
  rw [nameAnonymous_eq]
  dsimp only
  generalize s.rename id name = t at hrename hnamed
  split
  · exact hrename
  · next parent hparent =>
    obtain ⟨hordinary, hsome⟩ := hnamed parent hparent
    have hlisted := hrename.relist parent (·.nameEntry name id)
      (fun members hmembers => hmembers.nameEntry hordinary name (by rw [hsome]; rfl)) (t.place id) name
    split
    · exact hlisted.importEnum id
    · exact hlisted

theorem adopt {owner member : DeclId} (hlt : owner < member) (hmember : s.Ordinary member) :
    (s.adopt owner member hlt).Worded W ∧ s.Retains (s.adopt owner member hlt) := by
  have hmoved := hs.setParent hlt
  have hretains := retains_setParent (s := s) hlt
  unfold Store.adopt
  dsimp only
  generalize s.setParent member owner hlt = t at hmoved hretains
  split
  · exact ⟨hmoved, hretains⟩
  · next members hmembers =>
    obtain ⟨e, he, hold⟩ := Option.bind_eq_some_iff.1 hmembers
    exact ⟨hmoved.setMembers owner (((hmoved.holds owner e he).members members hold).insert
      (hretains.ordinary member hmember) id), hretains.trans (retains_setMembers owner _)⟩

theorem dissolve (id : DeclId) : (s.dissolve id).Worded W := by
  have hmoved : ∀ i ∈ s.classMembers id, s.Ordinary i := by
    intro i hi
    unfold classMembers class? at hi
    split at hi
    · next c hc => exact ((hs.holds id _ hc).members c.members rfl).order i hi
    · cases hi
  refine dissolve_induction (I := fun _ rest t => t.Worded W ∧ ∀ i ∈ rest, t.Ordinary i) ?_
    (fun _ _ h => h.1) hs (fun _ _ => ⟨hs, hmoved⟩) fun owner members _ hmembers => ?_
  · rintro owner member rest t hlt ⟨ht, h⟩
    obtain ⟨hmember, hrest⟩ := List.forall_mem_cons.1 h
    obtain ⟨hadopt, hretains⟩ := ht.adopt hlt hmember
    exact ⟨hadopt, fun i hi => hretains.ordinary i (hrest i hi)⟩
  · obtain ⟨e, he, hold⟩ := Option.bind_eq_some_iff.1 hmembers
    exact ⟨hs.setMembers owner (((hs.holds owner e he).members members hold).unlist id),
      fun i hi => (retains_setMembers owner _).ordinary i (hmoved i hi)⟩

/-! ## Contents -/

theorem addEnumerator (id : DeclId) (hname : IsName name) {init : Option Expr}
    (hinit : ∀ e ∈ init, e.Worded W) (place : Position) :
    (s.addEnumerator id name init place).Worded W := by
  refine hs.modifyEntity id (fun e _ he => ?_) fun e => by cases e <;> rfl
  cases e with
  | enumeration e => exact ⟨Enumeration.worded_push he.worded hname hinit place, nofun, nofun⟩
  | _ => exact he

theorem setValue (id : DeclId) {value : Expr} (h : value.Worded W) :
    (s.setValue id value).Worded W := by
  have hvalue : ∀ e ∈ some value, e.Worded W := by simpa using h
  refine hs.modifyEntity id (fun e _ he => ?_) fun e => by cases e <;> rfl
  cases e with
  | «attribute» a => exact ⟨hvalue, nofun, nofun⟩
  | variableOf v => exact ⟨hvalue, nofun, nofun⟩
  | _ => exact he

end Changes

end Worded

end Store

open Store in
theorem Build.worded {α : Type} {op : Build α} {s t : Store} {a : α} (hs : s.Worded W)
    (hop : op.Worded W s) (h : op.apply s = .ok (a, t)) : t.Worded W := by
  have hof {r : α × Store} (hr : (.ok r : Except Fault (α × Store)) = .ok (a, t))
      (hworded : r.2.Worded W) : t.Worded W := by
    cases hr
    exact hworded
  cases op with
  | add parent name entity place =>
    obtain ⟨hname, hvalue, hentity, hfresh⟩ := hop
    have hpath : entity.path? = none := by
      cases entity with
      | namespaceOf m => cases hfresh.1
      | _ => rfl
    exact hof h (hs.add parent name entity place (fun n hn => (hname n hn).isTitle) hvalue hpath
      (holds_of_fresh hfresh hentity))
  | addModule parent name place => exact hof h (hs.addModule hop.2 hop.1 place)
  | addRoutine kind parent name spec place =>
    exact hof h (hs.addRoutine kind parent (isTitle_of_isWord hop.1) hop.2 place)
  | addConstructor cls spec place =>
    exact hof h (hs.addConstructor (hs.ne_root_of_class hop.1) hop.2 place)
  | addDestructor cls spec place => exact hs.addDestructor (hs.ne_root_of_class hop.1) hop.2 h
  | addLocal routine name place => exact hof h (hs.addLocal routine hop place)
  | addEnumerator id name init place => exact hof h (hs.addEnumerator id hop.1 hop.2 place)
  | setSuperclass cls superclass =>
    refine hof h (hs.modifyClass cls (fun _ => rfl) fun c _ e he => ?_)
    cases he
    exact hop
  | setInitializers routine inits =>
    exact hof h (hs.modifyRoutine routine (fun _ => .inl rfl) fun _ _ hr => ⟨hop, hr.2⟩)
  | setStatements routine body =>
    exact hof h (hs.modifyRoutine routine (fun _ => .inl rfl) fun _ _ hr =>
      ⟨hr.1, fun b hb => by cases hb; exact hop, hr.2.2⟩)
  | setValue id value => exact hof h (hs.setValue id hop)
  | nameAnonymous id name => exact hof h (hs.nameAnonymous hop.2 hop.1.isTitle)
  | dissolve id => exact hof h (hs.dissolve id)
  | notice text => exact hof h (hs.notice text)

end Serpentine
