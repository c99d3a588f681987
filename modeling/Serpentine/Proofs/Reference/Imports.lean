import Serpentine.Proofs.Reference.Spelling
import Serpentine.Proofs.Sorted

/-!
# Imports

A module gets the imports that uses of names in its scopes ask for. So it has what its names need,
unless one of them was read in a scope of another module.
-/

namespace Serpentine

/-! ## Tables of imports -/

/-- The request is for this import. -/
def ImportRequest.Meets (request : ImportRequest) (path : String) (symbol : Option String) : Prop :=
  request.1 = path ∧ ∀ x ∈ symbol, request.2 = some x

/-- The imports have a path, with a symbol under it if one is asked for. -/
def Imports.Has (imports : Imports) (path : String) (symbol : Option String) : Prop :=
  ∃ symbols, (path, symbols) ∈ imports ∧ ∀ x ∈ symbol, x ∈ symbols

variable {symbol : Option String} {path : String}

theorem has_cons {imports : Imports} {entry : String × List String} :
    Imports.Has (entry :: imports) path symbol ↔
      entry.1 = path ∧ (∀ x ∈ symbol, x ∈ entry.2) ∨ Imports.Has imports path symbol := by
  constructor
  · rintro ⟨symbols, hmem, hsymbol⟩
    rcases List.mem_cons.mp hmem with rfl | hmem
    · exact .inl ⟨rfl, hsymbol⟩
    · exact .inr ⟨symbols, hmem, hsymbol⟩
  · rintro (⟨rfl, hsymbol⟩ | ⟨symbols, hmem, hsymbol⟩)
    · exact ⟨entry.2, List.mem_cons_self, hsymbol⟩
    · exact ⟨symbols, List.mem_cons_of_mem _ hmem, hsymbol⟩

theorem has_update {imports : Imports} {key path : String} {asked symbol : Option String}
    {f : Option (List String) → List String}
    (hf : ∀ old x, x ∈ f old ↔ x ∈ old.getD [] ∨ asked = some x) :
    Imports.Has (Sorted.update key f imports) path symbol ↔
      Imports.Has imports path symbol ∨ ImportRequest.Meets (key, asked) path symbol := by
  have hnew : (key = path ∧ ∀ x ∈ symbol, x ∈ f none) ↔
      ImportRequest.Meets (key, asked) path symbol := by
    simp [ImportRequest.Meets, hf]
  induction imports with
  | nil =>
    rw [Sorted.update, has_cons, hnew, or_comm]
  | cons entry rest ih =>
    obtain ⟨k, symbols⟩ := entry
    rw [Sorted.update]
    split
    · rw [has_cons, hnew, or_comm]
    · split
      · simp only [has_cons, ih, or_assoc]
      · next hlt hgt =>
        obtain rfl : key = k := String.le_antisymm hgt hlt
        have hold : (key = path ∧ ∀ x ∈ symbol, x ∈ f (some symbols)) ↔
            (key = path ∧ ∀ x ∈ symbol, x ∈ symbols) ∨
              ImportRequest.Meets (key, asked) path symbol := by
          cases symbol with
          | none => simp [ImportRequest.Meets]
          | some x => simp [ImportRequest.Meets, hf, and_or_left]
        rw [has_cons, has_cons, hold, or_right_comm]

theorem has_addImport {m : Module} {request : ImportRequest} :
    (m.addImport request.1 request.2).imports.Has path symbol ↔
      m.imports.Has path symbol ∨ request.Meets path symbol := by
  refine has_update fun old x => ?_
  cases request.2 with
  | none => simp
  | some asked => simp [Sorted.mem_insert, or_comm, eq_comm]

namespace Store

/-- The module has the import. -/
def HasImport (s : Store) (id : DeclId) (path : String) (symbol : Option String) : Prop :=
  ∃ m, s.module? id = some m ∧ m.imports.Has path symbol

theorem module?_addImport (s : Store) (id other : DeclId) (request : ImportRequest) :
    (s.addImport id request).module? other =
      if id = other then (s.module? other).map (·.addImport request.1 request.2)
      else s.module? other := by
  unfold module? entity?
  rw [getElem?_addImport]
  by_cases hid : id = other
  · rw [if_pos hid, if_pos hid]
    cases s.decls[other]? with
    | none => rfl
    | some d =>
      obtain ⟨name, parent, root, place, entity⟩ := d
      cases entity <;> rfl
  · rw [if_neg hid, if_neg hid]

variable {s : Store}

theorem hasImport_addImport {id other : DeclId} {request : ImportRequest} :
    (s.addImport id request).HasImport other path symbol ↔
      s.HasImport other path symbol ∨
        s.isModule other ∧ id = other ∧ request.Meets path symbol := by
  unfold HasImport isModule
  rw [module?_addImport]
  by_cases hid : id = other
  · rw [if_pos hid]
    cases s.module? other with
    | none => simp
    | some m => simp [hid, has_addImport]
  · rw [if_neg hid]
    simp [hid]

theorem hasImport_addRequests {id : DeclId} {uses : List (NameRef × Bound)} :
    (s.addRequests uses).HasImport id path symbol ↔
      s.HasImport id path symbol ∨ s.isModule id ∧ ∃ use ∈ uses,
        s.owningModule use.1.scope = id ∧ ∃ request ∈ use.2.request, request.Meets path symbol := by
  induction uses generalizing s with
  | nil => simp [addRequests]
  | cons use rest ih =>
    obtain ⟨ref, b⟩ := use
    rw [addRequests]
    cases hrequest : b.request with
    | none => simp [ih, hrequest]
    | some request =>
      simp only [ih, hasImport_addImport, isModule_addImport, owningModule_addImport]
      simp only [List.mem_cons, exists_eq_or_imp, hrequest, Option.mem_def, Option.some.injEq,
        exists_eq_left', and_or_left, or_assoc]

theorem hasImport_importForMain {id : DeclId} :
    s.importForMain.HasImport id path symbol ↔
      s.HasImport id path symbol ∨
        s.isModule id ∧ s.mainFunction?.isSome ∧ root = id ∧
          ImportRequest.Meets ("sys", none) path symbol := by
  unfold importForMain
  by_cases hmain : s.mainFunction?.isSome
  · rw [if_pos hmain, hasImport_addImport]
    simp [hmain]
  · rw [if_neg hmain]
    simp [hmain]

/-! ## Imports that spellings need -/

theorem isPrefix_of_declImport {requester id : DeclId} {path first : String}
    (h : s.declImport requester id = some (path, some first)) :
    Script.pathParts first <+: Script.pathParts (s.declSpelling id) := by
  obtain ⟨rest, hnames⟩ := List.head?_eq_some_iff.1 (eq_of_declImport h).2.symm
  rw [declSpelling, hnames]
  cases rest with
  | nil => simp
  | cons second rest =>
    rw [String.intercalate_cons_cons, Script.pathParts_append_dot]
    exact List.prefix_append _ _

/-- The spelling of a name begins with the symbol that it needs imported. -/
theorem isPrefix_spelling {requester : DeclId} {binding : Binding} {found : Found}
    {path first : String} (h : s.importFor requester binding found = some (path, some first)) :
    Script.pathParts first <+: Script.pathParts (s.spelling requester binding found) := by
  unfold importFor at h
  unfold spelling
  cases found with
  | decl id =>
    cases binding with
    | global => cases h
    | wholeModule =>
      dsimp only at h
      split at h <;> cases h
    | inScope | member | declared | unboundMethod | external => exact isPrefix_of_declImport h
  | enumerator enumeration index =>
    dsimp only at h ⊢
    split at h
    · next hnamed =>
      rw [if_pos hnamed, Script.pathParts_append_dot]
      exact (isPrefix_of_declImport h).trans (List.prefix_append _ _)
    · next hnamed =>
      rw [if_neg hnamed]
      split at h
      · next howner =>
        rw [if_pos howner]
        split at h
        · cases h
        · cases h
          exact List.prefix_rfl
      · next howner =>
        rw [if_neg howner, Script.pathParts_append_dot]
        exact (isPrefix_of_declImport h).trans (List.prefix_append _ _)

/-- A module has an import, a use of a name in its scopes asks for it, or the main function does. -/
def Asked (s : Store) (uses : List (NameRef × Bound)) (m : DeclId) (path : String)
    (symbol : Option String) : Prop :=
  s.HasImport m path symbol ∨
  (∃ other ∈ uses, s.owningModule other.1.scope = m ∧
    ∃ request ∈ other.2.request, request.Meets path symbol) ∨
  s.mainFunction?.isSome ∧ root = m ∧ ImportRequest.Meets ("sys", none) path symbol

/-- The imports of a module once all names are bound. -/
theorem hasImport_resolved {uses : List (NameRef × Bound)} {m : DeclId} (hm : s.isModule m) :
    (s.addRequests uses).importForMain.HasImport m path symbol ↔ s.Asked uses m path symbol := by
  have hmodule : (s.addRequests uses).isModule m := by
    rw [← isModule_outline, outline_addRequests, isModule_outline]
    exact hm
  have hmain : (s.addRequests uses).mainFunction? = s.mainFunction? := by
    rw [← mainFunction?_bare, bare_addRequests, mainFunction?_bare]
  rw [hasImport_importForMain, hasImport_addRequests, hmain, Asked]
  simp only [hm, hmodule, true_and, or_assoc]

end Store

/-- **Imports that names need.** A module has the import for a name, and the printed name begins
with its symbol, if the name was read in a scope of the module. For a name that was read elsewhere,
as in a definition outside of its namespace, the module has it only by chance: if it had it before,
or if a name of its own scopes asks for the same. -/
theorem resolve_hasImport_iff {s : Store} {table : Resolutions} {r : Resolving}
    (h : resolve s table = (.ok (), r)) :
    ∃ uses, s.bindAll table s.references = .ok uses ∧
      (∀ ref ∈ s.references, table.get? ref.id = none → ∃ use ∈ uses, use.1.id = ref.id) ∧
      ∀ use ∈ uses, use.2.resolution.binding.isPath →
        ∃ found, s.target? use.1 = some found ∧
          ∀ m, s.isModule m → ∀ path symbol,
            s.importFor m use.2.resolution.binding found = some (path, symbol) →
              (s.owningModule use.1.scope = m →
                r.store.HasImport m path symbol ∧
                  ∀ first ∈ symbol, ∀ env : Lowering.Env, env.table = r.table →
                    (Script.pathParts first).map Script.identifier <+:
                      Script.pathParts (env.nameText use.1)) ∧
              (r.store.HasImport m path symbol ↔
                s.HasImport m path symbol ∨
                (∃ other ∈ uses, s.owningModule other.1.scope = m ∧
                  ∃ request ∈ other.2.request, request.Meets path symbol) ∨
                s.mainFunction?.isSome ∧ Store.root = m ∧
                  ImportRequest.Meets ("sys", none) path symbol) := by
  obtain ⟨uses, huses, hstore, htable⟩ := resolve_ok h
  refine ⟨uses, huses, Store.exists_use_of_bindAll huses, fun use huse hpath => ?_⟩
  obtain ⟨found, hfound, hname, hrequest⟩ :=
    Store.bind_target (Store.bind_of_bindAll huses use huse) hpath
  refine ⟨found, hfound, fun m hm path symbol hneeds => ?_⟩
  have hiff : (s.addRequests uses).importForMain.HasImport m path symbol ↔
      s.Asked uses m path symbol := Store.hasImport_resolved hm
  rw [← hstore] at hiff
  refine ⟨fun howner => ⟨hiff.2 (.inr (.inl ⟨use, huse, howner, (path, symbol), ?_, rfl, ?_⟩)), ?_⟩,
    hiff⟩
  · rw [hrequest, howner]
    exact hneeds
  · exact fun x hx => hx
  · intro first hfirst env henv
    rw [Option.mem_def] at hfirst
    subst hfirst
    rw [Lowering.Env.nameText_of_isPath (by rw [henv, htable use huse]) hpath,
      Script.pathParts_dotted, hname, howner]
    exact (Store.isPrefix_spelling hneeds).map Script.identifier

theorem resolve_hasImport_iff_twoNamespaces :
    ∃ r, resolve twoNamespaces [] = (.ok (), r) ∧ r.store.HasImport Store.root "A" (some "f") := by
  obtain ⟨r, a, b, hresolve, hbind, ha, -, hp, -, hroot, hscope, -, hneeds⟩ := resolve_twoNamespaces
  obtain ⟨uses, huses, -, himports⟩ := resolve_hasImport_iff hresolve
  rw [hbind, Except.ok.injEq] at huses
  subst huses
  obtain ⟨found, hfound, hmodules⟩ := himports a (by simp) (by rw [ha]; rfl)
  rw [hp, Option.some.injEq] at hfound
  subst hfound
  rw [ha] at hmodules
  exact ⟨r, hresolve, ((hmodules _ hroot _ _ hneeds).1 hscope).1⟩

/-- An attribute of a class in one namespace that gets its value outside of it: a variable of
another namespace. -/
@[irreducible] def valueOutside : Store :=
  (Grammar.parseFile .empty (.empty "main") "t.cpp"
    "namespace N \x7b struct K \x7b static int s; \x7d; \x7d namespace P \x7b int g = 2; \x7d
int N::K::s = P::g;").2

/-- The namespace of the class prints the value, but has no import for it. -/
theorem resolve_valueOutside :
    ∃ r use, resolve valueOutside [] = (.ok (), r) ∧
      valueOutside.bindAll [] valueOutside.references = .ok [use] ∧
      use.2.resolution = ⟨"g", "P", .declared⟩ ∧
      valueOutside.target? use.1 = some (.decl 5) ∧
      valueOutside.moduleByPath? "N" = some 1 ∧
      valueOutside.importFor 1 .declared (.decl 5) = some ("P", some "g") ∧
      (Writer.script.write r.store r.table 1).text.toOption = some "class K:\n    s = g\n" ∧
      ¬ r.store.HasImport 1 "P" (some "g") := by
  have hrun : ((resolve valueOutside []).1.toOption = some () ∧
      (valueOutside.bindAll [] valueOutside.references).toOption.map (·.map fun use =>
        (use.2.resolution, valueOutside.target? use.1)) =
      some [(⟨"g", "P", .declared⟩, some (.decl 5))]) ∧
      valueOutside.moduleByPath? "N" = some 1 ∧
      valueOutside.importFor 1 .declared (.decl 5) = some ("P", some "g") ∧
      (Writer.script.write (resolve valueOutside []).2.store (resolve valueOutside []).2.table
        1).text.toOption = some "class K:\n    s = g\n" ∧
      ((resolve valueOutside []).2.store.module? 1).map Module.imports = some [] := by
    unfold valueOutside
    decide +kernel
  obtain ⟨⟨hresolve, hbind⟩, hpath, hneeds, htext, himports⟩ := hrun
  obtain ⟨uses, huses, hmap⟩ := Option.map_eq_some_iff.mp hbind
  obtain ⟨use, _, rfl, huse, hmap⟩ := List.map_eq_cons_iff.mp hmap
  obtain rfl := List.map_eq_nil_iff.mp hmap
  rw [Prod.mk.injEq] at huse
  refine ⟨_, use, Prod.ext (eq_ok_of_toOption hresolve) rfl, eq_ok_of_toOption huses, huse.1,
    huse.2, hpath, hneeds, htext, ?_⟩
  rintro ⟨m, hm, symbols, hmem, -⟩
  rw [hm, Option.map_some, Option.some.injEq] at himports
  rw [himports] at hmem
  cases hmem

end Serpentine
