import Serpentine.Proofs.Reference.Imports

/-!
# Stability of bindings

Resolving only adds: bindings to the table and imports to modules. What is bound once stays bound to
the same, whatever is read or resolved later, and where all names are bound there is nothing left to
add (**`resolve_stable`**).
-/

namespace Serpentine

/-! ## Repeated imports -/

theorem Module.addImport_addImport (m : Module) (path : String) (symbol : Option String) :
    (m.addImport path symbol).addImport path symbol = m.addImport path symbol := by
  unfold addImport
  dsimp only
  rw [Sorted.update_update (String.lt_irrefl path)]
  intro old
  cases symbol with
  | none => rfl
  | some s => exact Sorted.insert_insert s _ (String.lt_irrefl s)

namespace Store

variable (s : Store)

theorem addImport_addImport (id : DeclId) (request : ImportRequest) :
    (s.addImport id request).addImport id request = s.addImport id request := by
  refine eq_of_decls (Array.ext_getElem? fun other => ?_) rfl rfl
  rw [getElem?_addImport, getElem?_addImport]
  split
  · cases s.decls[other]? with
    | none => rfl
    | some d =>
      obtain ⟨name, parent, root, place, entity⟩ := d
      cases entity with
      | namespaceOf m => simp [Module.addImport_addImport]
      | _ => rfl
  · rfl

theorem bare_importForMain : s.importForMain.bare = s.bare := by
  unfold importForMain
  split
  · exact s.bare_addImport root _
  · rfl

theorem importForMain_importForMain : s.importForMain.importForMain = s.importForMain := by
  have hmain : s.importForMain.mainFunction? = s.mainFunction? := by
    rw [← mainFunction?_bare, bare_importForMain, mainFunction?_bare]
  by_cases h : s.mainFunction?.isSome
  · rw [importForMain, hmain, if_pos h, importForMain, if_pos h, addImport_addImport]
  · rw [importForMain, hmain, if_neg h]

theorem references_bare : s.bare.references = s.references := by
  unfold references bare
  rw [Array.toList_map, List.flatMap_map]
  congr 1
  funext d
  obtain ⟨name, parent, root, place, entity⟩ := d
  cases entity <;> rfl

end Store

/-! ## Runs of the resolver -/

namespace Resolving

variable {r : Resolving} {refs : List NameRef}

theorem bare_run : (r.run refs).2.store.bare = r.store.bare := by
  refine run_induction (P := fun u => u.store.bare = r.store.bare) ?_ rfl
  intro u ref _ next hs hu
  obtain ⟨-, rfl⟩ | ⟨-, b, -, -, hstore | ⟨id, request, -, hstore⟩⟩ := step_cases hs
  · exact hu
  · rw [hstore, hu]
  · rw [hstore, Store.bare_addImport, hu]

theorem hasImport_run {id : DeclId} {path : String} {symbol : Option String}
    (h : r.store.HasImport id path symbol) : (r.run refs).2.store.HasImport id path symbol := by
  refine run_induction (P := fun u => u.store.HasImport id path symbol) ?_ h
  intro u ref _ next hs hu
  obtain ⟨-, rfl⟩ | ⟨-, b, -, -, hstore | ⟨id, request, -, hstore⟩⟩ := step_cases hs
  · exact hu
  · rwa [hstore]
  · rw [hstore]
    exact Store.hasImport_addImport.mpr (.inl hu)

theorem isSome_run (h : (r.run refs).1 = .ok ()) :
    ∀ ref ∈ refs, ((r.run refs).2.table.get? ref.id).isSome := by
  induction refs generalizing r with
  | nil => simp
  | cons ref rest ih =>
    unfold run at h ⊢
    cases hs : r.step ref with
    | error fault =>
      simp only [hs] at h
      cases h
    | ok next =>
      simp only [hs] at h ⊢
      refine List.forall_mem_cons.mpr ⟨?_, ih h⟩
      have hbound : (next.table.get? ref.id).isSome := by
        obtain ⟨hold, rfl⟩ | ⟨-, b, -, htable, -⟩ := step_cases hs
        · exact hold
        · rw [htable, Resolutions.get?, List.lookup_cons_self]
          rfl
      obtain ⟨resolution, hresolution⟩ := Option.isSome_iff_exists.mp hbound
      exact Option.isSome_iff_exists.mpr ⟨resolution, extends_run ref.id resolution hresolution⟩

theorem run_of_isSome (h : ∀ ref ∈ refs, (r.table.get? ref.id).isSome) :
    r.run refs = (.ok (), r) := by
  induction refs with
  | nil => rfl
  | cons ref rest ih =>
    obtain ⟨hfirst, hrest⟩ := List.forall_mem_cons.mp h
    obtain ⟨resolution, hresolution⟩ := Option.isSome_iff_exists.mp hfirst
    have hstep : r.step ref = .ok r := by rw [step, hresolution]
    rw [run, hstep]
    exact ih hrest

end Resolving

section Resolve

variable (s : Store) (table : Resolutions)

theorem resolve_cases :
    (∃ fault, resolve s table = (.error fault, (Resolving.run ⟨s, table⟩ s.references).2)) ∨
      (Resolving.run ⟨s, table⟩ s.references).1 = .ok () ∧ resolve s table = (.ok (),
        ⟨(Resolving.run ⟨s, table⟩ s.references).2.store.importForMain,
          (Resolving.run ⟨s, table⟩ s.references).2.table⟩) := by
  unfold resolve
  rcases Resolving.run ⟨s, table⟩ s.references with ⟨outcome, r⟩
  cases outcome with
  | error fault => exact .inl ⟨fault, rfl⟩
  | ok _ => exact .inr ⟨rfl, rfl⟩

theorem extends_resolve : (resolve s table).2.table.Extends table := by
  obtain ⟨fault, h⟩ | ⟨-, h⟩ := resolve_cases s table
  · rw [h]
    exact Resolving.extends_run
  · rw [h]
    exact Resolving.extends_run

theorem bare_resolve : (resolve s table).2.store.bare = s.bare := by
  obtain ⟨fault, h⟩ | ⟨-, h⟩ := resolve_cases s table
  · rw [h]
    exact Resolving.bare_run
  · rw [h]
    exact (Store.bare_importForMain _).trans Resolving.bare_run

theorem hasImport_resolve {id : DeclId} {path : String} {symbol : Option String}
    (himport : s.HasImport id path symbol) :
    (resolve s table).2.store.HasImport id path symbol := by
  have hrun : (Resolving.run ⟨s, table⟩ s.references).2.store.HasImport id path symbol :=
    Resolving.hasImport_run himport
  obtain ⟨fault, h⟩ | ⟨-, h⟩ := resolve_cases s table
  · rw [h]
    exact hrun
  · rw [h]
    exact Store.hasImport_importForMain.mpr (.inl hrun)

variable {s table}

theorem isSome_resolve (h : (resolve s table).1 = .ok ()) :
    ∀ ref ∈ s.references, ((resolve s table).2.table.get? ref.id).isSome := by
  obtain ⟨fault, hresolve⟩ | ⟨hok, hresolve⟩ := resolve_cases s table
  · rw [hresolve] at h
    cases h
  · rw [hresolve]
    exact Resolving.isSome_run hok

/-- Where all names are bound and the import for the start of the program is there, resolving leaves
everything as it is. -/
theorem resolve_of_isSome (hbound : ∀ ref ∈ s.references, (table.get? ref.id).isSome)
    (hmain : s.importForMain = s) : resolve s table = (.ok (), ⟨s, table⟩) := by
  unfold resolve
  rw [Resolving.run_of_isSome hbound]
  simp only [hmain]

theorem resolve_resolve (h : (resolve s table).1 = .ok ()) :
    resolve (resolve s table).2.store (resolve s table).2.table =
      (.ok (), (resolve s table).2) := by
  refine resolve_of_isSome ?_ ?_
  · rw [← Store.references_bare, bare_resolve, Store.references_bare]
    exact isSome_resolve h
  · obtain ⟨fault, hresolve⟩ | ⟨-, hresolve⟩ := resolve_cases s table
    · rw [hresolve] at h
      cases h
    · rw [hresolve]
      exact Store.importForMain_importForMain _

end Resolve

/-! ## Sessions -/

namespace Session

/-- What a session can do with a program. -/
inductive Step where
  | parse (file text : String)
  | resolve
deriving Repr, DecidableEq, Inhabited

/-- The session after a step, whether the step failed or not. -/
def after (s : Session) : Step → Session
  | .parse file text => (s.parse file text).2
  | .resolve => s.resolve.2

/-- The session after some steps. -/
def afterAll (s : Session) (steps : List Step) : Session :=
  steps.foldl after s

theorem keeps_parse (s : Session) (file text : String) :
    (s.parse file text).2.table = s.table ∧ (s.parse file text).2.writer = s.writer := by
  unfold parse
  generalize Macro.run s.macros file text = expanded
  rcases expanded with ⟨fault | text, macros, warnings⟩
  · exact ⟨rfl, rfl⟩
  · dsimp only
    generalize Grammar.parseFile s.names s.store file text = parsed
    exact ⟨rfl, rfl⟩

theorem extends_after (s : Session) (step : Step) : (s.after step).table.Extends s.table := by
  cases step with
  | parse file text =>
    rw [after, (s.keeps_parse file text).1]
    exact .refl _
  | resolve => exact extends_resolve s.store s.table

theorem extends_afterAll (s : Session) (steps : List Step) :
    (s.afterAll steps).table.Extends s.table := by
  induction steps generalizing s with
  | nil => exact .refl _
  | cons step rest ih => exact (ih (s.after step)).trans (s.extends_after step)

theorem resolve_eq_ok {s t : Session} {n : Nat} (h : s.resolve = (.ok n, t)) :
    (Serpentine.resolve s.store s.table).1 = .ok () := by
  have hfirst := congrArg Prod.fst h
  cases hr : (Serpentine.resolve s.store s.table).1 with
  | error fault =>
    simp only [resolve, hr] at hfirst
    cases hfirst
  | ok _ => rfl

/-- **Bindings are stable.** Through all steps of a session, failing ones included, what a use of a
name is bound to stays the same once it is there. Resolving changes nothing in the program but the
imports of modules, which only grow. Once it succeeds, resolving again binds no name and leaves the
session exactly as it is. -/
theorem resolve_stable (s : Session) (steps : List Step) :
    (s.afterAll steps).table.Extends s.table ∧
      s.resolve.2.store.bare = s.store.bare ∧
      (∀ id path symbol, s.store.HasImport id path symbol →
        s.resolve.2.store.HasImport id path symbol) ∧
      ∀ n t, s.resolve = (.ok n, t) → t.resolve = (.ok 0, t) := by
  refine ⟨s.extends_afterAll steps, bare_resolve s.store s.table,
    fun _ _ _ => hasImport_resolve s.store s.table, ?_⟩
  intro n t h
  have hok := resolve_eq_ok h
  obtain rfl : s.resolve.2 = t := congrArg Prod.snd h
  have htwice : Serpentine.resolve s.resolve.2.store s.resolve.2.table =
      (.ok (), ⟨s.resolve.2.store, s.resolve.2.table⟩) := resolve_resolve hok
  generalize s.resolve.2 = t at htwice ⊢
  simp only [resolve, htwice, Except.map, Nat.sub_self]

/-- A function that names a variable of a namespace. -/
@[irreducible] def oneFile : Session :=
  (start "main" (.ofTexts []) .script).afterAll
    [.parse "a.cpp" "namespace N \x7b int n; \x7d int f() \x7b return N::n; \x7d"]

/-- Its name stays bound when a second file names a namespace that is nowhere. -/
theorem resolve_stable_oneFile :
    ∃ t, oneFile.resolve = (.ok 1, t) ∧ t.resolve = (.ok 0, t) ∧
      (t.afterAll [.parse "b.cpp" "int g() \x7b return M::k; \x7d"]).resolve.1.toOption = none ∧
      (t.afterAll [.parse "b.cpp" "int g() \x7b return M::k; \x7d", .resolve]).table.Extends
        t.table := by
  have hrun : oneFile.resolve.1.toOption = some 1 ∧ (oneFile.resolve.2.afterAll
      [.parse "b.cpp" "int g() \x7b return M::k; \x7d"]).resolve.1.toOption = none := by
    unfold oneFile
    decide +kernel
  have hresolve : oneFile.resolve = (.ok 1, oneFile.resolve.2) :=
    Prod.ext (eq_ok_of_toOption hrun.1) rfl
  exact ⟨_, hresolve, (resolve_stable oneFile []).2.2.2 1 _ hresolve, hrun.2,
    (resolve_stable _ _).1⟩

end Session

end Serpentine
