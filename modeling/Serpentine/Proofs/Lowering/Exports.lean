import Serpentine.Proofs.Lowering.Names
import Serpentine.Proofs.Reference.Imports

/-!
# What modules import and export

The names that the top level of a module binds are the identifiers of its exports
(**`Scene.bound_lowerModule`**). Everything that is imported from a module is bound there exactly
when all imports ask for identifiers of exports (**`Scene.imports_bound_iff`**).
-/

namespace Serpentine

namespace Script

/-- The name that an assignment to an expression binds. -/
def Term.binds? : Term → Option String
  | .atom name => some name
  | _ => .none

def Item.bound : Item → List String
  | .stmt (.assign targets _) => targets.filterMap Term.binds?
  | .stmt _ => []
  | .function d => [d.name]
  | .classDef name .. => [name]
  | .enumDef name _ => [name]

/-- The names that the top level of a module binds. -/
def Module.bound (m : Module) : List String :=
  m.items.flatMap Item.bound

theorem exists_identifier_eq_iff {names : List String} {symbol : String}
    (h : symbol ∉ reserved) :
    (∃ name ∈ names, identifier name = symbol) ↔
      symbol ∈ names ∨ ∃ word ∈ reserved, word ∈ names ∧ word ++ "_" = symbol := by
  constructor
  · rintro ⟨name, hname, rfl⟩
    by_cases hreserved : name ∈ reserved
    · exact .inr ⟨name, hreserved, hname, by simp [identifier, hreserved]⟩
    · exact .inl (by simpa [identifier, hreserved] using hname)
  · rintro (hmem | ⟨word, hword, hmem, rfl⟩)
    · exact ⟨symbol, hmem, by simp [identifier, h]⟩
    · exact ⟨word, hmem, by simp [identifier, hword]⟩

end Script

namespace Lowering

open Script (Term Item IsIdent)
open Env (IsPath)
open Lower

namespace Scene

variable {scene : Scene}

variable (scene) in
/-- The names that a declaration binds in its module, as they stand in the source. -/
def exportsOf (id : DeclId) : List String :=
  match scene.store.entity? id with
  | some (.classType _) | some (.variableOf _) => [scene.title id]
  | some (.enumeration e) =>
    match scene.store.name? id with
    | some name => [name]
    | none => e.enumerators.map (·.name)
  | some (.routine .function r) =>
    if r.statements.isSome then (scene.store.name? id).toList else []
  | some (.attribute a) => if a.isStatic then [scene.title id] else []
  | _ => []

variable (scene) in
/-- The names of the source that a module exports. -/
def exports (id : DeclId) : List String :=
  ((scene.store.module? id).map fun m => m.members.order.flatMap scene.exportsOf).getD []

/-- Items that bind the identifiers of names. -/
def Binds (names : List String) (items : List Item) : Prop :=
  items.flatMap Item.bound = names.map Script.identifier

theorem binds_singleton {name : String} {item : Item} (h : item.bound = [Script.identifier name]) :
    Binds [name] [item] := by
  unfold Binds
  rw [List.flatMap_singleton, h]
  rfl

theorem binds_flatMap {names : DeclId → List String} {ids : List DeclId}
    {items : List (List Item)} (h : List.Forall₂ (fun id => Binds (names id)) ids items) :
    Binds (ids.flatMap names) items.flatten := by
  unfold Binds at *
  induction h with
  | nil => rfl
  | cons hfirst _ ih =>
    rw [List.flatMap_cons, List.flatten_cons, List.flatMap_append, List.map_append, hfirst, ih]

theorem bound_enumeratorLine {env : Env} {e : Enumerator} {line : Script.Stmt}
    (h : enumeratorLine env e = .ok line) :
    Item.bound (.stmt line) = [Script.identifier e.name] := by
  unfold enumeratorLine at h
  split at h
  · cases h
    rfl
  · obtain ⟨term, -, h⟩ := eq_ok_of_bind h
    cases h
    rfl
  · cases h
    rfl

theorem binds_enumerators {env : Env} {enumerators : List Enumerator} {lines : List Script.Stmt}
    (h : enumerators.mapM (enumeratorLine env) = .ok lines) :
    Binds (enumerators.map (·.name)) (lines.map .stmt) := by
  induction enumerators generalizing lines with
  | nil =>
    cases h
    rfl
  | cons e rest ih =>
    rw [List.mapM_cons] at h
    obtain ⟨line, hline, h⟩ := eq_ok_of_bind h
    obtain ⟨others, hothers, h⟩ := eq_ok_of_bind h
    cases h
    have hrest := ih hothers
    unfold Binds at hrest ⊢
    rw [List.map_cons, List.flatMap_cons, List.map_cons, List.map_cons, hrest,
      bound_enumeratorLine hline, List.singleton_append]

theorem binds_items (id : DeclId) : (scene.items id).Gives (Binds (scene.exportsOf id)) := by
  have hstmt (name : String) (value : Option Expr) :
      (lift ((scene.env id).assignment name value) >>= fun line =>
        (pure [.stmt line] : Lower (List Item))).Gives (Binds [name]) := by
    refine Gives.bind (P := fun line => Item.bound (.stmt line) = [Script.identifier name])
      (gives_lift fun line h => ?_) fun line h => gives_pure (binds_singleton h)
    obtain ⟨term, -, h⟩ := eq_ok_of_bind h
    cases h
    rfl
  have hnil : Binds [] [] := rfl
  unfold items exportsOf
  cases hsize : scene.store.decls.size with
  | zero =>
    have hnone : scene.store.entity? id = none := by
      rw [Store.entity?, Array.getElem?_eq_none (by omega)]
      rfl
    rw [hnone]
    exact gives_pure hnil
  | succ n =>
    unfold itemsWithin
    cases hentity : scene.store.entity? id with
    | none => exact gives_pure hnil
    | some e =>
      rcases e with m | e | c | ⟨kind, r⟩ | a | v | p
      · exact gives_pure hnil
      · refine gives_lift fun items h => ?_
        obtain ⟨lines, hlines, h⟩ := eq_ok_of_bind h
        cases hname : scene.store.name? id with
        | none =>
          rw [hname] at h
          cases h
          exact binds_enumerators hlines
        | some name =>
          rw [hname] at h
          cases h
          rfl
      · refine Gives.bind (P := fun item => item.bound = [Script.identifier (scene.title id)])
          ?_ fun item h => gives_pure (binds_singleton h)
        rw [classItem_eq]
        exact gives_any.bind fun _ _ => gives_any.bind fun _ _ => gives_any.bind fun _ _ =>
          gives_any.bind fun _ _ => gives_any.bind fun _ _ => gives_pure rfl
      · cases kind with
        | function =>
          dsimp only
          cases hbody : r.statements.isSome with
          | false => exact gives_pure hnil
          | true =>
            cases hname : scene.store.name? id with
            | none => exact gives_pure hnil
            | some name =>
              refine (gives_function id r false).bind fun item hitem => gives_pure ?_
              obtain ⟨d, rfl, hd⟩ := hitem
              rw [title, hname] at hd
              exact binds_singleton (congrArg List.singleton hd)
        | _ => exact gives_pure hnil
      · dsimp only
        split
        · exact hstmt _ _
        · exact gives_pure hnil
      · exact hstmt _ _
      · exact gives_pure hnil

theorem bound_mainGuard : scene.mainGuard.flatMap Item.bound = [] := by
  unfold mainGuard
  split
  · split
    · rfl
    · rfl
  · rfl

theorem bound_lowerModule (id : DeclId) :
    (scene.lowerModule id).Gives fun script =>
      script.bound = (scene.exports id).map Script.identifier := by
  unfold lowerModule exports
  cases scene.store.module? id with
  | none => exact gives_lift nofun
  | some m =>
    refine (gives_mapM fun member _ => binds_items member).bind fun own hown => gives_pure ?_
    have hbinds := binds_flatMap hown
    unfold Binds at hbinds
    unfold Script.Module.bound
    dsimp only
    split
    · rw [List.flatMap_append, bound_mainGuard, List.append_nil, hbinds]
      rfl
    · rw [List.append_nil, hbinds]
      rfl

theorem imports_lowerModule (id : DeclId) :
    (scene.lowerModule id).Gives fun script =>
      (scene.store.module? id).map Module.imports = some script.imports :=
  fun script h => (gives_lowerModule (furnishes_any (X := fun _ => True) fun _ _ _ _ => trivial) id
    script h).1

/-- **Imported symbols exist.** In a program whose modules are all printed, everything that one
module imports from another is bound there at the top level, under a name that can be used, exactly
when the imports ask for what the other module prints: a class, an enumeration, a variable, a
function with a body, or an enumerator of an enumeration without a name. An import keeps the name of
the source, so that of a reserved word finds nothing: its declaration has an underscore. -/
theorem imports_bound_iff {scripts : DeclId → Script.Module}
    (h : ∀ m ∈ scene.store.modules, (scene.lowerModule m).result = .ok (scripts m)) :
    (∀ m ∈ scene.store.modules, ∀ p ∈ scene.store.modules, ∀ symbols,
        (scene.store.modulePath p, symbols) ∈ (scripts m).imports → ∀ symbol ∈ symbols,
          symbol ∈ (scripts p).bound ∧ IsIdent symbol ∧ IsPath (scene.store.modulePath p)) ↔
      ∀ m ∈ scene.store.modules, ∀ p ∈ scene.store.modules, ∀ symbol,
        scene.store.HasImport m (scene.store.modulePath p) (some symbol) →
          IsIdent symbol ∧ IsPath (scene.store.modulePath p) ∧
            (symbol ∈ scene.exports p ∨
              ∃ word ∈ Script.reserved, word ∈ scene.exports p ∧ word ++ "_" = symbol) := by
  have hbound : ∀ p ∈ scene.store.modules, ∀ symbol, IsIdent symbol →
      (symbol ∈ (scripts p).bound ↔ symbol ∈ scene.exports p ∨
        ∃ word ∈ Script.reserved, word ∈ scene.exports p ∧ word ++ "_" = symbol) := by
    intro p hp symbol hident
    rw [bound_lowerModule p _ (h p hp), List.mem_map]
    exact Script.exists_identifier_eq_iff hident.2
  constructor
  · rintro hall m hm p hp symbol ⟨module, hmodule, symbols, himport, hsymbol⟩
    have himports := imports_lowerModule m _ (h m hm)
    rw [hmodule, Option.map_some, Option.some.injEq] at himports
    rw [himports] at himport
    obtain ⟨hmem, hident, hpath⟩ := hall m hm p hp symbols himport symbol (hsymbol symbol rfl)
    exact ⟨hident, hpath, (hbound p hp symbol hident).mp hmem⟩
  · intro hall m hm p hp symbols himport symbol hsymbol
    obtain ⟨module, hmodule, himports⟩ := Option.map_eq_some_iff.mp
      (imports_lowerModule m _ (h m hm))
    obtain ⟨hident, hpath, hexports⟩ := hall m hm p hp symbol
      ⟨module, hmodule, symbols, himports ▸ himport, fun x hx => by cases hx; exact hsymbol⟩
    exact ⟨(hbound p hp symbol hident).mpr hexports, hident, hpath⟩

/-- A variable with the value of one in a namespace, its names bound. -/
@[irreducible] def importedValue : Scene :=
  let r := (resolve (Grammar.parseFile .empty (.empty "main") "t.cpp"
    "namespace P \x7b int k = 1; \x7d int g = P::k;").2 []).2
  ⟨r.store, r.table⟩

theorem imports_bound_iff_importedValue :
    ∃ scripts : DeclId → Script.Module,
      (∀ m ∈ importedValue.store.modules,
        (importedValue.lowerModule m).result = .ok (scripts m)) ∧
      (scripts Store.root).imports = [("P", ["k"])] ∧
      ∀ m ∈ importedValue.store.modules, ∀ p ∈ importedValue.store.modules, ∀ symbols,
        (importedValue.store.modulePath p, symbols) ∈ (scripts m).imports → ∀ symbol ∈ symbols,
          symbol ∈ (scripts p).bound ∧ IsIdent symbol ∧
            IsPath (importedValue.store.modulePath p) := by
  have hrun : (importedValue.store.modules = [0, 1] ∧
      [0, 1].all (fun m => (importedValue.lowerModule m).result.toOption.isSome) ∧
      importedValue.store.modulePath 0 = "main" ∧ importedValue.store.modulePath 1 = "P") ∧
      (importedValue.store.module? 0).map Module.imports = some [("P", ["k"])] ∧
      (importedValue.store.module? 1).map Module.imports = some [] ∧
      importedValue.exports 1 = ["k"] := by
    unfold importedValue
    decide +kernel
  obtain ⟨⟨hmodules, hlowered, hmain, hp⟩, hroot, hinner, hexports⟩ := hrun
  have hscripts : ∀ m ∈ importedValue.store.modules, (importedValue.lowerModule m).result =
      .ok ((importedValue.lowerModule m).result.toOption.getD default) := by
    intro m hm
    rw [hmodules] at hm
    obtain ⟨script, hscript⟩ := Option.isSome_iff_exists.mp (List.all_eq_true.mp hlowered m hm)
    rw [hscript]
    exact eq_ok_of_toOption hscript
  refine ⟨_, hscripts, ?_, (imports_bound_iff hscripts).mpr ?_⟩
  · have himports := imports_lowerModule _ _ (hscripts 0 (by simp [hmodules]))
    rw [hroot, Option.some.injEq] at himports
    exact himports.symm
  · have hk : IsIdent "k" ∧ IsIdent "P" := by
      unfold IsIdent Script.IsWord
      decide
    rw [hmodules]
    rintro m hm p hp' symbol ⟨module, hmodule, symbols, himport, hsymbol⟩
    rcases List.mem_pair.mp hm with rfl | rfl
    · rw [hmodule, Option.map_some, Option.some.injEq] at hroot
      rw [hroot, List.mem_singleton, Prod.mk.injEq] at himport
      obtain ⟨hpath, rfl⟩ := himport
      obtain rfl := List.mem_singleton.mp (hsymbol symbol rfl)
      rcases List.mem_pair.mp hp' with rfl | rfl
      · rw [hmain] at hpath
        exact absurd hpath (by decide)
      · rw [hpath, hexports]
        exact ⟨hk.1, Env.isPath_of_isIdent hk.2, .inl (by simp)⟩
    · rw [hmodule, Option.map_some, Option.some.injEq] at hinner
      rw [hinner] at himport
      cases himport

/-- A variable with the value of one whose name is reserved. -/
@[irreducible] def importedKeyword : Session :=
  (((Session.start "main" (.ofTexts []) .script).parse "t.cpp"
    "namespace P \x7b int lambda = 1; \x7d int g = P::lambda;").2.resolve).2

/-- What is imported from the namespace is not what it binds. -/
theorem render_importedKeyword :
    (importedKeyword.render "main").text.toOption =
        some "from P import lambda\n\n\ng = lambda_\n" ∧
      (importedKeyword.render "P").text.toOption = some "lambda_ = 1\n" := by
  unfold importedKeyword
  decide +kernel

end Scene

end Lowering

end Serpentine
