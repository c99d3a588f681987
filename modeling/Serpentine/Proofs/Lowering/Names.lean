import Serpentine.Proofs.Lowering.Composition
import Serpentine.Proofs.Lowering.Modules
import Serpentine.Proofs.Reference.Uses
import Serpentine.Proofs.Script.RoundTrip
import Serpentine.Session

/-!
# Names of classes and functions

The names on the lines that begin a class or function are identifiers exactly when the names of the
declarations behind them are words (**`Scene.headers_isIdent_iff`**). A class without a name is
printed, and its line has none.
-/

namespace Serpentine

namespace Script

mutual

/-- The names on the lines of an item that begin a class or function. -/
def Item.headers : Item → List String
  | .stmt _ => []
  | .function d => [d.name]
  | .classDef name _ items => name :: headersOf items
  | .enumDef name _ => [name]

/-- The names on the lines that begin a class or function, at any depth. -/
def headersOf : List Item → List String
  | [] => []
  | item :: rest => item.headers ++ headersOf rest

end

theorem headersOf_append (items others : List Item) :
    headersOf (items ++ others) = headersOf items ++ headersOf others := by
  induction items with
  | nil => rfl
  | cons item rest ih =>
    rw [List.cons_append, headersOf, headersOf, ih, List.append_assoc]

theorem isIdent_identifier_iff {name : String} :
    IsIdent (identifier name) ↔ IsWord name.toList := by
  refine ⟨fun h => ?_, Lowering.Env.isIdent_identifier⟩
  have hwords : ∀ word ∈ reserved, IsWord word.toList := by
    unfold IsWord
    decide
  rw [identifier] at h
  split at h
  · next hreserved => exact hwords name (by simpa using hreserved)
  · exact h.1

end Script

namespace Lowering

open Script (Term Item Def IsIdent IsWord headersOf)

/-! ## Results -/

namespace Lower

variable {α γ : Type}

theorem gives_mapM {f : γ → Lower α} {R : γ → α → Prop} {l : List γ}
    (h : ∀ a ∈ l, (f a).Gives (R a)) : (l.mapM f).Gives (List.Forall₂ R l) := by
  induction l with
  | nil => exact gives_pure .nil
  | cons a rest ih =>
    obtain ⟨hfirst, hrest⟩ := List.forall_mem_cons.mp h
    rw [List.mapM_cons]
    exact hfirst.bind fun _ hb => (ih hrest).bind fun _ hbs => gives_pure (.cons hb hbs)

end Lower

open Lower

/-! ## Headers -/

/-- Items whose headers are identifiers exactly when names of the source are words. -/
def Titled (titles : List String) (items : List Item) : Prop :=
  (∀ name ∈ headersOf items, IsIdent name) ↔ ∀ title ∈ titles, IsWord title.toList

theorem titled_nil : Titled [] [] := by
  simp [Titled, headersOf]

theorem Titled.append {titles others : List String} {items rest : List Item}
    (h : Titled titles items) (hrest : Titled others rest) :
    Titled (titles ++ others) (items ++ rest) := by
  unfold Titled at h hrest ⊢
  rw [Script.headersOf_append, List.forall_mem_append, List.forall_mem_append, h, hrest]

theorem Titled.append_fixed {titles : List String} {items rest : List Item}
    (h : Titled titles items) (hrest : Titled [] rest) : Titled titles (items ++ rest) := by
  simpa using h.append hrest

theorem titled_flatMap {γ : Type} {titles : γ → List String} {l : List γ}
    {items : List (List Item)} (h : List.Forall₂ (fun a => Titled (titles a)) l items) :
    Titled (l.flatMap titles) items.flatten := by
  induction h with
  | nil => exact titled_nil
  | cons hfirst _ ih => exact hfirst.append ih

theorem titled_function {d : Def} {title : String} (h : d.name = Script.identifier title) :
    Titled [title] [.function d] := by
  simp [Titled, headersOf, Item.headers, h, Script.isIdent_identifier_iff]

theorem titled_fixed {d : Def} (h : IsIdent d.name) : Titled [] [.function d] := by
  simp [Titled, headersOf, Item.headers, h]

theorem titled_stmts (lines : List Script.Stmt) : Titled [] (lines.map .stmt) := by
  induction lines with
  | nil => exact titled_nil
  | cons line rest ih =>
    have hline : Titled [] [.stmt line] := by
      simp [Titled, headersOf, Item.headers]
    exact hline.append ih

theorem isIdent_init : IsIdent "__init__" := by
  unfold IsIdent IsWord
  decide

theorem isIdent_del : IsIdent "__del__" := by
  unfold IsIdent IsWord
  decide

namespace Scene

theorem isIdent_initName (arity : Nat) : IsIdent (initName arity) := by
  have htext : (initName arity).toList = "_init_".toList ++ Nat.toDigits 10 arity := by
    rw [initName, String.toList_append]
    exact congrArg _ Nat.toList_repr
  refine ⟨⟨?_, ?_⟩, fun hmem => ?_⟩
  · rw [htext]
    rfl
  · rw [htext, List.all_append, Bool.and_eq_true]
    refine ⟨by decide, List.all_eq_true.mpr fun c hc => ?_⟩
    have hdigit : c.isDigit = true := Nat.isDigit_of_mem_toDigits (by decide) (by decide) hc
    simp [isNameChar, Char.isAlphanum, hdigit]
  · have hletter : ∀ word ∈ Script.reserved, word.toList.head? ≠ some '_' := by decide
    refine hletter _ hmem ?_
    rw [htext]
    rfl

variable (scene : Scene)

/-- The name of a declaration in the source, empty if it has none. -/
def title (id : DeclId) : String :=
  (scene.store.name? id).getD ""

def methodTitles (id : DeclId) : List String :=
  match scene.store.entity? id with
  | some (.routine .method r) =>
    if r.statements.isSome || r.isPure then [scene.title id] else []
  | _ => []

/-- The names of the classes and functions that a declaration is printed as, with classes nested at
most so deep. -/
def titlesWithin : Nat → DeclId → List String
  | 0, _ => []
  | n + 1, id =>
    match scene.store.entity? id with
    | some (.classType c) =>
      scene.title id ::
        ((c.members.order.filter fun m => !scene.isMethod m).flatMap (titlesWithin n) ++
          c.members.order.flatMap scene.methodTitles)
    | some (.enumeration _) => (scene.store.name? id).toList
    | some (.routine .function r) =>
      if r.statements.isSome then (scene.store.name? id).toList else []
    | _ => []

/-- The names of declarations with a header of their own. -/
def titles (id : DeclId) : List String :=
  ((scene.store.module? id).map fun m =>
    m.members.order.flatMap (scene.titlesWithin scene.store.decls.size)).getD []

variable {scene}

theorem gives_function (id : DeclId) (r : Routine) (isMethod : Bool) :
    (scene.function id r isMethod).Gives fun item =>
      ∃ d : Def, item = .function d ∧ d.name = Script.identifier (scene.title id) := by
  refine gives_any.bind fun _ _ => ?_
  cases r.statements <;> exact gives_any.bind fun _ _ => gives_pure ⟨_, rfl, rfl⟩

theorem titled_function_item (id : DeclId) (r : Routine) (isMethod : Bool) :
    (scene.function id r isMethod).Gives fun item => Titled [scene.title id] [item] := by
  intro item h
  obtain ⟨d, rfl, hname⟩ := gives_function id r isMethod item h
  exact titled_function hname

theorem titled_methods (c : ClassType) :
    (scene.methods c).Gives (Titled (c.members.order.flatMap scene.methodTitles)) := by
  refine (gives_mapM fun id _ => ?_).bind fun _ h => gives_pure (titled_flatMap h)
  unfold methodTitles
  rcases scene.store.entity? id with _ | _ | _ | _ | ⟨kind, r⟩ | _ | _ | _
  case some.routine =>
    cases kind with
    | method =>
      dsimp only
      split
      · exact (titled_function_item id r true).bind fun _ h => gives_pure h
      · exact gives_pure titled_nil
    | _ => exact gives_pure titled_nil
  all_goals exact gives_pure titled_nil

theorem titled_constructor (c : ClassType) {name : String} (hname : IsIdent name) (id : DeclId) :
    (scene.constructor c name id).Gives (Titled []) := by
  unfold constructor
  cases scene.store.routine? id with
  | none => exact gives_pure titled_nil
  | some r =>
    refine gives_any.bind fun _ _ => gives_any.bind fun _ _ => ?_
    cases r.statements <;> exact gives_any.bind fun _ _ => gives_pure (titled_fixed hname)

theorem titled_constructors (id : DeclId) (c : ClassType) :
    (scene.constructors id c).Gives (Titled []) := by
  refine gives_any.bind fun several _ => ?_
  split
  · split
    · exact gives_any.bind fun _ _ => gives_pure (titled_fixed isIdent_init)
    · exact gives_pure titled_nil
  · exact titled_constructor c isIdent_init _
  · refine (gives_mapM fun entry _ => titled_constructor c (isIdent_initName entry.1)
      entry.2).bind fun _ h => gives_pure ?_
    have hfirst : Titled [] [dispatcher ((scene.store.name? id).getD "") (several.map (·.1))] :=
      titled_fixed isIdent_init
    rw [← List.flatMap_eq_nil_iff.mpr fun _ _ => rfl]
    exact hfirst.append (titled_flatMap h)

theorem titled_destructors (c : ClassType) : (scene.destructors c).Gives (Titled []) := by
  unfold destructors
  split
  · exact gives_pure titled_nil
  · unfold destructor
    split
    · exact gives_pure titled_nil
    · exact gives_any.bind fun _ _ => gives_any.bind fun _ _ =>
        gives_pure (titled_fixed isIdent_del)

theorem titled_classItem {nested : DeclId → Lower (List Item)} {titles : DeclId → List String}
    (hnested : ∀ id, (nested id).Gives (Titled (titles id))) (id : DeclId) (c : ClassType) :
    (scene.classItem nested id c).Gives fun item =>
      Titled (scene.title id ::
        ((c.members.order.filter fun m => !scene.isMethod m).flatMap titles ++
          c.members.order.flatMap scene.methodTitles)) [item] := by
  rw [classItem_eq]
  refine gives_any.bind fun _ _ => (gives_mapM fun m _ => hnested m).bind fun _ hmembers =>
    (titled_constructors id c).bind fun _ hctors => (titled_destructors c).bind fun _ hdtor =>
    (titled_methods c).bind fun _ hmethods => gives_pure ?_
  have hinside := ((titled_flatMap hmembers).append_fixed hctors).append_fixed hdtor
    |>.append hmethods
  unfold Titled at hinside ⊢
  rw [headersOf, headersOf, List.append_nil, Item.headers, List.forall_mem_cons,
    List.forall_mem_cons, hinside, Script.isIdent_identifier_iff]
  rfl

theorem titled_enumItems (env : Env) (name : Option String) (e : Enumeration) (items : List Item)
    (h : enumItems env name e = .ok items) : Titled name.toList items := by
  obtain ⟨lines, -, h⟩ := eq_ok_of_bind h
  cases name with
  | none =>
    cases h
    exact titled_stmts lines
  | some name =>
    cases h
    simp [Titled, headersOf, Item.headers, Script.isIdent_identifier_iff]

theorem titled_itemsWithin (n : Nat) (id : DeclId) :
    (scene.itemsWithin n id).Gives (Titled (scene.titlesWithin n id)) := by
  induction n generalizing id with
  | zero => exact gives_pure titled_nil
  | succ n ih =>
    have hstmt (x : Lower Script.Stmt) :
        (x >>= fun line => (pure [.stmt line] : Lower (List Item))).Gives (Titled []) :=
      gives_any.bind fun line _ => gives_pure (titled_stmts [line])
    unfold itemsWithin titlesWithin
    cases hentity : scene.store.entity? id with
    | none => exact gives_pure titled_nil
    | some e =>
      rcases e with m | e | c | ⟨kind, r⟩ | a | v | p
      · exact gives_pure titled_nil
      · exact gives_lift (titled_enumItems _ _ e)
      · exact (titled_classItem ih id c).bind fun _ h => gives_pure h
      · cases kind with
        | function =>
          dsimp only
          cases hbody : r.statements.isSome with
          | false => exact gives_pure titled_nil
          | true =>
            cases hname : scene.store.name? id with
            | none => exact gives_pure titled_nil
            | some name =>
              have hitem : (scene.function id r false).Gives fun item =>
                  Titled [scene.title id] [item] := titled_function_item id r false
              rw [title, hname] at hitem
              exact hitem.bind fun _ h => gives_pure h
        | _ => exact gives_pure titled_nil
      · dsimp only
        split
        · exact hstmt _
        · exact gives_pure titled_nil
      · exact hstmt _
      · exact gives_pure titled_nil

theorem titled_mainGuard : Titled [] scene.mainGuard := by
  unfold mainGuard
  split
  · split
    · exact titled_stmts [_]
    · exact titled_nil
  · exact titled_nil

/-- **Every class and function has a name.** The names on the lines that begin a class or a function
of a module are identifiers, and not reserved, exactly when the printed declarations have names that
are words. A class without a name is printed all the same, and spoils it. -/
theorem headers_isIdent_iff {id : DeclId} {script : Script.Module}
    (h : (scene.lowerModule id).result = .ok script) :
    (∀ name ∈ headersOf script.items, IsIdent name) ↔
      ∀ title ∈ scene.titles id, IsWord title.toList := by
  have hgives : (scene.lowerModule id).Gives fun script =>
      Titled (scene.titles id) script.items := by
    unfold lowerModule titles
    cases scene.store.module? id with
    | none => exact gives_lift nofun
    | some m =>
      refine (gives_mapM fun member _ => titled_itemsWithin _ member).bind fun _ hown =>
        gives_pure ?_
      dsimp only
      split
      · exact (titled_flatMap hown).append_fixed titled_mainGuard
      · exact (titled_flatMap hown).append_fixed titled_nil
  exact hgives script h

/-- A class with a method. -/
@[irreducible] def classWithMethod : Store :=
  (Grammar.parseFile .empty (.empty "main") "t.cpp" "struct A \x7b void f() \x7b \x7d \x7d;").2

theorem headers_isIdent_iff_classWithMethod :
    ∃ script, (lowerModule ⟨classWithMethod, []⟩ Store.root).result = .ok script ∧
      headersOf script.items = ["A", "f"] ∧ ∀ name ∈ headersOf script.items, IsIdent name := by
  have hheaders : (lowerModule ⟨classWithMethod, []⟩ Store.root).result.toOption.map
      (headersOf ·.items) = some ["A", "f"] := by
    unfold classWithMethod
    decide +kernel
  have htitles : titles ⟨classWithMethod, []⟩ Store.root = ["A", "f"] := by
    unfold classWithMethod
    decide +kernel
  obtain ⟨script, hscript, hheaders⟩ := Option.map_eq_some_iff.mp hheaders
  have hresult := eq_ok_of_toOption hscript
  refine ⟨script, hresult, hheaders, (headers_isIdent_iff hresult).mpr ?_⟩
  rw [htitles]
  unfold IsWord
  decide

/-- The class of a variable that is declared together with it, without a name. -/
theorem scriptOf_namelessClass :
    (scriptOf "main" [("t.cpp", "struct \x7b int a; \x7d x;")]).result.toOption =
      some "class :\n    pass\n\n\nx = None\n" := by
  decide +kernel

end Scene

end Lowering

end Serpentine
