import Serpentine.Proofs.Lowering.Composition
import Serpentine.Proofs.Reference.Origins

/-!
# Names that routines bind

A routine of the script that sets a variable of its module must declare it. The line that does so
stands first in its body (**`Scene.routines_declare_globals`**).
-/

namespace Serpentine

namespace Script

namespace Term

/-- The name without dots that a target is, perhaps in parentheses. -/
def plainName? : Term → Option String
  | .atom text => if '.' ∈ text.toList then Option.none else some text
  | .paren inner => inner.plainName?
  | _ => Option.none

mutual

/-- The plain names that assignments inside an expression bind. -/
def binds : Term → List String
  | .atom _ => []
  | .list items | .tuple items => bindsOfList items
  | .attr object _ => object.binds
  | .unary _ operand => operand.binds
  | .binary _ left right => left.binds ++ right.binds
  | .conditional condition ifTrue ifFalse => condition.binds ++ ifTrue.binds ++ ifFalse.binds
  | .paren inner => inner.binds
  | .index object position => object.binds ++ position.binds
  | .call callee args => callee.binds ++ bindsOfList args
  | .walrus target value => target.plainName?.toList ++ target.binds ++ value.binds

/-- The plain names that assignments inside expressions bind. -/
def bindsOfList : List Term → List String
  | [] => []
  | t :: rest => t.binds ++ bindsOfList rest

end

/-- The plain names that an assignment to an expression binds. -/
def bindsAsTarget (t : Term) : List String :=
  t.plainName?.toList ++ t.binds

theorem mem_bindsOfList {name : String} {ts : List Term} :
    name ∈ bindsOfList ts ↔ ∃ t ∈ ts, name ∈ t.binds := by
  induction ts with
  | nil => simp [bindsOfList]
  | cons t rest ih => simp [bindsOfList, ih]

end Term

namespace Stmt

/-- The plain names that a single line binds. -/
def lineBinds : Stmt → List String
  | .eval e => e.binds
  | .assign targets value => targets.flatMap Term.bindsAsTarget ++ value.binds
  | .augment target _ value => target.bindsAsTarget ++ value.binds
  | .del target => target.bindsAsTarget
  | .ret value | .raise value => value.toList.flatMap Term.binds
  | _ => []

mutual

/-- The plain names that a statement and those inside it bind: by `=`, `:=`, an assignment joined to
an operator, `for` or `del`. -/
def binds : Stmt → List String
  | .whileLoop test body => test.binds ++ bindsOfBlock body
  | .forLoop name items body =>
    (if '.' ∈ name.toList then [] else [name]) ++ items.binds ++ bindsOfBlock body
  | .ifElse test body branches otherwise =>
    test.binds ++ bindsOfBlock body ++ bindsOfBranches branches ++ bindsOfElse otherwise
  | s => s.lineBinds

def bindsOfBlock : List Stmt → List String
  | [] => []
  | s :: rest => s.binds ++ bindsOfBlock rest

def bindsOfBranches : List (Term × List Stmt) → List String
  | [] => []
  | branch :: rest => bindsOfBranch branch ++ bindsOfBranches rest

def bindsOfBranch : Term × List Stmt → List String
  | (test, body) => test.binds ++ bindsOfBlock body

def bindsOfElse : Option (List Stmt) → List String
  | none => []
  | some body => bindsOfBlock body

end

variable {Q : String → Prop}

/-- Names are bound in tests, by loops and in single lines. -/
abbrev BindsOnly (Q : String → Prop) : Stmt → Prop :=
  Holds (fun t => ∀ x ∈ t.binds, Q x) (fun name => '.' ∉ name.toList → Q name)
    fun s => ∀ x ∈ s.lineBinds, Q x

mutual

theorem forall_binds : (s : Stmt) → s.BindsOnly Q → ∀ x ∈ s.binds, Q x
  | .whileLoop test body, h => by
    rw [binds]
    exact List.forall_mem_append.2 ⟨h.1, forall_bindsOfBlock body h.2⟩
  | .forLoop name items body, h => by
    rw [binds]
    refine List.forall_mem_append.2 ⟨List.forall_mem_append.2 ⟨?_, h.2.1⟩,
      forall_bindsOfBlock body h.2.2⟩
    split
    · exact nofun
    · next hplain => simpa using h.1 hplain
  | .ifElse test body branches otherwise, h => by
    rw [binds]
    exact List.forall_mem_append.2 ⟨List.forall_mem_append.2 ⟨List.forall_mem_append.2
      ⟨h.1, forall_bindsOfBlock body h.2.1⟩, forall_bindsOfBranches branches h.2.2.1⟩,
      forall_bindsOfElse otherwise h.2.2.2⟩
  | .eval _, h | .assign .., h | .augment .., h | .del _, h | .ret _, h | .raise _, h
  | .breakStmt, h | .continueStmt, h | .global _, h => h

theorem forall_bindsOfBlock : (stmts : List Stmt) →
    HoldsAll (fun t => ∀ x ∈ t.binds, Q x) (fun name => '.' ∉ name.toList → Q name)
      (fun s => ∀ x ∈ s.lineBinds, Q x) stmts → ∀ x ∈ bindsOfBlock stmts, Q x
  | [], _ => nofun
  | s :: rest, h => List.forall_mem_append.2 ⟨forall_binds s h.1, forall_bindsOfBlock rest h.2⟩

theorem forall_bindsOfBranches : (branches : List (Term × List Stmt)) →
    HoldsBranches (fun t => ∀ x ∈ t.binds, Q x) (fun name => '.' ∉ name.toList → Q name)
      (fun s => ∀ x ∈ s.lineBinds, Q x) branches → ∀ x ∈ bindsOfBranches branches, Q x
  | [], _ => nofun
  | (test, body) :: rest, h => by
    rw [bindsOfBranches, bindsOfBranch]
    exact List.forall_mem_append.2 ⟨List.forall_mem_append.2
      ⟨h.1.1, forall_bindsOfBlock body h.1.2⟩, forall_bindsOfBranches rest h.2⟩

theorem forall_bindsOfElse : (otherwise : Option (List Stmt)) →
    HoldsElse (fun t => ∀ x ∈ t.binds, Q x) (fun name => '.' ∉ name.toList → Q name)
      (fun s => ∀ x ∈ s.lineBinds, Q x) otherwise → ∀ x ∈ bindsOfElse otherwise, Q x
  | none, _ => nofun
  | some body, h => forall_bindsOfBlock body h

end

end Stmt

end Script

/-! ## Statements of the source -/

namespace Stmt

/-- The variable that a statement itself makes. -/
def local? : Stmt → Option String
  | .declare name _ | .forEach name .. => some name
  | _ => none

end Stmt

namespace Lowering

open Script (Term)

namespace Env

variable {env : Env} {body : List Stmt}

/-- The target is a variable of the module. -/
def isGlobal (env : Env) (target : Expr) : Bool :=
  target.targetName?.any fun ref => (env.table.get? ref.id).any (·.binding == .global)

/-- Where a name that a body binds comes from. -/
inductive Accounts (env : Env) (body : List Stmt) (x : String) : Prop where
  /-- It is declared in the first line. -/
  | listed (h : x ∈ env.globals body)
  /-- It is a variable that the body makes. -/
  | own {s : Stmt} {name : String} (hs : s ∈ Stmt.innerOfBlock body) (hname : s.local? = some name)
      (hx : x = Script.identifier name)
  /-- It is the target of an assignment, and no variable of the module. -/
  | assigned {e target : Expr} {t : Term} (he : e ∈ (Stmt.exprsOfBlock body).flatMap Expr.parts)
      (htarget : e.assigned? = some target) (ht : env.term target = .ok t)
      (hx : t.plainName? = some x) (hglobal : env.isGlobal target = false)
  /-- It is deleted. -/
  | deleted {target : Expr} {t : Term} (hs : .delete target ∈ Stmt.innerOfBlock body)
      (ht : env.term target = .ok t) (hx : t.plainName? = some x)

theorem plainName?_term {ref : NameRef} : (target : Expr) → target.targetName? = some ref →
    ∀ t, env.term target = .ok t →
      t.plainName? = if '.' ∈ (env.nameText ref).toList then none else some (env.nameText ref)
  | .name _, href, _, ht | .scoped _, href, _, ht => by
    cases href
    cases ht
    rfl
  | .parens inner, href, _, ht => by
    obtain ⟨t, hi, ht⟩ := eq_ok_of_bind ht
    cases ht
    exact plainName?_term inner href t hi
  | .unary op operand, href, _, ht => by
    obtain ⟨t, ho, ht⟩ := eq_ok_of_bind ht
    cases op with
    | deref | addressOf =>
      cases ht
      exact plainName?_term operand href _ ho
    | not | neg | plus | bitNot => cases href
  | .literal .., href, _, _ | .list _, href, _, _ | .primitive _, href, _, _ | .self, href, _, _
  | .member .., href, _, _ | .binary .., href, _, _ | .conditional .., href, _, _
  | .index .., href, _, _ | .cast .., href, _, _ | .call .., href, _, _ | .new .., href, _, _
  | .assign .., href, _, _ | .step .., href, _, _ | .sizeof _, href, _, _ => by cases href

theorem dotted_eq_identifier {name : String} (h : '.' ∉ (Script.dotted name).toList) :
    Script.dotted name = Script.identifier name := by
  have hjoin := Script.intercalate_pathParts name
  rw [Script.dotted] at h ⊢
  cases hparts : Script.pathParts name with
  | nil => exact absurd hparts (Script.pathParts_ne_nil name)
  | cons first rest =>
    cases rest with
    | nil =>
      rw [hparts, String.intercalate_singleton] at hjoin
      rw [List.map_cons, List.map_nil, String.intercalate_singleton, hjoin]
    | cons second rest =>
      rw [hparts] at h
      refine absurd ?_ h
      rw [List.map_cons, List.map_cons, String.intercalate_cons_cons]
      simp

theorem mem_globals {e target : Expr} {t : Term} {x : String}
    (he : e ∈ (Stmt.exprsOfBlock body).flatMap Expr.parts) (htarget : e.assigned? = some target)
    (ht : env.term target = .ok t) (hx : t.plainName? = some x)
    (hglobal : env.isGlobal target = true) : x ∈ env.globals body := by
  obtain ⟨ref, href, hbound⟩ := (Option.any_eq_true _ _).1 hglobal
  obtain ⟨r, hr, hbinding⟩ := (Option.any_eq_true _ _).1 hbound
  have hname : x = Script.identifier r.name := by
    have htext : env.nameText ref = Script.dotted r.name := by
      rw [nameText, hr]
      simp [eq_of_beq hbinding]
    rw [plainName?_term target href t ht] at hx
    split at hx
    · cases hx
    · next hplain =>
      rw [htext] at hplain hx
      rw [← dotted_eq_identifier hplain]
      exact (Option.some.inj hx).symm
  rw [globals, Sorted.mem_foldl_insert]
  refine .inr (List.mem_map.2 ⟨r, List.mem_filter.2 ⟨List.mem_filterMap.2 ⟨target, ?_, ?_⟩,
    hbinding⟩, hname.symm⟩)
  · exact List.mem_filterMap.2 ⟨e, he, htarget⟩
  · rw [href]
    exact hr

theorem accounts_target {e target : Expr} {t : Term} {x : String}
    (he : e ∈ (Stmt.exprsOfBlock body).flatMap Expr.parts) (htarget : e.assigned? = some target)
    (ht : env.term target = .ok t) (hx : x ∈ t.plainName?.toList) : env.Accounts body x := by
  rw [Option.mem_toList] at hx
  cases hglobal : env.isGlobal target with
  | true => exact .listed (mem_globals he htarget ht hx hglobal)
  | false => exact .assigned he htarget ht hx hglobal

theorem composes_accounts : env.Composes (· ∈ (Stmt.exprsOfBlock body).flatMap Expr.parts)
    fun t => ∀ x ∈ t.binds, env.Accounts body x where
  literal _ := nofun
  name _ := nofun
  typeText _ := nofun
  castText _ := nofun
  self := nofun
  one := nofun
  list h x hx := by
    obtain ⟨t, ht, hx⟩ := Term.mem_bindsOfList.1 hx
    exact h t ht x hx
  attr _ h := h
  unary _ _ h := h
  binary _ _ _ hl hr := List.forall_mem_append.2 ⟨hl, hr⟩
  conditional hc ha hb := List.forall_mem_append.2 ⟨List.forall_mem_append.2 ⟨hc, ha⟩, hb⟩
  paren h := h
  index ht hi := List.forall_mem_append.2 ⟨ht, hi⟩
  call hf h := by
    refine List.forall_mem_append.2 ⟨hf, fun x hx => ?_⟩
    obtain ⟨t, ht, hx⟩ := Term.mem_bindsOfList.1 hx
    exact h t ht x hx
  walrus he htarget ht hbinds hvalue := List.forall_mem_append.2
    ⟨List.forall_mem_append.2 ⟨fun _ hx => accounts_target he htarget ht hx, hbinds⟩, hvalue⟩

theorem finishes_accounts : Finishes env (· ∈ (Stmt.exprsOfBlock body).flatMap Expr.parts)
    (· ∈ Stmt.innerOfBlock body) (fun t => ∀ x ∈ t.binds, env.Accounts body x)
    (fun t => ∀ x ∈ t.binds, env.Accounts body x)
    (fun t => ∀ x ∈ t.bindsAsTarget, env.Accounts body x)
    (fun name => '.' ∉ name.toList → env.Accounts body name)
    fun s => ∀ x ∈ s.lineBinds, env.Accounts body x where
  exprs hs e he part hpart := List.mem_flatMap.2
    ⟨e, Stmt.mem_exprsOfBlock hs he, hpart⟩
  test h := h
  noTest := nofun
  always := nofun
  nothing := nofun
  int _ := nofun
  range := nofun
  target he htarget ht h := List.forall_mem_append.2
    ⟨fun _ hx => accounts_target he htarget ht hx, h⟩
  eval h := h
  assign ht hv := List.forall_mem_append.2 ⟨List.forall_mem_flatMap.2 ht, hv⟩
  augment ht hv := List.forall_mem_append.2 ⟨ht, hv⟩
  ret h := by simpa [Script.Stmt.lineBinds] using h
  raise h := by simpa [Script.Stmt.lineBinds] using h
  plain := ⟨nofun, nofun, nofun, nofun⟩
  declare {name value v} hs hv := by
    refine List.forall_mem_append.2 ⟨fun x hx => ?_, hv⟩
    simp only [List.flatMap_cons, List.flatMap_nil, List.append_nil, Term.bindsAsTarget,
      Term.binds, Term.plainName?, Option.mem_toList] at hx
    split at hx
    · cases hx
    · exact .own hs rfl (Option.some.inj hx).symm
  delete hs ht h := List.forall_mem_append.2
    ⟨fun _ hx => .deleted hs ht (Option.mem_toList.1 hx), h⟩
  declared hs _ := .own hs rfl rfl
  assigned {ref value} hs hplain := by
    have he : Expr.assign none (.name ref) value ∈ Stmt.exprsOfBlock body :=
      Stmt.mem_exprsOfBlock hs (List.mem_singleton_self _)
    have hpart : Expr.assign none (.name ref) value ∈
        (Stmt.exprsOfBlock body).flatMap Expr.parts :=
      List.mem_flatMap.2 ⟨_, he, by rw [Expr.parts]; exact List.mem_cons_self⟩
    refine accounts_target hpart rfl (t := .atom (env.nameText ref)) rfl ?_
    simp [Term.plainName?, hplain]
  each hs _ := .own hs rfl rfl

/-- The lines of a body start with the declaration of the globals that it assigns, and all plain
names that the rest binds are accounted for. -/
def Declares (env : Env) (body : List Stmt) (lines : List Script.Stmt) : Prop :=
  ∃ rest, lines = env.globalLines body ++ rest ∧
    ∀ x ∈ Script.Stmt.bindsOfBlock rest, env.Accounts body x

end Env

open Lower
open Script (Item)

theorem declares_bodyLines (env : Env) (body : List Stmt) :
    (Scene.bodyLines env body).Gives (env.Declares body) := by
  refine Gives.bind (holds_block Env.composes_accounts Env.finishes_accounts
    (Stmt.everyIn_iff_inner.2 fun _ h => h)) fun rest hrest => ?_
  exact gives_pure ⟨rest, rfl, Script.Stmt.forall_bindsOfBlock rest hrest⟩

namespace Scene

variable (scene : Scene) (id : DeclId)

theorem declares_function (r : Routine) (isMethod : Bool) {body : List Stmt}
    (hbody : r.statements = some body) :
    (scene.function id r isMethod).Gives fun item =>
      ∃ d, item = .function d ∧ (scene.env id).Declares body d.body := by
  unfold function
  rw [hbody]
  exact Gives.bind gives_any fun ps _ =>
    Gives.bind (declares_bodyLines _ body) fun lines hlines => gives_pure ⟨_, rfl, hlines⟩

theorem declares_destructor :
    (scene.destructor id).Gives fun items => ∀ item ∈ items, ∃ r body d,
      scene.store.routine? id = some r ∧ r.statements = some body ∧ item = .function d ∧
        (scene.env id).Declares body d.body := by
  unfold destructor
  split
  · exact gives_pure nofun
  · next r body hroutine =>
    obtain ⟨r', hr, hpair⟩ := Option.bind_eq_some_iff.1 hroutine
    obtain ⟨body', hbody, hpair⟩ := Option.map_eq_some_iff.1 hpair
    cases hpair
    refine Gives.bind gives_any fun ps _ =>
      Gives.bind (declares_bodyLines _ body) fun lines hlines => gives_pure fun item hitem => ?_
    obtain rfl := List.mem_singleton.1 hitem
    exact ⟨r, body, _, hr, hbody, rfl, hlines⟩

theorem declares_constructor (c : ClassType) (name : String) :
    (scene.constructor c name id).Gives fun items => ∀ item ∈ items, ∃ r d first lines,
      scene.store.routine? id = some r ∧ item = .function d ∧
        scene.prelude (scene.env id) c r.initializers = .ok first ∧ d.body = first ++ lines ∧
        (∀ body, r.statements = some body → (scene.env id).Declares body lines) ∧
        (r.statements = none → lines = []) := by
  unfold constructor
  split
  · exact gives_pure nofun
  · next r hr =>
    refine Gives.bind gives_any fun ps _ => ?_
    refine Gives.bind (P := fun first => scene.prelude (scene.env id) c r.initializers = .ok first)
      (gives_lift fun _ h => h) fun first hfirst => ?_
    cases hbody : r.statements with
    | none =>
      refine gives_pure fun item hitem => ?_
      obtain rfl := List.mem_singleton.1 hitem
      refine ⟨r, _, first, [], hr, rfl, hfirst, rfl, fun body hsome => ?_, fun _ => rfl⟩
      rw [hbody] at hsome
      cases hsome
    | some body =>
      refine Gives.bind (declares_bodyLines _ body) fun lines hlines =>
        gives_pure fun item hitem => ?_
      obtain rfl := List.mem_singleton.1 hitem
      refine ⟨r, _, first, lines, hr, rfl, hfirst, rfl, fun other hsome => ?_, fun hnone => ?_⟩
      · rw [hbody] at hsome
        cases hsome
        exact hlines
      · rw [hbody] at hnone
        cases hnone

/-- **Assigned variables of the module are declared, by the body.** The body of a function, method
or destructor starts with the line that declares globals. Each plain name that the rest binds is in
that line, or is a variable that the body makes, or the target of an assignment that is not bound to
a variable of the module, or is deleted. In a constructor this is so of the lines of its body, and
what it sets before its body comes first, without a declaration of what is assigned there. -/
theorem routines_declare_globals :
    (∀ (r : Routine) (isMethod : Bool) (body : List Stmt) (item : Item),
      r.statements = some body → (scene.function id r isMethod).result = .ok item →
        ∃ d, item = .function d ∧ (scene.env id).Declares body d.body) ∧
    (∀ items : List Item, (scene.destructor id).result = .ok items → ∀ item ∈ items,
      ∃ r body d, scene.store.routine? id = some r ∧ r.statements = some body ∧
        item = .function d ∧ (scene.env id).Declares body d.body) ∧
    ∀ (c : ClassType) (name : String) (items : List Item),
      (scene.constructor c name id).result = .ok items → ∀ item ∈ items,
        ∃ r d first lines, scene.store.routine? id = some r ∧ item = .function d ∧
          scene.prelude (scene.env id) c r.initializers = .ok first ∧ d.body = first ++ lines ∧
          (∀ body, r.statements = some body → (scene.env id).Declares body lines) ∧
          (r.statements = none → lines = []) :=
  ⟨fun r isMethod _ item hbody h => scene.declares_function id r isMethod hbody item h,
    scene.declares_destructor id, scene.declares_constructor id⟩

/-- A function that sets a variable of its module. -/
@[irreducible] def setsGlobal : Scene :=
  let s := Session.fresh.afterAll
    [.parse "a.cpp" "int g; void f() \x7b g = 1; \x7d", .resolve]
  ⟨s.store, s.table⟩

/-- The function declares the variable. -/
theorem routines_declare_globals_setsGlobal :
    ∃ r body item d, r.statements = some body ∧
      (setsGlobal.function 2 r false).result = .ok item ∧ item = .function d ∧
        (setsGlobal.env 2).globals body = ["g"] ∧ (setsGlobal.env 2).Declares body d.body := by
  have hrun : (setsGlobal.store.routine? 2).map (fun r =>
      ((setsGlobal.function 2 r false).result.toOption.isSome,
        r.statements.map (setsGlobal.env 2).globals)) = some (true, some ["g"]) := by
    unfold setsGlobal
    decide +kernel
  obtain ⟨r, -, hpair⟩ := Option.map_eq_some_iff.1 hrun
  obtain ⟨hok, hglobals⟩ := Prod.mk.inj hpair
  obtain ⟨body, hbody, hg⟩ := Option.map_eq_some_iff.1 hglobals
  obtain ⟨item, hitem⟩ := Option.isSome_iff_exists.1 hok
  have hresult := eq_ok_of_toOption hitem
  obtain ⟨d, hd, hdeclares⟩ :=
    (routines_declare_globals setsGlobal 2).1 r false body item hbody hresult
  exact ⟨r, body, item, d, hbody, hresult, hd, hg, hdeclares⟩

end Scene

end Lowering

namespace Session

/-- A variable of the module that a constructor assigns in front of its body. -/
theorem render_assignedBeforeBody :
    let s := fresh.afterAll
      [.parse "a.cpp" "int g = 0; struct A \x7b int x; A() : x(g = 1) \x7b \x7d \x7d;", .resolve]
    (s.render "main").text.toOption =
      some "g = 0\n\n\nclass A:\n    def __init__(self):\n        self.x = (g := 1)\n" := by
  decide +kernel

end Session

end Serpentine
