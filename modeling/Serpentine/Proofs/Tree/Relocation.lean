import Serpentine.Proofs.Tree.Children

/-!
# Trees with other places

Names, `sizeof` and the groups of a switch remember where they stand. Changing these places changes
nothing else of a tree.
-/

namespace Serpentine

variable (f : Position → Position)

def NameRef.relocate (n : NameRef) : NameRef :=
  { n with place := f n.place }

@[simp]
theorem NameRef.id_relocate (n : NameRef) : (n.relocate f).id = n.id :=
  rfl

/-! ## Expressions -/

namespace Expr

mutual

def relocate : Expr → Expr
  | .literal kind text => .literal kind text
  | .list items => .list (relocateAll items)
  | .name ref => .name (ref.relocate f)
  | .scoped ref => .scoped (ref.relocate f)
  | .primitive type => .primitive type
  | .self => .self
  | .member object field => .member object.relocate field
  | .unary op operand => .unary op operand.relocate
  | .binary op left right => .binary op left.relocate right.relocate
  | .conditional condition ifTrue ifFalse =>
    .conditional condition.relocate ifTrue.relocate ifFalse.relocate
  | .parens inner => .parens inner.relocate
  | .index object position => .index object.relocate position.relocate
  | .cast type operand => .cast type operand.relocate
  | .call callee args => .call callee.relocate (relocateAll args)
  | .new type args => .new type.relocate (relocateAll args)
  | .assign op target value => .assign op target.relocate value.relocate
  | .step increment before target => .step increment before target.relocate
  | .sizeof place => .sizeof (f place)

def relocateAll : List Expr → List Expr
  | [] => []
  | e :: es => e.relocate :: relocateAll es

end

theorem relocateAll_eq_map (es : List Expr) : relocateAll f es = es.map (relocate f) := by
  induction es with
  | nil => rfl
  | cons e es ih => rw [relocateAll, ih, List.map_cons]

@[simp]
theorem relocate_id (e : Expr) : e.relocate id = e := by
  induction e using induct with
  | step e ih =>
    have hlist {es : List Expr} (h : ∀ e ∈ es, e.relocate id = e) : es.map (relocate id) = es :=
      (List.map_congr_left h).trans (List.map_id es)
    cases e <;> simp_all [relocate, relocateAll_eq_map, children, NameRef.relocate]

@[simp]
theorem map_relocate_id (es : List Expr) : es.map (relocate id) = es := by
  rw [show relocate id = id from funext relocate_id, List.map_id]

theorem children_relocate (e : Expr) : (e.relocate f).children = e.children.map (relocate f) := by
  cases e <;> simp [relocate, children, relocateAll_eq_map]

theorem names_relocate (e : Expr) : (e.relocate f).names = e.names.map (NameRef.relocate f) := by
  induction e using induct with
  | step e ih =>
    have hown : (e.relocate f).ownName? = e.ownName?.map (NameRef.relocate f) := by cases e <;> rfl
    rw [names_eq, names_eq e, hown, children_relocate, List.map_append, List.map_flatMap,
      List.flatMap_map, List.flatMap_congr ih]
    cases e.ownName? <;> rfl

theorem parts_relocate (e : Expr) : (e.relocate f).parts = e.parts.map (relocate f) := by
  induction e using induct with
  | step e ih =>
    rw [parts_eq, parts_eq e, children_relocate, List.map_cons, List.map_flatMap, List.flatMap_map,
      List.flatMap_congr ih]

theorem targetName?_relocate : (e : Expr) →
    (e.relocate f).targetName? = e.targetName?.map (NameRef.relocate f)
  | .parens inner => targetName?_relocate inner
  | .unary op operand => by
    cases op with
    | deref | addressOf => exact targetName?_relocate operand
    | _ => rfl
  | .literal .. | .list _ | .name _ | .scoped _ | .primitive _ | .self | .member .. | .binary ..
  | .conditional .. | .index .. | .cast .. | .call .. | .new .. | .assign .. | .step ..
  | .sizeof _ => rfl

theorem assigned?_relocate (e : Expr) :
    (e.relocate f).assigned? = e.assigned?.map (relocate f) := by
  cases e <;> rfl

end Expr

/-! ## Statements -/

namespace Stmt

mutual

def relocate : Stmt → Stmt
  | .ret value => .ret (value.map (Expr.relocate f))
  | .ifElse condition ifTrue ifFalse =>
    .ifElse (condition.relocate f) (relocateAll ifTrue) (relocateElse ifFalse)
  | .block body => .block (relocateAll body)
  | .declare name value => .declare name (value.map (Expr.relocate f))
  | .expr e => .expr (e.relocate f)
  | .whileLoop condition body => .whileLoop (condition.relocate f) (relocateAll body)
  | .doWhile body condition => .doWhile (relocateAll body) (condition.relocate f)
  | .forLoop init condition update body =>
    .forLoop (relocateAll init) (condition.map (Expr.relocate f)) (update.map (Expr.relocate f))
      (relocateAll body)
  | .forEach name items body => .forEach name (items.relocate f) (relocateAll body)
  | .switch subject cases => .switch (subject.relocate f) (relocateCases cases)
  | .breakStmt => .breakStmt
  | .continueStmt => .continueStmt
  | .throw value => .throw (value.map (Expr.relocate f))
  | .delete target => .delete (target.relocate f)

def relocateAll : List Stmt → List Stmt
  | [] => []
  | s :: rest => s.relocate :: relocateAll rest

def relocateElse : Option (List Stmt) → Option (List Stmt)
  | none => none
  | some body => some (relocateAll body)

/-- The groups of a switch, with their places changed. -/
def relocateCases : List (Case Stmt) → List (Case Stmt)
  | [] => []
  | case :: rest => relocateCase case :: relocateCases rest

def relocateCase : Case Stmt → Case Stmt
  | ⟨labels, isDefault, body, place⟩ =>
    ⟨labels.map (Expr.relocate f), isDefault, relocateAll body, f place⟩

end

theorem relocateAll_eq_map (stmts : List Stmt) : relocateAll f stmts = stmts.map (relocate f) := by
  induction stmts with
  | nil => rfl
  | cons s rest ih => rw [relocateAll, ih, List.map_cons]

theorem relocateElse_eq_map (body : Option (List Stmt)) :
    relocateElse f body = body.map (relocateAll f) := by
  cases body <;> rfl

theorem relocateCases_eq_map (cases : List (Case Stmt)) :
    relocateCases f cases = cases.map (relocateCase f) := by
  induction cases with
  | nil => rfl
  | cons case rest ih => rw [relocateCases, ih, List.map_cons]

@[simp]
theorem map_relocate_id (value : Option Expr) : value.map (Expr.relocate id) = value := by
  cases value <;> simp

@[simp]
theorem relocate_id (s : Stmt) : s.relocate id = s := by
  induction s using induct with
  | step s ih =>
    have hlist {body : List Stmt} (h : ∀ s ∈ body, s.relocate id = s) : body.map (relocate id) = body :=
      (List.map_congr_left h).trans (List.map_id body)
    cases s with
    | ifElse condition ifTrue ifFalse =>
      cases ifFalse <;> simp_all [relocate, relocateAll_eq_map, relocateElse, children, or_imp,
        forall_and]
    | switch subject cases =>
      have hcases : cases.map (relocateCase id) = cases := by
        refine (List.map_congr_left fun case hcase => ?_).trans (List.map_id cases)
        obtain ⟨labels, isDefault, body, place⟩ := case
        have hbody := hlist fun s hs => ih s (List.mem_flatMap.2 ⟨_, hcase, hs⟩)
        simp_all [relocateCase, relocateAll_eq_map]
      simp [relocate, relocateCases_eq_map, hcases]
    | _ => simp_all [relocate, relocateAll_eq_map, children, or_imp, forall_and]

@[simp]
theorem relocateElse_id (body : Option (List Stmt)) : relocateElse id body = body := by
  cases body <;> simp [relocateElse, relocateAll_eq_map, show relocate id = id from funext relocate_id]

mutual

theorem exprs_relocate : (s : Stmt) → (s.relocate f).exprs = s.exprs.map (Expr.relocate f)
  | .ret value | .throw value | .declare _ value => by cases value <;> rfl
  | .ifElse _ ifTrue ifFalse => by
    simp [relocate, exprs, exprsOfBlock_relocate ifTrue, exprsOfElse_relocate ifFalse]
  | .block body => exprsOfBlock_relocate body
  | .expr _ | .delete _ | .breakStmt | .continueStmt => rfl
  | .whileLoop _ body | .doWhile body _ => by simp [relocate, exprs, exprsOfBlock_relocate body]
  | .forLoop init condition update body => by
    cases condition <;>
      simp [relocate, exprs, exprsOfBlock_relocate init, exprsOfBlock_relocate body]
  | .forEach _ _ body => by simp [relocate, exprs, exprsOfBlock_relocate body]
  | .switch _ cases => by simp [relocate, exprs, exprsOfCases_relocate cases]

theorem exprsOfBlock_relocate : (stmts : List Stmt) →
    exprsOfBlock (relocateAll f stmts) = (exprsOfBlock stmts).map (Expr.relocate f)
  | [] => rfl
  | s :: rest => by
    simp [relocateAll, exprsOfBlock, exprs_relocate s, exprsOfBlock_relocate rest]

theorem exprsOfElse_relocate : (body : Option (List Stmt)) →
    exprsOfElse (relocateElse f body) = (exprsOfElse body).map (Expr.relocate f)
  | none => rfl
  | some body => exprsOfBlock_relocate body

theorem exprsOfCases_relocate : (cases : List (Case Stmt)) →
    exprsOfCases (relocateCases f cases) = (exprsOfCases cases).map (Expr.relocate f)
  | [] => rfl
  | case :: rest => by
    simp [relocateCases, exprsOfCases, exprsOfCase_relocate case, exprsOfCases_relocate rest]

theorem exprsOfCase_relocate : (case : Case Stmt) →
    exprsOfCase (relocateCase f case) = (exprsOfCase case).map (Expr.relocate f)
  | ⟨_, _, body, _⟩ => by simp [relocateCase, exprsOfCase, exprsOfBlock_relocate body]

end

@[simp]
theorem isJump_relocate (s : Stmt) : (s.relocate f).isJump = s.isJump := by
  cases s <;> rfl

@[simp]
theorem isDefault_relocateCase (case : Case Stmt) :
    (relocateCase f case).isDefault = case.isDefault := by
  cases case
  rfl

theorem toBlock_relocate (s : Stmt) : (s.relocate f).toBlock = relocateAll f s.toBlock := by
  cases s <;> rfl

end Stmt

end Serpentine
