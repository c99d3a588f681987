import Mathlib.Data.List.Basic
import Serpentine.Tree.Stmt

/-!
# Trees inside trees
-/

namespace Serpentine

/-! ## Expressions -/

namespace Expr

def children : Expr → List Expr
  | .literal .. | .name _ | .scoped _ | .primitive _ | .self | .sizeof _ => []
  | .list items => items
  | .member e _ | .unary _ e | .cast _ e | .parens e | .step _ _ e => [e]
  | .binary _ e e' | .index e e' | .assign _ e e' => [e, e']
  | .conditional e e' e'' => [e, e', e'']
  | .call e args | .new e args => e :: args

/-- The name that an expression itself is. -/
def ownName? : Expr → Option NameRef
  | .name ref | .scoped ref => some ref
  | _ => Option.none

theorem sizeOf_lt_of_mem_children {c e : Expr} (h : c ∈ e.children) : sizeOf c < sizeOf e := by
  cases e <;> simp only [children, List.mem_cons, List.not_mem_nil, or_false] at h <;>
    grind [→ List.sizeOf_lt_of_mem]

@[elab_as_elim]
theorem induct {motive : Expr → Prop} (step : ∀ e, (∀ c ∈ e.children, motive c) → motive e)
    (e : Expr) : motive e :=
  step e fun c _ => induct step c
termination_by sizeOf e
decreasing_by exact sizeOf_lt_of_mem_children ‹_›

theorem namesOfList_eq (es : List Expr) : namesOfList es = es.flatMap names := by
  induction es with
  | nil => rfl
  | cons e es ih => rw [namesOfList, ih, List.flatMap_cons]

theorem partsOfList_eq (es : List Expr) : partsOfList es = es.flatMap parts := by
  induction es with
  | nil => rfl
  | cons e es ih => rw [partsOfList, ih, List.flatMap_cons]

theorem names_eq (e : Expr) : e.names = e.ownName?.toList ++ e.children.flatMap names := by
  cases e <;> simp [names, children, ownName?, namesOfList_eq]

theorem parts_eq (e : Expr) : e.parts = e :: e.children.flatMap parts := by
  cases e <;> simp [parts, children, partsOfList_eq]

theorem parts_subset_of_mem_parts {part : Expr} (e : Expr) : part ∈ e.parts →
    part.parts ⊆ e.parts := by
  induction e using induct with
  | step e ih =>
    rw [parts_eq e, List.mem_cons, List.mem_flatMap]
    rintro (rfl | ⟨c, hc, hpart⟩)
    · rw [← parts_eq]
      exact List.Subset.refl _
    · exact fun p hp => List.mem_cons_of_mem _ (List.mem_flatMap.2 ⟨c, hc, ih c hc hpart hp⟩)

theorem mem_names_of_mem_parts {part : Expr} {ref : NameRef} (href : part.ownName? = some ref)
    (e : Expr) : part ∈ e.parts → ref ∈ e.names := by
  induction e using induct with
  | step e ih =>
    rw [parts_eq, List.mem_cons, List.mem_flatMap, names_eq e]
    rintro (rfl | ⟨c, hc, hpart⟩)
    · exact List.mem_append_left _ (Option.mem_toList.2 href)
    · exact List.mem_append_right _ (List.mem_flatMap.2 ⟨c, hc, ih c hc hpart⟩)

/-- A property of an expression and of all expressions inside it. -/
abbrev Every (X : Expr → Prop) (e : Expr) : Prop :=
  ∀ part ∈ e.parts, X part

theorem Every.self {X : Expr → Prop} {e : Expr} (h : e.Every X) : X e :=
  h e (by rw [parts_eq]; exact List.mem_cons_self)

end Expr

/-! ## Statements -/

namespace Stmt

def children : Stmt → List Stmt
  | .ifElse _ ifTrue ifFalse => ifTrue ++ ifFalse.getD []
  | .block body | .whileLoop _ body | .doWhile body _ | .forEach _ _ body => body
  | .forLoop init _ _ body => init ++ body
  | .switch _ cases => cases.flatMap Case.body
  | _ => []

/-- The expressions of a statement itself. -/
def ownExprs : Stmt → List Expr
  | .ret value | .throw value | .declare _ value => value.toList
  | .ifElse condition .. | .whileLoop condition _ | .doWhile _ condition => [condition]
  | .block _ | .breakStmt | .continueStmt => []
  | .expr e | .delete e | .forEach _ e _ => [e]
  | .forLoop _ condition update _ => condition.toList ++ update
  | .switch subject cases => subject :: cases.flatMap Case.labels

theorem sizeOf_lt_of_mem_children {c s : Stmt} (h : c ∈ s.children) : sizeOf c < sizeOf s := by
  cases s with
  | ifElse condition ifTrue ifFalse =>
    cases ifFalse <;> simp [children] at h <;> grind [→ List.sizeOf_lt_of_mem]
  | switch subject cases =>
    obtain ⟨case, hcase, hc⟩ := List.mem_flatMap.1 h
    obtain ⟨labels, isDefault, body, place⟩ := case
    grind [→ List.sizeOf_lt_of_mem]
  | _ => simp [children] at h <;> grind [→ List.sizeOf_lt_of_mem]

@[elab_as_elim]
theorem induct {motive : Stmt → Prop} (step : ∀ s, (∀ c ∈ s.children, motive c) → motive s)
    (s : Stmt) : motive s :=
  step s fun c _ => induct step c
termination_by sizeOf s
decreasing_by exact sizeOf_lt_of_mem_children ‹_›

mutual

/-- The statement and all statements inside it. -/
def inner (s : Stmt) : List Stmt :=
  s :: match s with
    | .ifElse _ ifTrue ifFalse => innerOfBlock ifTrue ++ innerOfElse ifFalse
    | .block body | .whileLoop _ body | .doWhile body _ | .forEach _ _ body => innerOfBlock body
    | .forLoop init _ _ body => innerOfBlock init ++ innerOfBlock body
    | .switch _ cases => innerOfCases cases
    | _ => []

/-- The statements of a list and all statements inside them. -/
def innerOfBlock : List Stmt → List Stmt
  | [] => []
  | s :: rest => s.inner ++ innerOfBlock rest

def innerOfElse : Option (List Stmt) → List Stmt
  | none => []
  | some body => innerOfBlock body

def innerOfCases : List (Case Stmt) → List Stmt
  | [] => []
  | case :: rest => innerOfCase case ++ innerOfCases rest

def innerOfCase : Case Stmt → List Stmt
  | ⟨_, _, body, _⟩ => innerOfBlock body

end

variable {s u v : Stmt} {e : Expr} {body : List Stmt}

theorem innerOfBlock_eq (body : List Stmt) : innerOfBlock body = body.flatMap inner := by
  induction body with
  | nil => rfl
  | cons s rest ih => rw [innerOfBlock, ih, List.flatMap_cons]

theorem exprsOfBlock_eq (body : List Stmt) : exprsOfBlock body = body.flatMap exprs := by
  induction body with
  | nil => rfl
  | cons s rest ih => rw [exprsOfBlock, ih, List.flatMap_cons]

theorem innerOfCases_eq (cases : List (Case Stmt)) :
    innerOfCases cases = (cases.flatMap Case.body).flatMap inner := by
  induction cases with
  | nil => rfl
  | cons case rest ih =>
    rw [innerOfCases, innerOfCase, ih, List.flatMap_cons, List.flatMap_append, innerOfBlock_eq]

theorem inner_eq (s : Stmt) : s.inner = s :: s.children.flatMap inner := by
  cases s with
  | ifElse condition ifTrue ifFalse =>
    cases ifFalse <;> simp [inner, children, innerOfElse, innerOfBlock_eq]
  | _ => simp [inner, children, innerOfBlock_eq, innerOfCases_eq]

theorem inner_trans (hv : v ∈ u.inner) (hu : u ∈ s.inner) : v ∈ s.inner := by
  induction s using induct with
  | step s ih =>
    rw [inner_eq, List.mem_cons, List.mem_flatMap] at hu ⊢
    rcases hu with rfl | ⟨c, hc, hu⟩
    · rwa [inner_eq, List.mem_cons, List.mem_flatMap] at hv
    · exact .inr ⟨c, hc, ih c hc hu⟩

theorem mem_exprsOfCases {cases : List (Case Stmt)} : e ∈ exprsOfCases cases ↔
    e ∈ cases.flatMap Case.labels ∨ ∃ c ∈ cases.flatMap Case.body, e ∈ c.exprs := by
  induction cases with
  | nil => simp [exprsOfCases]
  | cons case rest ih =>
    obtain ⟨labels, isDefault, body, place⟩ := case
    simp only [exprsOfCases, exprsOfCase, exprsOfBlock_eq, List.mem_append, ih, List.flatMap_cons,
      List.mem_flatMap]
    grind

theorem mem_exprs_iff_children :
    e ∈ s.exprs ↔ e ∈ s.ownExprs ∨ ∃ c ∈ s.children, e ∈ c.exprs := by
  cases s with
  | ifElse condition ifTrue ifFalse =>
    cases ifFalse <;> simp [exprs, ownExprs, children, exprsOfElse, exprsOfBlock_eq]
    grind
  | switch subject cases => simp [exprs, ownExprs, children, mem_exprsOfCases, or_assoc]
  | _ => simp [exprs, ownExprs, children, exprsOfBlock_eq] <;> grind

theorem mem_exprs : e ∈ s.exprs ↔ ∃ u ∈ s.inner, e ∈ u.ownExprs := by
  induction s using induct with
  | step s ih =>
    rw [mem_exprs_iff_children, inner_eq, List.exists_mem_cons_iff]
    refine or_congr_right ⟨?_, ?_⟩
    · rintro ⟨c, hc, he⟩
      obtain ⟨u, hu, he⟩ := (ih c hc).1 he
      exact ⟨u, List.mem_flatMap.2 ⟨c, hc, hu⟩, he⟩
    · rintro ⟨u, hu, he⟩
      obtain ⟨c, hc, hu⟩ := List.mem_flatMap.1 hu
      exact ⟨c, hc, (ih c hc).2 ⟨u, hu, he⟩⟩

theorem mem_exprsOfBlock (hu : u ∈ innerOfBlock body) (he : e ∈ u.exprs) :
    e ∈ exprsOfBlock body := by
  rw [innerOfBlock_eq, List.mem_flatMap] at hu
  obtain ⟨s, hs, hu⟩ := hu
  obtain ⟨v, hv, he⟩ := mem_exprs.1 he
  rw [exprsOfBlock_eq]
  exact List.mem_flatMap.2 ⟨s, hs, mem_exprs.2 ⟨v, inner_trans hv hu, he⟩⟩

end Stmt

end Serpentine
