import Serpentine.Proofs.Grammar.Statements
import Serpentine.Proofs.Token.Shape

/-!
# The wording of expressions and statements

The names and literals of a tree that is read are those of tokens.
-/

namespace Serpentine

/-- The parts of a scoped name. An empty first part means the root module. -/
def IsScope (segments : List String) : Prop :=
  ∃ names, names ≠ [] ∧ (∀ name ∈ names, IsName name) ∧ (segments = names ∨ segments = "" :: names)

/-- Names with `::` between them. -/
def IsScopedName (raw : String) : Prop :=
  ∃ segments, IsScope segments ∧ raw = Grammar.joinScope segments

/-- The text can be that of a literal. -/
def LiteralKind.Spells : LiteralKind → String → Prop
  | .int, text | .float, text => IsNumeral text
  | .char, text | .string, text => IsQuotation text
  | .bool, _ | .null, _ => True

variable {W : NameRef → Prop}

/-- All names and literals are as tokens give them. -/
inductive Expr.Worded (W : NameRef → Prop) : Expr → Prop where
  | literal {kind : LiteralKind} {text : String} (h : kind.Spells text) : Worded W (.literal kind text)
  | list {items : List Expr} (h : ∀ item ∈ items, item.Worded W) : Worded W (.list items)
  | name {ref : NameRef} (h : IsScopedName ref.raw) (hw : W ref) : Worded W (.name ref)
  | scoped {ref : NameRef} (h : IsScopedName ref.raw) (hw : W ref) : Worded W (.scoped ref)
  | primitive (type : Primitive) : Worded W (.primitive type)
  | self : Worded W .self
  | member {object : Expr} {name : String} (h : object.Worded W) (hname : IsName name) :
      Worded W (.member object name)
  | unary {op : UnaryOp} {operand : Expr} (h : operand.Worded W) : Worded W (.unary op operand)
  | binary {op : BinaryOp} {left right : Expr} (hleft : left.Worded W) (hright : right.Worded W) :
      Worded W (.binary op left right)
  | conditional {condition ifTrue ifFalse : Expr} (h : condition.Worded W) (htrue : ifTrue.Worded W)
      (hfalse : ifFalse.Worded W) : Worded W (.conditional condition ifTrue ifFalse)
  | parens {inner : Expr} (h : inner.Worded W) : Worded W (.parens inner)
  | index {object position : Expr} (h : object.Worded W) (hposition : position.Worded W) :
      Worded W (.index object position)
  | cast {type : Primitive} {operand : Expr} (h : operand.Worded W) : Worded W (.cast type operand)
  | call {callee : Expr} {args : List Expr} (h : callee.Worded W) (hargs : ∀ arg ∈ args, arg.Worded W) :
      Worded W (.call callee args)
  | new {type : Expr} {args : List Expr} (h : type.Worded W) (hargs : ∀ arg ∈ args, arg.Worded W) :
      Worded W (.new type args)
  | assign {op : Option BinaryOp} {target value : Expr} (h : target.Worded W)
      (hvalue : value.Worded W) : Worded W (.assign op target value)
  | step {increment before : Bool} {target : Expr} (h : target.Worded W) :
      Worded W (.step increment before target)
  | sizeof (place : Position) : Worded W (.sizeof place)

theorem Expr.worded_none : Expr.none.Worded W :=
  .literal trivial

/-- The expressions and the name of a statement itself are worded. -/
def Stmt.Spelled (W : NameRef → Prop) : Stmt → Prop
  | .ret value | .throw value => ∀ e ∈ value, e.Worded W
  | .ifElse condition _ _ | .whileLoop condition _ | .doWhile _ condition => condition.Worded W
  | .declare name value => IsName name ∧ ∀ e ∈ value, e.Worded W
  | .expr e | .delete e => e.Worded W
  | .forLoop _ condition update _ => (∀ e ∈ condition, e.Worded W) ∧ ∀ e ∈ update, e.Worded W
  | .forEach name items _ => IsName name ∧ items.Worded W
  | .switch subject cases => subject.Worded W ∧ ∀ case ∈ cases, ∀ label ∈ case.labels, label.Worded W
  | .block _ | .breakStmt | .continueStmt => True

/-- All expressions in the statement are worded. -/
def Stmt.Worded (W : NameRef → Prop) (s : Stmt) : Prop :=
  s.Every (Stmt.Spelled W)

/-! ## What stands inside -/

namespace Expr

variable {e : Expr}

theorem Worded.children (h : e.Worded W) : ∀ c ∈ e.children, c.Worded W := by
  cases h <;> simp_all [Expr.children]

theorem Worded.parts (h : e.Worded W) : ∀ part ∈ e.parts, part.Worded W := by
  induction e using induct with
  | step e ih =>
    rw [parts_eq]
    exact List.forall_mem_cons.2 ⟨h, List.forall_mem_flatMap.2 fun c hc =>
      ih c hc (h.children c hc)⟩

theorem Worded.names (h : e.Worded W) : ∀ ref ∈ e.names, IsScopedName ref.raw ∧ W ref := by
  induction e using induct with
  | step e ih =>
    rw [names_eq]
    refine List.forall_mem_append.2 ⟨?_, List.forall_mem_flatMap.2 fun c hc =>
      ih c hc (h.children c hc)⟩
    cases h <;> simp_all [ownName?]

end Expr

namespace Stmt

variable {P : Stmt → Prop} {s : Stmt} {body : List Stmt}

theorem every_every (h : s.Every P) : s.Every (Every P) :=
  every_iff.2 fun _ hu => every_iff.2 fun _ hv => every_iff.1 h _ (inner_trans hv hu)

theorem everyIn_every (h : EveryIn P body) : EveryIn (Every P) body :=
  everyIn_iff.2 fun s hs => every_every (everyIn_iff.1 h s hs)

theorem Spelled.ownExprs (h : s.Spelled W) : ∀ e ∈ s.ownExprs, e.Worded W := by
  cases s <;> simp_all [Spelled, Stmt.ownExprs] <;> grind

theorem worded_exprs (h : s.Worded W) : ∀ e ∈ s.exprs, e.Worded W := by
  intro e he
  obtain ⟨u, hu, he⟩ := mem_exprs.1 he
  exact (every_iff.1 h u hu).ownExprs e he

theorem worded_exprsOfBlock (h : EveryIn (Spelled W) body) :
    ∀ e ∈ exprsOfBlock body, e.Worded W := by
  rw [exprsOfBlock_eq]
  exact List.forall_mem_flatMap.2 fun s hs => worded_exprs (everyIn_iff.1 h s hs)

end Stmt

end Serpentine
