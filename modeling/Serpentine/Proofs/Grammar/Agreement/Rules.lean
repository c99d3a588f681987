import Serpentine.Proofs.Grammar.Agreement.LookAhead

/-!
# Rules in agreement

The parses of the rules are made from each other. What one of them gives in two texts of the same
words is compared up to places, on the assumption that all of them agree where fewer tokens are
left. Where wording is followed, it is worded.
-/

namespace Serpentine

/-! ## Results of rules -/

def Grammar.Declarator.relocate (f : Position → Position) (d : Grammar.Declarator) :
    Grammar.Declarator :=
  { d with
    arrays := d.arrays.map (Option.map (Expr.relocate f))
    params := d.params.map (List.map (ParameterSpec.relocate f))
    place := f d.place }

namespace Matching

abbrev SameExprs (m : Matching) : List Expr → List Expr → Prop :=
  m.UnderList (Expr.relocate m.see) (Expr.Worded m.words)

abbrev SameExpr? (m : Matching) : Option Expr → Option Expr → Prop :=
  m.UnderOption (Expr.relocate m.see) (Expr.Worded m.words)

abbrev SameStmt (m : Matching) : Stmt → Stmt → Prop :=
  m.Under (Stmt.relocate m.see) (Stmt.Worded m.words)

abbrev SameStmts (m : Matching) : List Stmt → List Stmt → Prop :=
  m.UnderList (Stmt.relocate m.see) (Stmt.Worded m.words)

abbrev SameDeclarator (m : Matching) : Grammar.Declarator → Grammar.Declarator → Prop :=
  m.Under (Grammar.Declarator.relocate m.see) (Grammar.Declarator.Worded m.words)

end Matching

namespace Grammar

variable {m : Matching} {n : Nat} {e : Effect} {α β : Type} {K : Kind → Prop}

section Under

variable {g : α → β} {P : α → Prop}

theorem isSome_of_map_eq {o o' : Option α} (h : o.map g = o'.map g) : o'.isSome = o.isSome := by
  rw [← Option.isSome_map (f := g), ← h, Option.isSome_map]

namespace Parse.Agrees

protected theorem many_under {p p' : Parse e (Option α)}
    (hp : p.Agrees m n Any (m.UnderOption g P) (fun r => r.isSome = true) p') :
    (many p).Agrees m n K (m.UnderList g P) Never (many p') :=
  (Agrees.many (hp.weaken fun _ _ => Matching.rel_of_underOption)).weaken fun _ _ =>
    Matching.underList_of_forall₂

protected theorem separated_under {O : Prop} {p p' : Parse e α}
    (hp : p.Agrees m n Any (m.Under g P) (fun _ => O) p') :
    (separated p).Agrees m n K (m.UnderList g P) (fun _ => O) (separated p') :=
  (Agrees.separated hp).weaken fun _ _ => Matching.underList_of_forall₂

protected theorem attempt_eq {p p' : Parse .look α} (hp : p.Alike m n K p') :
    (attempt p).Alike m n K (attempt p') :=
  (Agrees.attempt hp).weaken fun _ _ => eq_of_optionRel

protected theorem some_under {O : α → Prop} {O' : Option α → Prop} {p p' : Parse e α}
    (hp : p.Agrees m n K (m.Under g P) O p') (hO : ∀ a, O' (some a) → O a) :
    (some <$> p).Agrees m n K (m.UnderOption g P) O' (some <$> p') :=
  .map hp (fun _ _ => Matching.underOption_some) hO

end Parse.Agrees

end Under

namespace Rule

def relocate (f : Position → Position) : {e : Effect} → {α : Type} → Rule e α → α → α
  | _, _, .templateArgs | _, _, .declaration => id
  | _, _, .templateParams => id
  | _, _, .expr _ | _, _, .unary => Expr.relocate f
  | _, _, .exprList _ => List.map (Expr.relocate f)
  | _, _, .declarator _ => Declarator.relocate f
  | _, _, .statement => Stmt.relocate f

/-- What wording says of the result of a rule. -/
def Worded (W : NameRef → Prop) : {e : Effect} → {α : Type} → Rule e α → α → Prop
  | _, _, .templateArgs | _, _, .declaration => fun _ => True
  | _, _, .templateParams => fun _ => True
  | _, _, .expr _ | _, _, .unary => Expr.Worded W
  | _, _, .exprList _ => fun l => ∀ x ∈ l, x.Worded W
  | _, _, .declarator _ => Declarator.Worded W
  | _, _, .statement => Stmt.Worded W

/-- The results of a rule that stand behind a token. A declarator may be empty unless it has
parameters, and so may be a list of expressions up to the end of the text. -/
def Owes : {e : Effect} → {α : Type} → Rule e α → α → Prop
  | _, _, .declarator _ => fun d => d.params.isSome = true
  | _, _, .exprList _ => fun _ => False
  | _, _, .templateArgs | _, _, .declaration => fun _ => True
  | _, _, .templateParams => fun _ => True
  | _, _, .expr _ | _, _, .unary => fun _ => True
  | _, _, .statement => fun _ => True

/-- A rule may call those of smaller rank before it has taken a token. -/
def rank : {e : Effect} → {α : Type} → Rule e α → Nat
  | _, _, .declaration | _, _, .exprList _ => 1
  | _, _, .statement => 2
  | _, _, _ => 0

/-- Parses of the rule agree where fewer tokens than so many are left. -/
def Agrees (m : Matching) (n : Nat) (rules rules' : Rules) (rule : Rule e α) : Prop :=
  (rules.parse rule).Agrees m n Any (m.Under (rule.relocate m.see) (rule.Worded m.words)) rule.Owes
    (rules'.parse rule)

theorem rank_le (rule : Rule e α) : rule.rank ≤ 2 := by
  cases rule <;> simp [rank]

end Rule

def Rules.Agree (m : Matching) (n : Nat) (rules rules' : Rules) : Prop :=
  ∀ ⦃e : Effect⦄ ⦃α : Type⦄ (rule : Rule e α), rule.Agrees m n rules rules'

section Calls

variable {rules rules' : Rules}

/-- A call of a rule, whatever of its result has to stand behind a token. -/
theorem Rule.Agrees.call {rule : Rule e α} (h : rule.Agrees m n rules rules') {R : α → α → Prop}
    {O : α → Prop} (hR : ∀ a a', m.Under (rule.relocate m.see) (rule.Worded m.words) a a' → R a a')
    (hO : ∀ a, O a → rule.Owes a) :
    (rules.parse rule).Agrees m n K R O (rules'.parse rule) :=
  (Parse.Agrees.mono h (Nat.le_refl n) fun _ _ => trivial).imp hR hO

theorem Rule.Agrees.expr {power : Nat} (h : (Rule.expr power).Agrees m n rules rules')
    {O : Expr → Prop} : (rules.expr power).Agrees m n K m.SameExpr O (rules'.expr power) :=
  h.call (fun _ _ h => h) fun _ _ => trivial

theorem Rule.Agrees.declarator {mode : Mode} (h : (Rule.declarator mode).Agrees m n rules rules') :
    (rules.declarator mode).Agrees m n K m.SameDeclarator (fun d => d.params.isSome = true)
      (rules'.declarator mode) :=
  h.call (fun _ _ h => h) fun _ h => h

theorem Rule.Agrees.declaration (h : Rule.declaration.Agrees m n rules rules') {O : Unit → Prop} :
    rules.declaration.Agrees m n K Eq O rules'.declaration :=
  h.call (fun _ _ h => h.1) fun _ _ => trivial

namespace Rules.Agree

variable (h : rules.Agree m n rules')

include h

theorem templateArgs {O : Unit → Prop} : rules.templateArgs.Agrees m n K Eq O rules'.templateArgs :=
  (h .templateArgs).call (fun _ _ h => h.1) fun _ _ => trivial

theorem expr (power : Nat) {O : Expr → Prop} :
    (rules.expr power).Agrees m n K m.SameExpr O (rules'.expr power) :=
  (h (.expr power)).expr

theorem unary {O : Expr → Prop} : rules.unary.Agrees m n K m.SameExpr O rules'.unary :=
  (h .unary).call (fun _ _ h => h) fun _ _ => trivial

theorem exprList (close : Kind) :
    (rules.exprList close).Agrees m n K m.SameExprs Never (rules'.exprList close) :=
  (h (.exprList close)).call (fun _ _ h => h) fun _ h => h

theorem declarator (mode : Mode) :
    (rules.declarator mode).Agrees m n K m.SameDeclarator Never (rules'.declarator mode) :=
  (h (.declarator mode)).declarator.forget

theorem templateParams {O : List String → Prop} :
    rules.templateParams.Agrees m n K Eq O rules'.templateParams :=
  (h .templateParams).call (fun _ _ h => h.1) fun _ _ => trivial

theorem statement {O : Stmt → Prop} :
    rules.statement.Agrees m n K m.SameStmt O rules'.statement :=
  (h .statement).call (fun _ _ h => h) fun _ _ => trivial

theorem declaration {O : Unit → Prop} : rules.declaration.Agrees m n K Eq O rules'.declaration :=
  (h .declaration).declaration

theorem mono {k : Nat} (hk : k ≤ n) : rules.Agree m k rules' :=
  fun _ _ rule => Parse.Agrees.mono (h rule) hk fun _ h => h

end Rules.Agree

end Calls

end Grammar

end Serpentine
