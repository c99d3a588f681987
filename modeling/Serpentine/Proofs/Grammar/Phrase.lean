import Serpentine.Grammar.Expression

/-!
# Written expressions

Expressions as they are written, with parentheses where they stand, and the levels of precedence.
-/

namespace Serpentine

def UnaryOp.kind : UnaryOp → Kind
  | .neg => .minus
  | .plus => .plus
  | .not => .bang
  | .bitNot => .tilde
  | .deref => .star
  | .addressOf => .amp

def BinaryOp.kind : BinaryOp → Kind
  | .add => .plus
  | .sub => .minus
  | .mul => .star
  | .div => .slash
  | .mod => .percent
  | .shl => .shl
  | .shr => .shr
  | .bitAnd => .amp
  | .bitOr => .pipe
  | .bitXor => .caret
  | .eq => .eqEq
  | .ne => .notEq
  | .lt => .lt
  | .le => .ltEq
  | .gt => .gt
  | .ge => .gtEq
  | .and => .andAnd
  | .or => .orOr

/-- The level of an operator between two operands. Of two operators the one of the higher level
binds more tightly. -/
def BinaryOp.tier : BinaryOp → Nat
  | .or => 2
  | .and => 3
  | .bitOr => 4
  | .bitXor => 5
  | .bitAnd => 6
  | .eq | .ne => 7
  | .lt | .le | .gt | .ge => 8
  | .shl | .shr => 9
  | .add | .sub => 10
  | .mul | .div | .mod => 11

namespace Grammar

/-- The assignments, each with the operator that is joined to `=`. -/
def assignments : List (Kind × Option BinaryOp) :=
  [(.assign, none), (.plusAssign, some .add), (.minusAssign, some .sub), (.starAssign, some .mul),
    (.slashAssign, some .div), (.percentAssign, some .mod), (.ampAssign, some .bitAnd),
    (.pipeAssign, some .bitOr), (.caretAssign, some .bitXor), (.shlAssign, some .shl),
    (.shrAssign, some .shr)]

abbrev AssignOp : Type :=
  { op : Kind × Option BinaryOp // op ∈ assignments }

/-- Expressions with their parentheses, as they are written. -/
inductive Phrase where
  | name (text : String)
  | number (text : String)
  | parens (inner : Phrase)
  | unary (op : UnaryOp) (operand : Phrase)
  | binary (op : BinaryOp) (left right : Phrase)
  | conditional (condition ifTrue ifFalse : Phrase)
  | assign (op : AssignOp) (target value : Phrase)
deriving DecidableEq

/-- A token by its kind, and by its text where the kind does not tell it. -/
abbrev Word : Type :=
  Kind × Option String

/-- How loose two operands may be: the last one of a conditional, and the target of an
assignment. -/
structure Looseness where
  last : Nat
  target : Nat

/-- The last operand of a conditional may be an assignment, and the target of an assignment binds
more tightly than a conditional. -/
def Looseness.standard : Looseness :=
  ⟨0, 2⟩

/-- The last operand of a conditional is no assignment, and a conditional may be a target. -/
def Looseness.climbing : Looseness :=
  ⟨1, 1⟩

namespace Phrase

/-- The tokens that a phrase is written with. -/
def words : Phrase → List Word
  | .name text => [(.identifier, some text)]
  | .number text => [(.intLiteral, some text)]
  | .parens inner => (.lParen, none) :: (inner.words ++ [(.rParen, none)])
  | .unary op operand => (op.kind, none) :: operand.words
  | .binary op left right => left.words ++ (op.kind, none) :: right.words
  | .conditional condition ifTrue ifFalse =>
    condition.words ++ (.question, none) :: (ifTrue.words ++ (.colon, none) :: ifFalse.words)
  | .assign op target value => target.words ++ (op.1.1, none) :: value.words

/-- The uses of names, in the order of the text. -/
def names : Phrase → List String
  | .name text => [text]
  | .number _ => []
  | .parens inner => inner.names
  | .unary _ operand => operand.names
  | .binary _ left right => left.names ++ right.names
  | .conditional condition ifTrue ifFalse => condition.names ++ (ifTrue.names ++ ifFalse.names)
  | .assign _ target value => target.names ++ value.names

/-- The level of the operator that holds a phrase together: 0 for an assignment, 1 for a
conditional, then those between two operands, and above them the operators in front. -/
def level : Phrase → Nat
  | .assign .. => 0
  | .conditional .. => 1
  | .binary op .. => op.tier
  | .unary .. => 12
  | .name _ | .number _ | .parens _ => 13

/-- Parentheses stand at least where precedence and grouping ask for them. -/
def Fits (l : Looseness) : Phrase → Prop
  | .name _ | .number _ => True
  | .parens inner => inner.Fits l
  | .unary _ operand => operand.Fits l ∧ 12 ≤ operand.level
  | .binary op left right =>
    left.Fits l ∧ right.Fits l ∧ op.tier ≤ left.level ∧ op.tier < right.level
  | .conditional condition ifTrue ifFalse =>
    condition.Fits l ∧ ifTrue.Fits l ∧ ifFalse.Fits l ∧ 2 ≤ condition.level ∧ l.last ≤ ifFalse.level
  | .assign _ target value => target.Fits l ∧ value.Fits l ∧ l.target ≤ target.level

/-- No assignment stands in the phrase. -/
def AssignFree : Phrase → Prop
  | .name _ | .number _ => True
  | .parens inner => inner.AssignFree
  | .unary _ operand => operand.AssignFree
  | .binary _ left right => left.AssignFree ∧ right.AssignFree
  | .conditional condition ifTrue ifFalse =>
    condition.AssignFree ∧ ifTrue.AssignFree ∧ ifFalse.AssignFree
  | .assign .. => False

/-- A conditional whose last operand is not an assignment: the target of one that would be becomes
the last operand in its place. -/
def conditionalBefore (condition ifTrue : Phrase) : Phrase → Phrase
  | .assign op target value => .assign op (.conditional condition ifTrue target) value
  | ifFalse => .conditional condition ifTrue ifFalse

/-- The grouping in which the last operand of a conditional ends before `=`. -/
def regroup : Phrase → Phrase
  | .name text => .name text
  | .number text => .number text
  | .parens inner => .parens inner.regroup
  | .unary op operand => .unary op operand.regroup
  | .binary op left right => .binary op left.regroup right.regroup
  | .conditional condition ifTrue ifFalse =>
    conditionalBefore condition.regroup ifTrue.regroup ifFalse.regroup
  | .assign op target value => .assign op target.regroup value.regroup

/-! ## Grouping again -/

theorem conditionalBefore_same (condition ifTrue ifFalse : Phrase) :
    (conditionalBefore condition ifTrue ifFalse).words =
        (Phrase.conditional condition ifTrue ifFalse).words ∧
      (conditionalBefore condition ifTrue ifFalse).names =
        (Phrase.conditional condition ifTrue ifFalse).names := by
  cases ifFalse with
  | assign => simp only [conditionalBefore, words, names, List.append_assoc, List.cons_append, and_self]
  | _ => exact ⟨rfl, rfl⟩

theorem regroup_same (p : Phrase) : p.regroup.words = p.words ∧ p.regroup.names = p.names := by
  induction p with
  | name | number => exact ⟨rfl, rfl⟩
  | parens inner ih => simp only [regroup, words, names, ih, and_self]
  | unary op operand ih => simp only [regroup, words, names, ih, and_self]
  | binary op left right ihl ihr => simp only [regroup, words, names, ihl, ihr, and_self]
  | conditional c a b ihc iha ihb =>
    simp only [regroup, conditionalBefore_same, words, names, ihc, iha, ihb, and_self]
  | assign op target value iht ihv => simp only [regroup, words, names, iht, ihv, and_self]

@[simp]
theorem words_regroup (p : Phrase) : p.regroup.words = p.words :=
  p.regroup_same.1

@[simp]
theorem names_regroup (p : Phrase) : p.regroup.names = p.names :=
  p.regroup_same.2

theorem two_le_tier (op : BinaryOp) : 2 ≤ op.tier := by
  cases op <;> decide

variable {p : Phrase}

theorem level_regroup (h : 2 ≤ p.level) : p.regroup.level = p.level := by
  cases p with
  | conditional | assign => simp [level] at h
  | _ => rfl

theorem exists_assign (h : ¬ 1 ≤ p.level) :
    ∃ op target value, p = .assign op target value := by
  cases p with
  | assign op target value => exact ⟨op, target, value, rfl⟩
  | binary op => exact absurd (Nat.le_of_succ_le (two_le_tier op)) h
  | _ => simp [level] at h

theorem conditionalBefore_eq (c a : Phrase) {b : Phrase} (h : 1 ≤ b.level) :
    conditionalBefore c a b = .conditional c a b := by
  cases b with
  | assign => simp [level] at h
  | _ => rfl

/-- **Grouped again, a phrase fits** a reader whose conditionals end before assignments. -/
theorem fits_regroup (h : p.Fits .standard) : p.regroup.Fits .climbing := by
  induction p with
  | name | number => trivial
  | parens inner ih => exact ih h
  | unary op operand ih =>
    obtain ⟨hoperand, hlevel⟩ := h
    refine ⟨ih hoperand, ?_⟩
    rwa [level_regroup (Nat.le_trans (by decide) hlevel)]
  | binary op left right ihl ihr =>
    obtain ⟨hl, hr, hleft, hright⟩ := h
    refine ⟨ihl hl, ihr hr, ?_, ?_⟩
    · rwa [level_regroup (Nat.le_trans (two_le_tier op) hleft)]
    · rwa [level_regroup (Nat.le_trans (two_le_tier op) (Nat.le_of_lt hright))]
  | conditional c a b ihc iha ihb =>
    obtain ⟨hc, ha, hb, hlevel, -⟩ := h
    have hlevel' : 2 ≤ c.regroup.level := by rwa [level_regroup hlevel]
    have hlast := ihb hb
    rw [regroup]
    by_cases hone : 1 ≤ b.regroup.level
    · rw [conditionalBefore_eq _ _ hone]
      exact ⟨ihc hc, iha ha, hlast, hlevel', hone⟩
    · obtain ⟨op, target, value, heq⟩ := exists_assign hone
      rw [heq] at hlast ⊢
      obtain ⟨htarget, hvalue, hle⟩ := hlast
      exact ⟨⟨ihc hc, iha ha, htarget, hlevel', hle⟩, hvalue, Nat.le_refl 1⟩
  | assign op target value iht ihv =>
    obtain ⟨ht, hv, hlevel⟩ := h
    refine ⟨iht ht, ihv hv, ?_⟩
    rw [level_regroup hlevel]
    exact Nat.le_of_succ_le hlevel

theorem fits_of_both (h : p.Fits .standard) (h' : p.Fits .climbing) :
    p.Fits ⟨1, 2⟩ := by
  induction p with
  | name | number => trivial
  | parens inner ih => exact ih h h'
  | unary op operand ih => exact ⟨ih h.1 h'.1, h.2⟩
  | binary op left right ihl ihr => exact ⟨ihl h.1 h'.1, ihr h.2.1 h'.2.1, h.2.2⟩
  | conditional c a b ihc iha ihb =>
    exact ⟨ihc h.1 h'.1, iha h.2.1 h'.2.1, ihb h.2.2.1 h'.2.2.1, h'.2.2.2⟩
  | assign op target value iht ihv => exact ⟨iht h.1 h'.1, ihv h.2.1 h'.2.1, h.2.2⟩

theorem regroup_eq (h : p.Fits ⟨1, 2⟩) : p.regroup = p := by
  induction p with
  | name | number => rfl
  | parens inner ih => rw [regroup, ih h]
  | unary op operand ih => rw [regroup, ih h.1]
  | binary op left right ihl ihr => rw [regroup, ihl h.1, ihr h.2.1]
  | conditional c a b ihc iha ihb =>
    rw [regroup, ihc h.1, iha h.2.1, ihb h.2.2.1, conditionalBefore_eq _ _ h.2.2.2.2]
  | assign op target value iht ihv => rw [regroup, iht h.1, ihv h.2.1]

/-- **A phrase stays as it is** exactly if no assignment without parentheses is the last operand of
a conditional. -/
theorem regroup_eq_iff (h : p.Fits .standard) : p.regroup = p ↔ p.Fits ⟨1, 2⟩ := by
  refine ⟨fun heq => fits_of_both h ?_, regroup_eq⟩
  have hfits := fits_regroup h
  rwa [heq] at hfits

theorem one_le_level (h : p.AssignFree) : 1 ≤ p.level := by
  cases p with
  | assign => exact h.elim
  | binary op => exact Nat.le_of_succ_le (two_le_tier op)
  | _ => simp [level]

theorem AssignFree.fits {l : Looseness} (hfree : p.AssignFree) (h : p.Fits l) :
    p.Fits .climbing := by
  induction p with
  | name | number => trivial
  | parens inner ih => exact ih hfree h
  | unary op operand ih => exact ⟨ih hfree h.1, h.2⟩
  | binary op left right ihl ihr => exact ⟨ihl hfree.1 h.1, ihr hfree.2 h.2.1, h.2.2⟩
  | conditional c a b ihc iha ihb =>
    exact ⟨ihc hfree.1 h.1, iha hfree.2.1 h.2.1, ihb hfree.2.2 h.2.2.1, h.2.2.2.1,
      one_le_level hfree.2.2⟩
  | assign => exact hfree.elim

end Phrase

end Grammar

end Serpentine
