import Serpentine.Proofs.Script.Lexeme

/-!
# Reading expressions back

A reader for the expression grammar of Python: a choice between two expressions, `or`, `and`, `not`,
comparisons (one at a time), `|`, `^`, `&`, shifts, sums, products, signs and primaries, each level
looser than the next. An operand is read at the next tighter level, and then as many operators of
the level as follow.

* **`read_of_tighter`**: an operand that is read at a level is read at every looser one.
-/

namespace Serpentine.Script

/-- The operator in front of an operand that a lexeme stands for at a level. -/
def prefixOp? (level : Level) : Lexeme → Option UnaryOp
  | .not => if level = .not then some .not else none
  | .tilde => if level = .unary then some .invert else none
  | .op .sub => if level = .unary then some .neg else none
  | .op .add => if level = .unary then some .plus else none
  | _ => none

def takeQuoted : List Lexeme → List String × List Lexeme
  | .quoted text :: ls => (text :: (takeQuoted ls).1, (takeQuoted ls).2)
  | ls => ([], ls)

theorem length_takeQuoted_le (ls : List Lexeme) : (takeQuoted ls).2.length ≤ ls.length := by
  fun_induction takeQuoted ls with
  | case1 text ls ih => exact Nat.le_succ_of_le ih
  | case2 => exact Nat.le_refl _

/-! ## The reader -/

/-- Something that was read, with fewer than so many lexemes behind it. -/
structure Front (α : Type) (n : Nat) where
  value : α
  rest : List Lexeme
  shorter : rest.length < n

namespace Front

variable {α : Type} {n m : Nat}

/-- What was read, and the lexemes behind it. -/
def toPair (r : Front α n) : α × List Lexeme :=
  (r.value, r.rest)

/-- There are fewer lexemes than a larger number, too. -/
def widen (r : Front α n) (h : n ≤ m) : Front α m :=
  ⟨r.value, r.rest, Nat.lt_of_lt_of_le r.shorter h⟩

@[simp] theorem toPair_mk (a : α) (rest : List Lexeme) (h : rest.length < n) :
    (⟨a, rest, h⟩ : Front α n).toPair = (a, rest) :=
  rfl

@[simp] theorem toPair_widen (r : Front α n) (h : n ≤ m) : (r.widen h).toPair = r.toPair :=
  rfl

theorem eq_some_of_toPair {r? : Option (Front α n)} {a : α} {rest : List Lexeme}
    (h : r?.map toPair = some (a, rest)) : ∃ hlt, r? = some ⟨a, rest, hlt⟩ := by
  obtain ⟨⟨_, _, hlt⟩, hsome, hpair⟩ := Option.map_eq_some_iff.1 h
  cases hpair
  exact ⟨hlt, hsome⟩

mutual

/-- An expression of operators that bind at least as tightly as a level. -/
def read (level : Level) (ls : List Lexeme) : Option (Front Term ls.length) :=
  if Level.primary ≤ level then do
    let ⟨t, rest, h⟩ ← readAtom ls
    (readRest level t rest).map (·.widen h)
  else match ls with
    | [] => none
    | l :: ls =>
      match prefixOp? level l with
      | some op => do
        let ⟨t, rest, h⟩ ← read level ls
        return ⟨.unary op t, rest, Nat.lt_succ_of_lt h⟩
      | none => do
        let ⟨t, rest, h⟩ ← read (level + 1) (l :: ls)
        (readRest level t rest).map (·.widen h)
termination_by (ls.length, 1 + (Level.primary - level))
decreasing_by
  any_goals decreasing_tactic
  next h => exact .right _ (Nat.add_lt_add_left (Nat.sub_succ_lt_self _ _ (Nat.lt_of_not_le h)) 1)

/-- What goes on with an expression at a level. -/
def readRest (level : Level) (t : Term) (ls : List Lexeme) : Option (Front Term (ls.length + 1)) :=
  match ls with
  | .op b :: ls =>
    if b.level = level then do
      let ⟨right, rest, h⟩ ← read (level + 1) ls
      -- a second comparison would make a chain
      if level = .compare then return ⟨.binary b t right, rest, Nat.lt_add_right 2 h⟩
      else (readRest level (.binary b t right) rest).map (·.widen (Nat.le_succ_of_le (.step h)))
    else return ⟨t, .op b :: ls, Nat.lt_succ_self _⟩
  | .ifWord :: ls =>
    if level = .conditional then do
      match ← read .or ls with
      | ⟨condition, .elseWord :: rest, h⟩ =>
        have hrest : rest.length < ls.length := Nat.lt_of_succ_lt h
        let ⟨ifFalse, rest, h⟩ ← read .conditional rest
        return ⟨.conditional condition t ifFalse, rest, Nat.lt_add_right 2 (Nat.lt_trans h hrest)⟩
      | _ => none
    else return ⟨t, .ifWord :: ls, Nat.lt_succ_self _⟩
  | .dot :: .name name :: ls =>
    if level = .primary then
      (readRest level (.attr t name) ls).map (·.widen (Nat.le_add_right _ 2))
    else return ⟨t, .dot :: .name name :: ls, Nat.lt_succ_self _⟩
  | .lParen :: ls =>
    if level = .primary then do
      let ⟨args, rest, h⟩ ← readArgs .rParen ls
      (readRest level (.call t args) rest).map (·.widen (Nat.le_succ_of_le (.step h)))
    else return ⟨t, .lParen :: ls, Nat.lt_succ_self _⟩
  | .lBracket :: ls =>
    if level = .primary then do
      match ← read .lowest ls with
      | ⟨position, .rBracket :: rest, h⟩ =>
        have hrest : rest.length < ls.length := Nat.lt_of_succ_lt h
        (readRest level (.index t position) rest).map (·.widen (Nat.le_succ_of_le (.step hrest)))
      | _ => none
    else return ⟨t, .lBracket :: ls, Nat.lt_succ_self _⟩
  | ls => return ⟨t, ls, Nat.lt_succ_self _⟩
termination_by (ls.length, 0)

/-- An expression that no operator can take apart. -/
def readAtom (ls : List Lexeme) : Option (Front Term ls.length) :=
  match ls with
  | .name text :: rest | .constant text :: rest | .number text :: rest =>
    return ⟨.atom text, rest, Nat.lt_succ_self _⟩
  | .quoted text :: rest =>
    return ⟨.atom (" ".intercalate (text :: (takeQuoted rest).1)), (takeQuoted rest).2,
      Nat.lt_succ_of_le (length_takeQuoted_le rest)⟩
  | .lParen :: ls => do
    match ← read .lowest ls with
    | ⟨t, .rParen :: rest, h⟩ => return ⟨t, rest, Nat.lt_succ_of_lt (Nat.lt_of_succ_lt h)⟩
    | _ => none
  | .lBracket :: ls => do
    let ⟨items, rest, h⟩ ← readArgs .rBracket ls
    return ⟨.list items, rest, Nat.lt_succ_of_lt h⟩
  | _ => none
termination_by (ls.length, 0)

/-- Expressions with commas between them up to a closing bracket. -/
def readArgs (close : Lexeme) (ls : List Lexeme) : Option (Front (List Term) ls.length) :=
  match ls with
  | [] => none
  | l :: ls =>
    if l = close then return ⟨[], ls, Nat.lt_succ_self _⟩
    else do
      match ← read .conditional (l :: ls) with
      | ⟨_, [], _⟩ => none
      | ⟨t, l' :: rest, h⟩ =>
        have hrest : rest.length < ls.length + 1 := Nat.lt_of_succ_lt h
        if l' = close then return ⟨[t], rest, hrest⟩
        else if l' = .comma then
          (readArgs close rest).map fun r => ⟨t :: r.value, r.rest, Nat.lt_trans r.shorter hrest⟩
        else none
termination_by (ls.length, 2 + Level.primary)

end

end Front

/-- An expression of operators that bind at least as tightly as a level, and what is behind it. -/
def read (level : Level) (ls : List Lexeme) : Option (Term × List Lexeme) :=
  (Front.read level ls).map Front.toPair

/-- What goes on with an expression at a level, and what is behind it. -/
def readRest (level : Level) (t : Term) (ls : List Lexeme) : Option (Term × List Lexeme) :=
  (Front.readRest level t ls).map Front.toPair

/-- An expression that no operator can take apart, and what is behind it. -/
def readAtom (ls : List Lexeme) : Option (Term × List Lexeme) :=
  (Front.readAtom ls).map Front.toPair

variable {l : Lexeme}

/-- Expressions with commas between them up to a closing bracket, and what is behind it. -/
def readArgs (close : Lexeme) (ls : List Lexeme) : Option (List Term × List Lexeme) :=
  (Front.readArgs close ls).map Front.toPair

/-- The expression that a text is read as. -/
def readText (text : String) : Option Term := do
  let ls ← lex text.toList
  match ← read .lowest ls with
  | (t, []) => return t
  | _ => none

/-! ### Atoms -/

theorem readAtom_atom {text : String} (h : l ∈ [.name text, .constant text, .number text])
    (ls : List Lexeme) : readAtom (l :: ls) = some (.atom text, ls) := by
  simp only [List.mem_cons, List.not_mem_nil, or_false] at h
  rcases h with rfl | rfl | rfl <;> simp [readAtom, Front.readAtom]

theorem readAtom_quoted (text : String) (ls : List Lexeme) :
    readAtom (.quoted text :: ls) =
      some (.atom (" ".intercalate (text :: (takeQuoted ls).1)), (takeQuoted ls).2) := by
  simp [readAtom, Front.readAtom]

variable {ls rest : List Lexeme} {t : Term}

theorem readAtom_paren (h : read .lowest ls = some (t, .rParen :: rest)) :
    readAtom (.lParen :: ls) = some (t, rest) := by
  obtain ⟨_, ht⟩ := Front.eq_some_of_toPair h
  simp [readAtom, Front.readAtom, ht]

theorem readAtom_list {items : List Term} (h : readArgs .rBracket ls = some (items, rest)) :
    readAtom (.lBracket :: ls) = some (.list items, rest) := by
  obtain ⟨_, hitems⟩ := Front.eq_some_of_toPair h
  simp [readAtom, Front.readAtom, hitems]

/-! ### Operands and operators -/

theorem read_of_atom (h : readAtom ls = some (t, rest)) :
    read .primary ls = readRest .primary t rest := by
  obtain ⟨_, ht⟩ := Front.eq_some_of_toPair h
  rw [read, readRest, Front.read.eq_def, if_pos (Nat.le_refl _), ht]
  simp [Function.comp_def]

variable {level : Level}

theorem read_of_next (hlevel : level < .primary) (hl : prefixOp? level l = none)
    (h : read (level + 1) (l :: ls) = some (t, rest)) :
    read level (l :: ls) = readRest level t rest := by
  obtain ⟨_, ht⟩ := Front.eq_some_of_toPair h
  rw [read, readRest, Front.read, if_neg (Nat.not_le.2 hlevel)]
  simp [hl, ht, Function.comp_def]

theorem read_of_prefix (hlevel : level < .primary) {op : UnaryOp}
    (hl : prefixOp? level l = some op) (h : read level ls = some (t, rest)) :
    read level (l :: ls) = some (.unary op t, rest) := by
  obtain ⟨_, ht⟩ := Front.eq_some_of_toPair h
  rw [read, Front.read, if_neg (Nat.not_le.2 hlevel)]
  simp [hl, ht]

theorem readRest_op {op : BinaryOp} {right : Term} (h : read (op.level + 1) ls = some (right, rest))
    (left : Term) :
    readRest op.level left (.op op :: ls) =
      if op.level = .compare then some (.binary op left right, rest)
      else readRest op.level (.binary op left right) rest := by
  obtain ⟨_, hright⟩ := Front.eq_some_of_toPair h
  rw [readRest, Front.readRest, if_pos rfl, hright]
  split <;> simp [*, readRest, Function.comp_def]

theorem readRest_ifWord {cs fs rest : List Lexeme} {condition ifFalse : Term}
    (hc : read .or cs = some (condition, .elseWord :: fs))
    (hf : read .conditional fs = some (ifFalse, rest)) (t : Term) :
    readRest .conditional t (.ifWord :: cs) = some (.conditional condition t ifFalse, rest) := by
  obtain ⟨_, hc⟩ := Front.eq_some_of_toPair hc
  obtain ⟨_, hf⟩ := Front.eq_some_of_toPair hf
  rw [readRest, Front.readRest, if_pos rfl, hc]
  simp [hf]

theorem readRest_attr (t : Term) (name : String) (ls : List Lexeme) :
    readRest .primary t (.dot :: .name name :: ls) = readRest .primary (.attr t name) ls := by
  rw [readRest, Front.readRest, if_pos rfl]
  simp [readRest, Function.comp_def]

theorem readRest_call {args : List Term} (h : readArgs .rParen ls = some (args, rest)) (t : Term) :
    readRest .primary t (.lParen :: ls) = readRest .primary (.call t args) rest := by
  obtain ⟨_, hargs⟩ := Front.eq_some_of_toPair h
  rw [readRest, Front.readRest, if_pos rfl, hargs]
  simp [readRest, Function.comp_def]

theorem readRest_index {position : Term} (h : read .lowest ls = some (position, .rBracket :: rest))
    (t : Term) :
    readRest .primary t (.lBracket :: ls) = readRest .primary (.index t position) rest := by
  obtain ⟨_, hposition⟩ := Front.eq_some_of_toPair h
  rw [readRest, Front.readRest, if_pos rfl, hposition]
  simp [readRest, Function.comp_def]

/-! ### Lists of expressions -/

theorem readArgs_close (close : Lexeme) (ls : List Lexeme) :
    readArgs close (close :: ls) = some ([], ls) := by
  rw [readArgs, Front.readArgs, if_pos rfl]
  rfl

theorem readArgs_last {close l : Lexeme} (hl : l ≠ close)
    (h : read .conditional (l :: ls) = some (t, close :: rest)) :
    readArgs close (l :: ls) = some ([t], rest) := by
  obtain ⟨_, ht⟩ := Front.eq_some_of_toPair h
  rw [readArgs, Front.readArgs, if_neg hl, ht]
  simp

theorem readArgs_comma {close l : Lexeme} (hl : l ≠ close) (hcomma : .comma ≠ close)
    (h : read .conditional (l :: ls) = some (t, .comma :: rest)) :
    readArgs close (l :: ls) = (readArgs close rest).map fun (ts, rest) => (t :: ts, rest) := by
  obtain ⟨_, ht⟩ := Front.eq_some_of_toPair h
  rw [readArgs, Front.readArgs, if_neg hl, ht]
  simp [readArgs, hcomma, Function.comp_def, Front.toPair]

/-! ## Levels -/

/-- The level at which a lexeme behind an operand goes on with it. Quoted texts join before any
operator does. -/
def Lexeme.grip? : Lexeme → Option Level
  | .op b => some b.level
  | .ifWord => some .conditional
  | .dot | .lParen | .lBracket => some .primary
  | .quoted _ => some (.primary + 1)
  | _ => none

def Lexeme.isClose : Lexeme → Bool
  | .rParen | .rBracket => true
  | _ => false

/-- The lexemes behind an operand do not go on with a part of it. -/
def Held (level : Level) (ls : List Lexeme) : Prop :=
  ∀ l ∈ ls.head?, ∀ g ∈ l.grip?,
    g < level ∨ (g = level ∧ level ≠ .compare ∧ level ≠ .conditional)

/-- The lexemes behind an operand do not go on. -/
def Closed (level : Level) (ls : List Lexeme) : Prop :=
  ∀ l ∈ ls.head?, ∀ g ∈ l.grip?, g < level

theorem Closed.held {ls : List Lexeme} (h : Closed level ls) : Held level ls :=
  fun l hl g hg => .inl (h l hl g hg)

theorem Held.closed {level tighter : Level} {ls : List Lexeme} (h : Held level ls)
    (hlt : level < tighter) : Closed tighter ls := by
  intro l hl g hg
  rcases h l hl g hg with hg | ⟨rfl, -⟩
  · exact Nat.lt_trans hg hlt
  · exact hlt

theorem Held.mono {level tighter : Level} {ls : List Lexeme} (h : Held level ls)
    (hle : level ≤ tighter) : Held tighter ls := by
  rcases Nat.eq_or_lt_of_le hle with rfl | hlt
  · exact h
  · exact (h.closed hlt).held

theorem closed_cons_iff : Closed level (l :: ls) ↔ ∀ g ∈ l.grip?, g < level := by
  simp [Closed]

theorem closed_cons {ls : List Lexeme} (h : l.grip? = none) :
    Closed level (l :: ls) :=
  closed_cons_iff.2 (by simp [h])

theorem readRest_of_closed (hlevel : level ≤ .primary) {ls : List Lexeme} (h : Closed level ls)
    (t : Term) : readRest level t ls = some (t, ls) := by
  rw [readRest, Front.readRest.eq_def]
  split
  · next b rest =>
    have hb : b.level < level := h _ rfl _ rfl
    rw [if_neg (Nat.ne_of_lt hb)]
    rfl
  · next rest =>
    have hif : Level.conditional < level := h _ rfl _ rfl
    rw [if_neg (Nat.ne_of_gt hif)]
    rfl
  iterate 3 exact absurd (h _ rfl Level.primary rfl) (Nat.not_lt.2 hlevel)
  rfl

theorem read_of_tighter {level tighter : Level} (hle : level ≤ tighter)
    (hprimary : tighter ≤ .primary)
    (hl : ∀ k, level ≤ k → k < tighter → prefixOp? k l = none) (hrest : Held level rest)
    (h : read tighter (l :: ls) = readRest tighter t rest) :
    read level (l :: ls) = readRest level t rest := by
  induction hle with
  | refl => exact h
  | @step k hk ih =>
    have hnext : readRest (k + 1) t rest = some (t, rest) :=
      readRest_of_closed hprimary (hrest.closed (Nat.lt_succ_of_le hk)) t
    refine ih (Nat.le_of_succ_le hprimary) (fun j hj hjk => hl j hj (Nat.lt_succ_of_lt hjk)) ?_
    exact read_of_next hprimary (hl k hk (Nat.lt_succ_self k)) (h.trans hnext)

end Serpentine.Script
