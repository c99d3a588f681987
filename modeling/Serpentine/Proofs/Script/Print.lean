import Serpentine.Proofs.Script.Atom

/-!
# Printed expressions, read back

Every expression of the grammar is written with lexemes that are read as it
(**`Term.exists_spelled`**). Its text is read back as the expression, in every place and alone
(**`Term.read_print`**, **`Term.readText_text`**).
-/

namespace Serpentine

theorem BinaryOp.level_lt_primary (op : BinaryOp) : op.level < .primary := by
  cases op <;> decide

theorem BinaryOp.level_le_leftLevel (op : BinaryOp) : op.level ≤ op.leftLevel := by
  cases op <;> decide

namespace Script

theorem UnaryOp.level_lt_primary (op : UnaryOp) : op.level < .primary := by
  cases op <;> decide

/-- The lexeme of an operator in front of its operand. -/
def UnaryOp.lexeme : UnaryOp → Lexeme
  | .neg => .op .sub
  | .plus => .op .add
  | .invert => .tilde
  | .not => .not

namespace Term

mutual

/-- Without parentheses, and with dotted names taken apart. -/
def plain : Term → Term
  | .atom text => ofAtom text
  | .list items => .list (plainAll items)
  | .tuple items => .tuple (plainAll items)
  | .attr object name => .attr object.plain name
  | .unary op operand => .unary op operand.plain
  | .binary op left right => .binary op left.plain right.plain
  | .conditional condition ifTrue ifFalse =>
    .conditional condition.plain ifTrue.plain ifFalse.plain
  | .paren inner => inner.plain
  | .index object position => .index object.plain position.plain
  | .call callee args => .call callee.plain (plainAll args)
  | .walrus target value => .walrus target.plain value.plain

def plainAll : List Term → List Term
  | [] => []
  | t :: rest => t.plain :: plainAll rest

end

/-- The expression is a number. -/
def IsNumeral : Term → Prop
  | .atom text => IsNumber text.toList
  | _ => False

mutual

/-- The expressions of the grammar. -/
def Readable : Term → Prop
  | .atom text => IsAtom text
  | .list items => ReadableAll items
  | .attr object name => object.Readable ∧ ¬ object.IsNumeral ∧ IsIdent name
  | .unary _ operand => operand.Readable
  | .binary _ left right => left.Readable ∧ right.Readable
  | .conditional condition ifTrue ifFalse =>
    condition.Readable ∧ ifTrue.Readable ∧ ifFalse.Readable
  | .paren inner => inner.Readable
  | .index object position => object.Readable ∧ position.Readable
  | .call callee args => callee.Readable ∧ ReadableAll args
  | .tuple _ | .walrus .. => False

def ReadableAll : List Term → Prop
  | [] => True
  | t :: rest => t.Readable ∧ ReadableAll rest

end

theorem level_le_primary (t : Term) : t.level ≤ .primary := by
  cases t with
  | unary op _ => exact Nat.le_of_lt op.level_lt_primary
  | binary op _ _ => exact Nat.le_of_lt op.level_lt_primary
  | conditional => exact (by decide : Level.conditional ≤ Level.primary)
  | _ => exact Nat.le_refl _

end Term

/-! ## The first lexeme -/

/-- The lexemes start with no closing bracket, and with no operator in front of an operand that is
looser than a level. -/
def StartsAt (level : Level) (ls : List Lexeme) : Prop :=
  ∃ l tail, ls = l :: tail ∧ l.isClose = false ∧ ∀ k < level, prefixOp? k l = none

variable {ls : List Lexeme}

variable {level : Level}

theorem StartsAt.append (h : StartsAt level ls) (more : List Lexeme) :
    StartsAt level (ls ++ more) := by
  obtain ⟨l, tail, rfl, hl⟩ := h
  exact ⟨l, tail ++ more, rfl, hl⟩

theorem StartsAt.mono {level tighter : Level} (h : StartsAt tighter ls) (hle : level ≤ tighter) :
    StartsAt level ls := by
  obtain ⟨l, tail, rfl, hclose, hl⟩ := h
  exact ⟨l, tail, rfl, hclose, fun k hk => hl k (Nat.lt_of_lt_of_le hk hle)⟩

variable {l : Lexeme}

theorem StartsAt.of_none (hclose : l.isClose = false)
    (h : ∀ k, prefixOp? k l = none) (tail : List Lexeme) : StartsAt level (l :: tail) :=
  ⟨l, tail, rfl, hclose, fun k _ => h k⟩

theorem UnaryOp.startsAt (op : UnaryOp) (tail : List Lexeme) :
    StartsAt op.level (op.lexeme :: tail) := by
  refine ⟨op.lexeme, tail, rfl, ?_, fun k hk => ?_⟩
  · cases op <;> rfl
  · cases op <;> exact if_neg (Nat.ne_of_lt hk)

/-! ## Lexemes of an expression -/

/-- The lexemes of an expression in a place that needs a level. Whatever stands behind it, its text
is cut into them, and they are read as the expression. A number would swallow a dot, and only what no
operator can take apart has attributes. -/
structure Term.Spelled (t : Term) (least : Level) (ls : List Lexeme) : Prop where
  starts : StartsAt least ls
  cut : ∀ rest ls', Clear rest → (rest.head? = some '.' → least = .primary ∧ ¬ t.IsNumeral) →
    lex rest = some ls' → lex ((t.print least).toList ++ rest) = some (ls ++ ls')
  back : ∀ rest, Held least rest → read least (ls ++ rest) = readRest least t.plain rest

variable {t : Term}

theorem StartsAt.read_of_tighter {level tighter : Level} (hle : level ≤ tighter)
    (hprimary : tighter ≤ .primary) {ls rest : List Lexeme} (hls : StartsAt tighter ls)
    (hrest : Held level rest) (h : read tighter ls = readRest tighter t rest) :
    read level ls = readRest level t rest := by
  obtain ⟨l, tail, rfl, -, hl⟩ := hls
  exact Script.read_of_tighter hle hprimary (fun k _ hk => hl k hk) hrest h

variable {rest : List Lexeme}

namespace Term

theorem wrap_self (own : Level) (text : String) : wrap own own text = text :=
  if_neg (Nat.lt_irrefl own)

theorem print_eq_wrap (least : Level) (t : Term) :
    t.print least = wrap t.level least (t.print t.level) := by
  unfold print
  rw [wrap_self]

namespace Spelled

/-- What follows goes on with no part of the expression. -/
theorem read_closed {least : Level} (h : t.Spelled least ls) (hleast : least ≤ .primary)
    (hrest : Closed least rest) : read least (ls ++ rest) = some (t.plain, rest) := by
  rw [h.back rest hrest.held]
  exact readRest_of_closed hleast hrest _

theorem read_looser (h : t.Spelled t.level ls) (hle : level ≤ t.level)
    (hrest : Held level rest) : read level (ls ++ rest) = readRest level t.plain rest :=
  (h.starts.append rest).read_of_tighter hle t.level_le_primary hrest
    (h.back rest (hrest.mono hle))

/-- An expression is an operand, in parentheses if its level is below the one that is needed. -/
theorem operand (h : t.Spelled t.level ls) {least : Level} (hleast : least ≤ .primary) :
    ∃ ls, t.Spelled least ls := by
  by_cases hlt : t.level < least
  · have hstart (tail : List Lexeme) {level : Level} : StartsAt level (.lParen :: tail) :=
      .of_none rfl (fun _ => rfl) tail
    refine ⟨.lParen :: (ls ++ [.rParen]), hstart _, fun rest ls' _ _ hls => ?_,
      fun rest hrest => ?_⟩
    · have hclose : lex (')' :: rest) = some (.rParen :: ls') := lex_single (by decide) hls
      have hinner := h.cut (')' :: rest) _ (clear_cons _ (by decide) (by decide)) (by simp) hclose
      rw [print_eq_wrap, wrap, if_pos hlt]
      simpa using lex_single (by decide) hinner
    · -- in parentheses it is read from the loosest level on
      have hinner : read .lowest (ls ++ .rParen :: rest) = some (t.plain, .rParen :: rest) := by
        have hclosed : Closed .lowest (.rParen :: rest) := closed_cons rfl
        exact (h.read_looser (Nat.zero_le _) hclosed.held).trans
          (readRest_of_closed (by decide) hclosed _)
      simpa using (hstart _).read_of_tighter hleast (Nat.le_refl _) hrest
        (read_of_atom (readAtom_paren hinner))
  · have hle := Nat.not_lt.1 hlt
    refine ⟨ls, h.starts.mono hle, fun rest ls' hclear hdot hls => ?_, fun _ => h.read_looser hle⟩
    rw [print_eq_wrap, wrap, if_neg hlt]
    refine h.cut rest ls' hclear (fun hd => ?_) hls
    obtain ⟨rfl, hnum⟩ := hdot hd
    exact ⟨Nat.le_antisymm t.level_le_primary hle, hnum⟩

end Spelled

theorem exists_operand (h : ∃ ls, t.Spelled t.level ls) {least : Level} (hleast : least ≤ .primary) :
    ∃ ls, t.Spelled least ls := by
  obtain ⟨ls, h⟩ := h
  exact h.operand hleast

end Term

/-! ## Reading the lexemes -/

theorem Held.closed_unary {op : UnaryOp} (h : Held op.level rest) : Closed op.level rest := by
  intro l hl g hg
  rcases h l hl g hg with hlt | ⟨rfl, -⟩
  · exact hlt
  · cases l with
    | op b =>
      obtain hb : b.level = op.level := by simpa [Lexeme.grip?] using hg
      revert hb
      cases op <;> cases b <;> decide
    | _ => cases op <;> simp [Lexeme.grip?, UnaryOp.level] at hg <;> exact absurd hg (by decide)

theorem prefixOp?_lexeme (op : UnaryOp) : prefixOp? op.level op.lexeme = some op := by
  cases op <;> rfl

theorem read_unary (op : UnaryOp) {ls rest : List Lexeme} (h : read op.level ls = some (t, rest)) :
    read op.level (op.lexeme :: ls) = some (.unary op t, rest) :=
  read_of_prefix op.level_lt_primary (prefixOp?_lexeme op) h

/-- An operand on the left, its operator and an operand on the right are read as one expression,
with which more operators of the level may go on. -/
theorem read_binary (op : BinaryOp) {ls rs rest : List Lexeme} {left right : Term}
    (hleft : left.Spelled op.leftLevel ls) (hright : right.Spelled op.rightLevel rs)
    (hrest : Held op.level rest) :
    read op.level (ls ++ .op op :: (rs ++ rest)) =
      readRest op.level (.binary op left.plain right.plain) rest := by
  have hop : Held op.leftLevel (.op op :: (rs ++ rest)) := by
    intro l hl g hg
    obtain rfl : Lexeme.op op = l := by simpa using hl
    obtain rfl : op.level = g := by simpa [Lexeme.grip?] using hg
    cases op <;> decide
  have hl : read op.level (ls ++ .op op :: (rs ++ rest)) =
      readRest op.level left.plain (.op op :: (rs ++ rest)) := by
    by_cases hc : op.level = .compare
    · -- the operand is read one level up, where the operator does not go on with it
      have hle : op.leftLevel = op.level + 1 := by rw [BinaryOp.leftLevel, if_pos hc]
      obtain ⟨l, tail, hcons, -, hpre⟩ := hleft.starts.append (.op op :: (rs ++ rest))
      have hclosed : Closed op.leftLevel (.op op :: (rs ++ rest)) := by
        rw [closed_cons_iff, hle]
        simp [Lexeme.grip?]
      have hnext := hleft.read_closed (by cases op <;> decide) hclosed
      rw [hle, hcons] at hnext
      rw [hle] at hpre
      rw [hcons]
      exact read_of_next op.level_lt_primary (hpre _ (Nat.lt_succ_self _)) hnext
    · have hle : op.leftLevel = op.level := by rw [BinaryOp.leftLevel, if_neg hc]
      rw [← hle]
      exact hleft.back _ hop
  rw [hl, readRest_op (hright.read_closed (by cases op <;> decide)
    (hrest.closed (Nat.lt_succ_self _)))]
  split
  · next hc =>
    have hclosed : Closed op.level rest := by
      intro l hl g hg
      rcases hrest l hl g hg with hlt | ⟨-, hne, -⟩
      · exact hlt
      · exact absurd hc hne
    exact (readRest_of_closed (Nat.le_of_lt op.level_lt_primary) hclosed _).symm
  · rfl

theorem closed_ifWord : Closed .or (.ifWord :: ls) := by
  rw [closed_cons_iff]
  simp [Lexeme.grip?, Level.conditional, Level.or]

theorem read_conditional {ts cs fs rest : List Lexeme} {condition ifTrue ifFalse : Term}
    (htrue : ifTrue.Spelled .or ts) (hcondition : condition.Spelled .or cs)
    (hfalse : ifFalse.Spelled .conditional fs) (hrest : Held .conditional rest) :
    read .conditional (ts ++ .ifWord :: (cs ++ .elseWord :: (fs ++ rest))) =
      readRest .conditional (.conditional condition.plain ifTrue.plain ifFalse.plain) rest := by
  have hclosed : Closed .conditional rest := by
    intro l hl g hg
    rcases hrest l hl g hg with hlt | ⟨-, -, hne⟩
    · exact hlt
    · exact absurd rfl hne
  have hfirst := htrue.read_closed (by decide)
    (closed_ifWord : Closed .or (.ifWord :: (cs ++ .elseWord :: (fs ++ rest))))
  obtain ⟨l, tail, hcons, -, hpre⟩ := htrue.starts.append (.ifWord :: (cs ++ .elseWord :: (fs ++ rest)))
  rw [hcons] at hfirst ⊢
  rw [read_of_next (by decide) (hpre .conditional (by decide)) hfirst,
    readRest_ifWord (hcondition.read_closed (by decide) (closed_cons rfl))
      (hfalse.read_closed (by decide) hclosed), readRest_of_closed (by decide) hclosed]

theorem held_primary_cons (h : l.grip? = some .primary) : Held .primary (l :: ls) := by
  intro l' hl' g hg
  obtain rfl : l = l' := by simpa using hl'
  obtain rfl : Level.primary = g := by simpa [h] using hg
  exact .inr ⟨rfl, by decide, by decide⟩

theorem readArgs_append {close : Lexeme} (hclose : close.isClose = true) {ls rest : List Lexeme}
    (h : t.Spelled .conditional ls) :
    readArgs close (ls ++ close :: rest) = some ([t.plain], rest) ∧
      readArgs close (ls ++ .comma :: rest) =
        (readArgs close rest).map fun (ts, rest) => (t.plain :: ts, rest) := by
  have hgrip : close.grip? = none := by cases close <;> simp_all [Lexeme.isClose, Lexeme.grip?]
  have hcomma : Lexeme.comma ≠ close := by rintro rfl; simp [Lexeme.isClose] at hclose
  have hone := h.read_closed (by decide) (closed_cons hgrip : Closed _ (close :: rest))
  have hmore := h.read_closed (by decide) (closed_cons rfl : Closed _ (.comma :: rest))
  obtain ⟨l, tail, rfl, hl, -⟩ := h.starts
  have hne : l ≠ close := by rintro rfl; simp [hl] at hclose
  exact ⟨readArgs_last hne hone, readArgs_comma hne hcomma hmore⟩

theorem Held.not_quoted (h : Held .primary rest) (q : String) : rest.head? ≠ some (.quoted q) := by
  intro hq
  rcases h _ hq _ rfl with hlt | ⟨heq, -⟩
  · exact absurd hlt (by decide)
  · exact absurd heq (by decide)

/-! ## Cutting the text into lexemes -/

namespace Term

theorem clear_single {c : Char} (h : (c, l) ∈ singles) (rest : List Char) :
    ClearOfNumber (c :: rest) := by
  simp only [singles, List.mem_cons, Prod.mk.injEq, List.not_mem_nil, or_false] at h
  rcases h with ⟨rfl, rfl⟩ | ⟨rfl, rfl⟩ | ⟨rfl, rfl⟩ | ⟨rfl, rfl⟩ | ⟨rfl, rfl⟩ | ⟨rfl, rfl⟩ |
    ⟨rfl, rfl⟩ | ⟨rfl, rfl⟩ <;>
  exact clearOfNumber_cons rest (by decide) (by decide) (by decide)

namespace Spelled

variable {least : Level} {rest : List Char} {ls' : List Lexeme}

theorem cut_clear (h : t.Spelled least ls) (hclear : ClearOfNumber rest) (hls : lex rest = some ls') :
    lex ((t.print least).toList ++ rest) = some (ls ++ ls') :=
  h.cut rest ls' hclear.1 (fun hd => absurd hd hclear.2) hls

theorem cut_single (h : t.Spelled least ls) {c : Char} (hc : (c, l) ∈ singles)
    (hls : lex rest = some ls') :
    lex ((t.print least).toList ++ c :: rest) = some (ls ++ l :: ls') :=
  h.cut_clear (clear_single hc rest) (lex_single hc hls)

end Spelled

/-- Nothing has attributes that an operator can take apart. -/
theorem clearOfNumber_of_lt {rest : List Char} (hclear : Clear rest)
    (hlevel : level < .primary) {p : Prop} (hdot : rest.head? = some '.' → level = .primary ∧ p) :
    ClearOfNumber rest :=
  ⟨hclear, fun hd => Nat.ne_of_lt hlevel (hdot hd).1⟩

theorem lex_unary (op : UnaryOp) {rest : List Char} (hls : lex rest = some ls) :
    lex (op.symbol.toList ++ rest) = some (op.lexeme :: ls) := by
  cases op with
  | not =>
    have hblank : lex (' ' :: rest) = some ls := by rw [lex_blank, hls]
    exact lex_word (w := "not".toList) ⟨by decide, by decide⟩ (by decide)
      (clear_cons rest (by decide) (by decide)) hblank
  | _ => exact lex_single (by decide) hls

theorem lex_blanked {w rest : List Char} (hw : IsWord w)
    (hl : Lexeme.ofWord? (String.ofList w) = some l) (hls : lex rest = some ls) :
    lex (' ' :: (w ++ ' ' :: rest)) = some (l :: ls) := by
  rw [lex_blank]
  exact lex_word hw hl (clear_cons rest (by decide) (by decide)) (by rw [lex_blank, hls])

theorem clear_blank (rest : List Char) : ClearOfNumber (' ' :: rest) :=
  clearOfNumber_cons rest (by decide) (by decide) (by decide)

/-! ## All expressions -/

mutual

theorem exists_spelled : ∀ t : Term, t.Readable → ∃ ls, t.Spelled t.level ls
  | .atom text, h => by
    obtain ⟨l, ls, hclose, hl, hlex, hread⟩ := IsAtom.exists_lexemes h
    refine ⟨l :: ls, .of_none hclose hl ls, fun rest ls' hclear hdot hls => ?_,
      fun rest hrest => hread rest (Held.not_quoted hrest)⟩
    rw [print, wrap_self]
    exact hlex rest ls' hclear (fun hnum hd => (hdot hd).2 hnum) hls
  | .list items, h => by
    obtain ⟨ls, hcut, hback⟩ := exists_args items h
    refine ⟨.lBracket :: (ls ++ [.rBracket]), .of_none rfl (fun _ => rfl) _,
      fun rest ls' _ _ hls => ?_, fun rest _ => ?_⟩
    · have hclose : (']', Lexeme.rBracket) ∈ singles := by decide
      have hitems := hcut _ _ (clear_single hclose rest) (lex_single hclose hls)
      rw [print, wrap_self]
      simpa using lex_single (by decide) hitems
    · rw [List.cons_append, List.append_assoc, List.singleton_append]
      exact read_of_atom (readAtom_list (hback .rBracket rfl rest))
  | .attr object name, h => by
    obtain ⟨ls, hobject⟩ := exists_operand (exists_spelled object h.1) (Nat.le_refl Level.primary)
    refine ⟨ls ++ [.dot, .name name], hobject.starts.append _, fun rest ls' hclear _ hls => ?_,
      fun rest _ => ?_⟩
    · have hname := lex_ident h.2.2 hclear hls
      obtain ⟨c, cs, hcs, hc⟩ := h.2.2.1.exists_cons
      rw [hcs, List.cons_append] at hname
      have hcut := hobject.cut _ _ (clear_cons _ (by decide) (by decide)) (fun _ => ⟨rfl, h.2.1⟩)
        (lex_dot hc hname)
      rw [print, wrap_self]
      simpa [hcs] using hcut
    · rw [List.append_assoc]
      exact (hobject.back _ (held_primary_cons rfl)).trans (readRest_attr ..)
  | .unary op operand, h => by
    have hle : op.level ≤ .primary := Nat.le_of_lt op.level_lt_primary
    obtain ⟨ls, hoperand⟩ := exists_operand (exists_spelled operand h) hle
    refine ⟨op.lexeme :: ls, op.startsAt ls, fun rest ls' hclear hdot hls => ?_,
      fun rest hrest => ?_⟩
    · have hcut := hoperand.cut_clear (clearOfNumber_of_lt hclear op.level_lt_primary hdot) hls
      rw [print, wrap_self]
      simpa using lex_unary op hcut
    · have hclosed : Closed op.level rest := Held.closed_unary hrest
      exact (read_unary op (hoperand.read_closed hle hclosed)).trans
        (readRest_of_closed hle hclosed _).symm
  | .binary op left right, h => by
    obtain ⟨ls, hleft⟩ := exists_operand (exists_spelled left h.1)
      (by cases op <;> decide : op.leftLevel ≤ .primary)
    obtain ⟨rs, hright⟩ := exists_operand (exists_spelled right h.2)
      (by cases op <;> decide : op.rightLevel ≤ .primary)
    refine ⟨ls ++ .op op :: rs, (hleft.starts.mono op.level_le_leftLevel).append _,
      fun rest ls' hclear hdot hls => ?_, fun rest hrest => ?_⟩
    · have hcut := hright.cut_clear (clearOfNumber_of_lt hclear op.level_lt_primary hdot) hls
      rw [print, wrap_self]
      simpa using hleft.cut_clear (clear_blank _) (lex_operator op hcut)
    · rw [List.append_assoc]
      exact read_binary op hleft hright hrest
  | .conditional condition ifTrue ifFalse, h => by
    obtain ⟨ts, htrue⟩ := exists_operand (exists_spelled ifTrue h.2.1)
      (by decide : Level.or ≤ .primary)
    obtain ⟨cs, hcondition⟩ := exists_operand (exists_spelled condition h.1)
      (by decide : Level.or ≤ .primary)
    obtain ⟨fs, hfalse⟩ := exists_operand (exists_spelled ifFalse h.2.2)
      (by decide : Level.conditional ≤ .primary)
    refine ⟨ts ++ .ifWord :: (cs ++ .elseWord :: fs),
      (htrue.starts.mono (by decide : Level.conditional ≤ Level.or)).append _,
      fun rest ls' hclear hdot hls => ?_, fun rest hrest => ?_⟩
    · have hlast := hfalse.cut_clear
        (clearOfNumber_of_lt hclear (by decide : Level.conditional < Level.primary) hdot) hls
      have helse := lex_blanked (w := "else".toList) (l := .elseWord) ⟨by decide, by decide⟩
        (by decide) hlast
      have hif := lex_blanked (w := "if".toList) (l := .ifWord) ⟨by decide, by decide⟩
        (by decide) (hcondition.cut_clear (clear_blank _) helse)
      rw [print, wrap_self]
      simpa using htrue.cut_clear (clear_blank _) hif
    · simp only [List.append_assoc, List.cons_append]
      exact read_conditional htrue hcondition hfalse hrest
  | .paren inner, h => by
    obtain ⟨ls, hinner⟩ := exists_operand (exists_spelled inner h)
      (by decide : Level.lowest ≤ .primary)
    refine ⟨.lParen :: (ls ++ [.rParen]), .of_none rfl (fun _ => rfl) _,
      fun rest ls' _ _ hls => ?_, fun rest _ => ?_⟩
    · have hclose : (')', Lexeme.rParen) ∈ singles := by decide
      rw [print, wrap_self]
      simpa using lex_single (by decide) (hinner.cut_single hclose hls)
    · rw [List.cons_append, List.append_assoc, List.singleton_append]
      exact read_of_atom (readAtom_paren (hinner.read_closed (by decide) (closed_cons rfl)))
  | .index object position, h => by
    obtain ⟨ls, hobject⟩ := exists_operand (exists_spelled object h.1) (Nat.le_refl Level.primary)
    obtain ⟨ps, hposition⟩ := exists_operand (exists_spelled position h.2)
      (by decide : Level.lowest ≤ .primary)
    refine ⟨ls ++ .lBracket :: (ps ++ [.rBracket]), hobject.starts.append _,
      fun rest ls' _ _ hls => ?_, fun rest _ => ?_⟩
    · have hclose : (']', Lexeme.rBracket) ∈ singles := by decide
      have hopen : ('[', Lexeme.lBracket) ∈ singles := by decide
      rw [print, wrap_self]
      simpa using hobject.cut_single hopen (hposition.cut_single hclose hls)
    · simp only [List.append_assoc, List.cons_append, List.nil_append]
      exact (hobject.back _ (held_primary_cons rfl)).trans
        (readRest_index (hposition.read_closed (by decide) (closed_cons rfl)) _)
  | .call callee args, h => by
    obtain ⟨ls, hcallee⟩ := exists_operand (exists_spelled callee h.1) (Nat.le_refl Level.primary)
    obtain ⟨as, hcut, hback⟩ := exists_args args h.2
    refine ⟨ls ++ .lParen :: (as ++ [.rParen]), hcallee.starts.append _,
      fun rest ls' _ _ hls => ?_, fun rest _ => ?_⟩
    · have hclose : (')', Lexeme.rParen) ∈ singles := by decide
      have hopen : ('(', Lexeme.lParen) ∈ singles := by decide
      have hargs := hcut _ _ (clear_single hclose rest) (lex_single hclose hls)
      rw [print, wrap_self]
      simpa using hcallee.cut_single hopen hargs
    · simp only [List.append_assoc, List.cons_append, List.nil_append]
      exact (hcallee.back _ (held_primary_cons rfl)).trans (readRest_call (hback .rParen rfl rest) _)

theorem exists_args : ∀ ts : List Term, ReadableAll ts → ∃ ls,
    (∀ rest ls', ClearOfNumber rest → lex rest = some ls' →
      lex ((printArgs ts).toList ++ rest) = some (ls ++ ls')) ∧
    ∀ close : Lexeme, close.isClose = true → ∀ rest,
      readArgs close (ls ++ close :: rest) = some (plainAll ts, rest)
  | [], _ => ⟨[], fun rest ls' _ hls => by simpa [printArgs] using hls, fun close _ rest =>
      readArgs_close close rest⟩
  | [t], h => by
    obtain ⟨ls, ht⟩ := exists_operand (exists_spelled t h.1) (by decide : Level.conditional ≤ .primary)
    exact ⟨ls, fun rest ls' hclear hls => ht.cut_clear hclear hls, fun close hclose rest =>
      (readArgs_append hclose ht).1⟩
  | t :: next :: more, h => by
    obtain ⟨ls, ht⟩ := exists_operand (exists_spelled t h.1) (by decide : Level.conditional ≤ .primary)
    obtain ⟨ms, hcut, hback⟩ := exists_args (next :: more) h.2
    refine ⟨ls ++ .comma :: ms, fun rest ls' hclear hls => ?_, fun close hclose rest => ?_⟩
    · have hcomma : (',', Lexeme.comma) ∈ singles := by decide
      have hmore := hcut rest ls' hclear hls
      rw [← lex_blank] at hmore
      rw [printArgs]
      · simpa using ht.cut_single hcomma hmore
      · simp
    · rw [List.append_assoc, List.cons_append, (readArgs_append hclose ht).2,
        hback close hclose rest]
      rfl

end

theorem read_print (h : t.Readable) {least : Level} (hleast : least ≤ .primary) {rest : List Char}
    (hclear : Clear rest) (hdot : rest.head? = some '.' → least = .primary ∧ ¬ t.IsNumeral)
    (hls : lex rest = some ls) (hheld : Held least ls) :
    (lex ((t.print least).toList ++ rest)).bind (read least) = readRest least t.plain ls := by
  obtain ⟨ls', hspelled⟩ := exists_operand (exists_spelled t h) hleast
  rw [hspelled.cut rest ls hclear hdot hls, Option.bind_some]
  exact hspelled.back ls hheld

theorem readText_text (h : t.Readable) : readText t.text = some t.plain := by
  have hheld : Held .lowest [] := by simp [Held]
  have hread : (lex ((t.print .lowest).toList ++ [])).bind (read .lowest) =
      readRest .lowest t.plain [] :=
    read_print h (by decide) (by simp [Clear]) (by simp) lex_nil hheld
  rw [readRest_of_closed (by decide) (by simp [Closed]), List.append_nil] at hread
  obtain ⟨ls, hls, hread⟩ := Option.bind_eq_some_iff.1 hread
  simp [readText, text, hls, hread]

end Term

end Script

end Serpentine
