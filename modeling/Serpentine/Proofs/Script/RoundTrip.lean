import Serpentine.Proofs.Script.Literals
import Serpentine.Proofs.Script.Print

/-!
# Expressions of the source, written and read back

The script of an expression keeps its structure: what is written is read back as the expression, so
that parentheses stand wherever they are needed (**`Env.read_print_term`**).
-/

namespace Serpentine

/-- The operator of the script for an operator in front, unless it vanishes. -/
def UnaryOp.inScript? : UnaryOp → Option Script.UnaryOp
  | .neg => some .neg
  | .plus => some .plus
  | .not => some .not
  | .bitNot => some .invert
  | .deref | .addressOf => none

/-- The expression is a number, perhaps behind what vanishes in the script. -/
def Expr.isBareNumber : Expr → Bool
  | .literal .int _ | .literal .float _ => true
  | .unary .deref operand | .unary .addressOf operand | .cast .void operand => operand.isBareNumber
  | _ => false

namespace Lowering

open Script (Term IsWord IsIdent IsAtom IsNumber IsLiteral)

namespace Env

def boundName (env : Env) (ref : NameRef) : String :=
  match env.table.get? ref.id with
  | some r => r.name
  | none => ".".intercalate ((cutAtScope ref.raw.toList).map String.ofList)

/-- The name is made of words; that of an attribute of the object at hand is one word. -/
def IsName (env : Env) (ref : NameRef) : Prop :=
  (∀ part ∈ Script.pathParts (env.boundName ref), IsWord part.toList) ∧
    ∀ r ∈ env.table.get? ref.id, r.binding = .member → IsWord r.name.toList

mutual

/-- No assignments, and literals and names that are well formed. -/
def Writable (env : Env) : Expr → Prop
  | .literal kind text => IsLiteral kind text
  | .list items => env.WritableAll items
  | .name ref | .scoped ref => env.IsName ref
  | .primitive _ | .self => True
  | .member object name =>
    env.Writable object ∧ object.isBareNumber = false ∧ IsWord name.toList
  | .unary _ operand | .cast _ operand => env.Writable operand
  | .binary _ left right => env.Writable left ∧ env.Writable right
  | .conditional condition ifTrue ifFalse =>
    env.Writable condition ∧ env.Writable ifTrue ∧ env.Writable ifFalse
  | .parens inner => env.Writable inner
  | .index object position => env.Writable object ∧ env.Writable position
  | .call callee args => env.Writable callee ∧ env.WritableAll args
  | .new type args => env.Writable type ∧ env.WritableAll args
  | .assign .. | .step .. | .sizeof _ => False

def WritableAll (env : Env) : List Expr → Prop
  | [] => True
  | e :: rest => env.Writable e ∧ env.WritableAll rest

end

mutual

/-- The structure of an expression that has no assignment in it. -/
def outline (env : Env) : Expr → Term
  | .literal kind text => .atom (literalText kind text)
  | .list items => .list (env.outlines items)
  | .name ref | .scoped ref => .ofAtom (env.nameText ref)
  | .primitive type => .atom (typeText type)
  | .self => .self
  | .member object name => .attr (env.outline object) (Script.identifier name)
  | .unary op operand =>
    match op.inScript? with
    | some op => .unary op (env.outline operand)
    | none => env.outline operand
  | .binary op left right => .binary op (env.outline left) (env.outline right)
  | .conditional condition ifTrue ifFalse =>
    .conditional (env.outline condition) (env.outline ifTrue) (env.outline ifFalse)
  | .parens inner => env.outline inner
  | .index object position => .index (env.outline object) (env.outline position)
  | .cast type operand =>
    if type = .void then env.outline operand
    else .call (.atom (castText type)) [env.outline operand]
  | .call callee args =>
    .call (env.outline callee) <|
      if env.isUnboundMethod callee then .self :: env.outlines args else env.outlines args
  | .new type args => .call (env.outline type) (env.outlines args)
  | .assign .. | .step .. | .sizeof _ => .none

def outlines (env : Env) : List Expr → List Term
  | [] => []
  | e :: rest => env.outline e :: env.outlines rest

end

/-! ## Names -/

theorem isIdent_identifier {name : String} (h : IsWord name.toList) :
    IsIdent (Script.identifier name) := by
  rw [Script.identifier]
  split
  · next hreserved =>
    have hmem : name ∈ Script.reserved := by simpa using hreserved
    have hall : ∀ word ∈ Script.reserved, word ++ "_" ∉ Script.reserved := by decide
    refine ⟨?_, hall name hmem⟩
    obtain ⟨c, cs, hcs, hc⟩ := h.exists_cons
    have hchars := h.2
    rw [hcs] at hchars
    have htext : (name ++ "_").toList = c :: (cs ++ ['_']) := by simp [hcs]
    rw [htext]
    refine ⟨by simpa using hc, ?_⟩
    simpa [show isNameChar '_' = true by decide] using hchars
  · next hreserved => exact ⟨h, by simpa using hreserved⟩

/-- The text is a dotted name of identifiers. -/
def IsPath (text : String) : Prop :=
  ∃ parts, parts ≠ [] ∧ (∀ part ∈ parts, IsIdent part) ∧ text = ".".intercalate parts

variable {text : String}

theorem IsPath.isAtom (h : IsPath text) : IsAtom text := by
  obtain ⟨parts, hne, hparts, rfl⟩ := h
  exact .path hne hparts

theorem IsPath.head (h : IsPath text) :
    ∃ c rest, text.toList = c :: rest ∧ isNameStart c = true := by
  obtain ⟨parts, hne, hparts, rfl⟩ := h
  cases parts with
  | nil => exact absurd rfl hne
  | cons first more =>
    obtain ⟨c, cs, hcs, hc⟩ := (hparts first List.mem_cons_self).1.exists_cons
    cases more with
    | nil => exact ⟨c, cs, by simp [hcs], hc⟩
    | cons second more => exact ⟨c, _, by simp [String.intercalate_cons_cons, hcs]; rfl, hc⟩

theorem IsPath.not_isNumber (h : IsPath text) : ¬ IsNumber text.toList := by
  obtain ⟨c, rest, hcons, hc⟩ := h.head
  rw [hcons]
  exact Script.not_isNumber_cons hc rest

theorem isPath_dotted {path : String} (h : ∀ part ∈ Script.pathParts path, IsWord part.toList) :
    IsPath (Script.dotted path) := by
  refine ⟨_, by simpa using Script.pathParts_ne_nil path, fun part hpart => ?_, rfl⟩
  obtain ⟨word, hword, rfl⟩ := List.mem_map.1 hpart
  exact isIdent_identifier (h word hword)

theorem isPath_nameText {env : Env} {ref : NameRef} (h : env.IsName ref) :
    IsPath (env.nameText ref) := by
  obtain ⟨hparts, hmember⟩ := h
  rw [nameText]
  rw [boundName] at hparts
  cases hget : env.table.get? ref.id with
  | none =>
    rw [hget] at hparts
    exact isPath_dotted hparts
  | some r =>
    rw [hget] at hparts
    by_cases hb : r.binding = .member
    · refine ⟨["self", Script.identifier r.name], by simp, ?_, by
        simp [hb, String.intercalate_cons_cons]⟩
      simp only [List.mem_cons, List.not_mem_nil, or_false, forall_eq_or_imp, forall_eq]
      exact ⟨⟨⟨by decide, by decide⟩, by decide⟩, isIdent_identifier (hmember r hget hb)⟩
    · simpa [hb] using isPath_dotted hparts

/-! ## Lowering -/

theorem isPath_of_isIdent (h : IsIdent text) : IsPath text :=
  ⟨[text], by simp, by simpa using h, by simp⟩

theorem isAtom_typeText (type : Primitive) : IsAtom (typeText type) := by
  cases type with
  | void => exact .constant (.inl rfl)
  | _ => exact (isPath_of_isIdent ⟨⟨by decide, by decide⟩, by decide⟩).isAtom

theorem not_isNumber_typeText (type : Primitive) : ¬ IsNumber (typeText type).toList := by
  cases type <;> exact Script.not_isNumber_cons rfl _

theorem isPath_castText {type : Primitive} (h : type ≠ .void) : IsPath (castText type) := by
  cases type with
  | void => exact absurd rfl h
  | _ => exact isPath_of_isIdent ⟨⟨by decide, by decide⟩, by decide⟩

theorem isPath_self : IsPath "self" :=
  isPath_of_isIdent ⟨⟨by decide, by decide⟩, by decide⟩

theorem withSelf_eq {args : List Term} (h : Term.ReadableAll args) :
    withSelf args = .self :: args := by
  rw [withSelf]
  split
  · next hempty =>
    have hnil : Term.printArgs args = "" := by simpa using hempty
    obtain ⟨ls, hcut, hback⟩ := Term.exists_args args h
    have hlex := hcut [] [] ⟨by simp [Script.Clear], by simp⟩ Script.lex_nil
    rw [hnil] at hlex
    obtain rfl : ls = [] := by simpa using hlex.symm.trans Script.lex_nil
    have hargs := (Script.readArgs_close .rParen []).symm.trans (hback .rParen rfl [])
    cases args with
    | nil => rfl
    | cons t more => simp [Term.plainAll] at hargs
  · rfl

/-- Lowering ends in an expression of the script that has the structure of the source. -/
def Lowers (env : Env) (e : Expr) : Prop :=
  ∃ t, env.term e = .ok t ∧ t.Readable ∧ t.plain = env.outline e ∧
    (t.IsNumeral → e.isBareNumber = true)

mutual

/-- **Lowering keeps the structure** of an expression. -/
theorem lowers (env : Env) : ∀ e : Expr, env.Writable e → env.Lowers e
  | .literal kind text, h => by
    obtain ⟨hatom, hof⟩ := Script.isAtom_literalText h
    refine ⟨_, rfl, hatom, hof, fun hnum => ?_⟩
    rcases Script.isNumber_literalText h hnum with rfl | rfl <;> rfl
  | .list items, h => by
    obtain ⟨ts, hts, hread, hplain⟩ := lowers_all env items h
    refine ⟨.list ts, by rw [term, hts]; rfl, hread, ?_, False.elim⟩
    rw [Term.plain, hplain, outline]
  | .name _, h | .scoped _, h => by
    have hpath := isPath_nameText h
    exact ⟨_, rfl, hpath.isAtom, rfl, fun hnum => absurd hnum hpath.not_isNumber⟩
  | .primitive type, _ => by
    refine ⟨.atom (typeText type), by rw [term]; rfl, isAtom_typeText type, ?_, fun hnum => ?_⟩
    · rw [outline]
      cases type <;> rfl
    · exact absurd hnum (not_isNumber_typeText type)
  | .self, _ => by
    refine ⟨.self, by rw [term]; rfl, isPath_self.isAtom, ?_, fun hnum => ?_⟩
    · rw [outline]
      rfl
    · exact absurd hnum isPath_self.not_isNumber
  | .member object name, h => by
    obtain ⟨t, ht, hread, hplain, hnum⟩ := lowers env object h.1
    refine ⟨.attr t (Script.identifier name), by rw [term, ht]; rfl, ⟨hread, fun hn => ?_, ?_⟩,
      ?_, False.elim⟩
    · exact absurd (hnum hn) (by simp [h.2.1])
    · exact isIdent_identifier h.2.2
    · rw [Term.plain, hplain, outline]
  | .unary op operand, h => by
    obtain ⟨t, ht, hread, hplain, hnum⟩ := lowers env operand h
    rw [Lowers, term, ht, outline, ← hplain]
    cases op with
    | deref | addressOf => exact ⟨t, rfl, hread, rfl, hnum⟩
    | not | neg | plus | bitNot => exact ⟨.unary _ t, rfl, hread, rfl, False.elim⟩
  | .binary op left right, h => by
    obtain ⟨l, hl, hreadl, hplainl, -⟩ := lowers env left h.1
    obtain ⟨r, hr, hreadr, hplainr, -⟩ := lowers env right h.2
    refine ⟨.binary op l r, by rw [term, hl, hr]; rfl, ⟨hreadl, hreadr⟩, ?_, False.elim⟩
    rw [Term.plain, hplainl, hplainr, outline]
  | .conditional condition ifTrue ifFalse, h => by
    obtain ⟨c, hc, hreadc, hplainc, -⟩ := lowers env condition h.1
    obtain ⟨yes, hy, hready, hplainy, -⟩ := lowers env ifTrue h.2.1
    obtain ⟨no, hn, hreadn, hplainn, -⟩ := lowers env ifFalse h.2.2
    refine ⟨.conditional c yes no, by rw [term, hc, hy, hn]; rfl, ⟨hreadc, hready, hreadn⟩, ?_,
      False.elim⟩
    rw [Term.plain, hplainc, hplainy, hplainn, outline]
  | .parens inner, h => by
    obtain ⟨t, ht, hread, hplain, -⟩ := lowers env inner h
    refine ⟨.paren t, by rw [term, ht]; rfl, hread, ?_, False.elim⟩
    rw [Term.plain, hplain, outline]
  | .index object position, h => by
    obtain ⟨o, ho, hreado, hplaino, -⟩ := lowers env object h.1
    obtain ⟨p, hp, hreadp, hplainp, -⟩ := lowers env position h.2
    refine ⟨.index o p, by rw [term, ho, hp]; rfl, ⟨hreado, hreadp⟩, ?_, False.elim⟩
    rw [Term.plain, hplaino, hplainp, outline]
  | .cast type operand, h => by
    obtain ⟨t, ht, hread, hplain, hnum⟩ := lowers env operand h
    by_cases hvoid : type = .void
    · subst hvoid
      exact ⟨t, by rw [term, ht]; rfl, hread, by rw [hplain, outline, if_pos rfl], hnum⟩
    · refine ⟨.call (.atom (castText type)) [t], ?_,
        ⟨(isPath_castText hvoid).isAtom, hread, trivial⟩, ?_, False.elim⟩
      · rw [term, ht]
        simp [pure, Except.pure, bind, Except.bind, hvoid]
      · rw [outline, if_neg hvoid, ← hplain]
        cases type <;> first | exact absurd rfl hvoid | rfl
  | .call callee args, h => by
    obtain ⟨f, hf, hread, hplain, -⟩ := lowers env callee h.1
    obtain ⟨ts, hts, hreads, hplains⟩ := lowers_all env args h.2
    refine ⟨.call f (if env.isUnboundMethod callee then withSelf ts else ts),
      by rw [term, hf, hts]; rfl, ⟨hread, ?_⟩, ?_, False.elim⟩
    · split
      · rw [withSelf_eq hreads]
        exact ⟨isPath_self.isAtom, hreads⟩
      · exact hreads
    · rw [Term.plain, hplain, outline]
      split
      · rw [withSelf_eq hreads, Term.plainAll, hplains]
        rfl
      · rw [hplains]
  | .new type args, h => by
    obtain ⟨t, ht, hread, hplain, -⟩ := lowers env type h.1
    obtain ⟨ts, hts, hreads, hplains⟩ := lowers_all env args h.2
    refine ⟨.call t ts, by rw [term, ht, hts]; rfl, ⟨hread, hreads⟩, ?_, False.elim⟩
    rw [Term.plain, hplain, hplains, outline]

theorem lowers_all (env : Env) : ∀ es : List Expr, env.WritableAll es →
    ∃ ts, env.terms es = .ok ts ∧ Term.ReadableAll ts ∧ Term.plainAll ts = env.outlines es
  | [], _ => ⟨[], rfl, trivial, rfl⟩
  | e :: rest, h => by
    obtain ⟨t, ht, hread, hplain, -⟩ := lowers env e h.1
    obtain ⟨ts, hts, hreads, hplains⟩ := lowers_all env rest h.2
    refine ⟨t :: ts, by rw [terms, ht, hts]; rfl, ⟨hread, hreads⟩, ?_⟩
    rw [Term.plainAll, hplain, hplains, outlines]

end

/-! ## Reading back -/

/-- **What is written is read back**: the text of an expression is read as its structure. As an
operand where a level is needed, it is read as one, and what stands behind it goes on from there; it
is all that is read if nothing goes on. -/
theorem read_print_term (env : Env) {e : Expr} (h : env.Writable e) :
    ∃ t, env.term e = .ok t ∧ Script.readText (t.print .lowest) = some (env.outline e) ∧
      ∀ least ≤ Script.Level.primary, ∀ rest ls, Script.Clear rest →
        (rest.head? = some '.' → least = .primary ∧ e.isBareNumber = false) →
        Script.lex rest = some ls → Script.Held least ls →
          (Script.lex ((t.print least).toList ++ rest)).bind (Script.read least) =
              Script.readRest least (env.outline e) ls ∧
            (Script.Closed least ls →
              (Script.lex ((t.print least).toList ++ rest)).bind (Script.read least) =
                some (env.outline e, ls)) := by
  obtain ⟨t, ht, hread, hplain, hnum⟩ := env.lowers e h
  refine ⟨t, ht, ?_, ?_⟩
  · rw [← hplain]
    exact Term.readText_text hread
  · intro least hleast rest ls hclear hdot hls hheld
    have hdot' : rest.head? = some '.' → least = .primary ∧ ¬ t.IsNumeral := by
      intro hd
      refine ⟨(hdot hd).1, fun hn => ?_⟩
      exact absurd (hnum hn) (by simp [(hdot hd).2])
    have hoperand := Term.read_print hread hleast hclear hdot' hls hheld
    rw [hplain] at hoperand
    refine ⟨hoperand, fun hclosed => ?_⟩
    rw [hoperand, Script.readRest_of_closed hleast hclosed]

/-- An environment in which the use `0` of a name is the method `f` of `A`, named with its class. -/
def methodEnv : Env :=
  ⟨[(0, ⟨"A.f", "", .unboundMethod⟩)], ⟨"", 0, none⟩⟩

/-- `A::f` in that environment. -/
def methodName : Expr :=
  .scoped ⟨0, "A::f", 0, ⟨"", 0, none⟩⟩

theorem isName_method : methodEnv.IsName ⟨0, "A::f", 0, ⟨"", 0, none⟩⟩ := by
  refine ⟨?_, ?_⟩
  · show ∀ part ∈ ["A", "f"], IsWord part.toList
    simp only [List.mem_cons, List.not_mem_nil, or_false, forall_eq_or_imp, forall_eq]
    exact ⟨⟨by decide, by decide⟩, by decide, by decide⟩
  · intro r hr hb
    obtain rfl : (⟨"A.f", "", .unboundMethod⟩ : Resolution) = r := by
      simpa [methodEnv, Resolutions.get?] using hr
    exact absurd hb (by decide)

theorem isInt_one : Script.IsInt "1" :=
  ⟨['1'], [], rfl, .decimal (.one (by decide)) (by decide), rfl⟩

theorem isInt_hex : Script.IsInt "0x1'Fu" :=
  ⟨['0', 'x', '1', '\'', 'F'], ['u'], rfl,
    .radix (r := .hex) rfl (by decide) (.sep (by decide) (.one (by decide))), rfl⟩

/-- `(A::f(1) - (0x1'Fu == 1)) - -1`, with the outer parentheses kept and the inner ones not. -/
def methodSum : Expr :=
  .binary .sub
    (.parens (.binary .sub (.call methodName [.literal .int "1"])
      (.binary .eq (.literal .int "0x1'Fu") (.literal .int "1"))))
    (.unary .neg (.literal .int "1"))

theorem read_print_term_methodSum :
    methodEnv.Writable methodSum ∧ ∃ t, methodEnv.term methodSum = .ok t ∧
      t.print .lowest = "(A.f(self, 1) - (0x1_F == 1)) - -1" ∧
      Script.readText (t.print .lowest) = some (methodEnv.outline methodSum) := by
  have hwritable : methodEnv.Writable methodSum :=
    ⟨⟨⟨isName_method, isInt_one, trivial⟩, isInt_hex, isInt_one⟩, isInt_one⟩
  obtain ⟨t, ht, htext, -⟩ := read_print_term methodEnv hwritable
  obtain rfl := Except.ok.inj ((rfl : methodEnv.term methodSum = .ok _).symm.trans ht)
  exact ⟨hwritable, _, rfl, by decide, htext⟩

/-- The call `A::f(1)` is not read back with the one argument that it has in the source: it is
written with the object at hand in front. -/
theorem readText_method_call :
    ∃ t, methodEnv.term (.call methodName [.literal .int "1"]) = .ok t ∧
      t.print .lowest = "A.f(self, 1)" ∧
      Script.readText (t.print .lowest) ≠ some (.call (.attr (.atom "A") "f") [.atom "1"]) := by
  have hwritable : methodEnv.Writable (.call methodName [.literal .int "1"]) :=
    ⟨isName_method, isInt_one, trivial⟩
  obtain ⟨t, ht, hread, hplain, -⟩ := methodEnv.lowers _ hwritable
  have hterm : methodEnv.term (.call methodName [.literal .int "1"]) =
      .ok (.call (.atom "A.f") [.self, .atom "1"]) := by
    rfl
  obtain rfl := Except.ok.inj (ht.symm.trans hterm)
  refine ⟨_, ht, by decide, ?_⟩
  rw [show Term.print .lowest _ = Term.text _ from rfl, Term.readText_text hread]
  simp [Term.plain, Term.plainAll]

end Env

end Lowering

end Serpentine
