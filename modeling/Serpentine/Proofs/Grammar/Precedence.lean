import Serpentine.Proofs.Grammar.Phrase
import Serpentine.Proofs.Grammar.Remaining
import Serpentine.Proofs.Grammar.Wording
import Serpentine.Proofs.Reference.Uses
import Serpentine.Proofs.TypeName

/-!
# Precedence

Expressions are read as the levels of their operators group them (**`Phrase.run_expr`**).
-/

namespace Serpentine

theorem Store.namesType_nextRef (s : Store) (next : RefId) (scope : DeclId)
    (segments : List String) :
    ({ s with nextRef := next } : Store).namesType scope segments = s.namesType scope segments := by
  have hlookup : ({ s with nextRef := next } : Store).lookupQualified scope segments =
      s.lookupQualified scope segments := by
    rw [← lookupQualified_outline, ← s.lookupQualified_outline]
    rfl
  unfold namesType
  rw [hlookup]
  rfl

namespace Grammar

/-! ## Reading from a place -/

def State.token (s : State) (n : Nat) : Token :=
  s.stream.tokenAt (s.stream.cursor + n)

/-- A later state, so many tokens and uses of names further. Nothing else has changed. -/
structure State.At (s : State) (n k : Nat) (t : State) : Prop where
  tokens : t.stream.tokenAt = s.stream.tokenAt
  cursor : t.stream.cursor = s.stream.cursor + n
  size : t.stream.size = s.stream.size
  rest : { t with stream := s.stream } =
    { s with store := { s.store with nextRef := s.store.nextRef + k } }

/-- A parse gets from a place behind a state to another one. -/
def Parse.Reads {e : Effect} {α : Type} (p : Parse e α) (s : State) (n k : Nat) (a : α)
    (n' k' : Nat) : Prop :=
  ∀ t, s.At n k t → ∃ u, p.run t = .ok a u ∧ s.At n' k' u

section Reading

variable {e : Effect} {α β : Type} {s t : State} {n k n' k' n'' k'' : Nat} {a : α} {b : β}
  {p : Parse e α} {next : α → Parse e β}

theorem State.At.refl (s : State) : s.At 0 0 s :=
  ⟨rfl, rfl, rfl, rfl⟩

theorem State.At.withStream (h : s.At n k t) {stream : Stream}
    (htokens : stream.tokenAt = t.stream.tokenAt) (hcursor : stream.cursor = s.stream.cursor + n')
    (hsize : stream.size = t.stream.size) : s.At n' k { t with stream } :=
  ⟨htokens.trans h.tokens, hcursor, hsize.trans h.size, h.rest⟩

theorem reads_bind (hp : p.Reads s n k a n' k') (h : (next a).Reads s n' k' b n'' k'') :
    (p >>= next).Reads s n k b n'' k'' := by
  intro t ht
  obtain ⟨u, hrun, hu⟩ := hp t ht
  obtain ⟨v, hnext, hv⟩ := h u hu
  refine ⟨v, ?_, hv⟩
  rw [Parse.run_bind, hrun]
  exact hnext

theorem reads_pure (a : α) : (pure a : Parse e α).Reads s n k a n k :=
  fun t ht => ⟨t, rfl, ht⟩

theorem reads_peekAt (i : Nat) : (peekAt i : Parse e Token).Reads s n k (s.token (n + i)) n k := by
  intro t ht
  obtain ⟨htoken, hpulled, -⟩ := t.stream.peekAt_eq i
  refine ⟨{ t with stream := (t.stream.peekAt i).2 }, ?_, ht.withStream hpulled.tokenAt
    (hpulled.cursor.trans ht.cursor) (t.stream.size_peekAt i)⟩
  rw [State.token, ← ht.tokens, ← Nat.add_assoc, ← ht.cursor, ← htoken]
  rfl

theorem reads_kindAt (i : Nat) :
    (kindAt i : Parse e Kind).Reads s n k (s.token (n + i)).kind n k :=
  reads_bind (reads_peekAt i) (reads_pure _)

theorem reads_kind {c : Kind} (h : (s.token n).kind = c) : (kind : Parse e Kind).Reads s n k c n k :=
  h ▸ reads_kindAt 0

theorem reads_checkAt (i : Nat) (c : Kind) :
    (checkAt i c : Parse e Bool).Reads s n k ((s.token (n + i)).kind == c) n k :=
  reads_bind (reads_kindAt i) (reads_pure _)

theorem reads_checkAt_ne {i : Nat} {c : Kind} (h : (s.token (n + i)).kind ≠ c) :
    (checkAt i c : Parse e Bool).Reads s n k false n k :=
  beq_eq_false_iff_ne.2 h ▸ reads_checkAt i c

theorem reads_advance (h : (s.token n).kind ≠ .eof) :
    (advance : Parse e Token).Reads s n k (s.token n) (n + 1) k := by
  intro t ht
  have htoken : t.stream.tokenAt t.stream.cursor = s.token n := by
    rw [ht.tokens, ht.cursor, State.token]
  have hend : (s.token n).isEnd = false := beq_eq_false_iff_ne.2 h
  have hcursor := t.stream.cursor_advance
  rw [htoken, hend, if_neg (by decide), ht.cursor] at hcursor
  refine ⟨{ t with stream := t.stream.advance.2 }, ?_,
    ht.withStream t.stream.tokenAt_advance hcursor t.stream.size_advance⟩
  have hanswer : t.stream.advance.1 = s.token n := (t.stream.peekAt_eq 0).1.trans htoken
  rw [← hanswer]
  rfl

theorem reads_skip (h : (s.token n).kind ≠ .eof) :
    (skip : Parse e Unit).Reads s n k () (n + 1) k :=
  reads_bind (reads_advance h) (reads_pure ())

theorem reads_expect {c : Kind} {what : String} (h : (s.token n).kind = c) (hc : c ≠ .eof) :
    (expect c what : Parse e Token).Reads s n k (s.token n) (n + 1) k := by
  refine reads_bind (reads_checkAt 0 c) ?_
  rw [Nat.add_zero, h, beq_self_eq_true, if_pos rfl]
  exact reads_advance (h ▸ hc)

theorem reads_require {c : Kind} {what : String} (h : (s.token n).kind = c) (hc : c ≠ .eof) :
    (require c what : Parse e Unit).Reads s n k () (n + 1) k :=
  reads_bind (reads_expect h hc) (reads_pure ())

theorem reads_eat_false {c : Kind} (h : (s.token n).kind ≠ c) :
    (eat c : Parse e Bool).Reads s n k false n k :=
  reads_bind (reads_checkAt_ne h) (reads_pure false)

theorem reads_read : (read : Parse e State).Reads s n k
    { s.withoutTokens with store := { s.store with nextRef := s.store.nextRef + k } } n k := by
  intro t ht
  refine ⟨t, ?_, ht⟩
  have hrest := congrArg State.withoutTokens ht.rest
  show Outcome.ok t.withoutTokens t = _
  rw [show t.withoutTokens = ({ t with stream := s.stream } : State).withoutTokens by
    rw [State.withoutTokens, State.withoutTokens, ht.size], hrest]
  rfl

theorem reads_here :
    (here : Parse e Position).Reads s n k ((s.token n).spot.within s.file) n k :=
  reads_bind (reads_peekAt 0) (reads_bind reads_read (reads_pure _))

theorem reads_isTypeName (segments : List String) :
    (isTypeName segments : Parse e Bool).Reads s n k (s.isTypeName segments) n k := by
  have htype : ({ s.withoutTokens with
      store := { s.store with nextRef := s.store.nextRef + k } } : State).isTypeName segments =
      s.isTypeName segments := by
    unfold State.isTypeName
    simp only [Store.namesType_nextRef, State.withoutTokens]
  rw [← htype]
  exact reads_bind reads_read (reads_pure _)

theorem reads_isTemplateName (segments : List String) :
    (isTemplateName segments : Parse e Bool).Reads s n k (s.isTemplateName segments) n k :=
  reads_bind reads_read (reads_pure _)

theorem reads_and_false {p q : Parse e Bool} (hp : p.Reads s n k false n k) :
    (p <&&> q).Reads s n k false n k :=
  reads_bind hp (reads_pure false)

theorem reads_and {p q : Parse e Bool} {b : Bool} (hp : p.Reads s n k b n k)
    (hq : q.Reads s n k false n k) : (p <&&> q).Reads s n k false n k := by
  cases b with
  | false => exact reads_and_false hp
  | true => exact reads_bind hp hq

theorem reads_or {p q : Parse e Bool} {b : Bool} (hp : p.Reads s n k false n k)
    (hq : q.Reads s n k b n k) : (p <||> q).Reads s n k b n k :=
  reads_bind hp hq

theorem reads_nameRef (raw : String) (place : Position) : (nameRef raw place : Parse e NameRef).Reads
    s n k ⟨s.store.nextRef + k, raw, s.context, place⟩ n (k + 1) := by
  intro t ht
  have hstore : t.store = { s.store with nextRef := s.store.nextRef + k } :=
    congrArg State.store ht.rest
  have hcontext := congrArg State.context ht.rest
  dsimp only at hcontext
  refine ⟨{ t with store := t.store.freshRef.2 }, ?_, ht.tokens, ht.cursor, ht.size, ?_⟩
  · show Outcome.ok (⟨t.store.nextRef, raw, t.context, place⟩ : NameRef) _ = _
    rw [hstore, hcontext]
  · have hrest := congrArg (fun u : State => { u with store := u.store.freshRef.2 }) ht.rest
    exact hrest

variable {step : β → Parse e (β ⊕ α)}

theorem reads_loop {init : β}
    (h : (loopWithin (s.stream.size + 2) step init).Reads s n k a n' k') :
    (loop init step).Reads s n k a n' k' :=
  reads_bind reads_read h

theorem reads_last {m : Nat}
    (h : (step b).Reads s n k (.inr a) n' k') :
    (loopWithin (m + 1) step b).Reads s n k a n' k' :=
  reads_bind h (reads_pure a)

theorem reads_round {m : Nat} {c : β}
    (h : (step b).Reads s n k (.inl c) n' k')
    (hrest : (loopWithin m step c).Reads s n' k' a n'' k'') :
    (loopWithin (m + 1) step b).Reads s n k a n'' k'' :=
  reads_bind h hrest

end Reading

/-! ## Operands -/

/-- The name stands for a value: it is no type, template or null pointer. -/
structure State.IsValue (s : State) (name : String) : Prop where
  type : s.isTypeName [name] = false
  template : s.isTemplateName [name] = false
  null : name ≠ "NULL"

/-- The token ends an operand: it neither calls, indexes or steps it nor takes a member of it. -/
def endsOperand (c : Kind) : Bool :=
  !([Kind.lParen, .lBracket, .dot, .arrow, .plusPlus, .minusMinus, .dotStar, .arrowStar,
    .colonColon].contains c)

/-- The use of a name that is written at a place. -/
def State.useAt (s : State) (n k : Nat) (name : String) : NameRef :=
  ⟨s.store.nextRef + k, name, s.context, (s.token n).spot.within s.file⟩

theorem ne_colonColon_of_endsOperand {c : Kind} (h : endsOperand c) : c ≠ .colonColon := by
  rintro rfl
  exact absurd h (by decide)

section Operands

variable {s : State} {n k : Nat} {name : String} {rules : Rules}

theorem State.IsValue.alias (h : s.IsValue name) : s.names.aliases.lookup name = none := by
  have htype := h.type
  unfold State.isTypeName at htype
  cases halias : s.names.aliases.lookup name with
  | none => rfl
  | some type => simp [halias] at htype

theorem State.IsValue.reads_hasArgs (h : s.IsValue name) :
    (pure (decide (1 < [name].length)) <||> Grammar.isTemplateName [name] <||>
      Grammar.isTypeName [name] : Parse .look Bool).Reads s n k false n k := by
  refine reads_or (reads_pure false) (reads_or ?_ ?_)
  · exact h.template ▸ reads_isTemplateName [name]
  · exact h.type ▸ reads_isTypeName [name]

theorem reads_scopedName {behind : List String → Parse .look Unit}
    (hkind : (s.token n).kind = .identifier) (hname : (s.token n).lexeme = name)
    (hbehind : (behind [name]).Reads s (n + 1) k () (n + 1) k)
    (hnext : (s.token (n + 1)).kind ≠ .colonColon) :
    (scopedName behind).Reads s n k [name] (n + 1) k := by
  have hidentifier : (identifier : Parse .look String).Reads s n k name (n + 1) k :=
    hname ▸ reads_bind (reads_expect hkind (by decide)) (reads_pure _)
  have hcolon : (check .colonColon <&&> checkAt 1 .identifier : Parse .look Bool).Reads s (n + 1) k
      false (n + 1) k :=
    reads_and_false (reads_checkAt_ne hnext)
  refine reads_bind (reads_eat_false (by rw [hkind]; decide)) (reads_loop (reads_last ?_))
  exact reads_bind hidentifier (reads_bind hbehind (reads_bind hcolon (reads_pure _)))

theorem isScoped_of_isName (h : IsName name) : TypeName.isScoped name = false := by
  rw [TypeName.isScoped, TypeName.cutAtScope_word (List.all_eq_true.1 h.word.2)]
  rfl

/-- What can be in front of a token that is neither a name nor part of a type. -/
def operandKinds : List Kind :=
  [.intLiteral, .lParen, .minus, .plus, .bang, .tilde, .star, .amp]

/-- A value, or another operand than a name, starts at a place. -/
def State.StartsOperand (s : State) (n : Nat) : Prop :=
  (s.token n).kind ∈ operandKinds ∨ ((s.token n).kind = .identifier ∧
    s.IsValue (s.token n).lexeme ∧ endsOperand (s.token (n + 1)).kind)

theorem State.StartsOperand.kind_mem (h : s.StartsOperand n) :
    (s.token n).kind ∈ Kind.identifier :: operandKinds := by
  rcases h with hmem | ⟨hkind, -⟩
  · exact List.mem_cons_of_mem _ hmem
  · exact hkind ▸ List.mem_cons_self

theorem State.StartsOperand.ne (h : s.StartsOperand n) {c : Kind}
    (hc : c ∉ Kind.identifier :: operandKinds) : (s.token n).kind ≠ c :=
  fun heq => hc (heq ▸ h.kind_mem)

theorem State.StartsOperand.scanName (h : s.StartsOperand (n + 1)) :
    ∃ name? : Option (String × Nat), (∀ p ∈ name?, s.IsValue p.1) ∧
      (scanName 1).Reads s n k (name?.map fun p => ([p.1], p.2)) n k := by
  have hstart : (s.token (n + 1)).kind ≠ .colonColon := h.ne (by decide)
  rcases h with hmem | ⟨hkind, hvalue, hnext⟩
  · refine ⟨none, by rintro _ ⟨⟩, reads_bind (reads_checkAt_ne hstart) (reads_loop (reads_last ?_))⟩
    have hne : ((s.token (n + 1)).kind != .identifier) = true := by
      rw [bne_iff_ne]
      intro heq
      exact absurd hmem (by rw [heq]; decide)
    refine reads_bind (reads_peekAt 1) ?_
    rw [if_pos hne]
    exact reads_pure _
  · have hscope := ne_colonColon_of_endsOperand hnext
    refine ⟨some ((s.token (n + 1)).lexeme, 2), fun p hp => Option.mem_some.1 hp ▸ hvalue,
      reads_bind (reads_checkAt_ne hstart) (reads_loop (reads_last ?_))⟩
    refine reads_bind (reads_peekAt 1) ?_
    rw [hkind, if_neg (by decide)]
    exact reads_bind (reads_bind (reads_and (reads_checkAt 2 .lt) hvalue.reads_hasArgs)
      (reads_pure (some 2))) (reads_bind (reads_and_false (reads_checkAt_ne hscope)) (reads_pure _))

theorem reads_castAhead (h : s.StartsOperand (n + 1)) : castAhead.Reads s n k false n k := by
  have hplain : ∀ c ∈ Kind.identifier :: operandKinds, (c.isPrimitive || [Kind.kwConst, .kwVolatile,
      .kwTypename, .kwStruct, .kwClass, .kwUnion, .kwEnum].contains c) = false := by decide
  obtain ⟨name?, hvalue, hscan⟩ := h.scanName (k := k)
  refine reads_bind (reads_kindAt 1) ?_
  rw [hplain _ h.kind_mem, if_neg (by decide)]
  refine reads_bind hscan ?_
  cases name? with
  | none => exact reads_pure false
  | some found =>
    have htype : (isTypeName [found.1] : Parse .look Bool).Reads s n k false n k :=
      (hvalue found rfl).type ▸ reads_isTypeName [found.1]
    exact reads_bind htype (reads_pure false)

theorem Setting.run_of_ok {e : Effect} {α : Type} {setting : Setting e} {p : State → Outcome α}
    {t u : State} {a : α} (h : p (setting.enter t) = .ok a u) :
    setting.run p t = .ok a (setting.leave t u) := by
  rw [Setting.run, h]

theorem reads_withTemplateArgs {e : Effect} {α : Type} {p : Parse e α} {a : α} {n' k' : Nat}
    (hargs : s.inTemplateArgs = false) (hp : p.Reads s n k a n' k') :
    (withTemplateArgs false p).Reads s n k a n' k' := by
  intro t ht
  have hinside : t.inTemplateArgs = false := (congrArg State.inTemplateArgs ht.rest).trans hargs
  obtain ⟨u, hrun, hu⟩ := hp t ht
  have hinside' : u.inTemplateArgs = false := (congrArg State.inTemplateArgs hu.rest).trans hargs
  refine ⟨u, ?_, hu⟩
  have henter : ({ t with inTemplateArgs := false } : State) = t := by rw [← hinside]
  have hleave : ({ u with inTemplateArgs := t.inTemplateArgs } : State) = u := by
    rw [hinside, ← hinside']
  exact (Setting.run_of_ok (henter.symm ▸ hrun)).trans (congrArg (Outcome.ok a) hleave)

variable {n' k' : Nat} {x : Expr}

theorem reads_suffixed (h : (primary rules).Reads s n k x n' k')
    (hnext : endsOperand (s.token n').kind) : (suffixed rules).Reads s n k x n' k' := by
  refine reads_bind h (reads_loop (reads_last (reads_bind reads_here (reads_bind (reads_kindAt 0)
    ?_))))
  rw [Nat.add_zero]
  generalize (s.token n').kind = c at hnext
  split
  all_goals first | exact absurd hnext (by decide) | exact reads_pure _

theorem reads_unary_name {name : String} (h : s.IsValue name) (hgenuine : s.stream.Genuine)
    (hkind : (s.token n).kind = .identifier) (hname : (s.token n).lexeme = name)
    (hnext : endsOperand (s.token (n + 1)).kind) :
    (unary rules).Reads s n k (.name (s.useAt n k name)) (n + 1) (k + 1) := by
  refine reads_bind reads_here (reads_bind (reads_kind hkind) (reads_suffixed ?_ hnext))
  refine reads_bind reads_here (reads_bind (reads_kind hkind) ?_)
  have hargs : (do if ← check .lt <&&> (pure (decide (1 < [name].length)) <||>
      Grammar.isTemplateName [name] <||> Grammar.isTypeName [name]) <&&> templateArgsFollow then
        rules.templateArgs : Parse .look Unit).Reads s (n + 1) k () (n + 1) k :=
    reads_bind (reads_and (reads_checkAt 0 .lt) (reads_and_false h.reads_hasArgs))
      (reads_pure ())
  refine reads_bind reads_here (reads_bind (reads_scopedName hkind hname hargs
    (ne_colonColon_of_endsOperand hnext)) ?_)
  have hnull : ([name] == ["NULL"]) = false := by simpa using h.null
  rw [hnull, if_neg (by decide)]
  have halias : (primitiveAlias? [name] : Parse .look (Option Primitive)).Reads s (n + 1) k none
      (n + 1) k :=
    h.alias ▸ reads_bind reads_read (reads_pure _)
  have hexpr : (nameExpr (joinScope [name]) ((s.token n).spot.within s.file) :
      Parse .look Expr).Reads s (n + 1) k (.name (s.useAt n k name)) (n + 1) (k + 1) := by
    refine reads_bind (reads_nameRef _ _) ?_
    have htoken : (s.token n).Genuine := by
      rw [State.token, ← (s.stream.peekAt_eq n).1]
      exact hgenuine.peeked n
    have hjoin : joinScope [name] = name := rfl
    rw [hjoin, isScoped_of_isName (hname ▸ htoken.name hkind)]
    exact reads_pure _
  exact reads_bind halias (reads_bind (h.type ▸ reads_isTypeName [name])
    (reads_bind hexpr (reads_pure _)))

theorem reads_unary_number (hkind : (s.token n).kind = .intLiteral)
    (hnext : endsOperand (s.token (n + 1)).kind) :
    (unary rules).Reads s n k (.literal .int (s.token n).lexeme) (n + 1) k := by
  refine reads_bind reads_here (reads_bind (reads_kind hkind) (reads_suffixed ?_ hnext))
  refine reads_bind reads_here (reads_bind (reads_kind hkind) ?_)
  exact reads_bind (reads_advance (by rw [hkind]; decide)) (reads_pure _)

theorem reads_unary_parens (hargs : s.inTemplateArgs = false) (hopen : (s.token n).kind = .lParen)
    (hstart : s.StartsOperand (n + 1)) (hinner : (rules.expr 0).Reads s (n + 1) k x n' k')
    (hclose : (s.token n').kind = .rParen) (hnext : endsOperand (s.token (n' + 1)).kind) :
    (unary rules).Reads s n k (.parens x) (n' + 1) k' := by
  refine reads_bind reads_here (reads_bind (reads_kind hopen) (reads_suffixed ?_ hnext))
  refine reads_bind reads_here (reads_bind (reads_kind hopen) ?_)
  exact reads_bind (reads_castAhead hstart) <| reads_bind (reads_require hopen (by decide)) <|
    reads_bind (reads_withTemplateArgs hargs hinner) <|
      reads_bind (reads_require hclose (by decide)) (reads_pure _)

theorem reads_unary_op {op : UnaryOp} (hkind : (s.token n).kind = op.kind)
    (h : (rules.expr unaryPower).Reads s (n + 1) k x n' k') :
    (unary rules).Reads s n k (.unary op x) n' k' := by
  have hop : op.kind.unaryOp? = some op ∧ op.kind ≠ .eof := by cases op <;> decide
  refine reads_bind reads_here (reads_bind (reads_kind hkind) ?_)
  rw [hop.1]
  exact reads_bind (reads_skip (by rw [hkind]; exact hop.2)) (reads_bind h (reads_pure _))

end Operands

/-! ## Operators between operands -/

theorem joint?_binary (op : BinaryOp) :
    op.kind.joint? = some (.binary (2 * op.tier + 1) op) := by
  cases op <;> rfl

theorem joint?_assign (op : AssignOp) : op.1.1.joint? = some (.assign op.1.2) := by
  have hall : ∀ op ∈ assignments, op.1.joint? = some (.assign op.2) := by decide
  exact hall op.1 op.2

/-- No operator binds with a power at which a rule starts. -/
theorem left_of_joint? {c : Kind} {joint : Joint} (h : c.joint? = some joint) :
    joint.left ≠ 1 ∧ joint.left ≠ 3 ∧ joint.left ≠ unaryPower := by
  cases c <;> cases h <;> decide

theorem ne_eof_of_joint? {c : Kind} {joint : Joint} (h : c.joint? = some joint) : c ≠ .eof := by
  rintro rfl
  cases h

section Joining

variable {s : State} {n k n' k' n'' k'' least : Nat} {rules : Rules} {left right : Expr}
  (hargs : s.inTemplateArgs = false)

include hargs

theorem reads_joinRound_stop
    (h : ∀ joint, (s.token n).kind.joint? = some joint → joint.left < least) :
    (joinRound rules least left).Reads s n k (.inr left) n k := by
  refine reads_bind (reads_kindAt 0) (reads_bind reads_read ?_)
  simp only [Nat.add_zero, State.withoutTokens, hargs, Bool.false_and, Bool.false_eq_true, if_false]
  split
  · exact reads_pure _
  · next joint hjoint =>
    rw [if_pos (h joint hjoint)]
    exact reads_pure _

theorem reads_joinRound_binary {op : BinaryOp} (hkind : (s.token n).kind = op.kind)
    (hle : least ≤ 2 * op.tier + 1)
    (h : (rules.expr (2 * op.tier + 2)).Reads s (n + 1) k right n' k') :
    (joinRound rules least left).Reads s n k (.inl (.binary op left right)) n' k' := by
  have hjoint := joint?_binary op
  have hskip := reads_skip (e := .look) (k := k) (hkind.symm ▸ ne_eof_of_joint? hjoint)
  refine reads_bind (reads_kindAt 0) (reads_bind reads_read ?_)
  simp only [Nat.add_zero, State.withoutTokens, hargs, Bool.false_and, Bool.false_eq_true, if_false,
    hkind, hjoint, Joint.binary, Nat.not_lt.2 hle]
  exact reads_bind hskip (reads_bind h (reads_pure _))

theorem reads_joinRound_conditional (hkind : (s.token n).kind = .question) (hle : least ≤ 4)
    {ifTrue ifFalse : Expr}
    (htrue : (rules.expr 0).Reads s (n + 1) k ifTrue n' k') (hcolon : (s.token n').kind = .colon)
    (hfalse : (rules.expr 3).Reads s (n' + 1) k' ifFalse n'' k'') :
    (joinRound rules least left).Reads s n k (.inl (.conditional left ifTrue ifFalse)) n'' k'' := by
  have hskip := reads_skip (e := .look) (s := s) (n := n) (k := k) (by rw [hkind]; decide)
  refine reads_bind (reads_kindAt 0) (reads_bind reads_read ?_)
  simp only [Nat.add_zero, State.withoutTokens, hargs, Bool.false_and, Bool.false_eq_true, if_false,
    hkind, Kind.joint?, Nat.not_lt.2 hle]
  exact reads_bind hskip <| reads_bind htrue <| reads_bind (reads_require hcolon (by decide)) <|
    reads_bind hfalse (reads_pure _)

theorem reads_joinRound_assign {op : AssignOp} (hkind : (s.token n).kind = op.1.1)
    (hle : least ≤ 2) {value : Expr}
    (hbrace : (s.token (n + 1)).kind ≠ .lBrace)
    (h : (rules.expr 1).Reads s (n + 1) k value n' k') :
    (joinRound rules least left).Reads s n k (.inl (.assign op.1.2 left value)) n' k' := by
  have hjoint := joint?_assign op
  have hskip := reads_skip (e := .look) (k := k) (hkind.symm ▸ ne_eof_of_joint? hjoint)
  refine reads_bind (reads_kindAt 0) (reads_bind reads_read ?_)
  simp only [Nat.add_zero, State.withoutTokens, hargs, Bool.false_and, Bool.false_eq_true, if_false,
    hkind, hjoint, Joint.assign, Nat.not_lt.2 hle]
  exact reads_bind hskip (reads_bind (reads_eat_false hbrace) (reads_bind h (reads_pure _)))

omit hargs

/-- Behind the first operand, rounds of joining get to an expression. -/
def Climbs (s : State) (rules : Rules) (least n k : Nat) (x : Expr) (n' k' : Nat) : Prop :=
  ∃ rounds, n + rounds ≤ n' ∧ ∀ m y n'' k'',
    (loopWithin m (joinRound rules least) x).Reads s n' k' y n'' k'' →
      (unary rules >>= loopWithin (m + rounds) (joinRound rules least)).Reads s n k y n'' k''

variable {x y : Expr}

theorem climbs_unary (h : (unary rules).Reads s n k x n' k') (hle : n ≤ n') :
    Climbs s rules least n k x n' k' :=
  ⟨0, hle, fun _ _ _ _ hloop => reads_bind h hloop⟩

theorem Climbs.round (h : Climbs s rules least n k x n' k') (hlt : n' < n'')
    (hround : (joinRound rules least x).Reads s n' k' (.inl y) n'' k'') :
    Climbs s rules least n k y n'' k'' := by
  obtain ⟨rounds, hle, hclimb⟩ := h
  refine ⟨rounds + 1, by omega, fun m z i j hloop => ?_⟩
  rw [show m + (rounds + 1) = m + 1 + rounds by omega]
  exact hclimb (m + 1) z i j (reads_round hround hloop)

/-- Where no operator follows that binds tightly enough, the expression is read. -/
theorem Climbs.expression (h : Climbs s rules least n k x n' k')
    (hargs : s.inTemplateArgs = false) (hroom : n' ≤ n + s.stream.size)
    (hstop : ∀ joint, (s.token n').kind.joint? = some joint → joint.left < least) :
    (expression rules least).Reads s n k x n' k' := by
  obtain ⟨rounds, hle, hclimb⟩ := h
  intro t ht
  obtain ⟨m, hm⟩ : ∃ m, s.stream.size + 2 = m + 1 + rounds :=
    ⟨s.stream.size + 1 - rounds, by omega⟩
  obtain ⟨u, hrun, hu⟩ := hclimb (m + 1) x n' k' (reads_last (reads_joinRound_stop hargs hstop)) t ht
  refine ⟨u, ?_, hu⟩
  rw [← hrun]
  rw [Grammar.expression, Parse.run_bind, Parse.run_bind]
  cases hunary : (unary rules).run t with
  | error => rfl
  | ok first v =>
    have hsize := ((unary rules).reaches_of_ok hunary).file_eq.2.trans ht.size
    show (loopWithin (v.stream.size + 2) (joinRound rules least) first).run v = _
    rw [hsize, hm]
    rfl

theorem Climbs.expr {d : Nat} (h : Climbs s (.within d) least n k x n' k')
    (hargs : s.inTemplateArgs = false) (hroom : n' ≤ n + s.stream.size)
    (hstop : ∀ joint, (s.token n').kind.joint? = some joint → joint.left < least) :
    ((Rules.within (d + 1)).expr least).Reads s n k x n' k' :=
  h.expression hargs hroom hstop

end Joining

/-! ## Phrases -/

/-- The next tokens are these. -/
def State.Shows (s : State) (n : Nat) : List Word → Prop
  | [] => True
  | word :: rest => ((s.token n).kind = word.1 ∧ ∀ text ∈ word.2, (s.token n).lexeme = text) ∧
      s.Shows (n + 1) rest

instance State.decidableShows (s : State) : (n : Nat) → (words : List Word) →
    Decidable (s.Shows n words)
  | _, [] => isTrue trivial
  | n, word :: rest =>
    have := s.decidableShows (n + 1) rest
    inferInstanceAs (Decidable (((s.token n).kind = word.1 ∧
      ∀ text ∈ word.2, (s.token n).lexeme = text) ∧ s.Shows (n + 1) rest))

theorem State.shows_append {s : State} {n : Nat} {before after : List Word} :
    s.Shows n (before ++ after) ↔ s.Shows n before ∧ s.Shows (n + before.length) after := by
  induction before generalizing n with
  | nil => simp [State.Shows]
  | cons word rest ih =>
    simp only [List.cons_append, State.Shows, ih, List.length_cons, and_assoc, Nat.add_assoc,
      Nat.add_comm 1]

namespace Phrase

/-- The expression that a phrase is. -/
def tree (s : State) : Phrase → Nat → Nat → Expr
  | .name text, n, k => .name (s.useAt n k text)
  | .number text, _, _ => .literal .int text
  | .parens inner, n, k => .parens (inner.tree s (n + 1) k)
  | .unary op operand, n, k => .unary op (operand.tree s (n + 1) k)
  | .binary op left right, n, k =>
    .binary op (left.tree s n k)
      (right.tree s (n + left.words.length + 1) (k + left.names.length))
  | .conditional condition ifTrue ifFalse, n, k =>
    let n' := n + condition.words.length + 1
    let k' := k + condition.names.length
    .conditional (condition.tree s n k) (ifTrue.tree s n' k')
      (ifFalse.tree s (n' + ifTrue.words.length + 1) (k' + ifTrue.names.length))
  | .assign op target value, n, k =>
    .assign op.1.2 (target.tree s n k)
      (value.tree s (n + target.words.length + 1) (k + target.names.length))

/-- A phrase is the text from a token on, and ends there. -/
structure Stands (p : Phrase) (s : State) (n : Nat) : Prop where
  fits : p.Fits .climbing
  values : ∀ name ∈ p.names, s.IsValue name
  shows : s.Shows n p.words
  ends : endsOperand (s.token (n + p.words.length)).kind
  closes : ∀ joint, (s.token (n + p.words.length)).kind.joint? = some joint →
    joint.left ≤ 2 * p.level + 1

/-- What holds of the token behind the last part of a phrase holds of the token behind the phrase. -/
theorem Stands.last {p q : Phrase} {s : State} {n m : Nat} (h : q.Stands s n)
    (hfits : p.Fits .climbing) (hnames : ∀ name ∈ p.names, name ∈ q.names)
    (hshows : s.Shows m p.words) (hend : m + p.words.length = n + q.words.length)
    (hlevel : q.level ≤ p.level) : p.Stands s m := by
  refine ⟨hfits, fun name hname => h.values name (hnames name hname), hshows, ?_, ?_⟩
  · rw [hend]
    exact h.ends
  · rw [hend]
    intro joint hjoint
    have hle := h.closes joint hjoint
    omega

theorem Stands.before {p q : Phrase} {s : State} {n m : Nat} {c : Kind} (h : q.Stands s n)
    (hfits : p.Fits .climbing) (hnames : ∀ name ∈ p.names, name ∈ q.names)
    (hshows : s.Shows m p.words) (hkind : (s.token (m + p.words.length)).kind = c)
    (hends : endsOperand c) (hcloses : ∀ joint, c.joint? = some joint →
      joint.left ≤ 2 * p.level + 1) : p.Stands s m :=
  ⟨hfits, fun name hname => h.values name (hnames name hname), hshows, hkind ▸ hends,
    hkind ▸ hcloses⟩

section Parts

variable {s : State} {n : Nat} {p q r : Phrase}

theorem Stands.inner (h : (parens p).Stands s n) :
    (s.token n).kind = .lParen ∧ p.Stands s (n + 1) ∧
      (s.token (n + 1 + p.words.length)).kind = .rParen := by
  obtain ⟨⟨hopen, -⟩, hinner⟩ := h.shows
  obtain ⟨hshows, ⟨hclose, -⟩, -⟩ := State.shows_append.1 hinner
  exact ⟨hopen, h.before h.fits (fun _ hname => hname) hshows hclose rfl (by rintro _ ⟨⟩), hclose⟩

theorem Stands.operand {op : UnaryOp} (h : (unary op p).Stands s n) :
    (s.token n).kind = op.kind ∧ p.Stands s (n + 1) := by
  obtain ⟨⟨hkind, -⟩, hshows⟩ := h.shows
  refine ⟨hkind, h.last h.fits.1 (fun _ hname => hname) hshows ?_ h.fits.2⟩
  simp only [words, List.length_cons]
  omega

theorem Stands.sides {op : BinaryOp} (h : (binary op p q).Stands s n) :
    p.Stands s n ∧ (s.token (n + p.words.length)).kind = op.kind ∧
      q.Stands s (n + p.words.length + 1) := by
  obtain ⟨hp, hq, hleft, hright⟩ := h.fits
  obtain ⟨hshows, ⟨hkind, -⟩, hshows'⟩ := State.shows_append.1 h.shows
  refine ⟨h.before hp (fun _ hname => List.mem_append_left _ hname) hshows hkind ?_ ?_, hkind,
    h.last hq (fun _ hname => List.mem_append_right _ hname) hshows' ?_ (Nat.le_of_lt hright)⟩
  · cases op <;> rfl
  · intro joint hjoint
    cases (joint?_binary op).symm.trans hjoint
    exact Nat.add_le_add_right (Nat.mul_le_mul_left 2 hleft) 1
  · simp only [words, List.length_append, List.length_cons]
    omega

theorem Stands.branches (h : (conditional p q r).Stands s n) :
    p.Stands s n ∧ (s.token (n + p.words.length)).kind = .question ∧
      q.Stands s (n + p.words.length + 1) ∧
      (s.token (n + p.words.length + 1 + q.words.length)).kind = .colon ∧
      r.Stands s (n + p.words.length + 1 + q.words.length + 1) := by
  obtain ⟨hp, hq, hr, hlevel, hlast⟩ := h.fits
  obtain ⟨hshows, ⟨hquestion, -⟩, hrest⟩ := State.shows_append.1 h.shows
  obtain ⟨hshows', ⟨hcolon, -⟩, hshows''⟩ := State.shows_append.1 hrest
  refine ⟨h.before hp (fun _ hname => List.mem_append_left _ hname) hshows hquestion rfl ?_,
    hquestion, h.before hq (fun _ hname => ?_) hshows' hcolon rfl (by rintro _ ⟨⟩), hcolon,
    h.last hr (fun _ hname => ?_) hshows'' ?_ hlast⟩
  · rintro joint ⟨⟩
    show 4 ≤ 2 * p.level + 1
    omega
  · exact List.mem_append_right _ (List.mem_append_left _ hname)
  · exact List.mem_append_right _ (List.mem_append_right _ hname)
  · simp only [words, List.length_append, List.length_cons]
    omega

theorem Stands.assigned {op : AssignOp} (h : (assign op p q).Stands s n) :
    p.Stands s n ∧ (s.token (n + p.words.length)).kind = op.1.1 ∧
      q.Stands s (n + p.words.length + 1) := by
  obtain ⟨hp, hq, hlevel⟩ := h.fits
  obtain ⟨hshows, ⟨hkind, -⟩, hshows'⟩ := State.shows_append.1 h.shows
  have hends : ∀ op ∈ assignments, endsOperand op.1 := by decide
  refine ⟨h.before hp (fun _ hname => List.mem_append_left _ hname) hshows hkind
    (hends op.1 op.2) ?_, hkind, h.last hq (fun _ hname => List.mem_append_right _ hname) hshows' ?_
      (Nat.zero_le _)⟩
  · intro joint hjoint
    cases (joint?_assign op).symm.trans hjoint
    have hle : 1 ≤ p.level := hlevel
    show 2 ≤ 2 * p.level + 1
    omega
  · simp only [words, List.length_append, List.length_cons]
    omega

theorem Stands.startsOperand (h : p.Stands s n) : s.StartsOperand n := by
  induction p with
  | name text =>
    obtain ⟨⟨hkind, hname⟩, -⟩ := h.shows
    refine .inr ⟨hkind, ?_, h.ends⟩
    rw [hname text rfl]
    exact h.values text List.mem_cons_self
  | number text =>
    left
    rw [h.shows.1.1]
    exact List.mem_cons_self
  | parens inner =>
    left
    rw [h.inner.1]
    decide
  | unary op operand =>
    left
    rw [h.operand.1]
    cases op <;> decide
  | binary op left right ih => exact ih h.sides.1
  | conditional c a b ih => exact ih h.branches.1
  | assign op target value ih => exact ih h.assigned.1

end Parts

section Climbing

variable {s : State} {n k d l : Nat} {p : Phrase}

/-- **Climbing over a phrase.** Behind its first operand, rounds of joining get to the expression
that it is. -/
theorem Stands.climbs (h : p.Stands s n) (hgenuine : s.stream.Genuine)
    (hargs : s.inTemplateArgs = false)
    (hd : p.words.length ≤ d) (hroom : p.words.length ≤ s.stream.size)
    (hl : l ≤ 2 * p.level + 1) :
    Climbs s (.within d) l n k (p.tree s n k) (n + p.words.length) (k + p.names.length) := by
  induction p generalizing n k d l with
  | name text =>
    obtain ⟨⟨hkind, hname⟩, -⟩ := h.shows
    exact climbs_unary (reads_unary_name (h.values text List.mem_cons_self) hgenuine hkind
      (hname text rfl) h.ends) (Nat.le_add_right _ _)
  | number text =>
    obtain ⟨⟨hkind, hname⟩, -⟩ := h.shows
    have hread : (Grammar.unary (.within d)).Reads s n k (.literal .int (s.token n).lexeme) (n + 1)
        k := reads_unary_number hkind h.ends
    rw [hname text rfl] at hread
    exact climbs_unary hread (Nat.le_add_right _ _)
  | parens inner ih =>
    obtain ⟨hopen, hinner, hclose⟩ := h.inner
    have hends := h.ends
    have hend : n + (parens inner).words.length = n + 1 + inner.words.length + 1 := by
      simp only [words, List.length_cons, List.length_append, List.length_nil]
      omega
    rw [hend] at hends ⊢
    obtain ⟨d, rfl⟩ : ∃ d', d = d' + 1 := ⟨d - 1, by omega⟩
    have hread := (ih (k := k) hinner (d := d) (by omega) (by omega) (Nat.zero_le _)).expr hargs
      (by omega) (by rw [hclose]; rintro _ ⟨⟩)
    exact climbs_unary (reads_unary_parens hargs hopen hinner.startsOperand hread hclose hends)
      (by omega)
  | unary op operand ih =>
    obtain ⟨hkind, hoperand⟩ := h.operand
    have hcloses := h.closes
    have hend : n + (unary op operand).words.length = n + 1 + operand.words.length := by
      simp only [words, List.length_cons]
      omega
    rw [hend] at hcloses ⊢
    obtain ⟨d, rfl⟩ : ∃ d', d = d' + 1 := ⟨d - 1, by omega⟩
    have hlevel : 12 ≤ operand.level := h.fits.2
    have hread := (ih (k := k) hoperand (d := d) (l := unaryPower) (by omega) (by omega)
      (by rw [unaryPower]; omega)).expr hargs (by omega) fun joint hjoint =>
        Nat.lt_of_le_of_ne (hcloses joint hjoint) (left_of_joint? hjoint).2.2
    exact climbs_unary (reads_unary_op hkind hread) (by omega)
  | binary op left right ihl ihr =>
    obtain ⟨hleft, hkind, hright⟩ := h.sides
    obtain ⟨-, -, hlevel, hlevel'⟩ := h.fits
    have hcloses := h.closes
    have hend : n + (binary op left right).words.length =
        n + left.words.length + 1 + right.words.length := by
      simp only [words, List.length_append, List.length_cons]
      omega
    have hl' : l ≤ 2 * op.tier + 1 := hl
    rw [hend] at hcloses ⊢
    rw [names, List.length_append, ← Nat.add_assoc]
    obtain ⟨d, rfl⟩ : ∃ d', d = d' + 1 := ⟨d - 1, by omega⟩
    have hread := (ihr (k := k + left.names.length) hright (d := d) (l := 2 * op.tier + 2)
      (by omega) (by omega) (by omega)).expr hargs (by omega) fun joint hjoint =>
        Nat.lt_succ_of_le (hcloses joint hjoint)
    exact (ihl hleft (by omega) (by omega) (by omega)).round (by omega)
      (reads_joinRound_binary hargs hkind hl' hread)
  | conditional c a b ihc iha ihb =>
    obtain ⟨hc, hquestion, ha, hcolon, hb⟩ := h.branches
    obtain ⟨-, -, -, hlevel, hlast⟩ := h.fits
    have hcloses := h.closes
    have hend : n + (conditional c a b).words.length =
        n + c.words.length + 1 + a.words.length + 1 + b.words.length := by
      simp only [words, List.length_append, List.length_cons]
      omega
    have hl' : l ≤ 3 := hl
    have hlast' : 1 ≤ b.level := hlast
    rw [hend] at hcloses ⊢
    rw [names, List.length_append, List.length_append, ← Nat.add_assoc, ← Nat.add_assoc]
    obtain ⟨d, rfl⟩ : ∃ d', d = d' + 1 := ⟨d - 1, by omega⟩
    have htrue := (iha (k := k + c.names.length) ha (d := d) (by omega) (by omega)
      (Nat.zero_le _)).expr hargs (by omega) (by rw [hcolon]; rintro _ ⟨⟩)
    have hfalse := (ihb (k := k + c.names.length + a.names.length) hb (d := d) (l := 3)
      (by omega) (by omega) (by omega)).expr hargs (by omega) fun joint hjoint =>
        Nat.lt_of_le_of_ne (hcloses joint hjoint) (left_of_joint? hjoint).2.1
    exact (ihc hc (by omega) (by omega) (by omega)).round (by omega)
      (reads_joinRound_conditional hargs hquestion (by omega) htrue hcolon hfalse)
  | assign op target value iht ihv =>
    obtain ⟨htarget, hkind, hvalue⟩ := h.assigned
    obtain ⟨-, -, hlevel⟩ := h.fits
    have hcloses := h.closes
    have hend : n + (assign op target value).words.length =
        n + target.words.length + 1 + value.words.length := by
      simp only [words, List.length_append, List.length_cons]
      omega
    have hl' : l ≤ 1 := hl
    have hlevel' : 1 ≤ target.level := hlevel
    rw [hend] at hcloses ⊢
    rw [names, List.length_append, ← Nat.add_assoc]
    obtain ⟨d, rfl⟩ : ∃ d', d = d' + 1 := ⟨d - 1, by omega⟩
    have hread := (ihv (k := k + target.names.length) hvalue (d := d) (l := 1)
      (by omega) (by omega) (by omega)).expr hargs (by omega) fun joint hjoint =>
        Nat.lt_of_le_of_ne (hcloses joint hjoint) (left_of_joint? hjoint).1
    exact (iht htarget (by omega) (by omega) (by omega)).round (by omega)
      (reads_joinRound_assign hargs hkind (by omega) (hvalue.startsOperand.ne (by decide)) hread)

end Climbing

theorem kind_ne_eof (p : Phrase) : ∀ word ∈ p.words, word.1 ≠ .eof := by
  have hunary (op : UnaryOp) : op.kind ≠ .eof := by cases op <;> decide
  have hbinary (op : BinaryOp) : op.kind ≠ .eof := ne_eof_of_joint? (joint?_binary op)
  have hassign (op : AssignOp) : op.1.1 ≠ .eof := ne_eof_of_joint? (joint?_assign op)
  induction p with
  | name | number => simp [words]
  | parens inner ih =>
    exact List.forall_mem_cons.2 ⟨by decide, List.forall_mem_append.2 ⟨ih, by simp⟩⟩
  | unary op operand ih => exact List.forall_mem_cons.2 ⟨hunary op, ih⟩
  | binary op left right ihl ihr =>
    exact List.forall_mem_append.2 ⟨ihl, List.forall_mem_cons.2 ⟨hbinary op, ihr⟩⟩
  | conditional c a b ihc iha ihb =>
    refine List.forall_mem_append.2 ⟨ihc, List.forall_mem_cons.2 ⟨by decide, ?_⟩⟩
    exact List.forall_mem_append.2 ⟨iha, List.forall_mem_cons.2 ⟨by decide, ihb⟩⟩
  | assign op target value iht ihv =>
    exact List.forall_mem_append.2 ⟨iht, List.forall_mem_cons.2 ⟨hassign op, ihv⟩⟩

end Phrase

/-- The text has at least as many characters as there are words. -/
theorem State.Sound.length_le {s : State} (hs : s.Sound) {words : List Word}
    (hshows : s.Shows 0 words) (hne : ∀ word ∈ words, word.1 ≠ .eof) :
    words.length ≤ s.stream.size := by
  have hlength : ∀ (words : List Word) (n : Nat), s.Shows n words → (∀ word ∈ words, word.1 ≠ .eof) →
      words.length ≤ textLength (fun i => s.token (n + i)) words.length := by
    intro words
    induction words with
    | nil => exact fun _ _ _ => Nat.le_refl _
    | cons word rest ih =>
      intro n hshows hne
      obtain ⟨hword, hrest⟩ := List.forall_mem_cons.1 hne
      have hpos : 0 < (s.token n).lexeme.length :=
        hs.counted.pos _ (beq_eq_false_iff_ne.2 (hshows.1.1 ▸ hword))
      have hle := ih (n + 1) hshows.2 hrest
      simp only [Nat.add_right_comm n 1] at hle
      rw [List.length_cons, textLength]
      exact Nat.add_comm 1 _ ▸ Nat.add_le_add hpos hle
  have hle := hlength words 0 hshows hne
  simp only [Nat.zero_add] at hle
  exact Nat.le_trans hle (Stream.textLength_drop_le hs.counted.length _ _)

/-- What may stand behind a whole expression. -/
def closers : List Kind :=
  [.semicolon, .rParen, .colon, .comma]

section Expressions

variable {s : State} {p : Phrase} {c : Kind} {depth power : Nat}

theorem Phrase.run_expr (hs : s.Sound) (hgenuine : s.stream.Genuine) (hargs : s.inTemplateArgs = false)
    (hfits : p.Fits .climbing) (hpower : power ≤ 2 * p.level + 1)
    (hvalues : ∀ name ∈ p.names, s.IsValue name) (hc : c ∈ closers)
    (hshows : s.Shows 0 (p.words ++ [(c, none)])) (hdepth : p.words.length < depth) :
    ∃ t, ((Rules.within depth).expr power).run s = .ok (p.tree s 0 0) t ∧
      s.At p.words.length p.names.length t := by
  obtain ⟨hwords, ⟨hkind, -⟩, -⟩ := State.shows_append.1 hshows
  have hends : ∀ c ∈ closers, endsOperand c ∧ c.joint? = none := by decide
  have hnone : (s.token (0 + p.words.length)).kind.joint? = none := hkind ▸ (hends c hc).2
  have hstands : p.Stands s 0 :=
    ⟨hfits, hvalues, hwords, hkind ▸ (hends c hc).1, by rw [hnone]; rintro _ ⟨⟩⟩
  have hroom := hs.length_le hwords p.kind_ne_eof
  obtain ⟨d, rfl⟩ : ∃ d, depth = d + 1 := ⟨depth - 1, by omega⟩
  have hread := (hstands.climbs (k := 0) hgenuine hargs (Nat.lt_succ_iff.1 hdepth) hroom hpower).expr hargs
    (by omega) (by rw [hnone]; rintro _ ⟨⟩)
  rw [Nat.zero_add, Nat.zero_add] at hread
  exact hread s (.refl s)

/-- **Precedence.** A conditional expression is read as the grammar of the operators has it. However
a phrase of values, numbers and operators is written, with parentheses at least where precedence and
grouping ask for them, and whatever closes it, just its words are taken, and the expression is that
phrase, with parentheses where they are written. -/
theorem run_conditional_eq (hs : s.Sound) (hgenuine : s.stream.Genuine)
    (hargs : s.inTemplateArgs = false) (hfits : p.Fits .standard) (hfree : p.AssignFree)
    (hvalues : ∀ name ∈ p.names, s.IsValue name) (hc : c ∈ closers)
    (hshows : s.Shows 0 (p.words ++ [(c, none)])) (hdepth : p.words.length < depth) :
    ∃ t, ((Rules.within depth).expr conditionalPower).run s = .ok (p.tree s 0 0) t ∧
      s.At p.words.length p.names.length t := by
  have hlevel := Phrase.one_le_level hfree
  refine p.run_expr hs hgenuine hargs (hfree.fits hfits) ?_ hvalues hc hshows hdepth
  rw [conditionalPower]
  omega

/-- `a - b - c * 2 ? 1 : (-a)` -/
def chosenSum : Phrase :=
  .conditional
    (.binary .sub (.binary .sub (.name "a") (.name "b")) (.binary .mul (.name "c") (.number "2")))
    (.number "1") (.parens (.unary .neg (.name "a")))

/-- In front of a text, with nothing declared. -/
def State.before (text : String) : State :=
  .start "t.cpp" text .empty (.empty "main")

theorem State.isValue_of_decide {s : State} {names : List String}
    (h : ∀ name ∈ names, s.isTypeName [name] = false ∧ s.isTemplateName [name] = false ∧
      name ≠ "NULL") : ∀ name ∈ names, s.IsValue name := by
  intro name hname
  obtain ⟨htype, htemplate, hnull⟩ := h name hname
  exact ⟨htype, htemplate, hnull⟩

theorem run_conditional_eq_chosenSum :
    chosenSum.Fits .standard ∧ ∃ t, ((Rules.within 16).expr conditionalPower).run
      (.before "a-b-c*2?1:(-a);") = .ok (chosenSum.tree (.before "a-b-c*2?1:(-a);") 0 0) t := by
  have hfits : chosenSum.Fits .standard := by
    simp [chosenSum, Phrase.Fits, Phrase.level, BinaryOp.tier, Looseness.standard]
  have hfree : chosenSum.AssignFree := by simp [chosenSum, Phrase.AssignFree]
  have hvalues : ∀ name ∈ chosenSum.names, (State.before "a-b-c*2?1:(-a);").IsValue name :=
    State.isValue_of_decide (by decide +kernel)
  have hshows : (State.before "a-b-c*2?1:(-a);").Shows 0
      (chosenSum.words ++ [(.semicolon, none)]) := by decide +kernel
  have hdepth : chosenSum.words.length < 16 := by decide
  obtain ⟨t, hrun, -⟩ := run_conditional_eq (State.sound_start _ _ _ _) (Stream.genuine_start _) rfl
    hfits hfree hvalues (by decide) hshows hdepth
  exact ⟨hfits, t, hrun⟩

/-- **Assignments and conditionals.** An expression with assignments is read as a phrase of the same
words in which the last operand of a conditional ends before an assignment: `c ? a : t = b` assigns
to `c ? a : t`. It is the phrase as it is meant exactly if no assignment without parentheses is the
last operand of a conditional. -/
theorem run_expr_eq_regroup (hs : s.Sound) (hgenuine : s.stream.Genuine)
    (hargs : s.inTemplateArgs = false) (hfits : p.Fits .standard)
    (hvalues : ∀ name ∈ p.names, s.IsValue name) (hc : c ∈ closers)
    (hshows : s.Shows 0 (p.words ++ [(c, none)])) (hdepth : p.words.length < depth) :
    (∃ t, ((Rules.within depth).expr 0).run s = .ok (p.regroup.tree s 0 0) t ∧
      s.At p.words.length p.names.length t) ∧ (p.regroup = p ↔ p.Fits ⟨1, 2⟩) := by
  refine ⟨?_, Phrase.regroup_eq_iff hfits⟩
  rw [← p.words_regroup] at hshows hdepth ⊢
  rw [← p.names_regroup] at hvalues ⊢
  exact p.regroup.run_expr hs hgenuine hargs (Phrase.fits_regroup hfits) (Nat.zero_le _) hvalues hc hshows
    hdepth

/-- `a ? b : c = 1` -/
def assignedLast : Phrase :=
  .conditional (.name "a") (.name "b")
    (.assign ⟨(.assign, none), List.mem_cons_self⟩ (.name "c") (.number "1"))

theorem fits_assignedLast : assignedLast.Fits .standard := by
  simp [assignedLast, Phrase.Fits, Phrase.level, Looseness.standard]

theorem isValue_assignedLast :
    ∀ name ∈ assignedLast.names, (State.before "a?b:c=1;").IsValue name :=
  State.isValue_of_decide (by decide +kernel)

theorem shows_assignedLast :
    (State.before "a?b:c=1;").Shows 0 (assignedLast.words ++ [(.semicolon, none)]) := by
  decide +kernel

theorem run_expr_eq_regroup_assignedLast :
    assignedLast.Fits .standard ∧ ∃ t, ((Rules.within 9).expr 0).run (.before "a?b:c=1;") =
      .ok (assignedLast.regroup.tree (.before "a?b:c=1;") 0 0) t := by
  have hdepth : assignedLast.words.length < 9 := by decide
  obtain ⟨⟨t, hrun, -⟩, -⟩ := run_expr_eq_regroup (State.sound_start _ _ _ _)
    (Stream.genuine_start _) rfl fits_assignedLast isValue_assignedLast (by decide) shows_assignedLast hdepth
  exact ⟨fits_assignedLast, t, hrun⟩

/-- What is written as a conditional is read as an assignment to a conditional. -/
theorem run_expr_conditionalTarget : ∃ a b c t,
    ((Rules.within 9).expr 0).run (.before "a?b:c=1;") = .ok
      (.assign none (.conditional (.name a) (.name b) (.name c)) (.literal .int "1")) t := by
  have hdepth : assignedLast.regroup.words.length < 9 := by decide
  obtain ⟨t, hrun, -⟩ := assignedLast.regroup.run_expr (State.sound_start _ _ _ _)
    (Stream.genuine_start _) rfl (Phrase.fits_regroup fits_assignedLast) (Nat.zero_le _) isValue_assignedLast (by decide)
    shows_assignedLast hdepth
  exact ⟨_, _, _, t, hrun⟩

end Expressions

end Grammar

end Serpentine
