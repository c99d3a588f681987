import Serpentine.Proofs.Grammar.Agreement.Types

/-!
# Expressions in agreement
-/

namespace Serpentine

section Relocation

variable {f : Position → Position}

theorem Expr.relocateAll_congr {es es' : List Expr}
    (h : es.map (Expr.relocate f) = es'.map (Expr.relocate f)) :
    Expr.relocateAll f es = Expr.relocateAll f es' := by
  rw [relocateAll_eq_map, relocateAll_eq_map, h]

theorem Grammar.relocate_castTo (spec : Grammar.TypeSpec) (indirect : Bool) (operand : Expr) :
    (castTo spec indirect operand).relocate f = castTo spec indirect (operand.relocate f) := by
  unfold castTo
  split
  · rfl
  · rfl
  · split <;> rfl

theorem Grammar.relocate_firstOrNone (args : List Expr) :
    (firstOrNone args).relocate f = firstOrNone (args.map (Expr.relocate f)) := by
  cases args <;> rfl

end Relocation

namespace Matching

variable {m : Matching} {e e' : Expr} {args args' : List Expr}

theorem sameExpr_list (h : m.SameExprs args args') : m.SameExpr (.list args) (.list args') :=
  ⟨congrArg Expr.list (Expr.relocateAll_congr h.1), fun w => .list (h.2 w)⟩

theorem sameExpr_call (h : m.SameExpr e e') (hargs : m.SameExprs args args') :
    m.SameExpr (.call e args) (.call e' args') :=
  ⟨congrArg₂ Expr.call h.1 (Expr.relocateAll_congr hargs.1), fun w => .call (h.2 w) (hargs.2 w)⟩

theorem sameExpr_step (increment before : Bool) (h : m.SameExpr e e') :
    m.SameExpr (.step increment before e) (.step increment before e') :=
  ⟨congrArg (Expr.step increment before) h.1, fun w => .step (h.2 w)⟩

theorem sameExpr_castTo (spec : Grammar.TypeSpec) (indirect : Bool) (h : m.SameExpr e e') :
    m.SameExpr (Grammar.castTo spec indirect e) (Grammar.castTo spec indirect e') :=
  ⟨by rw [Grammar.relocate_castTo, Grammar.relocate_castTo, h.1],
    fun w => Grammar.worded_castTo spec indirect (h.2 w)⟩

theorem sameExpr_none : m.SameExpr .none .none :=
  ⟨rfl, fun _ => Expr.worded_none⟩

end Matching

namespace Grammar

open Matching

variable {m : Matching} {n : Nat} {K : Kind → Prop} {rules rules' : Rules}

section Rules

variable (h : rules.Agree m n rules')

include h

theorem agrees_listExpr :
    (Expr.list <$> rules.exprList .rBrace).Agrees m n K m.SameExpr Never
      (Expr.list <$> rules'.exprList .rBrace) :=
  .map (h.exprList _) (fun _ _ => sameExpr_list) fun _ h => h

theorem agrees_joined (least : Nat) {first first' : Expr} (hfirst : m.SameExpr first first') :
    (joined rules least first).Agrees m (n + 1) K m.SameExpr Never
      (joined rules' least first') := by
  refine .loop hfirst fun left left' hleft => .kind fun k _ => .read fun r r' hr => ?_
  rw [hr.inTemplateArgs]
  split
  · exact .quit (.inr hleft) rfl
  · split
    · exact .quit (.inr hleft) rfl
    · next joint hjoint =>
      split
      · exact .quit (.inr hleft) rfl
      · refine .skip ?_ fun _ => ?_
        · rintro rfl
          cases hjoint
        · split
          · exact .bind (h.expr _) fun right right' hright => .pure (.inl
              ⟨congrArg₂ (Expr.binary _) hleft.1 hright.1, fun w => .binary (hleft.2 w) (hright.2 w)⟩)
          · refine .bind (h.expr _) fun ifTrue ifTrue' htrue => .step fun _ =>
              .bind (h.expr _) fun ifFalse ifFalse' hfalse => .pure (.inl ⟨?_, fun w =>
                .conditional (hleft.2 w) (htrue.2 w) (hfalse.2 w)⟩)
            simp only [Expr.relocate, hleft.1, htrue.1, hfalse.1]
          · exact .step fun braced => .join (fun _ => agrees_listExpr h) (fun _ => h.expr _)
              fun value value' hvalue => .pure (.inl
                ⟨congrArg₂ (Expr.assign _) hleft.1 hvalue.1, fun w => .assign (hleft.2 w) (hvalue.2 w)⟩)

theorem agrees_arguments? :
    (arguments? rules).Agrees m (n + 1) K (Option.Rel m.SameExprs) Never (arguments? rules') :=
  .eat (by decide) (.map_some (h.exprList _) fun _ _ => .some)
    (.eat (by decide) (.map_some (h.exprList _) fun _ _ => .some) (.pure .none))

variable {O : Expr → Prop}

theorem agrees_sizeofExpr :
    (sizeofExpr rules).Agrees m (n + 1) K m.SameExpr O (sizeofExpr rules') := by
  refine .here fun place place' hplace => .require (by decide) fun _ => .step fun _ => .step fun opens =>
    .join (R := Eq) (fun _ => ?_) (fun _ => .pure rfl) ?_
  · exact .attempt_eq (.step fun _ => .seq (agrees_typeId h .strict).below fun _ => .steady)
  · rintro asType _ rfl
    exact .when (fun _ => .discard h.unary) fun _ =>
      .pure ⟨congrArg Expr.sizeof hplace, fun _ => .sizeof place⟩

theorem agrees_newExpr :
    (newExpr rules).Agrees m (n + 1) K m.SameExpr O (newExpr rules') := by
  refine .here fun place place' hplace => .require (by decide) fun _ => .step fun opens =>
    .when (fun _ => .unsupported hplace) fun _ => ?_
  refine .known (agrees_typeSpec h .lenient).below fun spec hspec =>
    .seq (agrees_skipAll (by decide)) fun _ => .step fun array => ?_
  split
  · exact .bind (h.expr 0) fun size size' hsize => .step fun _ =>
      .pure ⟨congrArg emptyPlaces hsize.1, fun w => worded_emptyPlaces (hsize.2 w)⟩
  · refine .bind (agrees_arguments? h).below fun args args' hargs => ?_
    have hargs : m.SameExprs (args.getD []) (args'.getD []) := by
      cases hargs with
      | none => exact underList_nil
      | some hsome => exact hsome
    dsimp only
    split
    · next raw hprimitive hnamed =>
      exact .bind (agrees_nameExpr (fun w => hspec w raw hnamed) hplace) fun type type' htype =>
        .pure ⟨congrArg₂ Expr.new htype.1 (Expr.relocateAll_congr hargs.1),
          fun w => .new (htype.2 w) (hargs.2 w)⟩
    · refine .pure ⟨?_, fun w => worded_firstOrNone (hargs.2 w)⟩
      rw [relocate_firstOrNone, relocate_firstOrNone, hargs.1]

theorem agrees_functionalCast (type : Option Primitive) :
    (functionalCast rules type).Agrees m (n + 1) K m.SameExpr Never
      (functionalCast rules' type) := by
  refine .bind (agrees_arguments? h) fun args args' hargs => ?_
  cases hargs with
  | none => exact .unexpected
  | some hsome =>
    cases forall₂_of_underList hsome with
    | nil =>
      cases type with
      | none => exact .pure sameExpr_none
      | some type =>
        exact .pure (sameExpr_call ⟨rfl, fun _ => .primitive type⟩ underList_nil)
    | cons hfirst _ =>
      rcases type with _ | (_ | _ | _ | _ | _)
      case some.void => exact .pure hfirst
      case none => exact .pure hfirst
      all_goals exact .pure ⟨congrArg (Expr.cast _) hfirst.1, fun w => .cast (hfirst.2 w)⟩

omit h in
instance steady_castAhead : castAhead.Steady := by
  refine ⟨fun _ _ _ => .step fun next => ?_⟩
  split
  · exact .pure rfl
  · refine .step fun scanned => ?_
    cases scanned with
    | none => exact .pure rfl
    | some scanned =>
      refine .step fun known => ?_
      split
      · exact .step fun _ => .pure rfl
      · exact .pure rfl

theorem agrees_typeCast :
    (typeCast rules).Agrees m (n + 1) K m.SameExpr O (typeCast rules') :=
  .require (by decide) fun _ => .seq (agrees_typeId h .strict).below fun type =>
    .step fun _ => .step fun k => .otherwise (fun _ => .unexpected) fun _ =>
    .bind (h.expr _) fun _ _ hoperand => .pure (sameExpr_castTo _ _ hoperand)

theorem agrees_parenthesised :
    (parenthesised rules).Agrees m (n + 1) K m.SameExpr O (parenthesised rules') := by
  refine .step fun cast => ?_
  extract_lets plain plain'
  have hplain : (plain ()).Agrees m (n + 1) Any m.SameExpr O (plain' ()) :=
    .require (by decide) fun _ => .bind (.withTemplateArgs (h.expr 0)) fun inner inner' hinner => .step fun _ =>
      .pure ⟨congrArg Expr.parens hinner.1, fun w => .parens (hinner.2 w)⟩
  split
  · exact .found (.attempt_taking (agrees_typeCast h)) (fun _ _ hcast => .pure hcast) hplain
  · exact hplain

theorem agrees_namedCast (hK : ¬ K .eof) :
    (namedCast rules).Agrees m (n + 1) K m.SameExpr O (namedCast rules') := by
  refine .skip hK fun _ => ?_
  refine .step fun _ => .seq (.withTemplateArgs (agrees_typeId h .lenient).below) fun type =>
    .step fun _ => .step fun _ => .bind (h.exprList _) fun args args' hargs => ?_
  cases forall₂_of_underList hargs with
  | nil => exact .failHere
  | cons hoperand _ => exact .pure (sameExpr_castTo _ _ hoperand)

omit h in
instance steady_templateArgsFollow : templateArgsFollow.Steady := by
  refine ⟨fun _ _ _ => .step fun after => ?_⟩
  cases after with
  | none => exact .pure rfl
  | some after => exact .step fun _ => .pure rfl

theorem agrees_nameUse {segments : List String} (hscope : m.worded → IsScope segments)
    {place place' : Position} (hplace : m.see place = m.see place') :
    (nameUse rules segments place).Agrees m n K m.SameExpr Never
      (nameUse rules' segments place') := by
  refine .step fun isType => .bind (agrees_nameExpr (fun w => ⟨segments, hscope w, rfl⟩) hplace)
    fun e e' he => ?_
  split
  · refine .step fun braced => ?_
    split
    · exact .bind (h.exprList _) fun args args' hargs => .pure (sameExpr_call he hargs)
    · exact .pure he
  · exact .pure he

theorem agrees_nameExpression :
    (nameExpression rules).Agrees m (n + 1) K m.SameExpr O (nameExpression rules') := by
  refine .here fun place place' hplace =>
    .known_after (agrees_scopedName fun segments => ?_) fun segments hscope => ?_
  · refine .step fun angles => ?_
    split
    · exact h.templateArgs
    · exact .pure rfl
  · split
    · exact .pure sameExpr_none
    · refine .step fun type => ?_
      cases type with
      | none => exact agrees_nameUse h hscope hplace
      | some type =>
        refine .step fun called => ?_
        split
        · exact (agrees_functionalCast h _).below
        · exact agrees_nameUse h hscope hplace

omit h in
theorem agrees_stringParts (hK : ∀ k, K k → k = .stringLiteral) {O : String → Prop} :
    stringParts.Agrees m n K (m.Equal IsQuotation) O stringParts := by
  have hpart : ((do return some (← advance).lexeme) : Parse .look (Option String)).Agrees m n
      (· = .stringLiteral)
      (fun r r' => ∃ a a', m.Equal IsQuotation a a' ∧ r = some a ∧ r' = some a') (fun _ => True)
      (do return some (← advance).lexeme) :=
    .bind_after (.advance (by decide)) fun _ _ ht => .pure
      ⟨_, _, ⟨ht.same.lexeme.symm, fun w => (ht.genuine w).quoted (.inr ht.kind)⟩, rfl, rfl⟩
  refine .bind_after (.many_first (R := m.Equal IsQuotation) (.check_known hK hpart) ?_)
    fun parts parts' hparts => ?_
  · refine .check (hpart.imp ?_ fun _ _ => trivial) (.quit .none rfl)
    rintro _ _ ⟨a, a', ha, rfl, rfl⟩
    exact .some ha
  · obtain ⟨heq, hquoted⟩ := underList_of_forall₂ (g := id) hparts.1
    rw [List.map_id, List.map_id] at heq
    obtain ⟨first, more, rfl⟩ := List.exists_cons_of_ne_nil hparts.2
    exact .pure ⟨congrArg (" ".intercalate ·) heq, fun w => isQuotation_intercalate (hquoted w)⟩

theorem agrees_primary :
    (primary rules).Agrees m (n + 1) K m.SameExpr O (primary rules') := by
  have hliteral : ∀ (k : Kind) (kind : LiteralKind), ¬ .eof = k →
      (∀ t : Token, t.Genuine → t.kind = k → kind.Spells t.lexeme) →
      ((do return .literal kind (← advance).lexeme) : Parse .look Expr).Agrees m (n + 1) (· = k)
        m.SameExpr O (do return .literal kind (← advance).lexeme) :=
    fun k kind hk hspells => .bind_after (.advance hk) fun t _ ht => .pure
      ⟨congrArg (Expr.literal kind) ht.same.lexeme.symm,
        fun w => .literal (hspells t (ht.genuine w) ht.kind)⟩
  refine .here fun place place' hplace => .kind fun k _ => ?_
  split
  case h_1 => exact hliteral _ _ (by decide) fun t ht hk => ht.number (.inl hk)
  case h_2 => exact hliteral _ _ (by decide) fun t ht hk => ht.number (.inr hk)
  case h_3 => exact hliteral _ _ (by decide) fun t ht hk => ht.quoted (.inl hk)
  case h_5 | h_6 => exact hliteral _ _ (by decide) fun _ _ _ => trivial
  case h_4 =>
    exact .known_after (agrees_stringParts fun _ h => h) fun _ htext =>
      .pure ⟨rfl, fun w => .literal (htext w)⟩
  case h_7 => exact .skip (by decide) fun _ => .pure sameExpr_none
  case h_8 => exact .skip (by decide) fun _ => .pure ⟨rfl, fun _ => .self⟩
  case h_9 => exact agrees_parenthesised h
  case h_10 =>
    exact .skip (by decide) fun _ => .bind (h.exprList _) fun _ _ hitems => .pure (sameExpr_list hitems)
  case h_11 | h_12 | h_13 | h_14 => exact agrees_namedCast h (by decide)
  case h_15 | h_16 => exact agrees_nameExpression h
  case h_17 | h_18 => exact .unsupported hplace
  case h_19 =>
    split
    · exact .known_after (agrees_typeSpec h .lenient) fun _ _ => (agrees_functionalCast h _).below
    · exact .unexpected

theorem agrees_memberOf (hK : ¬ K .eof) {object object' : Expr} (hobject : m.SameExpr object object')
    {place place' : Position} (hplace : m.see place = m.see place') :
    (memberOf rules object place).Agrees m (n + 1) K m.SameExpr O
      (memberOf rules' object' place') := by
  refine .skip hK fun _ => ?_
  refine .step fun _ => .kind fun k _ => ?_
  split
  case h_1 =>
    refine .bind .advance_any fun token token' ht => ?_
    rw [ht.same.lexeme]
    exact .step fun angles => .when (fun _ => h.templateArgs) fun _ =>
      .pure ⟨congrArg (Expr.member · _) hobject.1,
        fun w => .member (hobject.2 w) ((ht.genuine w).name ht.kind)⟩
  case h_2 | h_3 => exact .unsupported hplace
  case h_4 => exact .unexpected

theorem agrees_suffixed :
    (suffixed rules).Agrees m (n + 1) K m.SameExpr O (suffixed rules') := by
  refine .bind_after (agrees_primary h) fun first first' hfirst => Parse.Agrees.below ?_
  refine .loop hfirst fun e e' he => .here fun place place' hplace => .kind fun k _ => ?_
  split
  case h_1 =>
    exact .skip (by decide) fun _ => .bind (h.exprList _) fun _ _ hargs => .pure (.inl (sameExpr_call he hargs))
  case h_2 =>
    exact .skip (by decide) fun _ => .bind (.withTemplateArgs (h.expr 0)) fun _ _ hposition => .step fun _ =>
      .pure (.inl ⟨congrArg₂ Expr.index he.1 hposition.1, fun w => .index (he.2 w) (hposition.2 w)⟩)
  case h_3 | h_4 =>
    exact .bind_after (agrees_memberOf h (by decide) he hplace) fun _ _ hmember =>
      .pure (.inl hmember)
  case h_5 | h_6 => exact .skip (by decide) fun _ => .pure (.inl (sameExpr_step _ _ he))
  case h_7 | h_8 => exact .unsupported hplace
  case h_9 => exact .quit (.inr he) rfl

theorem agrees_unary : (unary rules).Agrees m (n + 1) K m.SameExpr O (unary rules') := by
  refine .here fun place place' hplace => .kind fun k _ => ?_
  split
  · next op hop =>
    refine .skip ?_ fun _ => .bind (h.expr _) fun _ _ hoperand => .pure
      ⟨congrArg (Expr.unary op) hoperand.1, fun w => .unary (hoperand.2 w)⟩
    rintro rfl
    cases hop
  · split
    case h_1 | h_2 =>
      exact .skip (by decide) fun _ => .bind h.unary fun _ _ htarget => .pure (sameExpr_step _ _ htarget)
    case h_3 => exact agrees_sizeofExpr h
    case h_4 => exact agrees_newExpr h
    case h_5 | h_6 => exact .unsupported hplace
    case h_7 => exact agrees_suffixed h

theorem agrees_expression (least : Nat) :
    (expression rules least).Agrees m (n + 1) K m.SameExpr O (expression rules' least) :=
  .bind_after (agrees_unary h) fun _ _ hfirst => (agrees_joined h least hfirst).below

theorem agrees_exprList (hexpr : (Rule.expr 0).Agrees m (n + 1) rules rules') (close : Kind) :
    (exprList rules close).Agrees m (n + 1) K m.SameExprs Never (exprList rules' close) := by
  refine .withTemplateArgs (.bind (R := m.SameExprs) (.loop (I := m.SameExprs) underList_nil
    fun done done' hdone => .step fun closed => ?_) fun items items' hitems => .step fun _ => .pure hitems)
  split
  · exact .quit (.inr (underList_reverse hdone)) rfl
  · extract_lets listed listed'
    have hlisted : ∀ {k : Nat} {item item' : Expr}, m.SameExpr item item' →
        (listed item).Agrees m k Any (Sum.LiftRel m.SameExprs m.SameExprs) (fun r => r.isLeft = true)
          (listed' item') := by
      intro k item item' hitem
      have hcons := underList_cons hitem hdone
      exact .step fun _ => .eat (by decide) (.pure (.inl hcons))
        (.quit (.inr (underList_reverse hcons)) rfl)
    refine .eat (by decide) ?_ ?_
    · exact .bind (agrees_listExpr h) fun _ _ hitem => (hlisted hitem).forget
    · exact .bind hexpr.expr fun _ _ hitem => hlisted hitem

end Rules

end Grammar

end Serpentine
