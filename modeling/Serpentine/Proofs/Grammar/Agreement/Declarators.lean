import Serpentine.Proofs.Grammar.Agreement.Expressions

/-!
# Declarators in agreement
-/

namespace Serpentine

abbrev Matching.SameParam (m : Matching) : ParameterSpec → ParameterSpec → Prop :=
  m.Under (ParameterSpec.relocate m.see) (ParameterSpec.Worded m.words)

abbrev Matching.SameParams (m : Matching) : List ParameterSpec → List ParameterSpec → Prop :=
  m.UnderList (ParameterSpec.relocate m.see) (ParameterSpec.Worded m.words)

namespace Grammar

open Matching

variable {m : Matching} {n : Nat} {K : Kind → Prop} {rules rules' : Rules}

/-! ## Names -/

abbrev DeclaratorBase.Special (base : DeclaratorBase) : Prop :=
  ∀ ident, base ≠ .ident ident

theorem agrees_conversionName (first : Kind) :
    (conversionName first).Agrees m n K (m.Equal DeclaratorBase.Special) Never
      (conversionName first) := by
  refine .seq (.many_eq ?_) fun more => .seq (agrees_skipAll (by decide)) fun _ =>
    .step fun _ => .pure ⟨rfl, fun _ _ => DeclaratorBase.noConfusion⟩
  refine .kind fun k _ => ?_
  split
  · next hk =>
    refine .skip ?_ fun _ => .pure rfl
    rintro rfl
    exact absurd hk (by decide)
  · exact .quit rfl rfl

theorem agrees_operatorName :
    operatorName.Agrees m n K (m.Equal DeclaratorBase.Special) Never operatorName := by
  have hoperator : ∀ symbol, m.Equal DeclaratorBase.Special (.operator symbol) (.operator symbol) :=
    fun _ => ⟨rfl, fun _ _ => DeclaratorBase.noConfusion⟩
  refine .bind .advance_any fun token token' ht => ?_
  rw [ht.same.kind, ht.same.lexeme]
  split
  case h_1 | h_2 => exact .step fun _ => .pure (hoperator _)
  case h_3 | h_4 =>
    refine .step fun array => ?_
    split
    · exact .step fun _ => .pure (hoperator _)
    · exact .pure (hoperator _)
  case h_5 => exact .unexpected
  case h_6 =>
    split
    · exact agrees_conversionName _
    · exact .pure (hoperator _)

instance steady_scopeBehindAngles : scopeBehindAngles.Steady := by
  refine ⟨fun _ _ _ => .step fun after => ?_⟩
  cases after with
  | none => exact .pure rfl
  | some after => exact .steady

theorem agrees_declaratorName (h : rules.Agree m n rules') {O : DeclaratorName → Prop} :
    (declaratorName rules).Agrees m (n + 1) K (m.Equal DeclaratorName.Worded) O
      (declaratorName rules') := by
  refine .step fun global => .loop_taking (I := Eq) rfl ?_
  rintro scope _ rfl
  refine .kind fun k _ => ?_
  split
  case h_1 =>
    exact .skip (by decide) fun _ => .known .identifier fun _ _ =>
      .pure (.inr ⟨rfl, fun _ _ => DeclaratorBase.noConfusion⟩)
  case h_2 =>
    exact .skip (by decide) fun _ => .known agrees_operatorName fun _ hbase =>
      .pure (.inr ⟨rfl, fun w ident h => absurd h (hbase w ident)⟩)
  case h_3 =>
    refine .known_after .identifier fun name hname => .step fun angles =>
      .when (fun _ => h.templateArgs) fun _ => .step fun more => ?_
    split
    · exact .pure (.inl rfl)
    · refine .pure (.inr ⟨rfl, fun w => ?_⟩)
      rintro _ ⟨⟩
      exact hname w

/-! ## Parameters -/

namespace Declarator

variable {f : Position → Position} {d d' : Declarator} (h : d.relocate f = d'.relocate f)

include h

theorem name_eq : d'.name = d.name :=
  (congrArg name h).symm

theorem indirect_eq : d'.indirect = d.indirect :=
  (congrArg indirect h).symm

theorem place_eq : f d.place = f d'.place :=
  congrArg place h

theorem map_params_eq : d.params.map (List.map (ParameterSpec.relocate f)) =
    d'.params.map (List.map (ParameterSpec.relocate f)) :=
  congrArg params h

theorem map_arrays_eq : d.arrays.map (Option.map (Expr.relocate f)) =
    d'.arrays.map (Option.map (Expr.relocate f)) :=
  congrArg arrays h

theorem ident?_eq : d'.ident? = d.ident? := by
  rw [ident?, ident?, name_eq h]

theorem length_arrays_eq : d'.arrays.length = d.arrays.length := by
  rw [← List.length_map (Option.map (Expr.relocate f)), ← map_arrays_eq h, List.length_map]

theorem isEmpty_arrays_eq : d'.arrays.isEmpty = d.arrays.isEmpty := by
  rw [← List.isEmpty_map (f := Option.map (Expr.relocate f)), ← map_arrays_eq h, List.isEmpty_map]

theorem isSome_params_eq : d'.params.isSome = d.params.isSome :=
  isSome_of_map_eq (map_params_eq h)

theorem parameterType_eq (spec : TypeSpec) : parameterType spec d' = parameterType spec d := by
  rw [parameterType, parameterType, indirect_eq h, List.map_const', List.map_const',
    length_arrays_eq h]

end Declarator

theorem sameParams_of_sameDeclarator {d d' : Declarator} (h : m.SameDeclarator d d') :
    Option.Rel m.SameParams d.params d'.params :=
  rel_of_underOption ⟨Declarator.map_params_eq h.1, fun w => (h.2 w).params⟩

section

variable (h : rules.Agree m n rules')

include h

theorem agrees_assigned? :
    (assigned? rules).Agrees m (n + 1) K m.SameExpr? Never (assigned? rules') :=
  .eat (by decide) (.some_under (h.expr 0) fun _ h => h) (.pure underOption_none)

theorem agrees_parameter (mode : Mode) {O : ParameterSpec → Prop} :
    (parameter rules mode).Agrees m (n + 1) K m.SameParam O (parameter rules' mode) := by
  refine .here fun place place' hplace => .step fun _ => .seq (p := check .identifier <&&> _)
    (.check (.step fun _ => .pure rfl) (.pure rfl)) fun isLone =>
    .known_after (agrees_typeSpec h mode) fun spec _ => ?_
  have hknown : (spec.named.elim (pure false) fun name => isTypeName [name] :
      Parse .look Bool).Alike m n Any
      (spec.named.elim (pure false) fun name => isTypeName [name]) := by
    cases spec.named with
    | none => exact .pure rfl
    | some name => exact Parse.Agrees.steady (p := isTypeName [name])
  refine .guard (g := id) hknown .failHere fun _ => .guard .steady .unexpected fun _ =>
    .bind (h.declarator _) fun d d' hd =>
    .bind (agrees_assigned? h).below fun value value' hvalue => .pure ?_
  rw [Declarator.ident?_eq hd.1, Declarator.parameterType_eq hd.1]
  exact ⟨congrArg₂ (ParameterSpec.mk _ _) hvalue.1 hplace, fun w => ⟨(hd.2 w).name, hvalue.2 w⟩⟩

theorem agrees_parameterList (mode : Mode) :
    (parameterList rules mode).Agrees m (n + 1) K m.SameParams Never
      (parameterList rules' mode) := by
  refine .loop (I := m.SameParams) underList_nil fun done done' hdone =>
    .eat (by decide) (.pure (.inr (underList_reverse hdone)))
      (.bind_after (agrees_parameter h mode) fun param param' hparam => .step fun more => ?_)
  have hcons := underList_cons hparam hdone
  split
  · exact .pure (.inl hcons)
  · exact .pure (.inr (underList_reverse hcons))

theorem agrees_functionQualifiers :
    (functionQualifiers rules).Alike m (n + 1) K (functionQualifiers rules') := by
  refine .loop_eq fun _ => .peek fun token token' ht _ => ?_
  rw [ht.kind, ht.lexeme]
  generalize token.kind = k
  split
  case h_1 | h_2 | h_3 | h_4 => exact .skip (by decide) fun _ => .pure rfl
  case h_5 | h_6 =>
    exact .skip (by decide) fun _ => .step fun _ => .when (fun _ => .steady) fun _ => .pure rfl
  case h_7 =>
    split
    · exact .skip (by decide) fun _ => .pure rfl
    · exact .quit rfl rfl
  case h_8 => exact .skip (by decide) fun _ => .seq (agrees_typeId h .lenient).below fun _ => .pure rfl
  case h_9 => exact .quit rfl rfl

theorem agrees_parameters (mode : Mode) {O : List ParameterSpec → Prop} :
    (parameters rules mode).Agrees m (n + 1) K m.SameParams O (parameters rules' mode) :=
  .require (by decide) fun _ => .step fun isVoid => .when (fun _ => .steady) fun _ => .step fun closed =>
    .join (R := m.SameParams) (fun _ => .pure underList_nil)
      (fun _ => (agrees_parameterList h mode).below) fun _ _ hparams => .step fun _ =>
    .seq (agrees_functionQualifiers h).below fun _ => .pure hparams

theorem agrees_parameterTypes :
    (parameterTypes rules).Alike m (n + 1) K (parameterTypes rules') := by
  refine .seq (.many_eq (.step fun body => ?_)) fun groups => .pure rfl
  split
  · exact .quit rfl rfl
  · refine .step fun _ => .known_after (agrees_typeSpec h .lenient) fun spec _ =>
      .seq (.separated_eq (O := False) ?_) fun types => .step fun _ => .pure rfl
    refine .bind (h.declarator .strict) fun d d' hd => ?_
    rw [Declarator.ident?_eq hd.1, Declarator.indirect_eq hd.1]
    split
    · exact .unexpected
    · exact .pure rfl

omit h in
theorem map_assignTypes (f : Position → Position) (types : List (String × String))
    (names : List (String × Position)) :
    (assignTypes types names).map (ParameterSpec.relocate f) =
      assignTypes types (names.map (Prod.map id f)) := by
  induction names generalizing types with
  | nil => rfl
  | cons name rest ih => exact congrArg (List.cons _) (ih _)

theorem agrees_namedParameters {O : List ParameterSpec → Prop} :
    (namedParameters rules).Agrees m (n + 1) K m.SameParams O (namedParameters rules') := by
  refine .require (by decide) fun _ => .bind (.separated_under (g := Prod.map id m.see)
    (P := fun name => IsName name.1) (O := False) ?_) fun names names' hnames => ?_
  · exact .here fun place place' hplace => .known .identifier fun name hname =>
      .pure ⟨congrArg (Prod.mk name) hplace, hname⟩
  · refine .step fun _ => .seq (agrees_parameterTypes h).below fun types =>
      .pure ⟨?_, fun w => worded_assignTypes (hnames.2 w) types⟩
    rw [map_assignTypes, map_assignTypes, hnames.1]

/-! ## Declarators -/

theorem agrees_arraySizes :
    (arraySizes rules).Agrees m (n + 1) K
      (m.UnderList (Option.map (Expr.relocate m.see)) fun size? => ∀ size ∈ size?, size.Worded m.words)
      Never (arraySizes rules') := by
  refine .many_under (.eat (by decide) (.step fun unsized => ?_) (.quit underOption_none rfl))
  split
  · exact .pure (underOption_some underOption_none)
  · exact .bind (h.expr 0) fun size size' hsize => .step fun _ =>
      .pure (underOption_some (underOption_some hsize))

theorem agrees_parameters? (mode : Mode) :
    (parameters? rules mode).Agrees m (n + 1) K (Option.Rel m.SameParams)
      (fun r => r.isSome = true) (parameters? rules' mode) := by
  refine .found (.attempt_taking (agrees_parameters h mode))
    (fun _ _ hparams => .pure (.some hparams)) ?_
  dsimp only
  split
  · exact .attempt_taking (agrees_namedParameters h)
  · exact .quit .none rfl

omit h in
theorem Declarator.isName_of_worded {d : Declarator} (h : ∀ name ∈ d.name, name.Worded) :
    ∀ ident ∈ d.ident?, IsName ident := by
  intro ident hident
  unfold Declarator.ident? at hident
  split at hident
  · next hbase =>
    cases hident
    exact h _ hbase _ rfl
  · cases hident

theorem agrees_declarator (mode : Mode) :
    (declarator rules mode).Agrees m (n + 1) K m.SameDeclarator (fun d => d.params.isSome = true)
      (declarator rules' mode) := by
  refine .here fun place place' hplace => .step fun indirect => .check_and (.kindAt_then _) ?_ ?_
  · refine .skip (by decide) fun _ => .bind (h.declarator mode) fun inner inner' hinner => .step fun _ =>
      .step fun _ => .when (fun _ => .steady) fun _ => .pure ⟨?_, fun w => ?_⟩
    · exact congrArg (fun d : Declarator => { d with indirect := true, params := none }) hinner.1
    · exact ⟨(hinner.2 w).name, (hinner.2 w).arrays, by simp⟩
  · refine .step fun named => .join (R := m.Equal fun name? => ∀ name ∈ name?, name.Worded)
      (fun _ => .map (agrees_declaratorName h) ?_ fun _ h => h) (fun _ => .pure ⟨rfl, by simp⟩) ?_
    · rintro name _ ⟨rfl, hname⟩
      exact ⟨rfl, by simpa using hname⟩
    rintro name _ ⟨rfl, hname⟩
    refine .bind (agrees_arraySizes h) fun arrays arrays' harrays => ?_
    have hempty : arrays'.isEmpty = arrays.isEmpty := by
      rw [← List.isEmpty_map (f := Option.map (Expr.relocate m.see)), ← harrays.1, List.isEmpty_map]
    rw [hempty]
    refine .step fun opens => ?_
    have hmade : ∀ {params params' : Option (List ParameterSpec)},
        Option.Rel m.SameParams params params' →
        m.SameDeclarator ⟨name, indirect, arrays, params, place⟩
          ⟨name, indirect, arrays', params', place'⟩ := by
      intro params params' hparams
      have hparams := underOption_of_rel hparams
      refine ⟨?_, fun w => ⟨Declarator.isName_of_worded (hname w), harrays.2 w, hparams.2 w⟩⟩
      simp only [Declarator.relocate, harrays.1, hparams.1, hplace]
    dsimp only
    split
    · exact .found (agrees_parameters? h mode) (fun _ _ hparams => .pure (hmade (.some hparams)))
        (.quit (hmade .none) rfl)
    · exact .pure_then (.quit (hmade .none) rfl)

end

/-! ## First values -/

instance steady_namesClass (raw : String) : (namesClass raw).Steady := by
  refine ⟨fun _ _ _ => .read fun r r' hr => .pure ?_⟩
  rw [hr.context, hr.store.namesClass]

variable {spec : TypeSpec} (hspec : m.worded → spec.Worded)

include hspec

theorem agrees_construct {args args' : List Expr} (hargs : m.SameExprs args args') (braced : Bool) :
    (construct spec args braced).Agrees m n K m.SameExpr Never (construct spec args' braced) := by
  have hlength : args'.length = args.length := by
    rw [← List.length_map (Expr.relocate m.see), ← hargs.1, List.length_map]
  have hfirst : m.SameExpr (firstOrNone args) (firstOrNone args') :=
    ⟨by rw [relocate_firstOrNone, relocate_firstOrNone, hargs.1],
      fun w => worded_firstOrNone (hargs.2 w)⟩
  have hlist := sameExpr_list hargs
  unfold construct
  dsimp only
  split
  · next raw hprimitive hnamed =>
    refine .step fun isClass => ?_
    split
    · exact .here fun place place' hplace => .bind (agrees_nameExpr (fun w => hspec w raw hnamed)
        hplace) fun callee callee' hcallee => .pure (sameExpr_call hcallee hargs)
    · refine .pure ?_
      split
      · exact hlist
      · exact hfirst
  · refine .pure ?_
    rw [hlength]
    split
    · exact hlist
    · exact hfirst

theorem agrees_initialiser? (h : rules.Agree m n rules') :
    (initialiser? rules spec).Agrees m (n + 1) K m.SameExpr? Never (initialiser? rules' spec) := by
  have hmade : ∀ (close : Kind) (braced : Bool),
      (do some <$> construct spec (← rules.exprList close) braced :
        Parse .look (Option Expr)).Agrees m n Any m.SameExpr? Never
        (do some <$> construct spec (← rules'.exprList close) braced) :=
    fun close braced => .bind (h.exprList close) fun args args' hargs =>
      .some_under (agrees_construct hspec hargs braced) fun _ h => h
  refine .eat (by decide) (.step fun braced => ?_)
    (.eat (by decide) (hmade _ _) (.eat (by decide) (hmade _ _) (.pure underOption_none)))
  split
  · exact hmade _ _
  · exact .some_under (h.expr 0) fun _ h => h

variable {d d' : Declarator} (hd : m.SameDeclarator d d')

include hd

theorem agrees_defaultValue? :
    (defaultValue? spec d).Agrees m n K m.SameExpr? Never (defaultValue? spec d') := by
  unfold defaultValue?
  have harrays := forall₂_of_underList ⟨Declarator.map_arrays_eq hd.1, fun w => (hd.2 w).arrays⟩
  generalize d.arrays = arrays, d'.arrays = arrays' at harrays
  cases harrays with
  | cons hsize _ =>
    refine .pure ?_
    cases rel_of_underOption hsize with
    | none => exact underOption_none
    | some hsome =>
      exact underOption_some ⟨congrArg emptyPlaces hsome.1, fun w => worded_emptyPlaces (hsome.2 w)⟩
  | nil =>
    rw [Declarator.indirect_eq hd.1]
    cases hnamed : spec.named with
    | none => exact .pure underOption_none
    | some raw =>
      dsimp only
      split
      · exact .pure underOption_none
      · refine .step fun isClass => ?_
        split
        · exact .bind (agrees_nameExpr (fun w => hspec w raw hnamed) (Declarator.place_eq hd.1))
            fun callee callee' hcallee =>
            .pure (underOption_some (sameExpr_call hcallee underList_nil))
        · exact .pure underOption_none

theorem agrees_firstValue? (h : rules.Agree m n rules') :
    (firstValue? rules spec d).Agrees m (n + 1) K m.SameExpr? Never
      (firstValue? rules' spec d') := by
  refine .bind (agrees_initialiser? hspec h) fun value value' hvalue => ?_
  cases rel_of_underOption hvalue with
  | some hsome => exact .pure (underOption_some hsome)
  | none => exact agrees_defaultValue? hspec hd

end Grammar

end Serpentine
