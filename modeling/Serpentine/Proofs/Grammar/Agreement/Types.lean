import Serpentine.Proofs.Grammar.Agreement.Rules

/-!
# Types in agreement
-/

namespace Serpentine.Grammar

variable {m : Matching} {n : Nat} {K : Kind → Prop} {rules rules' : Rules}

instance steady_specifiers : specifiers.Steady := by
  refine ⟨fun m n K => .loop_eq fun specs => .kind fun k _ => ?_⟩
  dsimp only
  split
  case h_5 =>
    refine .checkAt_then fun linkage => ?_
    split
    · exact .pure_then (.quit rfl rfl)
    · exact .pure_then (.skip (by decide) fun _ => .pure rfl)
  case h_11 => exact .pure_then (.quit rfl rfl)
  all_goals exact .pure_then (.skip (by decide) fun _ => .pure rfl)

instance steady_skipQualifiers : skipQualifiers.Steady :=
  ⟨fun _ _ _ => agrees_skipAll (by decide)⟩

theorem agrees_scopedName {behind behind' : List String → Parse .look Unit}
    {O : List String → Prop}
    (hbehind : ∀ segments, (behind segments).Alike m n Any (behind' segments)) :
    (scopedName behind).Agrees m (n + 1) K (m.Equal IsScope) O (scopedName behind') := by
  refine .step fun global => .loop_taking
    (I := m.Equal fun before => before = [] ∨ before = [""] ∨ IsScope before) ⟨rfl, fun _ => ?_⟩ ?_
  · split <;> simp
  · rintro before _ ⟨rfl, hbefore⟩
    refine .known_after .identifier fun name hname => .seq (hbehind _) fun _ => .step fun more => ?_
    have hscope := fun w => isScope_append (hbefore w) (hname w)
    split
    · exact .step fun _ => .pure (.inl ⟨rfl, fun w => .inr (.inr (hscope w))⟩)
    · exact .pure (.inr ⟨rfl, hscope⟩)

theorem agrees_typeName (h : rules.Agree m n rules') {O : List String → Prop} :
    (typeName rules).Agrees m (n + 1) K (m.Equal IsScope) O (typeName rules') := by
  refine agrees_scopedName fun _ => .step fun angles => ?_
  split
  · exact h.templateArgs
  · exact .pure rfl

theorem agrees_primitiveWords (hK : ∀ k, K k → k.isPrimitive = true) {O : List Token → Prop} :
    primitiveWords.Agrees m n K (List.Forall₂ m.Tokens) O primitiveWords := by
  have hword : ∀ k : Kind, (k.isPrimitive || k == .kwConst) = true →
      (advance : Parse .look Token).Agrees m n (· = k) (m.Taken (· = k)) (fun _ => True) advance := by
    intro k hk
    refine .advance ?_
    rintro rfl
    exact absurd hk (by decide)
  refine .bind_after (.many_first (R := m.Tokens) ?_ ?_) fun tokens tokens' htokens => .pure ?_
  · refine .kind fun k hk => ?_
    rw [hK k hk, Bool.true_or, if_pos rfl]
    exact .map (hword k (by rw [hK k hk, Bool.true_or]))
      (fun _ _ ht => ⟨_, _, ht.same, rfl, rfl⟩) fun _ h => h
  · refine .kind fun k _ => ?_
    split
    · next hk => exact .map (hword k hk) (fun _ _ ht => .some ht.same) fun _ _ => trivial
    · exact .quit .none rfl
  · refine List.rel_filter (fun a b hab => ?_) htokens.1
    dsimp only
    rw [hab.kind]

theorem agrees_namedType (h : rules.Agree m n rules') (mode : Mode) {O : TypeSpec → Prop} :
    (namedType rules mode).Agrees m (n + 1) K (m.Equal TypeSpec.Worded) O
      (namedType rules' mode) := by
  refine .here fun place place' hplace => .known_after (agrees_typeName h) fun segments hscope => ?_
  refine .step fun primitive => ?_
  cases primitive with
  | some primitive => exact .pure ⟨rfl, fun _ => worded_ofPrimitive _ _⟩
  | none =>
    have hnamed : ((pure (.ofName (joinScope segments)) : Parse .look TypeSpec)).Agrees m n Any
        (m.Equal TypeSpec.Worded) Never (pure (.ofName (joinScope segments))) :=
      .pure ⟨rfl, fun w => worded_ofName (hscope w)⟩
    dsimp only
    split
    · refine .step fun known => ?_
      split
      · exact hnamed
      · exact .seq (.fail (congrArg (Fault.grammar _) hplace) fun _ =>
          Fault.not_isForeign_grammar _ _) fun _ => hnamed
    · exact hnamed

theorem agrees_typeSpec (h : rules.Agree m n rules') (mode : Mode) {O : TypeSpec → Prop} :
    (typeSpec rules mode).Agrees m (n + 1) K (m.Equal TypeSpec.Worded) O (typeSpec rules' mode) := by
  refine .step fun _ => .step fun _ => .kind fun k _ => ?_
  have hrest : ∀ spec : TypeSpec, (m.worded → spec.Worded) → ((do skipQualifiers; pure spec) :
      Parse .look TypeSpec).Agrees m n Any (m.Equal TypeSpec.Worded) Never
        (do skipQualifiers; pure spec) :=
    fun spec hspec => .step fun _ => .pure ⟨rfl, hspec⟩
  dsimp only
  split
  · next hk =>
    refine .bind_after (agrees_primitiveWords ?_) fun words words' hwords => ?_
    · rintro _ rfl
      exact hk
    · rw [Matching.map_lexeme_eq hwords, Matching.map_kind_eq hwords]
      exact .pure_then (hrest _ fun _ => worded_ofPrimitive _ _)
  · split
    · next hk =>
      refine .skip ?_ fun _ => .known (agrees_typeName h).below fun segments hscope =>
        .pure_then (hrest _ fun w => worded_ofName (hscope w))
      rintro rfl
      exact absurd hk (by decide)
    · split
      · exact .known_after (agrees_namedType h mode) hrest
      · exact .known_after .unexpected hrest

instance steady_pointers : pointers.Steady :=
  ⟨fun _ _ _ => .seq (.many_eq (.checkAny (.skip (by decide) fun _ => .step fun _ => .pure rfl)
    (.quit rfl rfl))) fun _ => .pure rfl⟩

instance steady_abstractDeclarator : abstractDeclarator.Steady :=
  ⟨fun _ _ _ => .step fun _ => .seq (.many_eq (.check (.after agrees_skipBalanced fun _ => .pure rfl)
    (.quit rfl rfl))) fun _ => .pure rfl⟩

theorem agrees_typeId (h : rules.Agree m n rules') (mode : Mode) {O : TypeSpec × Bool → Prop} :
    (typeId rules mode).Agrees m (n + 1) K Eq O (typeId rules' mode) :=
  .known_after (agrees_typeSpec h mode) fun _ _ => .step fun _ => .pure rfl

theorem agrees_templateArg (h : rules.Agree m n rules') :
    (templateArg rules).Alike m n K (templateArg rules') := by
  refine .seq (.attempt_eq (.seq (agrees_typeId h .lenient).below fun _ => .step fun closes => ?_))
    fun asType => ?_
  · split
    · exact .pure rfl
    · exact .unexpected
  · exact .when (fun _ => .discard (h.expr 0)) fun _ => .steady

theorem agrees_templateArgs (h : rules.Agree m n rules') {O : Unit → Prop} :
    (templateArgs rules).Agrees m (n + 1) K Eq O (templateArgs rules') := by
  refine .require (by decide) fun _ => .seq (.withTemplateArgs (.step fun closes => ?_)) fun _ => .steady
  split
  · exact .pure rfl
  · exact .discard (.separated_eq (agrees_templateArg h))

end Serpentine.Grammar
