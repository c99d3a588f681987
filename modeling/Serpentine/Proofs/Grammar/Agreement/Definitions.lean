import Serpentine.Proofs.Grammar.Agreement.Declarators

/-!
# Definitions of types in agreement
-/

namespace Serpentine

/-- Base classes that differ in places only. -/
abbrev Matching.SameBases (m : Matching) :
    List (String × Position) → List (String × Position) → Prop :=
  m.UnderList (Prod.map id m.see) fun base => IsScopedName base.1

namespace Grammar

open Matching

variable {m : Matching} {n : Nat} {K : Kind → Prop} {rules rules' : Rules} {α : Type}

instance steady_inRoutine (id : DeclId) : (inRoutine id).Steady :=
  ⟨fun _ _ _ => .read fun _ _ hr => .pure (hr.store.isSome_routine? id).symm⟩

variable {place place' : Position}

theorem agrees_ownerOf (scope : List String) (hplace : m.see place = m.see place') :
    (ownerOf scope place).Alike m n K (ownerOf scope place') := by
  refine .read fun r r' hr => ?_
  rw [hr.context, hr.store.lookupQualified]
  split
  · exact .pure rfl
  · split
    · exact .pure rfl
    · exact .failHere
    · refine .fail (congrArg (Fault.unresolved _ _) hplace) ?_
      rintro - (⟨_, ⟨⟩⟩ | ⟨_, _, ⟨⟩⟩)

theorem agrees_declarations (h : rules.Agree m n rules') (close : Kind) :
    (declarations rules close).Alike m n K (declarations rules' close) := by
  refine .loop_eq fun _ => .step fun closed => ?_
  split
  · exact .quit rfl rfl
  · refine .step fun ended => ?_
    dsimp only
    split
    · exact .stop .unexpected
    · exact .after h.declaration fun _ => .pure rfl

theorem agrees_braced {R : α → α → Prop} {members members' : Parse .declare α} (id : DeclId)
    (h : members.Agrees m n Any R Never members') :
    (braced id members).Agrees m n K R Never (braced id members') :=
  .step fun _ => agrees_scopedUntil _ _ (.withContext id h) fun _ _ => .pure

/-! ## Heads of types -/

/-- Heads of types that differ in places only. -/
inductive TypeHead.Alike (m : Matching) : TypeHead → TypeHead → Prop where
  | plain {spec : TypeSpec} (h : m.worded → spec.Worded) : Alike m (.plain spec) (.plain spec)
  | classUse {segments : List String} (h : m.worded → IsScope segments) :
      Alike m (.classUse segments) (.classUse segments)
  | specialisation {segments : List String} (h : m.worded → IsScope segments) :
      Alike m (.specialisation segments) (.specialisation segments)
  | classDefinition (key : ClassKey) (owner : DeclId) {name : Option String}
      (hname : m.worded → ∀ n ∈ name, IsName n) {bases bases' : List (String × Position)}
      (hbases : m.SameBases bases bases')
      {place place' : Position} (hplace : m.see place = m.see place') :
      Alike m (.classDefinition key owner name bases place)
        (.classDefinition key owner name bases' place')
  | enumUse {name : String} (h : m.worded → IsName name) : Alike m (.enumUse name) (.enumUse name)
  | enumDefinition (owner : DeclId) {name : Option String}
      (hname : m.worded → ∀ n ∈ name, IsName n) (isScoped : Bool)
      {place place' : Position} (hplace : m.see place = m.see place') :
      Alike m (.enumDefinition owner name isScoped place)
        (.enumDefinition owner name isScoped place')

theorem agrees_baseClass (h : rules.Agree m n rules') :
    (baseClass rules).Agrees m (n + 1) K
      (m.Under (Prod.map id m.see) fun base => IsScopedName base.1) Never (baseClass rules') :=
  .seq (agrees_skipAll (by decide)) fun _ => .here fun _ _ hplace => .known (agrees_typeName h)
    fun segments hscope => .step fun _ =>
    .pure ⟨congrArg (Prod.mk (joinScope segments)) hplace, fun w => ⟨segments, hscope w, rfl⟩⟩

theorem agrees_baseClause (h : rules.Agree m n rules') :
    (baseClause rules).Agrees m (n + 1) K m.SameBases Never (baseClause rules') := by
  refine .step fun _ => .bind (.separated_under (agrees_baseClass h)) fun bases bases' hbases =>
    .step fun opens => ?_
  split
  · exact .pure hbases
  · exact .unexpected

section

variable {segments : Option (List String)} (hscope : m.worded → ∀ s ∈ segments, IsScope s)

include hscope

theorem agrees_classOwner (hplace : m.see place = m.see place') :
    (classOwner segments place).Agrees m n K (m.Equal fun owner => ∀ n ∈ owner.2, IsName n) Never
      (classOwner segments place') := by
  cases segments with
  | none =>
    refine .read fun r r' hr => ?_
    rw [hr.context]
    exact .pure ⟨rfl, fun _ => by simp⟩
  | some segments =>
    exact .seq (agrees_ownerOf _ hplace) fun _ =>
      .pure ⟨rfl, fun w => IsScope.getLast (hscope w segments rfl)⟩

theorem agrees_classUse :
    (classUse segments).Agrees m n K (TypeHead.Alike m) Never (classUse segments) := by
  cases segments with
  | none => exact .unexpected
  | some segments => exact .pure (.classUse fun w => hscope w segments rfl)

variable {bases bases' : List (String × Position)}

theorem agrees_classDefinition (key : ClassKey) (hbases : m.SameBases bases bases')
    (hplace : m.see place = m.see place') :
    (classDefinition key segments bases place).Agrees m n K (TypeHead.Alike m) Never
      (classDefinition key segments bases' place') := by
  refine .known (agrees_classOwner hscope hplace) fun owner hname => .step fun inside => ?_
  split
  · exact .unsupported hplace
  · exact .pure (.classDefinition key owner.1 hname hbases hplace)

end

instance steady_skipFinal : skipFinal.Steady := by
  refine ⟨fun _ _ _ => .peek fun token token' ht _ => ?_⟩
  rw [ht.kind, ht.lexeme]
  split
  · exact .steady
  · exact .pure rfl

section

variable (h : rules.Agree m n rules')

include h

theorem agrees_bases? :
    (bases? rules).Agrees m (n + 1) K (Option.Rel m.SameBases) Never (bases? rules') := by
  refine .step fun colon => ?_
  split
  · exact .attempt (agrees_baseClause h)
  · exact .pure (.some underList_nil)

theorem agrees_classBehindName (key : ClassKey) {segments : Option (List String)}
    (hscope : m.worded → ∀ s ∈ segments, IsScope s) (hplace : m.see place = m.see place') :
    (classBehindName rules key segments place).Agrees m (n + 1) K (TypeHead.Alike m) Never
      (classBehindName rules' key segments place') := by
  refine .step fun _ => .bind (agrees_bases? h) fun bases bases' hbases => ?_
  cases hbases with
  | none => exact agrees_classUse hscope
  | some hsome =>
    refine .step fun opens => ?_
    split
    · exact agrees_classDefinition hscope key hsome hplace
    · exact agrees_classUse hscope

theorem agrees_classHead (hK : ¬ K .eof) {O : TypeHead → Prop} :
    (classHead rules).Agrees m (n + 1) K (TypeHead.Alike m) O (classHead rules') := by
  refine .here fun place place' hplace => .bind_after (.advance hK) fun token token' ht => ?_
  rw [ht.same.kind]
  have hbehind : ∀ segments, (m.worded → ∀ s ∈ segments, IsScope s) →
      (classBehindName rules (classKeyOf token.kind) segments place).Agrees m n Any
        (TypeHead.Alike m) Never
        (classBehindName rules' (classKeyOf token.kind) segments place') :=
    fun segments hscope => (agrees_classBehindName h _ hscope hplace).below
  refine .step fun named => ?_
  split
  · refine .known (agrees_scopedName fun _ => .pure rfl).below fun segments hscope =>
      .step fun angles => ?_
    have hnamed := hbehind (some segments) (by simpa using hscope)
    split
    · refine .seq h.templateArgs fun _ => .step fun opens => ?_
      split
      · exact .pure (.specialisation hscope)
      · exact hnamed
    · exact hnamed
  · exact hbehind none fun _ => by simp

omit h in
theorem agrees_identifier? :
    identifier?.Agrees m n K (m.Equal fun name => ∀ n ∈ name, IsName n) Never identifier? := by
  refine .check (.bind .advance_any fun _ _ ht => .pure ⟨congrArg some ht.same.lexeme.symm, ?_⟩)
    (.pure ⟨rfl, fun _ => by simp⟩)
  intro w
  simpa using (ht.genuine w).name ht.kind

theorem agrees_underlyingType :
    (underlyingType rules).Alike m (n + 1) K (underlyingType rules') := by
  refine .step fun _ => .known (agrees_typeSpec h .lenient) fun _ _ => .step fun ended => ?_
  split
  · exact .pure rfl
  · exact .unexpected

theorem agrees_skipUnderlying :
    (skipUnderlying rules).Alike m (n + 1) K (skipUnderlying rules') := by
  refine .step fun colon => ?_
  split
  · exact .discard (.attempt (agrees_underlyingType h))
  · exact .pure rfl

omit h in
theorem agrees_enumBehindName {name : Option String} (hname : m.worded → ∀ n ∈ name, IsName n)
    (isScoped : Bool) (hplace : m.see place = m.see place') :
    (enumBehindName name isScoped place).Agrees m n K (TypeHead.Alike m) Never
      (enumBehindName name isScoped place') := by
  refine .step fun opens => ?_
  split
  · refine .read fun r r' hr => ?_
    rw [hr.context]
    refine .step fun inside => ?_
    split
    · exact .unsupported hplace
    · exact .pure (.enumDefinition _ hname isScoped hplace)
  · cases name with
    | none => exact .unexpected
    | some name => exact .pure (.enumUse fun w => hname w name rfl)

theorem agrees_enumHead {O : TypeHead → Prop} :
    (enumHead rules).Agrees m (n + 1) K (TypeHead.Alike m) O (enumHead rules') :=
  .here fun _ _ hplace => .require (by decide) fun _ => .step fun _ => .known agrees_identifier? fun _ hname =>
    .seq (agrees_skipUnderlying h).below fun _ => agrees_enumBehindName hname _ hplace

theorem agrees_typeHead {O : TypeHead → Prop} :
    (typeHead rules).Agrees m (n + 1) K (TypeHead.Alike m) O (typeHead rules') := by
  refine .kind fun k _ => ?_
  split
  case h_1 | h_2 | h_3 => exact agrees_classHead h (by decide)
  case h_4 => exact agrees_enumHead h
  case h_5 =>
    refine .map (agrees_typeSpec (O := fun _ => True) h .lenient) ?_ fun _ _ => trivial
    rintro spec _ ⟨rfl, hspec⟩
    exact .plain hspec

end

/-! ## Types behind their heads -/

instance steady_announceType (name : String) : (announceType name).Steady := by
  refine ⟨fun _ _ _ => .step fun announced => ?_⟩
  split
  · exact .steady
  · exact .pure rfl

section

variable {segments : List String} (hscope : m.worded → IsScope segments)

include hscope

theorem agrees_useClass :
    (useClass segments).Agrees m n K (m.Equal TypeSpec.Worded) Never (useClass segments) := by
  have hrest : ∀ K : Kind → Prop, ((do forgetTemplate; return .ofName (joinScope segments)) :
      Parse .name TypeSpec).Agrees m n K (m.Equal TypeSpec.Worded) Never
      (do forgetTemplate; return .ofName (joinScope segments)) :=
    fun _ => .step fun _ => .pure ⟨rfl, fun w => worded_ofName (hscope w)⟩
  unfold useClass
  dsimp only
  split
  · exact .step fun _ => hrest _
  · exact hrest _

theorem agrees_skipSpecialisation :
    (skipSpecialisation segments).Agrees m n K (m.Equal TypeSpec.Worded) Never
      (skipSpecialisation segments) := by
  refine .seq (.many_eq ?_) fun _ => .step fun _ => .step fun _ =>
    .pure ⟨rfl, fun w => worded_ofName (hscope w)⟩
  refine .check (.quit rfl rfl) (.check_cases (.stop .unexpected) ?_)
  exact .skip (fun hend => hend.2 rfl) fun _ => .pure rfl

end

variable {bases bases' : List (String × Position)}

theorem agrees_setBases (cls : DeclId) (h : m.SameBases bases bases') :
    (setBases cls bases).Alike m n K (setBases cls bases') := by
  cases forall₂_of_underList h with
  | nil => exact .pure rfl
  | @cons base base' others others' hbase hothers =>
    obtain ⟨raw, place⟩ := base
    obtain ⟨raw', place'⟩ := base'
    obtain ⟨rfl, hplace⟩ := Prod.mk.inj hbase.1
    refine .bind (agrees_nameExpr hbase.2 hplace) fun superclass superclass' hsuper =>
      .seq (agrees_build (.setSuperclass cls hsuper.1) fun w _ => hsuper.2 w) fun _ =>
      .forM hothers ?_
    rintro ⟨raw, place⟩ ⟨raw', place'⟩ hother
    obtain ⟨rfl, hplace⟩ := Prod.mk.inj hother.1
    exact agrees_warn hplace _

instance steady_declareClass (name : Option String) : (declareClass name).Steady := by
  cases name with
  | none => exact steady_forgetTemplate
  | some name => exact ⟨fun _ _ _ => .step fun _ => .steady⟩

section

variable (h : rules.Agree m n rules')

include h

theorem agrees_defineClass (key : ClassKey) (owner : DeclId) {name : Option String}
    (hname : m.worded → ∀ n ∈ name, IsName n) (hbases : m.SameBases bases bases')
    (hplace : m.see place = m.see place') :
    (defineClass rules key owner name bases place).Agrees m n K (m.Equal TypeSpec.Worded) Never
      (defineClass rules' key owner name bases' place') := by
  have hfresh : (Entity.classType (.empty key)).Fresh :=
    ⟨rfl, fun _ hm => (Option.some.inj hm).symm⟩
  exact .seq (agrees_build (.add owner name (.classType rfl) hplace) fun w _ =>
      ⟨hname w, nofun, nofun, hfresh⟩) fun id => .step fun _ =>
    .seq (.withContext owner (agrees_setBases id hbases)) fun _ =>
    .seq (agrees_braced id (agrees_declarations h .rBrace)) fun _ =>
    .pure ⟨rfl, fun w => worded_ofDefinition (hname w) id⟩

theorem agrees_enumerator (id : DeclId) {O : String → Prop} :
    (enumerator rules id).Agrees m (n + 1) K Eq O (enumerator rules' id) :=
  .here fun _ _ hplace => .known_after .identifier fun name hname => .step fun _ =>
    .join (R := m.SameExpr?)
      (fun _ => (Parse.Agrees.some_under (h.expr conditionalPower) fun _ h => h).lifted)
      (fun _ => .pure underOption_none) fun _ _ hinit =>
    .seq (agrees_build (.addEnumerator id name hinit.1 hplace) fun w _ => ⟨hname w, hinit.2 w⟩)
      fun _ => .step fun _ => .pure rfl

theorem agrees_enumerators (id : DeclId) :
    (enumerators rules id).Alike m (n + 1) K (enumerators rules' id) := by
  refine .loop_eq fun done => .step fun closed => ?_
  split
  · exact .quit rfl rfl
  · refine .after (agrees_enumerator h id) fun name => .step fun more => ?_
    split <;> exact .pure rfl

theorem agrees_defineEnum (owner : DeclId) {name : Option String}
    (hname : m.worded → ∀ n ∈ name, IsName n) (isScoped : Bool)
    (hplace : m.see place = m.see place') :
    (defineEnum rules owner name isScoped place).Agrees m n K (m.Equal TypeSpec.Worded) Never
      (defineEnum rules' owner name isScoped place') := by
  have hfresh : (Entity.enumeration (.empty isScoped)).Fresh := ⟨rfl, nofun⟩
  refine .seq (agrees_build (.add owner name (.enumeration rfl) hplace) fun w _ =>
    ⟨hname w, nofun, nofun, hfresh⟩) fun id => ?_
  have hdone : m.Equal TypeSpec.Worded (.ofDefinition name id) (.ofDefinition name id) :=
    ⟨rfl, fun w => worded_ofDefinition (hname w) id⟩
  refine .seq ?_ fun _ => .seq (agrees_braced id ?_) fun names =>
    .otherwise (fun _ => .steady) fun _ => .pure hdone
  · cases name with
    | none => exact .pure rfl
    | some name => exact .steady (p := (declareName .type name : Parse .declare Unit))
  · cases n with
    | zero => exact .zero
    | succ n => exact agrees_enumerators (h.mono (Nat.le_succ n)) id

theorem agrees_complete {head head' : TypeHead} (hhead : head.Alike m head') :
    (head.complete rules).Agrees m n K (m.Equal TypeSpec.Worded) Never (head'.complete rules') := by
  cases hhead with
  | plain hspec => exact .pure ⟨rfl, hspec⟩
  | classUse hscope => exact (agrees_useClass hscope).lifted
  | specialisation hscope => exact (agrees_skipSpecialisation hscope).lifted
  | classDefinition key owner hname hbases hplace =>
    exact agrees_defineClass h key owner hname hbases hplace
  | @enumUse name hname =>
    have huse : (useEnum name).Agrees m n K (m.Equal TypeSpec.Worded) Never (useEnum name) := by
      refine .step fun _ => .pure ⟨rfl, fun w => ?_⟩
      rintro _ ⟨⟩
      exact isScopedName_of_isName (hname w)
    exact huse.lifted
  | enumDefinition owner hname isScoped hplace => exact agrees_defineEnum h owner hname isScoped hplace

theorem agrees_declType {O : TypeSpec → Prop} :
    (declType rules).Agrees m (n + 1) K (m.Equal TypeSpec.Worded) O (declType rules') :=
  .bind_after (agrees_typeHead h).lifted fun _ _ hhead => .known (agrees_complete h hhead)
    fun _ hspec => .step fun _ => .pure ⟨rfl, hspec⟩

end

/-! ## Aliases -/

theorem agrees_commitAlias {name raw : String} (hname : m.worded → IsName name)
    (hraw : m.worded → IsScopedName raw) (hplace : m.see place = m.see place') :
    (commitAlias name raw place).Alike m n K (commitAlias name raw place') := by
  refine .read fun r r' hr => ?_
  rw [hr.context, hr.store.namesType]
  split
  · refine .bind (agrees_nameExpr hraw hplace) fun value value' hvalue => ?_
    have hsome := underOption_some hvalue
    exact .discard (agrees_build (.add _ _ (.variableOf true hsome.1) hplace) fun w _ =>
      ⟨by simpa using hname w, fun _ => rfl, hsome.2 w, rfl, nofun⟩)
  · exact .pure rfl

theorem agrees_commitTypedef {spec : TypeSpec} (hspec : m.worded → spec.Worded) {d d' : Declarator}
    (hd : m.SameDeclarator d d') : (commitTypedef spec d).Alike m n K (commitTypedef spec d') := by
  unfold commitTypedef
  rw [Declarator.ident?_eq hd.1, Declarator.indirect_eq hd.1, Declarator.isEmpty_arrays_eq hd.1,
    Declarator.isSome_params_eq hd.1]
  split
  · exact .failHere
  · next name hident =>
    have hname := fun w => (hd.2 w).name name hident
    refine .step fun _ => ?_
    dsimp only
    split
    · exact .pure rfl
    · split
      · exact .step fun _ => .pure rfl
      · refine fun s t => .read fun hr => ?_
        rw [hr.context, hr.store.isSome_routine?]
        have halias : ∀ raw, spec.named = some raw →
            (commitAlias name raw d.place).Alike m n Any (commitAlias name raw d'.place) :=
          fun raw hraw => agrees_commitAlias hname (fun w => hspec w raw hraw)
            (Declarator.place_eq hd.1)
        split
        · rw [hr.store.name?]
          split
          · next hid =>
            exact .seq (agreesAt_build (.nameAnonymous _ _) fun w =>
              ⟨hname w, Option.isNone_iff_eq_none.1 hid⟩) fun _ => .pure rfl
          · split
            · exact .pure rfl
            · split
              · next hraw => exact (halias _ hraw).on
              · exact .pure rfl
        · split
          · exact .pure rfl
          · split
            · next hraw => exact (halias _ hraw).on
            · exact .pure rfl

end Grammar

end Serpentine
