import Serpentine.Proofs.Grammar.Agreement.Statements

/-!
# Declarations in agreement
-/

namespace Serpentine

/-! ## Readings of a program -/

section Readings

variable {f : Position → Position} {s t : Store} (h : s.Like f t)

include h

theorem Store.Like.parameterNames (routine : DeclId) :
    Grammar.parameterNames t routine = Grammar.parameterNames s routine := by
  have hparameters : (t.routine? routine).map Routine.parameters =
      (s.routine? routine).map Routine.parameters := by
    have hmap := congrArg (Option.map Routine.parameters) (h.map_routine? routine)
    rwa [Option.map_map, Option.map_map] at hmap
  have hname : t.name? = s.name? := funext h.name?
  rw [Grammar.parameterNames, Grammar.parameterNames, hparameters, hname]

theorem Store.Like.isConstructor (id : DeclId) :
    Grammar.isConstructor t id = Grammar.isConstructor s id := by
  unfold Grammar.isConstructor
  have hentity := h.entity? id
  generalize s.entity? id = e, t.entity? id = e' at hentity
  cases hentity with
  | none => rfl
  | some hlike =>
    cases hlike with
    | routine kind => cases kind <;> rfl
    | _ => rfl

end Readings

namespace Grammar

open Matching

variable {m : Matching} {n : Nat} {K : Kind → Prop} {rules rules' : Rules}

/-! ## Functions -/

instance steady_functionTail : functionTail.Steady := by
  refine ⟨fun _ _ _ => .kind fun k _ => ?_⟩
  split
  case h_1 =>
    refine .step fun _ => .bind .advance_any fun token token' ht => ?_
    rw [ht.same.kind, ht.same.lexeme]
    split
    · exact .pure rfl
    · exact .pure rfl
    · split
      · exact .pure rfl
      · exact .failHere
  case h_2 | h_3 => exact .pure rfl
  case h_4 => exact .here fun _ _ hplace => .unsupported hplace
  case h_5 => exact .pure rfl

instance steady_declareIdent (name : DeclaratorName) (ident : String) :
    (declareIdent name ident).Steady := by
  refine ⟨fun _ _ _ => ?_⟩
  unfold declareIdent
  split
  · exact .steady
  · exact .pure rfl

section Commit

variable {spec spec' : RoutineSpec}
  (hspec : m.Under (RoutineSpec.relocate m.see) (RoutineSpec.Worded m.words) spec spec')
  {place place' : Position} (hplace : m.see place = m.see place')

include hspec hplace

theorem agrees_addRoutine (kind : RoutineKind) (owner : DeclId) {ident : String}
    (hident : m.worded → Script.IsWord ident.toList) :
    (build (.addRoutine kind owner ident spec place)).Alike m n K
      (build (.addRoutine kind owner ident spec' place')) :=
  agrees_build (.addRoutine kind owner ident hspec.1 hplace) fun w _ => ⟨hident w, hspec.2 w⟩

theorem agrees_commitNamed (kind : RoutineKind) (owner : DeclId) (name : DeclaratorName)
    {ident : String} (hident : m.worded → IsName ident) :
    (commitNamed kind owner name ident spec place).Alike m n K
      (commitNamed kind owner name ident spec' place') :=
  .step fun _ => .step fun _ => agrees_addRoutine hspec hplace kind owner fun w => (hident w).word

variable {name : DeclaratorName} (hname : m.worded → name.Worded)

include hname

/-- A member of a class is added in a state that has the class. -/
theorem agreesAt_commitMember {s t : State} {cls : DeclId}
    (hcls : (s.store.class? cls).isSome = true) (tail : Tail) :
    (commitMember cls name spec tail place).AgreesAt m n K Eq Never
      (commitMember cls name spec' tail place') s t := by
  have hlength : spec'.params.length = spec.params.length := by
    have hmap := congrArg (fun spec => spec.params.length) hspec.1
    simpa only [RoutineSpec.relocate, List.length_map] using hmap.symm
  unfold commitMember
  rw [hlength]
  cases hbase : name.base with
  | ident ident =>
    dsimp only
    split
    · exact .pure rfl
    · refine .read fun hr => ?_
      rw [hr.store.name?]
      split
      · exact .map (agreesAt_build (.addConstructor cls hspec.1 hplace) fun w => ⟨hcls, hspec.2 w⟩)
          (fun _ _ => congrArg some) fun _ h => h
      · exact .map (agrees_commitNamed hspec hplace .method cls name fun w =>
          hname w ident hbase).on (fun _ _ => congrArg some) fun _ h => h
  | destructor ident =>
    dsimp only
    split
    · exact .pure rfl
    · exact .map (agreesAt_build (.addDestructor cls hspec.1 hplace) fun w => ⟨hcls, hspec.2 w⟩)
        (fun _ _ => congrArg some) fun _ h => h
  | operator symbol =>
    dsimp only
    split
    · next method hmethod =>
      exact .map (agrees_addRoutine hspec hplace .method cls fun _ =>
        isWord_specialMethod hmethod).on (fun _ _ => congrArg some) fun _ h => h
    · split
      · exact .seq (agrees_warn hplace _).on fun _ => .pure rfl
      · exact Parse.Agrees.on (.unsupported hplace)
  | conversion type =>
    dsimp only
    split
    · next method hmethod =>
      exact .map (agrees_addRoutine hspec hplace .method cls fun _ =>
        isWord_conversionMethod hmethod).on (fun _ _ => congrArg some) fun _ h => h
    · exact Parse.Agrees.on (.unsupported hplace)

theorem agrees_commitFree (owner : DeclId) :
    (commitFree owner name spec place).Alike m n K (commitFree owner name spec' place') := by
  unfold commitFree
  cases hbase : name.base with
  | ident ident =>
    exact .map (agrees_commitNamed hspec hplace .function owner name fun w => hname w ident hbase)
      (fun _ _ => congrArg some) fun _ h => h
  | operator symbol => exact .seq (agrees_warn hplace _) fun _ => .pure rfl
  | conversion type => exact .seq (agrees_warn hplace _) fun _ => .pure rfl
  | destructor cls => exact .failHere

end Commit

section

variable {d d' : Declarator} (hd : m.SameDeclarator d d') {params params' : List ParameterSpec}
  (hparams : m.SameParams params params') (specs : Specifiers) (spec : TypeSpec)

include hd hparams

theorem agrees_commitFunction (tail : Tail) :
    (commitFunction specs spec d params tail).Alike m n K
      (commitFunction specs spec d' params' tail) := by
  have hplace := Declarator.place_eq hd.1
  have hspec : m.Under (RoutineSpec.relocate m.see) (RoutineSpec.Worded m.words)
      (routineSpec specs spec params tail) (routineSpec specs spec params' tail) :=
    ⟨congrArg (routineSpec specs spec · tail) hparams.1, hparams.2⟩
  unfold commitFunction
  rw [Declarator.name_eq hd.1]
  cases hdeclared : d.name with
  | none => exact .failHere
  | some name =>
    have hname := fun w => (hd.2 w).declared hdeclared
    dsimp only
    split
    · exact .pure rfl
    · refine .seq (agrees_ownerOf name.scope hplace).lifted fun owner s t => .read fun hr => ?_
      have hentity := hr.store.entity? owner
      generalize hclass : s.withoutTokens.store.entity? owner = entity,
        t.withoutTokens.store.entity? owner = entity' at hentity
      have hother : (if (routineSpec specs spec params tail).hasBody then
          failHere .functionBodyHere else return none : Parse .declare (Option DeclId)).Steady := by
        refine ⟨fun _ _ _ => ?_⟩
        split
        · exact .failHere
        · exact .pure rfl
      cases hentity with
      | none => exact (hother.agrees m n Any).on
      | some hlike =>
        cases hlike with
        | classType =>
          refine agreesAt_commitMember hspec hplace hname ?_ tail
          show (s.withoutTokens.store.class? owner).isSome = true
          rw [Store.class?, hclass]
          rfl
        | namespaceOf => exact (agrees_commitFree hspec hplace hname owner).on
        | _ => exact (hother.agrees m n Any).on

end

section Rules

variable (h : rules.Agree m n rules')

include h

theorem agrees_memberInits :
    (memberInits rules).Agrees m n K
      (m.UnderList (MemberInit.relocate m.see) (MemberInit.Worded m.words)) Never
      (memberInits rules') := by
  refine .step fun _ => .separated_under (.here fun place place' hplace =>
    .known (agrees_typeName h).below fun segments hscope => .step fun braced => ?_)
  extract_lets made made'
  have hmade : ∀ args args', m.SameExprs args args' → (made args).Agrees m n Any
      (m.Under (MemberInit.relocate m.see) (MemberInit.Worded m.words)) Never (made' args') :=
    fun args args' hargs => .step fun _ => .pure ⟨congrArg₂ (MemberInit.mk _) hargs.1 hplace,
      fun w => ⟨⟨segments, hscope w, rfl⟩, hargs.2 w⟩⟩
  split
  · exact .bind (h.exprList _) hmade
  · exact .step fun _ => .bind (h.exprList _) hmade

theorem agrees_functionDefinition (routine : DeclId) :
    (functionDefinition rules routine).Alike m n K (functionDefinition rules' routine) := by
  refine .withContext routine (.step fun inits => ?_)
  extract_lets body body'
  have hbody : (body ()).Alike m n Any (body' ()) := by
    have hinner : (do
        (parameterNames (← read).store routine).forM (declareName .value ·)
        blockItems rules : Parse .declare (List Stmt)).Agrees m n Any m.SameStmts Never (do
        (parameterNames (← read).store routine).forM (declareName .value ·)
        blockItems rules') := by
      refine .read fun r r' hr => ?_
      rw [hr.store.parameterNames]
      exact .step fun _ => agrees_blockItems h
    have hinside := agrees_scopedUntil (K := fun _ => True) .rBrace "`\x7d`" hinner
      fun _ _ hstmts => agrees_build (.setStatements routine (Stmt.relocateAll_congr hstmts.1))
        fun w _ => hstmts.2 w
    simp only [bind_assoc] at hinside
    exact .step fun _ => hinside
  split
  · refine .bind (agrees_memberInits h).lifted fun inits inits' hinits => .read fun r r' hr => ?_
    rw [hr.store.isConstructor]
    split
    · exact .seq (agrees_build (.setInitializers routine hinits.1) fun w _ => hinits.2 w)
        fun _ => hbody
    · exact .stop .failHere
  · exact hbody

theorem agrees_skipDefinition : (skipDefinition rules).Alike m n K (skipDefinition rules') :=
  .step fun _ => .when (fun _ => .discard (agrees_memberInits h)) fun _ => .steady

variable {d d' : Declarator}

theorem agrees_functionRest (specs : Specifiers) (spec : TypeSpec) (hd : m.SameDeclarator d d')
    {params params' : List ParameterSpec} (hparams : m.SameParams params params') :
    (functionRest rules specs spec d params).Alike m n K
      (functionRest rules' specs spec d' params') := by
  refine .step fun tail => .seq (agrees_commitFunction hd hparams specs spec tail) fun target => ?_
  split
  · cases target with
    | some id => exact .seq (agrees_functionDefinition h id) fun _ => .pure rfl
    | none => exact .seq (agrees_skipDefinition h).lifted fun _ => .pure rfl
  · exact .pure rfl

/-! ## Variables -/

theorem agrees_skipWidth : (skipWidth rules).Alike m n K (skipWidth rules') := by
  refine .step fun colon => ?_
  split
  · exact .seq (.discard (h.expr _)) fun _ => .pure rfl
  · exact .pure rfl

omit h in
theorem agrees_commitVariable (specs : Specifiers) (owner : DeclId) {ident : String}
    (hident : m.worded → IsName ident) {value value' : Option Expr}
    (hvalue : m.SameExpr? value value') {place place' : Position}
    (hplace : m.see place = m.see place') :
    (commitVariable specs owner ident value place).Alike m n K
      (commitVariable specs owner ident value' place') := by
  have hname : m.worded → ∀ n ∈ some ident, IsName n := by simpa using hident
  refine .read fun r r' hr => ?_
  have hentity := hr.store.entity? owner
  generalize r.store.entity? owner = entity, r'.store.entity? owner = entity' at hentity
  cases hentity with
  | none => exact .failHere
  | some hlike =>
    cases hlike with
    | classType =>
      exact .discard (agrees_build (.add _ _ (.attribute specs.isStatic hvalue.1) hplace)
        fun w _ => ⟨hname w, fun _ => rfl, hvalue.2 w, rfl, nofun⟩)
    | namespaceOf =>
      have hnone : value'.isNone = value.isNone := by
        rw [← Option.isNone_map (f := Expr.relocate m.see), ← hvalue.1, Option.isNone_map]
      rw [hnone]
      dsimp only
      split
      · exact .pure rfl
      · exact .discard (agrees_build (.add _ _ (.variableOf false hvalue.1) hplace)
          fun w _ => ⟨hname w, fun _ => rfl, hvalue.2 w, rfl, nofun⟩)
    | _ => exact .failHere

omit h in
instance steady_definedMember? (name : DeclaratorName) (owner : DeclId) (ident : String) :
    (definedMember? name owner ident).Steady := by
  refine ⟨fun _ _ _ => ?_⟩
  unfold definedMember?
  split
  · exact .step fun _ => .pure rfl
  · refine .read fun r r' hr => .pure ?_
    rw [hr.store.members?]

theorem agrees_variableRest (specs : Specifiers) {spec : TypeSpec}
    (hspec : m.worded → spec.Worded) (hd : m.SameDeclarator d d') :
    (variableRest rules specs spec d).Alike m n K (variableRest rules' specs spec d') := by
  unfold variableRest
  rw [Declarator.name_eq hd.1, Declarator.ident?_eq hd.1]
  split
  · refine .seq (agrees_skipWidth h).lifted fun width => ?_
    split
    · exact .pure rfl
    · exact .unexpected
  · exact .failHere
  · next name ident _ hident =>
    have hcommit : ∀ owner value value', m.SameExpr? value value' →
        (commitVariable specs owner ident value d.place).Alike m n Any
          (commitVariable specs owner ident value' d'.place) :=
      fun owner _ _ hvalue => agrees_commitVariable specs owner
        (fun w => (hd.2 w).name ident hident) hvalue (Declarator.place_eq hd.1)
    refine .seq (agrees_skipWidth h).lifted fun _ =>
      .bind (agrees_initialiser? hspec h).below.lifted fun explicit explicit' hexplicit =>
      .seq (agrees_ownerOf name.scope (Declarator.place_eq hd.1)).lifted fun owner =>
      .step fun member => ?_
    cases member with
    | some id =>
      cases rel_of_underOption hexplicit with
      | none => exact .pure rfl
      | some hvalue => exact agrees_build (.setValue id hvalue.1) fun w _ => hvalue.2 w
    | none =>
      cases rel_of_underOption hexplicit with
      | none => exact .bind (agrees_defaultValue? hspec hd).lifted (hcommit owner)
      | some _ => exact .pure_then (hcommit owner _ _ hexplicit)

theorem agrees_declarators (specs : Specifiers) {spec : TypeSpec}
    (hspec : m.worded → spec.Worded) :
    (declarators rules specs spec).Alike m n K (declarators rules' specs spec) := by
  refine .loop_eq fun _ => ?_
  refine .bind (h.declarator .lenient).lifted fun d d' hd => ?_
  extract_lets next
  have hend : ∀ ended : Bool, (next ended).Agrees m n Any Eq (fun r => r.isLeft = true)
      (next ended) := by
    intro ended
    dsimp only [next]
    split
    · exact .quit rfl rfl
    · exact .eat (by decide) (.pure rfl) (.step fun _ => .quit rfl rfl)
  split
  · exact .seq (agrees_commitTypedef hspec hd) fun _ => .pure_then (hend false)
  · have hparams := sameParams_of_sameDeclarator hd
    generalize d.params = params, d'.params = params' at hparams
    cases hparams with
    | some hsome => exact .seq (agrees_functionRest h specs spec hd hsome) hend
    | none =>
      exact .seq (agrees_variableRest h specs hspec hd) fun _ => .pure_then (hend false)

/-! ## Simple declarations -/

omit h in
instance steady_atSpecialMember : atSpecialMember.Steady := by
  refine ⟨fun _ _ _ => .kind fun k _ => ?_⟩
  split
  case h_1 | h_2 => exact .pure rfl
  case h_3 | h_4 =>
    refine .step fun scanned => ?_
    cases scanned with
    | none => exact .pure rfl
    | some scanned =>
      refine .step fun k => ?_
      split
      · split
        · refine .read fun r r' hr => .pure ?_
          rw [hr.context, hr.store.isSome_class?, hr.store.name?]
        · exact .pure rfl
        · exact .pure rfl
      · exact .step fun _ => .pure rfl
      · exact .pure rfl
  case h_5 => exact .pure rfl

variable {O : Unit → Prop}

theorem agrees_specialMember
    (hdeclarator : (Rule.declarator .lenient).Agrees m (n + 1) rules rules') (specs : Specifiers) :
    (specialMember rules specs).Agrees m (n + 1) K Eq O (specialMember rules' specs) := by
  refine .bind_cases hdeclarator.declarator.lifted ?_ ?_
  · intro d d' hd _
    have hparams := sameParams_of_sameDeclarator hd
    generalize d.params = params, d'.params = params' at hparams
    cases hparams with
    | none => exact .unexpected
    | some hsome =>
      refine .seq (agrees_functionRest h specs .none hd hsome) fun body => ?_
      split
      · exact .pure rfl
      · exact .steady
  · intro d d' hd hnone
    rw [Bool.not_eq_true, Option.isSome_eq_false_iff, Option.isNone_iff_eq_none] at hnone
    have hnone' : d'.params = none := by
      have hsome := Declarator.isSome_params_eq hd.1
      rwa [hnone, Option.isSome_none, Option.isSome_eq_false_iff, Option.isNone_iff_eq_none] at hsome
    rw [hnone, hnone']
    exact .unexpected

omit h in
instance steady_endBareDefinition (id : DeclId) : (endBareDefinition id).Steady := by
  refine ⟨fun _ _ _ => .read fun r r' hr => ?_⟩
  rw [hr.context, hr.store.name?, hr.store.isSome_class?, hr.store.isSome_class?]
  split
  · split
    · exact agrees_build (.dissolve id) fun _ _ => trivial
    · exact agrees_warn (hr.store.place id).symm _
  · exact .pure rfl

theorem agrees_simpleDeclaration
    (hdeclarator : (Rule.declarator .lenient).Agrees m (n + 1) rules rules') :
    (simpleDeclaration rules).Agrees m (n + 1) K Eq O (simpleDeclaration rules') := by
  refine .here fun _ _ _ => .step fun specs => ?_
  split
  · exact agrees_skipDeclaration
  · refine .step fun special => ?_
    split
    · exact agrees_specialMember h hdeclarator specs
    · refine .known_after (agrees_declType h) fun spec hspec => .step fun ended => ?_
      split
      · cases spec.defined with
        | none => exact .pure rfl
        | some id => exact Parse.Agrees.steady (p := endBareDefinition id)
      · exact agrees_declarators h specs hspec

/-! ## Other declarations -/

omit h in
theorem agrees_namespaceNames :
    namespaceNames.Agrees m n K (m.Equal fun names => ∀ name ∈ names, IsName name) Never
      namespaceNames := by
  refine .loop (I := m.Equal fun names => ∀ name ∈ names, IsName name)
    ⟨rfl, fun _ => List.forall_mem_nil _⟩ ?_
  rintro done _ ⟨rfl, hdone⟩
  have hreverse : ∀ {names : List String}, (∀ name ∈ names, IsName name) →
      ∀ name ∈ names.reverse, IsName name := fun hnames n hn => hnames n (List.mem_reverse.1 hn)
  refine .check (.bind_after (.advance (by decide)) fun token token' ht => ?_)
    (.quit (.inr ⟨rfl, fun w => hreverse (hdone w)⟩) rfl)
  have hnames := fun w => List.forall_mem_cons.2 ⟨(ht.genuine w).name ht.kind, hdone w⟩
  rw [ht.same.lexeme]
  refine .step fun more => ?_
  split
  · exact .step fun _ => .pure (.inl ⟨rfl, hnames⟩)
  · exact .pure (.inr ⟨rfl, fun w => hreverse (hnames w)⟩)

omit h in
theorem run_build_ok {α : Type} {op : Build α} {s t : State} {a : α}
    (h : (build op).run s = .ok a t) : op.apply s.store = .ok (a, t.store) := by
  change Action.run _ s = _ at h
  unfold Action.run at h
  dsimp only at h
  generalize op.apply s.store = o at h
  cases o with
  | ok made =>
    cases h
    rfl
  | error => cases h

omit h in
/-- Namespaces are put into each other, the outermost one into a module. -/
theorem agreesAt_nestedModules {names : List String} (hnames : m.worded → ∀ n ∈ names, IsName n)
    {place place' : Position} (hplace : m.see place = m.see place') {s t : State} {context : DeclId}
    (hcontext : s.store.Encloses context) :
    (names.foldlM (fun id name => build (.addModule id name place)) context).AgreesAt m n K Eq Never
      (names.foldlM (fun id name => build (.addModule id name place')) context) s t := by
  induction names generalizing K s t context with
  | nil => exact .pure rfl
  | cons name rest ih =>
    have hboth := fun w => List.forall_mem_cons.1 (hnames w)
    refine .bind (agreesAt_build (.addModule context name hplace) fun w => ⟨(hboth w).1, hcontext⟩) ?_
    rintro inner _ u v hrun rfl
    refine ih (fun w => (hboth w).2) ?_
    have hadded := Store.Worded.encloses_addModule (s := s.store) context name place
    rwa [Except.ok.inj (run_build_ok hrun)] at hadded

theorem agrees_namespaceDeclaration :
    (namespaceDeclaration rules).Agrees m (n + 1) K Eq O (namespaceDeclaration rules') := by
  refine .here fun place place' hplace => .require (by decide) fun _ => .known agrees_namespaceNames.lifted
    fun names hnames => .step fun isAlias => ?_
  split
  · exact agrees_skipDeclaration
  · refine .read fun r r' hr s t => .read fun hs => ?_
    rw [hr.context, hs.store.isModule]
    dsimp only
    split
    · next hmodule =>
      exact .seq (agreesAt_nestedModules hnames hplace (.inl hmodule)) fun target => .step fun _ =>
        (bind_pure (popScope : Parse .declare Unit)) ▸
        agrees_scopedUntil _ _ (.withContext target (agrees_declarations h .rBrace))
        fun _ _ _ => .pure rfl
    · exact Parse.Agrees.on (.stop .failHere)

theorem agrees_usingDeclaration :
    (usingDeclaration rules).Agrees m (n + 1) K Eq O (usingDeclaration rules') := by
  refine .require (by decide) fun _ => .check_and .checkAt_then (.here fun place place' hplace =>
    .bind .advance_any fun token token' ht => ?_) agrees_skipDeclaration
  rw [ht.same.lexeme]
  refine .step fun _ => .known (agrees_declType h).below fun spec hspec => .step fun indirect =>
    .seq (agrees_commitTypedef hspec ⟨?_, fun w => ?_⟩) fun _ => .steady
  · exact congrArg (Declarator.mk _ indirect [] none) hplace
  · have hname : ∀ ident ∈ some token.lexeme, IsName ident := by
      simpa using (ht.genuine w).name ht.kind
    exact ⟨hname, List.forall_mem_nil _, by simp⟩

theorem agrees_templateParam :
    (templateParam rules).Agrees m (n + 1) K Eq (fun _ => True) (templateParam rules') := by
  refine .kind fun k _ => ?_
  split
  case h_1 | h_2 =>
    exact .skip (by decide) fun _ => .step fun _ => .known agrees_identifier? fun _ _ => .step fun _ =>
      .when (fun _ => .discard (.withTemplateArgs (agrees_typeId h .lenient).below)) fun _ =>
      .pure rfl
  case h_3 =>
    exact .skip (by decide) fun _ => .step fun _ => .seq h.templateParams fun _ => .step fun _ => .step fun _ =>
      .otherwise (fun _ => .unexpected) fun _ => .known agrees_identifier? fun _ _ => .pure rfl
  case h_4 =>
    exact .known_after (agrees_typeSpec h .lenient) fun _ _ => .step fun _ =>
      .bind (h.declarator .lenient) fun _ _ _ => .step fun _ =>
      .when (fun _ => .discard (.withTemplateArgs (h.expr _))) fun _ => .pure rfl

theorem agrees_templateParams {O : List String → Prop} :
    (templateParams rules).Agrees m (n + 1) K Eq O (templateParams rules') :=
  .after (.separated_eq (agrees_templateParam h)) fun _ => .pure rfl

theorem agrees_templateDeclaration :
    (templateDeclaration rules).Agrees m (n + 1) K Eq O (templateDeclaration rules') := by
  refine .require (by decide) fun _ => .step fun opens => ?_
  split
  · exact agrees_skipDeclaration
  · refine .step fun closes => ?_
    split
    · exact agrees_skipDeclaration
    · exact .seq h.templateParams.lifted fun params => .step fun _ =>
        .underTemplate params h.declaration

theorem agrees_linkageDeclaration (hK : ¬ K .eof) :
    (linkageDeclaration rules).Agrees m (n + 1) K Eq O (linkageDeclaration rules') := by
  refine .skip hK fun _ => .step fun _ => .step fun several => ?_
  split
  · exact .seq (agrees_declarations h .rBrace) fun _ => .steady
  · exact h.declaration

theorem agrees_declaration
    (hdeclarator : (Rule.declarator .lenient).Agrees m (n + 1) rules rules') :
    (declaration rules).Agrees m (n + 1) K Eq O (declaration rules') := by
  refine .kind fun k _ => ?_
  split
  case h_1 => exact .skip_taking (by decide)
  case h_2 => exact agrees_namespaceDeclaration h
  case h_3 =>
    refine .checkAt_then fun inner => ?_
    split
    · exact .skip (by decide) fun _ => (agrees_namespaceDeclaration h).below
    · exact agrees_simpleDeclaration h hdeclarator
  case h_4 => exact agrees_usingDeclaration h
  case h_5 => exact agrees_templateDeclaration h
  case h_6 => exact agrees_skipDeclaration
  case h_7 =>
    refine .checkAt_then fun linkage => ?_
    split
    · exact agrees_linkageDeclaration h (by decide)
    · exact agrees_simpleDeclaration h hdeclarator
  case h_8 | h_9 | h_10 =>
    refine .checkAt_then fun access => ?_
    split
    · exact .skip (by decide) fun _ => .steady
    · exact agrees_simpleDeclaration h hdeclarator
  case h_11 => exact agrees_simpleDeclaration h hdeclarator

end Rules

end Grammar

end Serpentine
