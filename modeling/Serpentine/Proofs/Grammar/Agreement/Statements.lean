import Serpentine.Proofs.Grammar.Agreement.Definitions

/-!
# Statements in agreement
-/

namespace Serpentine

section Relocation

variable {f : Position → Position}

namespace Stmt

theorem relocateAll_congr {stmts stmts' : List Stmt}
    (h : stmts.map (relocate f) = stmts'.map (relocate f)) :
    relocateAll f stmts = relocateAll f stmts' := by
  rw [relocateAll_eq_map, relocateAll_eq_map, h]

theorem eq_block_nil {s : Stmt} (h : s.relocate f = .block []) : s = .block [] := by
  cases s with
  | block stmts =>
    cases stmts with
    | nil => rfl
    | cons s rest => cases h
  | _ => cases h

theorem relocateCase_eq_iff {c c' : Case Stmt} : relocateCase f c = relocateCase f c' ↔
    c.labels.map (Expr.relocate f) = c'.labels.map (Expr.relocate f) ∧
      c.isDefault = c'.isDefault ∧ c.body.map (relocate f) = c'.body.map (relocate f) ∧
      f c.place = f c'.place := by
  obtain ⟨_, _, _, _⟩ := c
  obtain ⟨_, _, _, _⟩ := c'
  rw [relocateCase, relocateCase, Case.mk.injEq, relocateAll_eq_map, relocateAll_eq_map]

end Stmt

def Grammar.LocalDecl.relocate (f : Position → Position) (v : LocalDecl) : LocalDecl :=
  { v with value := v.value.map (Expr.relocate f), place := f v.place }

theorem Grammar.relocate_grouped (stmts : List Stmt) :
    (grouped stmts).relocate f = grouped (Stmt.relocateAll f stmts) := by
  match stmts with
  | [] | [_] | _ :: _ :: _ => rfl

end Relocation

namespace Matching

open Grammar Stmt

abbrev SameLocals (m : Matching) : List LocalDecl → List LocalDecl → Prop :=
  m.UnderList (LocalDecl.relocate m.see) (LocalDecl.Worded m.words)

abbrev SameCase (m : Matching) : Case Stmt → Case Stmt → Prop :=
  m.Under (Stmt.relocateCase m.see) (CaseWorded m.words)

abbrev SameCases (m : Matching) : List (Case Stmt) → List (Case Stmt) → Prop :=
  m.UnderList (Stmt.relocateCase m.see) (CaseWorded m.words)

variable {m : Matching} {stmts stmts' : List Stmt}

theorem sameStmt_block (h : m.SameStmts stmts stmts') : m.SameStmt (.block stmts) (.block stmts') :=
  ⟨congrArg Stmt.block (relocateAll_congr h.1), fun w => worded_block (h.2 w)⟩

theorem sameStmt_grouped (h : m.SameStmts stmts stmts') :
    m.SameStmt (grouped stmts) (grouped stmts') :=
  ⟨by rw [relocate_grouped, relocate_grouped, relocateAll_congr h.1],
    fun w => worded_grouped (h.2 w)⟩

theorem sameStmts_toBlock {s s' : Stmt} (h : m.SameStmt s s') :
    m.SameStmts s.toBlock s'.toBlock := by
  refine ⟨?_, fun w => worded_toBlock (h.2 w)⟩
  rw [← relocateAll_eq_map, ← toBlock_relocate, h.1, toBlock_relocate, relocateAll_eq_map]

/-- A group of a switch with more labels and statements. -/
theorem sameCase_append {c c' : Case Stmt} (h : m.SameCase c c') {labels labels' : List Expr}
    (hlabels : m.SameExprs labels labels') (hstmts : m.SameStmts stmts stmts') :
    m.SameCase { c with labels := c.labels ++ labels, body := c.body ++ stmts }
      { c' with labels := c'.labels ++ labels', body := c'.body ++ stmts' } := by
  obtain ⟨hlabels', hdefault, hbody, hplace⟩ := relocateCase_eq_iff.1 h.1
  refine ⟨relocateCase_eq_iff.2 ⟨?_, hdefault, ?_, hplace⟩, fun w =>
    ⟨List.forall_mem_append.2 ⟨(h.2 w).1, hlabels.2 w⟩,
      List.forall_mem_append.2 ⟨(h.2 w).2, hstmts.2 w⟩⟩⟩
  · rw [List.map_append, List.map_append, hlabels', hlabels.1]
  · rw [List.map_append, List.map_append, hbody, hstmts.1]

theorem sameCases_openCase {cases cases' : List (Case Stmt)} (hcases : m.SameCases cases cases')
    {place place' : Position} (hplace : m.see place = m.see place') {g g' : Case Stmt → Case Stmt}
    (hg : ∀ c c', m.SameCase c c' → m.SameCase (g c) (g' c')) :
    m.SameCases (openCase cases place g) (openCase cases' place' g') := by
  have hnew : m.SameCase (g ⟨[], false, [], place⟩) (g' ⟨[], false, [], place'⟩) :=
    hg _ _ ⟨congrArg (Case.mk [] false []) hplace,
      fun _ => ⟨List.forall_mem_nil _, List.forall_mem_nil _⟩⟩
  cases forall₂_of_underList hcases with
  | nil => exact underList_cons hnew underList_nil
  | @cons c c' rest rest' hc hrest =>
    have hbody : c'.body.isEmpty = c.body.isEmpty := by
      rw [← List.isEmpty_map (f := Stmt.relocate m.see), ← (relocateCase_eq_iff.1 hc.1).2.2.1,
        List.isEmpty_map]
    rw [openCase, openCase, hbody]
    split
    · exact underList_cons (hg _ _ hc) (underList_of_forall₂ hrest)
    · exact underList_cons hnew hcases

end Matching

namespace Grammar

open Matching Stmt

variable {m : Matching} {n : Nat} {K : Kind → Prop} {rules rules' : Rules}

/-! ## Declarations in a block -/

instance steady_looksLikeDeclaration : looksLikeDeclaration.Steady := by
  refine ⟨fun _ _ _ => .step fun k => ?_⟩
  split
  · exact .pure rfl
  · refine .step fun scanned => ?_
    cases scanned with
    | none => exact .pure rfl
    | some scanned =>
      refine .step fun known => ?_
      split
      · exact .pure rfl
      · refine .step fun k => ?_
        split
        · exact .pure rfl
        · refine .step fun after => ?_
          cases after with
          | none => exact .pure rfl
          | some after => exact .steady
        · exact .pure rfl

section Rules

variable (h : rules.Agree m n rules')

include h

section

variable {spec : TypeSpec} (hspec : m.worded → spec.Worded)

include hspec

theorem agrees_localDecl? :
    (localDecl? rules spec).Agrees m n K
      (m.UnderOption (LocalDecl.relocate m.see) (LocalDecl.Worded m.words)) Never
      (localDecl? rules' spec) := by
  refine .bind (h.declarator .strict) fun d d' hd => ?_
  rw [Declarator.isSome_params_eq hd.1, Declarator.ident?_eq hd.1]
  split
  · exact .pure underOption_none
  · split
    · exact .unexpected
    · next name hident =>
      exact .bind (agrees_firstValue? hspec hd h).below fun value value' hvalue =>
        .pure (underOption_some ⟨congrArg₂ (LocalDecl.mk _) hvalue.1 (Declarator.place_eq hd.1),
          fun w => ⟨(hd.2 w).name name hident, hvalue.2 w⟩⟩)

theorem agrees_localDecls :
    (localDecls rules spec).Agrees m n K m.SameLocals Never (localDecls rules' spec) := by
  refine .step fun _ => .step fun ended => ?_
  split
  · exact .pure underList_nil
  · refine .bind (.separated_under (agrees_localDecl? h hspec)) fun locals locals' hlocals =>
      .step fun _ => .pure ⟨?_, fun w v hv => ?_⟩
    · have hsome := congrArg (List.filterMap id) hlocals.1
      rw [List.filterMap_map, List.filterMap_map] at hsome
      rw [List.map_filterMap, List.map_filterMap]
      exact hsome
    · obtain ⟨v?, hmem, hv⟩ := List.mem_filterMap.1 hv
      exact hlocals.2 w v? hmem v hv

end

theorem agrees_blockHead {O : TypeHead → Prop} :
    (blockHead rules).Agrees m (n + 1) K (TypeHead.Alike m) O (blockHead rules') :=
  .step fun _ => agrees_typeHead h

theorem agrees_blockDeclaration {O : List LocalDecl → Prop} :
    (blockDeclaration rules).Agrees m (n + 1) K m.SameLocals O (blockDeclaration rules') :=
  .bind_after (agrees_blockHead h).lifted fun _ _ hhead => .known (agrees_complete h hhead)
    fun _ hspec => (agrees_localDecls h hspec).lifted

omit h in
theorem agrees_commitLocal {v v' : LocalDecl}
    (hv : m.Under (LocalDecl.relocate m.see) (LocalDecl.Worded m.words) v v') :
    (commitLocal v).Agrees m n K m.SameStmt Never (commitLocal v') := by
  obtain ⟨name, value, place⟩ := v
  obtain ⟨name', value', place'⟩ := v'
  obtain ⟨rfl, hvalue, hplace⟩ := LocalDecl.mk.inj hv.1
  refine .read fun r r' hr => ?_
  rw [hr.context]
  exact .seq (agrees_build (.addLocal _ _ hplace) fun w _ => (hv.2 w).name) fun _ => .step fun _ =>
    .pure ⟨congrArg (Stmt.declare _) hvalue, fun w => ⟨(hv.2 w).name, (hv.2 w).value⟩⟩

omit h in
theorem agrees_commitLocals {locals locals' : List LocalDecl} (h : m.SameLocals locals locals') :
    (commitLocals locals).Agrees m n Any m.SameStmt Never (commitLocals locals') :=
  .bind (.mapM (forall₂_of_underList h) fun _ _ hv => agrees_commitLocal hv)
    fun _ _ hstmts => .pure (sameStmt_grouped (underList_of_forall₂ hstmts))

theorem agrees_blockDeclaration? :
    (blockDeclaration? rules).Agrees m (n + 1) K (Option.Rel m.SameLocals)
      (fun r => r.isSome = true) (blockDeclaration? rules') := by
  refine .step fun looks => ?_
  split
  · exact .speculate (agrees_blockDeclaration (O := fun _ => True) h) (fun _ _ => trivial)
      Bool.false_ne_true
  · exact .quit .none rfl

/-! ## Expressions -/

omit h in
instance steady_endStatement : endStatement.Steady :=
  steady_require _ _

omit h in
theorem agrees_expressionStatement (h : (Rule.expr 0).Agrees m n rules rules') {O : Stmt → Prop} :
    (expressionStatement rules).Agrees m n K m.SameStmt O (expressionStatement rules') := by
  refine .bind_after (.separated_under h.expr) fun exprs exprs' hexprs => .step fun _ =>
    .pure (sameStmt_grouped ⟨?_, fun w => List.forall_mem_map.2 (hexprs.2 w)⟩)
  rw [List.map_map, List.map_map]
  have hstmts := congrArg (List.map Stmt.expr) hexprs.1
  rwa [List.map_map, List.map_map] at hstmts

theorem agrees_expression? :
    (expression? rules).Agrees m n K m.SameExpr? Never (expression? rules') := by
  refine .step fun ended => ?_
  split
  · exact .pure underOption_none
  · exact .some_under (h.expr 0) fun _ h => h

theorem agrees_conditionDeclaration :
    (conditionDeclaration rules).Alike m n K (conditionDeclaration rules') :=
  .step fun _ => .known (agrees_typeSpec h .strict).below fun _ _ =>
    .bind (h.declarator .strict) fun _ _ _ => .steady

theorem agrees_condition :
    (condition rules).Agrees m n K m.SameExpr Never (condition rules') := by
  refine .step fun _ => .step fun looks => ?_
  extract_lets rest rest'
  have hrest : (rest ()).Agrees m n Any m.SameExpr Never (rest' ()) :=
    .bind (h.expr 0) fun _ _ he => .step fun _ => .pure he
  split
  · refine .seq (.attempt_eq (agrees_conditionDeclaration h)) fun declares => ?_
    split
    · exact .here fun _ _ hplace => .stop (.unsupported hplace)
    · exact hrest
  · exact hrest

/-! ## Compound statements -/

theorem agrees_body : (body rules).Agrees m n K m.SameStmts Never (body rules') :=
  .bind h.statement fun _ _ hs => .pure (sameStmts_toBlock hs)

theorem agrees_blockItems :
    (blockItems rules).Agrees m n K m.SameStmts Never (blockItems rules') := by
  refine .loop (I := m.SameStmts) underList_nil fun done done' hdone => ?_
  refine .step fun closed => ?_
  split
  · exact .quit (.inr (underList_reverse hdone)) rfl
  · refine .step fun ended => ?_
    dsimp only
    split
    · exact .stop .unexpected
    · refine .bind_after h.statement fun s s' hs => ?_
      split
      · rw [eq_block_nil hs.1.symm]
        exact .pure (.inl hdone)
      · next hempty =>
        split
        · exact (hempty (eq_block_nil hs.1)).elim
        · exact .pure (.inl (underList_cons hs hdone))

theorem agrees_forEachHead :
    (forEachHead rules).Agrees m n K
      (m.Under (Prod.map id (Prod.map (Expr.relocate m.see) m.see))
        fun head => IsName head.1 ∧ head.2.1.Worded m.words) Never
      (forEachHead rules') := by
  refine .step fun _ => .known (agrees_typeSpec h .lenient).below fun _ _ =>
    .bind (h.declarator .strict) fun d d' hd => ?_
  rw [Declarator.ident?_eq hd.1]
  split
  · exact .unexpected
  · next name hident =>
    exact .step fun _ => .bind (h.expr 0) fun items items' hitems => .step fun _ =>
      .pure ⟨congrArg₂ (fun items place => (_, items, place)) hitems.1 (Declarator.place_eq hd.1),
        fun w => ⟨(hd.2 w).name name hident, hitems.2 w⟩⟩

theorem agrees_forInit :
    (forInit rules).Agrees m n K m.SameStmts Never (forInit rules') := by
  refine .step fun ended => ?_
  split
  · exact .pure underList_nil
  · refine .bind (agrees_blockDeclaration? h).below.forget fun locals locals' hlocals => ?_
    cases hlocals with
    | some hlocals =>
      exact .bind (agrees_commitLocals hlocals) fun _ _ hs => .pure (sameStmts_toBlock hs)
    | none =>
      exact .bind (agrees_expressionStatement (h _)).lifted fun _ _ hs => .pure (sameStmts_toBlock hs)

theorem agrees_forBehindParen :
    (forBehindParen rules).Agrees m n K m.SameStmt Never (forBehindParen rules') := by
  refine .bind (Parse.Agrees.attempt (agrees_forEachHead h)).lifted fun head head' hhead => ?_
  cases hhead with
  | @some head head' hsome =>
    obtain ⟨name, items, place⟩ := head
    obtain ⟨name', items', place'⟩ := head'
    obtain ⟨rfl, hitems, hplace⟩ : name = name' ∧ items.relocate m.see = items'.relocate m.see ∧
        m.see place = m.see place' := by
      simpa only [Prod.map_apply, id_eq, Prod.mk.injEq] using hsome.1
    refine .read fun r r' hr => ?_
    rw [hr.context]
    exact .seq (agrees_build (.addLocal _ _ hplace) fun w _ => (hsome.2 w).1) fun _ =>
      .step fun _ => .bind (agrees_body h) fun _ _ hstmts =>
        .pure ⟨congrArg₂ (Stmt.forEach name) hitems (relocateAll_congr hstmts.1),
          fun w => ⟨hsome.2 w, everyIn_iff.2 (hstmts.2 w)⟩⟩
  | none =>
    refine .bind (agrees_forInit h) fun init init' hinit =>
      .bind (agrees_expression? h).lifted fun test test' htest => .step fun _ => .step fun closed =>
      .join (R := m.SameExprs) (fun _ => .pure underList_nil)
        (fun _ => .separated_under (O := False) (h.expr 0).lifted) fun update update' hupdate =>
      .step fun _ => .bind (agrees_body h) fun stmts stmts' hstmts =>
        .pure ⟨?_, fun w => ⟨⟨htest.2 w, hupdate.2 w⟩, everyIn_iff.2 (hinit.2 w),
          everyIn_iff.2 (hstmts.2 w)⟩⟩
    simp only [Stmt.relocate, relocateAll_congr hinit.1, htest.1, hupdate.1,
      relocateAll_congr hstmts.1]

/-! ## Switches -/

theorem agrees_switchCases :
    (switchCases rules).Agrees m n K m.SameCases Never (switchCases rules') := by
  refine .loop (I := m.SameCases) underList_nil fun cases cases' hcases => ?_
  have hbelow := h.mono (Nat.sub_le n 1)
  refine .here fun place place' hplace => .kind fun k _ => ?_
  split
  case h_1 => exact .quit (.inr (underList_reverse hcases)) rfl
  case h_2 =>
    refine .skip (by decide) fun _ => .bind (hbelow.expr _).lifted fun label label' hlabel => .step fun _ =>
      .pure (.inl (sameCases_openCase hcases hplace fun c c' hc => ?_))
    simpa only [List.append_nil] using
      sameCase_append hc (underList_cons hlabel underList_nil) underList_nil
  case h_3 =>
    refine .skip (by decide) fun _ => .step fun _ =>
      .pure (.inl (sameCases_openCase hcases hplace fun c c' hc => ⟨?_, hc.2⟩))
    obtain ⟨hlabels, -, hrest⟩ := relocateCase_eq_iff.1 hc.1
    exact relocateCase_eq_iff.2 ⟨hlabels, rfl, hrest⟩
  case h_4 => exact .unexpected
  case h_5 =>
    refine .bind_after h.statement fun s s' hs => ?_
    cases forall₂_of_underList hcases with
    | nil => exact .unsupported hplace
    | cons hc hrest =>
      refine .pure (.inl (underList_cons ?_ (underList_of_forall₂ hrest)))
      simpa only [List.append_nil] using
        sameCase_append hc underList_nil (underList_cons hs underList_nil)

theorem agrees_switchStatement :
    (switchStatement rules).Agrees m n K m.SameStmt Never (switchStatement rules') := by
  refine .bind (agrees_condition h).lifted fun subject subject' hsubject => .step fun _ =>
    agrees_scopedUntil _ _ (agrees_switchCases h) fun cases cases' hcases =>
    .pure ⟨congrArg₂ Stmt.switch hsubject.1 ?_, fun w => ⟨⟨hsubject.2 w,
      fun c hc => (hcases.2 w c hc).1⟩, everyInCases_iff.2 fun c hc =>
        everyIn_iff.2 (hcases.2 w c hc).2⟩⟩
  rw [relocateCases_eq_map, relocateCases_eq_map, hcases.1]

/-! ## Statements -/

theorem agrees_keywordStatement?
    (hdeclaration : Rule.declaration.Agrees m (n + 1) rules rules') (k : Kind)
    {place place' : Position} (hplace : m.see place = m.see place') :
    (keywordStatement? rules k place).Agrees m (n + 1) (· = k) (Option.Rel m.SameStmt)
      (fun r => r.isSome = true) (keywordStatement? rules' k place') := by
  unfold keywordStatement?
  split
  case h_1 =>
    exact .skip (by decide) fun _ => agrees_scopedUntil _ _ (agrees_blockItems h) fun _ _ hstmts =>
      .pure (.some (sameStmt_block hstmts))
  case h_2 => exact .skip (by decide) fun _ => .pure (.some (sameStmt_block underList_nil))
  case h_3 =>
    refine .skip (by decide) fun _ => .step fun _ => .bind (agrees_condition h).lifted fun test test' htest =>
      .bind (agrees_body h) fun ifTrue ifTrue' htrue => .step fun more =>
      .join (R := Option.Rel m.SameStmts) (fun _ => .map_some (agrees_body h) fun _ _ => .some)
        (fun _ => .pure .none) fun ifFalse ifFalse' hfalse => ?_
    cases hfalse with
    | none =>
      exact .pure (.some ⟨by simp only [Stmt.relocate, htest.1, relocateAll_congr htrue.1],
        fun w => ⟨htest.2 w, everyIn_iff.2 (htrue.2 w), trivial⟩⟩)
    | some hfalse =>
      refine .pure (.some ⟨?_, fun w =>
        ⟨htest.2 w, everyIn_iff.2 (htrue.2 w), everyIn_iff.2 (hfalse.2 w)⟩⟩)
      simp only [Stmt.relocate, relocateElse, htest.1, relocateAll_congr htrue.1,
        relocateAll_congr hfalse.1]
  case h_4 =>
    exact .skip (by decide) fun _ => .bind (agrees_condition h).lifted fun _ _ htest =>
      .bind (agrees_body h) fun _ _ hstmts =>
      .pure (.some ⟨congrArg₂ Stmt.whileLoop htest.1 (relocateAll_congr hstmts.1),
        fun w => ⟨htest.2 w, everyIn_iff.2 (hstmts.2 w)⟩⟩)
  case h_5 =>
    exact .skip (by decide) fun _ => .bind (agrees_body h) fun _ _ hstmts => .step fun _ =>
      .bind (agrees_condition h).lifted fun _ _ htest => .step fun _ =>
      .pure (.some ⟨congrArg₂ Stmt.doWhile (relocateAll_congr hstmts.1) htest.1,
        fun w => ⟨htest.2 w, everyIn_iff.2 (hstmts.2 w)⟩⟩)
  case h_6 =>
    exact .skip (by decide) fun _ => .step fun _ =>
      agrees_scoped (agrees_forBehindParen h) fun _ _ hs => .pure (.some hs)
  case h_7 => exact .skip (by decide) fun _ => .map_some (agrees_switchStatement h) fun _ _ => .some
  case h_8 | h_9 => exact .skip (by decide) fun _ => .step fun _ => .pure (.some ⟨rfl, fun _ => trivial⟩)
  case h_10 =>
    exact .skip (by decide) fun _ => .bind (agrees_expression? h).lifted fun _ _ hvalue => .step fun _ =>
      .pure (.some ⟨congrArg Stmt.ret hvalue.1, hvalue.2⟩)
  case h_11 =>
    exact .skip (by decide) fun _ => .bind (agrees_expression? h).lifted fun _ _ hvalue => .step fun _ =>
      .pure (.some ⟨congrArg Stmt.throw hvalue.1, hvalue.2⟩)
  case h_12 =>
    exact .skip (by decide) fun _ => .step fun _ => .when (fun _ => .steady) fun _ =>
      .bind (h.expr 0).lifted fun _ _ htarget => .step fun _ =>
      .pure (.some ⟨congrArg Stmt.delete htarget.1, htarget.2⟩)
  case h_13 | h_14 => exact .unsupported hplace
  case h_15 | h_16 => exact .failHere
  case h_17 | h_18 | h_19 =>
    exact .after hdeclaration.declaration fun _ => .pure (.some (sameStmt_block underList_nil))
  case h_20 | h_21 | h_22 | h_23 =>
    exact .map (O := fun _ => True) (.bind_after (agrees_blockDeclaration h)
      fun _ _ hlocals => agrees_commitLocals hlocals) (fun _ _ => .some) fun _ _ => trivial
  case h_24 => exact .quit .none rfl

theorem agrees_statement
    (hexpr : (Rule.expr 0).Agrees m (n + 1) rules rules')
    (hdeclaration : Rule.declaration.Agrees m (n + 1) rules rules') {O : Stmt → Prop} :
    (statement rules).Agrees m (n + 1) K m.SameStmt O (statement rules') := by
  refine .here fun place place' hplace => .kind fun k _ => .found
    (agrees_keywordStatement? h hdeclaration k hplace) (fun _ _ hs => .pure hs)
    (.step fun label => ?_)
  dsimp only
  split
  · exact .stop (.unsupported hplace)
  · exact .found (agrees_blockDeclaration? h) (fun _ _ hlocals => agrees_commitLocals hlocals)
      (agrees_expressionStatement hexpr).lifted

end Rules

end Grammar

end Serpentine
