import Serpentine.Proofs.Lowering.Names
import Serpentine.Proofs.Reference.Wording

/-!
# The lines of lowered modules

A program whose names and literals are as tokens give them is lowered to a module with the lines it
should have: each part of a line stays in its line, and a line that announces no block does not look
as if it did (**`Scene.plain_lowerModule`**).
-/

namespace Serpentine

theorem IsScopedName.oneLine {raw : String} (h : IsScopedName raw) : IsOneLine raw := by
  obtain ⟨segments, ⟨names, -, hnames, hsegments⟩, rfl⟩ := h
  have hlines : ∀ name ∈ names, IsOneLine name := fun name hname => (hnames name hname).isTitle.oneLine
  refine Script.isOneLine_intercalate (by decide) ?_
  rcases hsegments with rfl | rfl
  · exact hlines
  · exact List.forall_mem_cons.2 ⟨by decide, hlines⟩

variable {W : NameRef → Prop} {id : DeclId}

theorem Store.Worded.isOneLine_name {s : Store} (hs : s.Worded W) (hid : id ≠ Store.root) :
    IsOneLine ((s.name? id).getD "") := by
  cases hname : s.name? id with
  | none => decide
  | some name => exact (hs.names id name hid hname).oneLine

namespace Lowering

open Lower
open Script (Term Item Def ItemsArePlain isOneLine_identifier
  itemsArePlain_singleton)
open Script.Stmt (ArePlain holdsAll_append holdsAll_singleton holdsAll_iff)

/-! ## Expressions and statements -/

theorem isPlain_literalText {kind : LiteralKind} {text : String} (h : kind.Spells text) :
    Script.IsPlain (literalText kind text) := by
  cases kind with
  | int => exact Script.isPlain_intLiteral h
  | float => exact Script.isPlain_floatLiteral h
  | char | string => exact Script.isPlain_quotedLiteral h
  | bool =>
    unfold literalText
    dsimp only
    split <;> decide
  | null => exact (by decide : Script.IsPlain "None")

theorem isPlain_nameLine {name : String} (h : IsTitle name) {v : Term} (hv : v.IsPlain) :
    Script.IsPlain (Script.Stmt.assign [.atom (Script.identifier name)] v).lineText :=
  Script.Stmt.isPlain_assign (List.forall_mem_singleton.2
    (Term.isPlain_atom (Script.isPlain_identifier h))) hv

namespace Env

variable {env : Env}

section Bodies

variable (htable : ∀ entry ∈ env.table, IsSpelling entry.2.name)

include htable

theorem composes_isPlain : env.Composes (Expr.Worded W) Term.IsPlain where
  literal h := by
    cases h with
    | literal h => exact Term.isPlain_atom (isPlain_literalText h)
  name h := by
    refine Term.isPlain_atom (isPlain_nameText htable ?_)
    rcases h with h | h
    · cases h with
      | name h => exact h
    · cases h with
      | «scoped» h => exact h
  typeText type := Term.isPlain_atom (by cases type <;> decide)
  castText type := Term.isPlain_atom (by cases type <;> decide)
  self := Term.isPlain_atom (by decide)
  one := Term.isPlain_int 1
  list := Term.isPlain_list
  attr h ht := by
    cases h with
    | member _ hname => exact Term.isPlain_attr ht (isOneLine_identifier hname.isTitle.oneLine)
  unary op := Term.isPlain_unary op
  binary op := Term.isPlain_binary op
  conditional := Term.isPlain_conditional
  paren := Term.isPlain_paren
  index := Term.isPlain_index
  call := Term.isPlain_call
  walrus _ _ _ := Term.isPlain_walrus

theorem finishes_isPlain : Finishes env (Expr.Worded W) (Stmt.Worded W) Term.IsPlain
    (fun t => IsOneLine t.text) Term.IsPlain IsOneLine fun s => Script.IsPlain s.lineText where
  exprs hs e he := (Stmt.worded_exprs hs e he).parts
  test h := h.oneLine _
  noTest := by decide
  always := Term.isPlain_atom (by decide)
  nothing := Term.isPlain_atom (by decide)
  int := Term.isPlain_int
  range := Term.isPlain_atom (by decide)
  target _ _ _ h := h
  eval := Script.Stmt.isPlain_eval
  assign hts hv := Script.Stmt.isPlain_assign hts hv
  augment ht hv := Script.Stmt.isPlain_augment ht _ hv
  ret := Script.Stmt.isPlain_ret
  raise := Script.Stmt.isPlain_raise
  plain := ⟨by decide, by decide, by decide, by decide⟩
  declare hs hv := isPlain_nameLine hs.1.isTitle hv
  delete _ _ h := Script.Stmt.isPlain_del h
  declared hs := isOneLine_identifier hs.1.isTitle.oneLine
  assigned hs := by
    have hassign : (Expr.assign none (.name _) _).Worded W := hs
    cases hassign with
    | assign htarget _ =>
      cases htarget with
      | name h => exact (isPlain_nameText htable h).oneLine
  each hs := isOneLine_identifier hs.1.1.isTitle.oneLine

theorem oneLine_globals (body : List Stmt) : ∀ name ∈ env.globals body, IsOneLine name := by
  intro name hname
  obtain ⟨r, hr, rfl⟩ := List.mem_map.1 ((Sorted.mem_foldl_insert _ _).1 hname |>.resolve_left nofun)
  obtain ⟨target, -, hbound⟩ := List.mem_filterMap.1 (List.mem_filter.1 hr).1
  obtain ⟨ref, -, hget⟩ := Option.bind_eq_some_iff.1 hbound
  exact isOneLine_identifier (htable _ (mem_of_lookup hget)).titles.oneLine

end Bodies

end Env

/-! ## Items -/

theorem isPlain_selfAttr {name : String} (h : IsOneLine name) : (selfAttr name).IsPlain :=
  Term.isPlain_attr (Term.isPlain_atom (by decide)) (isOneLine_identifier h)

theorem isPlain_selfLine {name : String} (h : IsOneLine name) {v : Term} (hv : v.IsPlain) :
    Script.IsPlain (Script.Stmt.assign [selfAttr name] v).lineText :=
  Script.Stmt.isPlain_assign (List.forall_mem_singleton.2 (isPlain_selfAttr h)) hv

theorem isPlain_superInit {args : List Term} (h : ∀ t ∈ args, t.IsPlain) :
    (superInit args).IsPlain := by
  have hsuper : (Term.call (.atom "super") []).IsPlain :=
    Term.isPlain_call (Term.isPlain_atom (by decide)) nofun
  have hinit : (Term.attr (.call (.atom "super") []) "__init__").IsPlain :=
    Term.isPlain_attr hsuper (by decide)
  exact Script.Stmt.isPlain_eval (Term.isPlain_call hinit h)

namespace Scene

theorem isOneLine_toString (n : Nat) : IsOneLine (toString n) :=
  (Script.isPlain_toString n).oneLine

theorem isOneLine_initName (n : Nat) : IsOneLine (initName n) :=
  isOneLine_append.2 ⟨by decide, isOneLine_toString n⟩

theorem plain_dispatcher {className : String} (hname : IsOneLine className) (arities : List Nat) :
    (dispatcher className arities).IsPlain := by
  have hmessage : IsOneLine (arityMessage className arities) := by
    have htexts : ∀ text ∈ arities.map toString, IsOneLine text := by
      intro text htext
      obtain ⟨n, -, rfl⟩ := List.mem_map.1 htext
      exact isOneLine_toString n
    have hlast : IsOneLine ((arities.map toString).getLast?.getD "") := by
      cases hlast : (arities.map toString).getLast? with
      | none => decide
      | some text => exact htexts text (List.mem_of_getLast? hlast)
    unfold arityMessage
    simp only [isOneLine_append]
    exact ⟨⟨⟨⟨⟨isOneLine_identifier hname, by decide⟩, Script.isOneLine_intercalate (by decide)
      fun text htext => htexts text ((List.dropLast_sublist _).subset htext)⟩, by decide⟩, hlast⟩, by decide⟩
  have hatom {text : String} (h : Script.IsPlain text) : (Term.atom text).IsPlain :=
    Term.isPlain_atom h
  have hbranch (n : Nat) : Script.Stmt.HoldsBranch (fun t => IsOneLine t.text) IsOneLine
      (fun s => Script.IsPlain s.lineText) (arityBranch n) := by
    refine ⟨?_, holdsAll_singleton ?_⟩
    · have hlen := Term.isPlain_call (hatom (show Script.IsPlain "len" by decide))
        (List.forall_mem_singleton.2 (hatom (show Script.IsPlain "args" by decide)))
      exact (Term.isPlain_binary .eq hlen (Term.isPlain_int n)).oneLine _
    · have hself : Term.self.IsPlain := hatom (by decide)
      have hargs : (Term.atom allArgs).IsPlain := hatom (by decide)
      exact Script.Stmt.isPlain_eval (Term.isPlain_call (Term.isPlain_attr hself (isOneLine_initName n))
        (List.forall_mem_singleton.2 hargs))
  have hbranches : Script.Stmt.HoldsBranches (fun t => IsOneLine t.text) IsOneLine
      (fun s => Script.IsPlain s.lineText) (arities.map arityBranch) := by
    clear hmessage
    induction arities with
    | nil => exact trivial
    | cons n rest ih => exact ⟨hbranch n, ih⟩
  have hfailure : ArePlain [.raise (some (Term.call (.atom "TypeError")
      [.atom ("\"" ++ arityMessage className arities ++ "\"")]))] := by
    refine holdsAll_singleton (Script.Stmt.isPlain_raise ?_)
    exact Term.isPlain_call (hatom (by decide)) (List.forall_mem_singleton.2
      (hatom (Term.isPlain_bracketed (by decide) (by decide) hmessage)))
  exact ⟨show IsOneLine "__init__" by decide, List.forall_mem_cons.2 ⟨by decide,
    List.forall_mem_singleton.2 (by decide)⟩, holdsAll_switchChain hbranches hfailure⟩

variable {scene : Scene}

theorem plain_mainGuard : ItemsArePlain scene.mainGuard := by
  have hatom {text : String} (h : Script.IsPlain text) : (Term.atom text).IsPlain :=
    Term.isPlain_atom h
  unfold mainGuard
  split
  · split
    · have hargv : (Term.attr (.atom "sys") "argv").IsPlain :=
        Term.isPlain_attr (hatom (by decide)) (by decide)
      have hlen : (Term.call (.atom "len") [.attr (.atom "sys") "argv"]).IsPlain :=
        Term.isPlain_call (hatom (by decide)) (List.forall_mem_singleton.2 hargv)
      have hexit : (Term.attr (.atom "sys") "exit").IsPlain :=
        Term.isPlain_attr (hatom (by decide)) (by decide)
      refine itemsArePlain_singleton ⟨by decide, holdsAll_singleton ?_, trivial, trivial⟩
      refine Script.Stmt.isPlain_eval (Term.isPlain_call hexit (List.forall_mem_singleton.2
        (Term.isPlain_call (hatom (by decide)) ?_)))
      split
      · exact nofun
      · exact List.forall_mem_cons.2 ⟨hlen, List.forall_mem_singleton.2 hargv⟩
    · exact trivial
  · exact trivial

variable (hs : scene.store.Worded W) (htable : ∀ entry ∈ scene.table, IsSpelling entry.2.name)

include hs

theorem worded_routine {r : Routine} (hr : scene.store.routine? id = some r) :
    (Entity.routine .function r).Worded W := by
  unfold Store.routine? at hr
  split at hr
  · next hentity =>
    cases hr
    exact (hs.holds id _ hentity).worded
  · cases hr

include htable

theorem furnishes_isPlain : scene.Furnishes (Expr.Worded W) (Stmt.Worded W) Term.IsPlain
    (fun t => IsOneLine t.text) Term.IsPlain IsOneLine (fun s => Script.IsPlain s.lineText)
    (fun p => IsOneLine (Script.paramText p)) Item.IsPlain where
  composes _ := Env.composes_isPlain htable
  finishes _ := Env.finishes_isPlain htable
  exprs he := by
    obtain ⟨d, hd, he⟩ := List.mem_flatMap.1 he
    obtain ⟨id, hid⟩ := List.mem_iff_getElem?.1 hd
    have hentity : scene.store.entity? id = some d.entity := by
      rw [Store.entity?, ← Array.getElem?_toList, hid]
      rfl
    exact ((hs.holds id _ hentity).worded.exprs _ (d.entity.printed_subset he)).parts
  stmts hr hbody := Stmt.everyIn_iff_inner.1
    (Stmt.everyIn_every (Stmt.everyIn_iff.2 ((worded_routine hs hr).2.1 _ hbody)))
  globals id body := Script.Stmt.isPlain_global (Env.oneLine_globals htable body)
  self := by decide
  param {id r p v} hr hp hv := by
    have hname := isOneLine_identifier (hs.isOneLine_name ((worded_routine hs hr).2.2 p hp))
    cases v with
    | none => exact hname
    | some t => exact isOneLine_append.2 ⟨isOneLine_append.2 ⟨hname, by decide⟩, (hv t rfl).oneLine _⟩
  named {id e} he hne := by
    refine isOneLine_identifier (hs.isOneLine_name (hs.ne_root_of_entity he ?_))
    cases e with
    | namespaceOf m => exact absurd rfl (hne m)
    | _ => rfl
  fixed := ⟨by decide, by decide, isOneLine_initName⟩
  tuple := Term.isPlain_tuple
  base := isPlain_superInit
  field he hv := isPlain_selfLine (hs.isOneLine_name (hs.ne_root_of_entity he rfl)) hv
  own hr i hi _ hv := isPlain_selfLine ((worded_routine hs hr).1 i hi).name.oneLine hv
  missing := Term.isPlain_atom (by decide)
  value {id e v} he hvalue hv := by
    have hnamed : e.isNamed ∧ e.frame? = none := by
      cases e <;> first | exact ⟨rfl, rfl⟩ | cases hvalue
    obtain ⟨name, hname⟩ := Option.isSome_iff_exists.1 (hs.named id e he hnamed.1)
    rw [hname]
    exact isPlain_nameLine (hs.names id name (hs.ne_root_of_entity he hnamed.2) hname) hv
  enumerator he hx hv := isPlain_nameLine ((hs.holds _ _ he).worded _ hx).name.isTitle hv
  previous he hx hvalue := Term.isPlain_atom (Script.isPlain_identifier
    (((hs.holds _ _ he).worded _ hx).base _ _ hvalue).isTitle)
  stmt h := h
  function hname hps hlines := ⟨hname, hps, hlines⟩
  dispatcher arities hc := plain_dispatcher (hs.isOneLine_name (hs.ne_root_of_entity hc rfl)) arities
  enumDef hname hlines := ⟨hname, hlines⟩
  classDef hname hbase hitems := ⟨hname, hbase, Script.itemsArePlain_iff.2 hitems⟩
  guard := Script.itemsArePlain_iff.1 plain_mainGuard

theorem plain_lowerModule (id : DeclId) : (scene.lowerModule id).Gives fun m =>
    (∀ i ∈ m.imports, IsOneLine i.1 ∧ ∀ symbol ∈ i.2, IsOneLine symbol) ∧
      ItemsArePlain m.items := by
  intro script h
  obtain ⟨himports, hitems⟩ := gives_lowerModule (furnishes_isPlain hs htable) id script h
  obtain ⟨m, hm, himports⟩ := Option.map_eq_some_iff.1 himports
  rw [← himports]
  exact ⟨(hs.holds id _ (Store.entity?_of_module? hm)).worded, Script.itemsArePlain_iff.2 hitems⟩

end Scene

end Lowering

end Serpentine
