import Serpentine.Proofs.Grammar.Nesting
import Serpentine.Proofs.Program.Namespaces

/-!
# Modules and their files

Which modules of a session share their path or their file (**`Session.modules_identified`**).
-/

namespace Serpentine

open Script (pathParts)

namespace Path

/-- A part of a path that is not empty and has no slash. -/
def IsPart (part : String) : Prop :=
  part.toList ≠ [] ∧ '/' ∉ part.toList

variable {parts : List String}

theorem cutAtSlash_eq (cs : List Char) : cutAtSlash cs = cs.splitOn '/' := by
  induction cs with
  | nil => rfl
  | cons c cs ih =>
    obtain ⟨piece, pieces, hpieces⟩ := List.exists_cons_of_ne_nil (List.splitOn_ne_nil '/' cs)
    rw [cutAtSlash, ih, List.splitOn_cons_eq_if_modifyHead, hpieces]
    rfl

theorem cutAtSlash_intercalate (hne : parts ≠ []) (h : ∀ part ∈ parts, IsPart part) :
    cutAtSlash ("/".intercalate parts).toList = parts.map String.toList := by
  rw [cutAtSlash_eq, String.toList_intercalate]
  exact List.splitOn_intercalate '/' (List.forall_mem_map.2 fun part hpart => (h part hpart).2)
    (by simpa using hne)

theorem intercalate_inj {parts' : List String} (hne : parts ≠ []) (hne' : parts' ≠ [])
    (h : ∀ part ∈ parts, IsPart part) (h' : ∀ part ∈ parts', IsPart part)
    (heq : "/".intercalate parts = "/".intercalate parts') : parts = parts' := by
  have hcut := cutAtSlash_intercalate hne h
  rw [heq, cutAtSlash_intercalate hne' h'] at hcut
  exact (List.map_injective_iff.2 (fun _ _ => String.toList_inj.1) hcut).symm

theorem intercalate_snoc (above : List String) (part : String) :
    "/".intercalate (above ++ [part]) =
      if above = [] then part else "/".intercalate above ++ "/" ++ part := by
  cases above with
  | nil => simp
  | cons first rest =>
    rw [if_neg (List.cons_ne_nil _ _),
      String.intercalate_append_of_ne_nil (List.cons_ne_nil _ _) (List.cons_ne_nil _ _),
      String.intercalate_singleton]

theorem toList_intercalate_snoc (above : List String) (part : String) :
    ∃ before, ("/".intercalate (above ++ [part])).toList = before ++ part.toList := by
  rw [intercalate_snoc]
  split
  · exact ⟨[], rfl⟩
  · exact ⟨_, by rw [String.toList_append]⟩

theorem toList_intercalate (hne : parts ≠ []) (h : ∀ part ∈ parts, IsPart part) :
    ∃ before c, ("/".intercalate parts).toList = before ++ [c] ∧ c ≠ '/' := by
  obtain ⟨above, part, rfl⟩ := (List.eq_nil_or_concat' parts).resolve_left hne
  obtain ⟨before, hbefore⟩ := toList_intercalate_snoc above part
  have hpart : IsPart part := h part (by simp)
  obtain ⟨front, c, hc⟩ := (List.eq_nil_or_concat' part.toList).resolve_left hpart.1
  refine ⟨before ++ front, c, by rw [hbefore, hc, List.append_assoc], ?_⟩
  rintro rfl
  exact hpart.2 (by simp [hc])

theorem join_part (hne : parts ≠ []) (h : ∀ part ∈ parts, IsPart part) {path : String}
    (hpath : path.toList.head? ≠ some '/') :
    join ("/".intercalate parts) path = "/".intercalate parts ++ "/" ++ path := by
  obtain ⟨before, c, hlast, hc⟩ := toList_intercalate hne h
  have hstart : path.startsWith "/" = false := by
    rw [String.startsWith_string_eq_false_iff]
    rintro ⟨rest, hrest⟩
    exact hpath (by rw [← hrest]; rfl)
  have hempty : ("/".intercalate parts).isEmpty = false := by
    rw [String.isEmpty_eq_false_iff]
    intro heq
    simp [heq] at hlast
  have hend : ("/".intercalate parts).endsWith "/" = false := by
    rw [← String.endsWith_toSlice, ← Bool.not_eq_true, String.Slice.endsWith_string_iff,
      String.copy_toSlice, hlast]
    intro hsuffix
    rcases List.suffix_concat_iff.1 hsuffix with hnil | ⟨t, ht, -⟩
    · cases hnil
    · have hlast := congrArg List.getLast? ht
      rw [List.getLast?_append] at hlast
      exact hc (Option.some.inj hlast).symm
  rw [join, hstart, hempty, hend]
  rfl

theorem IsPart.head? {part : String} (h : IsPart part) : part.toList.head? ≠ some '/' := by
  intro hhead
  exact h.2 (List.mem_of_head? hhead)

theorem foldl_join (h : ∀ part ∈ parts, IsPart part) :
    parts.foldl join "" = "/".intercalate parts := by
  induction parts using List.reverseRecOn with
  | nil => rfl
  | append_singleton above part ih =>
    have habove : ∀ part ∈ above, IsPart part := fun p hp => h p (List.mem_append_left _ hp)
    have hpart : IsPart part := h part (by simp)
    rw [List.foldl_append, ih habove, List.foldl_cons, List.foldl_nil, intercalate_snoc]
    split
    · next hnil =>
      subst hnil
      have hstart : part.startsWith "/" = false := by
        rw [String.startsWith_string_eq_false_iff]
        rintro ⟨rest, hrest⟩
        exact hpart.head? (by rw [← hrest]; rfl)
      rw [join, hstart]
      simp
    · next hne => exact join_part hne habove hpart.head?

theorem dropExtension_of_not_mem {name : String} (h : '.' ∉ name.toList) :
    dropExtension name = name := by
  have hall : name.toList.reverse.takeWhile (· != '.') = name.toList.reverse := by
    refine List.takeWhile_eq_self_iff.2 fun c hc => ?_
    have hne : c ≠ '.' := by
      rintro rfl
      exact h (List.mem_reverse.1 hc)
    simpa using hne
  unfold dropExtension
  dsimp only
  rw [hall, List.length_reverse, String.length_toList, Nat.sub_self]
  rfl

theorem withExtension_intercalate (hne : parts ≠ [])
    (h : ∀ part ∈ parts, IsPart part ∧ '.' ∉ part.toList) (ext : String) :
    withExtension ("/".intercalate parts) ext = "/".intercalate parts ++ "." ++ ext := by
  have hparts : ∀ part ∈ parts, IsPart part := fun p hp => (h p hp).1
  have hall : Path.parts ("/".intercalate parts) = parts := by
    have hcut : (cutAtSlash ("/".intercalate parts).toList).map String.ofList = parts := by
      rw [cutAtSlash_intercalate hne hparts, List.map_map]
      simp
    have hfull : ∀ part ∈ parts, part.isEmpty = false ∧ part ≠ "." := by
      refine fun part hpart => ⟨String.isEmpty_eq_false_iff.2 ?_, ?_⟩
      · rintro rfl
        exact (hparts _ hpart).1 rfl
      · rintro rfl
        exact (h _ hpart).2 (by simp)
    rw [Path.parts, hcut]
    cases parts with
    | nil => rfl
    | cons first rest =>
      obtain ⟨hfirst, hrest⟩ := List.forall_mem_cons.1 hfull
      have hfilter : rest.filter (fun p => !p.isEmpty && p != ".") = rest :=
        List.filter_eq_self.2 fun part hpart => by simp [hrest part hpart]
      dsimp only
      rw [hfirst.1, hfilter]
      rfl
  obtain ⟨above, part, rfl⟩ := (List.eq_nil_or_concat' parts).resolve_left hne
  have hdot := (h part (by simp)).2
  have hname : fileName? ("/".intercalate (above ++ [part])) = some part := by
    have hpart : part ≠ "." ∧ part ≠ ".." := by
      constructor <;> rintro rfl <;> exact hdot (by simp)
    rw [fileName?, hall, List.getLast?_append, List.getLast?_singleton]
    simp [hpart]
  obtain ⟨before, hbefore⟩ := toList_intercalate_snoc above part
  obtain ⟨front, c, hlast, hc⟩ := toList_intercalate hne hparts
  rw [withExtension, hname]
  dsimp only
  rw [dropExtension_of_not_mem hdot]
  have hchars : (("/".intercalate (above ++ [part])).toList.reverse.dropWhile (· == '/')).reverse =
      ("/".intercalate (above ++ [part])).toList := by
    rw [hlast]
    simp [hc]
  rw [hchars, hbefore, ← String.length_toList, List.length_append, Nat.add_sub_cancel,
    List.take_left, ← String.toList_inj]
  simp [hbefore]

end Path

theorem IsName.isPart {name : String} (h : IsName name) : Path.IsPart name := by
  refine ⟨fun hnil => ?_, fun hslash => ?_⟩
  · have hstart := h.word.1
    rw [hnil] at hstart
    cases hstart
  · exact absurd (List.all_eq_true.1 h.word.2 '/' hslash) (by decide)

/-! ## Sessions -/

namespace Store

variable {rootName : String} {s t : Store}

theorem Charted.of_bare (hs : s.Charted rootName) (h : t.bare = s.bare) : t.Charted rootName := by
  have hdecls : ∀ id : DeclId, t.decls[id]?.map Declaration.bare = s.decls[id]?.map Declaration.bare := by
    intro id
    rw [← getElem?_bare, h, getElem?_bare]
  refine hs.of_plans (fun id _ => ?_) fun id => ?_
  · have hroot : ∀ u : Store, u.owningModule id =
        ((u.decls[id]?.map Declaration.bare).map Declaration.root).getD root := by
      intro u
      rw [owningModule, Option.map_map]
      rfl
    rw [hroot, hdecls, hroot]
  · have hframe : ∀ u : Store, u.plan? id =
        ((u.decls[id]?.map Declaration.bare).bind fun d => d.entity.frame?).map fun frame =>
          (frame.1, frame.2.1) := by
      intro u
      rw [plan?_eq, frame?, entity?]
      cases u.decls[id]? with
      | none => rfl
      | some d =>
        obtain ⟨name, parent, owner, place, entity⟩ := d
        cases entity <;> rfl
    rw [hframe, hdecls, hframe]

end Store

namespace Session

variable {s : Session} {root : String}

/-- The uses of names that are made when a file is read. -/
def uses (s : Session) (file text : String) : List NameRef :=
  match (Macro.run s.macros file text).text with
  | .error _ => []
  | .ok text => Grammar.fileDeclarations.uses (.start file text s.names s.store)

theorem store_parse (s : Session) (file text : String) {W : NameRef → Prop}
    (huses : ∀ ref ∈ s.uses file text, W ref) :
    ∃ t, s.store.Written W t ∧ (s.parse file text).2.store.decls = t.decls ∧
      (s.parse file text).2.store.nextRef = t.nextRef := by
  unfold uses at huses
  unfold parse
  generalize Macro.run s.macros file text = expanded at huses
  rcases expanded with ⟨fault | text, macros, warnings⟩
  · exact ⟨s.store, .refl, rfl, rfl⟩
  · have hwritten := Grammar.parseFile_written s.names s.store file text huses
    dsimp only
    generalize Grammar.parseFile s.names s.store file text = parsed at hwritten ⊢
    exact ⟨parsed.2, hwritten, rfl, rfl⟩

theorem edits_parse (s : Session) (file text : String) :
    Store.Edits Entity.Fresh IsName s.store (s.parse file text).2.store := by
  obtain ⟨t, hwritten, hdecls, hrefs⟩ :=
    s.store_parse (W := fun _ => True) file text fun _ _ => trivial
  exact hwritten.edits.tail (.note hdecls (Nat.le_of_eq hrefs.symm))

theorem charted_after (h : s.store.Charted root) (step : Step) :
    (s.after step).store.Charted root := by
  cases step with
  | parse file text => exact (s.edits_parse file text).charted h
  | resolve => exact h.of_bare (bare_resolve s.store s.table)

theorem charted (root : String) (macros : Macro.Table) (writer : Writer) (steps : List Step) :
    ((start root macros writer).afterAll steps).store.Charted root := by
  have hall : ∀ (steps : List Step) (s : Session), s.store.Charted root →
      (s.afterAll steps).store.Charted root := by
    intro steps
    induction steps with
    | nil => exact fun _ h => h
    | cons step rest ih => exact fun s h => ih _ (charted_after h step)
  exact hall steps _ (Store.charted_empty root)

/-! ## Paths -/

variable (hs : s.store.Charted root)

include hs

theorem moduleByPath?_root : s.store.moduleByPath? root = some Store.root := by
  obtain ⟨inside, hplan, -⟩ := hs.plotted [] Store.root rfl
  obtain ⟨m, hm, hpair⟩ := Option.map_eq_some_iff.1 hplan
  have hpath : m.path = root := congrArg Prod.fst hpair
  have hsize : s.store.decls.size ≠ 0 := Nat.ne_of_gt (hs.lt s.store.moduleAt?_nil)
  obtain ⟨n, hn⟩ := Nat.exists_eq_succ_of_ne_zero hsize
  rw [Store.moduleByPath?, Store.modules, hn, Store.modulesWithin, List.find?_cons_of_pos]
  rw [hm]
  simp [hpath]

theorem moduleByPath?_of_ne {m : DeclId} (hm : m ∈ s.store.modules)
    (hne : s.store.modulePath m ≠ root) :
    s.store.moduleByPath? (s.store.modulePath m) = some m := by
  have hpath : ∀ id ∈ s.store.modules, (s.store.module? id).map Module.path =
      some (s.store.modulePath id) := by
    intro id hid
    obtain ⟨names, h⟩ := hs.mem_modules_iff.1 hid
    obtain ⟨inside, hplan, -⟩ := hs.plotted names id h
    obtain ⟨m, hm, hpair⟩ := Option.map_eq_some_iff.1 hplan
    rw [hs.modulePath h, hm]
    exact congrArg some (congrArg Prod.fst hpair)
  have htest : ∀ id ∈ s.store.modules, (s.store.module? id).any
      (·.path == s.store.modulePath m) = (s.store.modulePath id == s.store.modulePath m) := by
    intro id hid
    obtain ⟨m', hm', hpath'⟩ := Option.map_eq_some_iff.1 (hpath id hid)
    rw [hm', ← hpath']
    rfl
  have hroot : s.store.modulePath Store.root = root := hs.modulePath s.store.moduleAt?_nil
  cases hfound : s.store.moduleByPath? (s.store.modulePath m) with
  | none =>
    have hmiss := List.find?_eq_none.1 hfound m hm
    rw [htest m hm] at hmiss
    simp at hmiss
  | some id =>
    have hid : id ∈ s.store.modules := List.mem_of_find?_eq_some hfound
    rw [Store.moduleByPath?] at hfound
    have hpositive := List.find?_some hfound
    rw [htest id hid] at hpositive
    have heq := eq_of_beq hpositive
    obtain ⟨names, h⟩ := hs.mem_modules_iff.1 hid
    obtain ⟨names', h'⟩ := hs.mem_modules_iff.1 hm
    refine congrArg some (hs.eq_of_modulePath h h' ?_ ?_ heq)
    · rintro rfl
      exact hne (heq.symm.trans hroot)
    · rintro rfl
      exact hne hroot

/-! ## Files -/

/-- The file of a namespace: its names, and `__init__` below those of a package. -/
theorem fileOf_eq {names : List String} {id : DeclId} (h : s.store.moduleAt? names = some id)
    (hid : id ≠ Store.root) :
    s.fileOf id = "/".intercalate (names ++ if s.isPackage id then ["__init__"] else []) ++ "." ++
      s.writer.extension := by
  have hnames := hs.isName h
  have hne : names ≠ [] := by
    rintro rfl
    exact hid (Option.some.inj h).symm
  have hparts : ∀ name ∈ names, Path.IsPart name := fun name hname => (hnames name hname).isPart
  unfold fileOf
  dsimp only
  rw [hs.pathParts h hid, Path.foldl_join hparts]
  split
  · rw [Path.join_part hne hparts, Path.intercalate_snoc, if_neg hne]
    · simp only [String.append_assoc]
      rfl
    · simp
  · rw [Path.withExtension_intercalate hne, List.append_nil]
    exact fun name hname => ⟨hparts name hname, (hnames name hname).not_mem_dot⟩

/-- Two namespaces share a file only if one is a package and the other its plain `__init__`. -/
theorem eq_or_of_fileOf {names names' : List String} {id id' : DeclId}
    (h : s.store.moduleAt? names = some id) (h' : s.store.moduleAt? names' = some id')
    (hid : id ≠ Store.root) (hid' : id' ≠ Store.root) (hfile : s.fileOf id = s.fileOf id') :
    id = id' ∨ names' = names ++ ["__init__"] ∧ s.isPackage id' = false ∨
      names = names' ++ ["__init__"] ∧ s.isPackage id = false := by
  have hfull : ∀ {names : List String} {id : DeclId}, s.store.moduleAt? names = some id →
      id ≠ Store.root → (names ++ if s.isPackage id then ["__init__"] else []) ≠ [] ∧
        ∀ part ∈ names ++ if s.isPackage id then ["__init__"] else [], Path.IsPart part := by
    intro names id h hid
    refine ⟨fun hnil => ?_, fun part hpart => ?_⟩
    · rw [(List.append_eq_nil_iff.1 hnil).1] at h
      exact hid (Option.some.inj h).symm
    · rcases List.mem_append.1 hpart with hname | hinit
      · exact (hs.isName h part hname).isPart
      · split at hinit
        · obtain rfl := List.mem_singleton.1 hinit
          exact ⟨by simp, by simp⟩
        · cases hinit
  rw [fileOf_eq hs h hid, fileOf_eq hs h' hid', String.append_left_inj, String.append_left_inj]
    at hfile
  have heq := Path.intercalate_inj (hfull h hid).1 (hfull h' hid').1 (hfull h hid).2
    (hfull h' hid').2 hfile
  have hsame : names = names' → id = id' := by
    rintro rfl
    rw [h] at h'
    exact Option.some.inj h'
  cases hpackage : s.isPackage id <;> cases hpackage' : s.isPackage id' <;>
    rw [hpackage, hpackage'] at heq
  · exact .inl (hsame (by simpa using heq))
  · exact .inr (.inr ⟨by simpa using heq, rfl⟩)
  · exact .inr (.inl ⟨by simpa using heq.symm, rfl⟩)
  · exact .inl (hsame (List.append_cancel_right heq))

theorem isPackage_of_append {names : List String} {name : String} {id inner : DeclId}
    (h : s.store.moduleAt? names = some id)
    (hinner : s.store.moduleAt? (names ++ [name]) = some inner) (hid : id ≠ Store.root) :
    s.isPackage id = true := by
  obtain ⟨inside, hplan, -⟩ := hs.plotted names id h
  obtain ⟨m, hm, -⟩ := Option.map_eq_some_iff.1 hplan
  have hmem := (hs.mem_order_iff h hm inner).2 ⟨name, hinner⟩
  rw [isPackage, hm]
  simp [hid, List.ne_nil_of_mem hmem]

theorem modulePath_init_iff {names names' : List String} {id id' : DeclId}
    (h : s.store.moduleAt? names = some id) (h' : s.store.moduleAt? names' = some id')
    (hid : id ≠ Store.root) (hid' : id' ≠ Store.root) :
    s.store.modulePath id' = s.store.modulePath id ++ "." ++ "__init__" ↔
      names' = names ++ ["__init__"] := by
  have hne : names ≠ [] := by
    rintro rfl
    exact hid (Option.some.inj h).symm
  constructor
  · intro hpath
    rw [← hs.pathParts h' hid', hpath, Script.pathParts_append_dot, hs.pathParts h hid]
    rfl
  · rintro rfl
    rw [hs.modulePath h', Store.pathAt_append, if_neg hne, hs.modulePath h]

/-- Files tell the modules apart unless the root shares one with a namespace, or a package with its
plain `__init__`. -/
theorem nodup_files_iff :
    (s.store.modules.map s.fileOf).Nodup ↔
      (∀ m ∈ s.store.modules, m ≠ Store.root → s.fileOf m ≠ s.fileOf Store.root) ∧
      ∀ m ∈ s.store.modules, ∀ m' ∈ s.store.modules, m ≠ Store.root → m' ≠ Store.root →
        s.store.modulePath m' = s.store.modulePath m ++ "." ++ "__init__" →
          s.isPackage m' = true := by
  rw [List.nodup_map_iff_inj_on hs.nodup_modules]
  constructor
  · intro hinj
    refine ⟨fun m hm hne hfile => hne (hinj m hm _ hs.root_mem_modules hfile), ?_⟩
    intro m hm m' hm' hne hne' hpath
    obtain ⟨names, h⟩ := hs.mem_modules_iff.1 hm
    obtain ⟨names', h'⟩ := hs.mem_modules_iff.1 hm'
    have hnames := (modulePath_init_iff hs h h' hne hne').1 hpath
    subst hnames
    have hpackage := isPackage_of_append hs h h' hne
    cases hplain : s.isPackage m' with
    | true => rfl
    | false =>
      have hfile : s.fileOf m = s.fileOf m' := by
        rw [fileOf_eq hs h hne, fileOf_eq hs h' hne', hpackage, hplain]
        simp
      rw [hinj m hm m' hm' hfile, hplain] at hpackage
      cases hpackage
  · rintro ⟨hroot, hinit⟩ m hm m' hm' hfile
    obtain ⟨names, h⟩ := hs.mem_modules_iff.1 hm
    obtain ⟨names', h'⟩ := hs.mem_modules_iff.1 hm'
    by_cases hne : m = Store.root
    · subst hne
      by_contra hne'
      exact hroot m' hm' (Ne.symm hne') hfile.symm
    by_cases hne' : m' = Store.root
    · subst hne'
      exact absurd hfile (hroot m hm hne)
    rcases eq_or_of_fileOf hs h h' hne hne' hfile with heq | ⟨hnames, hplain⟩ | ⟨hnames, hplain⟩
    · exact heq
    · rw [hinit m hm m' hm' hne hne' ((modulePath_init_iff hs h h' hne hne').2 hnames)] at hplain
      cases hplain
    · rw [hinit m' hm' m hm hne' hne ((modulePath_init_iff hs h' h hne' hne).2 hnames)] at hplain
      cases hplain

omit hs in
theorem map_fst_renderEach {ids : List DeclId} {files : List (String × String)}
    (h : (s.renderEach ids).result = .ok files) : files.map (·.1) = ids.map s.fileOf := by
  induction ids generalizing files with
  | nil =>
    cases h
    rfl
  | cons id rest ih =>
    rw [renderEach] at h
    dsimp only at h
    split at h
    · cases h
    · next text _ =>
      cases hrest : (s.renderEach rest).result with
      | error fault =>
        rw [hrest] at h
        cases h
      | ok others =>
        rw [hrest] at h
        cases h
        rw [List.map_cons, List.map_cons, ih hrest]

omit hs in
/-- **Paths and files identify modules, with two exceptions.** Whatever was read into a session,
each module is listed once, and namespaces with one path are one. A module is found and written by
its path unless this is the path of the root, which is found first; so all paths are distinct just
if the name of the root leads to no namespace. The files of all modules are distinct just if the
root shares its file with no namespace and no package has a plain namespace `__init__` inside it. -/
theorem modules_identified (root : String) (macros : Macro.Table) (writer : Writer)
    (steps : List Step) :
    let s := (start root macros writer).afterAll steps
    s.store.modules.Nodup ∧
      (∀ m ∈ s.store.modules, ∀ m' ∈ s.store.modules, m ≠ Store.root → m' ≠ Store.root →
        s.store.modulePath m = s.store.modulePath m' → m = m') ∧
      (s.modulePaths.Nodup ↔ s.store.moduleAt? (pathParts root) = none) ∧
      (∀ m ∈ s.store.modules, m = Store.root ∨ s.store.modulePath m ≠ root →
        s.store.moduleByPath? (s.store.modulePath m) = some m ∧
          s.render (s.store.modulePath m) = s.renderModule m) ∧
      (∀ m ∈ s.store.modules, s.store.modulePath m = root →
        s.store.moduleByPath? (s.store.modulePath m) = some Store.root ∧
          s.render (s.store.modulePath m) = s.renderModule Store.root) ∧
      ∀ files, s.renderAll.result = .ok files → ((files.map (·.1)).Nodup ↔
        (∀ m ∈ s.store.modules, m ≠ Store.root → s.fileOf m ≠ s.fileOf Store.root) ∧
        ∀ m ∈ s.store.modules, ∀ m' ∈ s.store.modules, m ≠ Store.root → m' ≠ Store.root →
          s.store.modulePath m' = s.store.modulePath m ++ "." ++ "__init__" →
            s.isPackage m' = true) := by
  intro s
  have hs : s.store.Charted root := charted root macros writer steps
  have hrender : ∀ path id, s.store.moduleByPath? path = some id →
      s.render path = s.renderModule id := by
    intro path id hfound
    rw [render, hfound]
  have hroot : s.store.modulePath Store.root = root := hs.modulePath s.store.moduleAt?_nil
  refine ⟨hs.nodup_modules, fun m hm m' hm' hne hne' hpath => ?_, hs.nodup_paths_iff, ?_, ?_, ?_⟩
  · obtain ⟨names, h⟩ := hs.mem_modules_iff.1 hm
    obtain ⟨names', h'⟩ := hs.mem_modules_iff.1 hm'
    exact hs.eq_of_modulePath h h' hne hne' hpath
  · intro m hm hcase
    have hfound : s.store.moduleByPath? (s.store.modulePath m) = some m := by
      by_cases hpath : s.store.modulePath m = root
      · obtain rfl := hcase.resolve_right fun hne => hne hpath
        rw [hpath]
        exact moduleByPath?_root hs
      · exact moduleByPath?_of_ne hs hm hpath
    exact ⟨hfound, hrender _ _ hfound⟩
  · intro m _ hpath
    rw [hpath]
    exact ⟨moduleByPath?_root hs, hrender _ _ (moduleByPath?_root hs)⟩
  · intro files hfiles
    rw [map_fst_renderEach hfiles]
    exact nodup_files_iff hs

omit hs in
/-- A root with the name of a namespace: both have the path `N`, under which the root is found. -/
theorem modulePaths_sameName :
    let s := (start "N" (.ofTexts []) .script).afterAll
      [.parse "a.cpp" "int g; namespace N \x7b int h; \x7d", .resolve]
    s.modulePaths = ["N", "N"] ∧ s.store.moduleByPath? "N" = some Store.root ∧
      (s.render "N").text.toOption = some "g = None\n" ∧
      s.renderAll.result.toOption = some [("N.py", "g = None\n"), ("N.py", "h = None\n")] := by
  decide +kernel

end Session

end Serpentine
