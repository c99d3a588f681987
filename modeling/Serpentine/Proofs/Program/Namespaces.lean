import Mathlib.Data.List.Induction
import Mathlib.Data.List.Nodup
import Serpentine.Proofs.Session.Failure

/-!
# The tree of namespaces

The modules of a program are those that nested names lead to from the root, and each is reached by
one list of names only. Its path is these names with dots between them; the root has the path it was
given.

* `Charted.nodup_modules`, **`Charted.nodup_paths_iff`**: modules are listed once, and their paths
  tell them apart unless a namespace has the path of the root.
-/

namespace Serpentine

open Script (pathParts)

variable {name : String}

theorem IsName.not_mem_dot (h : IsName name) : '.' ∉ name.toList := by
  intro hdot
  exact absurd (List.all_eq_true.1 h.word.2 '.' hdot) (by decide)

theorem Script.intercalate_pathParts (path : String) : ".".intercalate (pathParts path) = path := by
  rw [← String.toList_inj, String.toList_intercalate, pathParts, cutAtDots_eq, List.map_map]
  simp [Function.comp_def]

theorem Members.insert_new {members : Members} (h : members.get? name = none) (id : DeclId) :
    (members.insert (some name) id).2 = ⟨members.order ++ [id], (name, id) :: members.names⟩ := by
  have hfilter : members.names.filter (·.1 != name) = members.names := by
    refine List.filter_eq_self.2 fun entry hentry => ?_
    have hne := List.lookup_eq_none_iff.1 h entry hentry
    simpa using Ne.symm (by simpa using hne)
  simp only [Members.insert, h, Members.bind, hfilter]

namespace Store

/-- What lasts of a module: its path and the namespaces inside it. -/
def plan? (s : Store) (id : DeclId) : Option (String × Members) :=
  (s.module? id).map fun m => (m.path, m.submodules)

def inner? (s : Store) (id : DeclId) (name : String) : Option DeclId :=
  (s.plan? id).bind fun plan => plan.2.get? name

/-- The module that names lead to from the root. -/
def moduleAt? (s : Store) (names : List String) : Option DeclId :=
  names.foldlM s.inner? root

/-- The path of the module that nested names lead to, given that of the root. -/
def pathAt (rootName : String) : List String → String
  | [] => rootName
  | names => ".".intercalate names

/-- What is known of the namespaces inside a module. -/
structure Holding (id : DeclId) (inside : Members) : Prop where
  order : inside.order = (inside.names.map (·.2)).reverse
  keys : (inside.names.map (·.1)).Nodup
  entries : ∀ entry ∈ inside.names, IsName entry.1 ∧ id < entry.2

/-- The modules that names lead to have the paths of these names. -/
structure Charted (rootName : String) (s : Store) : Prop where
  owned : ∀ id plan, s.plan? id = some plan → s.owningModule id = id
  plotted : ∀ names id, s.moduleAt? names = some id →
    ∃ inside, s.plan? id = some (pathAt rootName names, inside) ∧ Holding id inside

variable {rootName : String} {s t : Store} {P : Entity → Prop}

variable {id : DeclId}

theorem lookup_of_mem {α : Type} [BEq α] [LawfulBEq α] {entries : List (α × DeclId)} {key : α}
    (hkeys : (entries.map (·.1)).Nodup) (h : (key, id) ∈ entries) :
    entries.lookup key = some id := by
  induction entries with
  | nil => cases h
  | cons entry rest ih =>
    rw [List.map_cons, List.nodup_cons] at hkeys
    rcases List.mem_cons.1 h with rfl | hrest
    · exact List.lookup_cons_self
    · have hne : key ≠ entry.1 := fun heq => hkeys.1 (heq ▸ List.mem_map_of_mem hrest)
      rw [List.lookup_cons, beq_eq_false_iff_ne.2 hne]
      exact ih hkeys.2 hrest

theorem get?_of_plan? {name path : String} {inside : Members}
    (hplan : s.plan? id = some (path, inside))
    (hnew : (s.module? id).bind (·.submodules.get? name) = none) : inside.get? name = none := by
  rw [plan?, Option.map_eq_some_iff] at hplan
  obtain ⟨m, hm, hpair⟩ := hplan
  rw [hm] at hnew
  rw [← (Prod.mk.inj hpair).2]
  exact hnew

theorem moduleAt?_nil : s.moduleAt? [] = some root :=
  rfl

theorem moduleAt?_append (names : List String) (name : String) :
    s.moduleAt? (names ++ [name]) = (s.moduleAt? names).bind (s.inner? · name) := by
  rw [moduleAt?, List.foldlM_append, ← moduleAt?]
  cases s.moduleAt? names with
  | none => rfl
  | some id =>
    rw [Option.bind_some]
    show (s.inner? id name).bind some = s.inner? id name
    exact Option.bind_fun_some _

theorem pathAt_append (names : List String) (name : String) :
    pathAt rootName (names ++ [name]) =
      if names = [] then name else pathAt rootName names ++ "." ++ name := by
  cases names with
  | nil => simp [pathAt]
  | cons first rest =>
    rw [if_neg (List.cons_ne_nil _ _)]
    exact (String.intercalate_append_of_ne_nil (List.cons_ne_nil _ _) (List.cons_ne_nil _ _)).trans
      (by simp [pathAt])

/-! ## Edits -/

/-- What a declaration is as a module, apart from its members. -/
def frame? (s : Store) (id : DeclId) : Option (String × Members × Imports) :=
  (s.entity? id).bind Entity.frame?

theorem plan?_eq (id : DeclId) :
    s.plan? id = (s.frame? id).map fun frame => (frame.1, frame.2.1) := by
  unfold plan? module? frame?
  cases s.entity? id with
  | none => rfl
  | some e => cases e <;> rfl

theorem owningModule_of_continues (h : s.Continues t) (id : DeclId)
    (hid : id < s.decls.size) : t.owningModule id = s.owningModule id := by
  obtain ⟨d, hd⟩ : ∃ d, s.decls[id]? = some d := ⟨_, Array.getElem?_eq_getElem hid⟩
  obtain ⟨d', hd', hroot, -, -⟩ := h id d hd
  rw [owningModule, hd', owningModule, hd]
  exact hroot

theorem lt_of_plan? {plan : String × Members} (h : s.plan? id = some plan) : id < s.decls.size := by
  by_contra hid
  rw [plan?, module?, entity?, Array.getElem?_eq_none (Nat.le_of_not_lt hid)] at h
  cases h

theorem Charted.of_plans (hs : s.Charted rootName)
    (howner : ∀ id < s.decls.size, t.owningModule id = s.owningModule id)
    (hplan : ∀ id, t.plan? id = s.plan? id) : t.Charted rootName := by
  have hinner : t.inner? = s.inner? := by
    funext id name
    rw [inner?, hplan, inner?]
  refine ⟨fun id plan h => ?_, fun names id h => ?_⟩
  · rw [hplan] at h
    rw [howner id (lt_of_plan? h)]
    exact hs.owned id plan h
  · rw [moduleAt?, hinner] at h
    obtain ⟨inside, hinside, hholding⟩ := hs.plotted names id h
    exact ⟨inside, (hplan id).trans hinside, hholding⟩

variable {names : List String}

theorem Charted.lt (hs : s.Charted rootName) (h : s.moduleAt? names = some id) :
    id < s.decls.size := by
  obtain ⟨inside, hplan, -⟩ := hs.plotted names id h
  exact lt_of_plan? hplan

theorem frame?_alloc (parent : DeclId) (name : Option String) (place : Position) (entity : Entity)
    (i : DeclId) : (s.alloc parent name place entity).2.frame? i =
      if i = s.decls.size then entity.frame? else s.frame? i := by
  rw [frame?, frame?, entity?_alloc]
  split <;> rfl

/-- Edits change nothing of a module but its members, or make a namespace, or ask for the import
that an enumeration with a name needs. -/
theorem Edit.frame?_cases {N : String → Prop} (h : Edit Entity.Fresh N s t) :
    (∀ id, t.frame? id = s.frame? id) ∨
      (∃ parent name place, N name ∧ (s.module? parent).bind (·.submodules.get? name) = none ∧
        t = (s.addModule parent name place).2) ∨
      ∃ id, (s.name? id).isSome ∧ (s.entity? id).map Entity.describe = some "enumeration" ∧
        t = s.importEnum id := by
  cases h with
  | note hdecls =>
    refine .inl fun id => ?_
    rw [frame?, entity?, hdecls]
    rfl
  | alter id f hf =>
    refine .inl fun i => ?_
    rw [frame?, entity?_modifyEntity, frame?]
    split
    · rw [Option.bind_map]
      exact congrArg (Option.bind _) (funext fun e => (hf e).frame?)
    · rfl
  | push parent name place entity hfresh =>
    refine .inl fun i => ?_
    rw [frame?_alloc]
    split
    · next hi =>
      subst hi
      rw [hfresh.1, frame?, entity?, Array.getElem?_size]
      rfl
    · rfl
  | enclose parent name place hname hnew => exact .inr (.inl ⟨parent, name, place, hname, hnew, rfl⟩)
  | importEnum id hname henum => exact .inr (.inr ⟨id, hname, henum, rfl⟩)
  | rename => exact .inl fun i => by rw [frame?, entity?_rename, frame?]
  | move => exact .inl fun i => by rw [frame?, entity?_setParent, frame?]

theorem module?_modifyModule (id : DeclId) (f : Module → Module) (i : DeclId) :
    (s.modifyModule id f).module? i = (s.module? i).map fun m => if i = id then f m else m := by
  unfold module? modifyModule
  rw [entity?_modifyEntity]
  by_cases hi : i = id
  · rw [if_pos hi]
    rcases s.entity? i with _ | e
    · rfl
    · cases e <;> simp [hi]
  · rw [if_neg hi]
    rcases s.entity? i with _ | e
    · rfl
    · cases e <;> simp [hi]

theorem plan?_modifyModule (id : DeclId) (f : Module → Module) (i : DeclId)
    (hf : ∀ m, ((f m).path, (f m).submodules) = (m.path, m.submodules)) :
    (s.modifyModule id f).plan? i = s.plan? i := by
  rw [plan?, module?_modifyModule, plan?, Option.map_map]
  congr 1
  funext m
  dsimp only [Function.comp]
  split
  · exact hf m
  · rfl

theorem owningModule_new (parent : DeclId) (name path : String) (place : Position)
    (f : Module → Module) :
    ((s.alloc parent (some name) place (.namespaceOf (.empty path))).2.modifyModule parent
      f).owningModule s.decls.size = s.decls.size := by
  rw [modifyModule, owningModule_modifyEntity, owningModule_alloc, if_pos rfl]
  rfl

section Enclose

variable {parent : DeclId} {name : String}
  (hnew : (s.module? parent).bind (·.submodules.get? name) = none)

include hnew

theorem plan?_enclose (place : Position) (i : DeclId) :
    (s.addModule parent name place).2.plan? i =
      (if i = s.decls.size then
        some (if parent = root then name else s.modulePath parent ++ "." ++ name, Members.empty)
      else s.plan? i).map fun plan =>
        if i = parent then (plan.1, (plan.2.insert (some name) s.decls.size).2) else plan := by
  have halloc (path : String) : (s.alloc parent (some name) place
      (.namespaceOf (.empty path))).2.plan? i =
        if i = s.decls.size then some (path, Members.empty) else s.plan? i := by
    rw [plan?_eq, plan?_eq, frame?_alloc]
    split <;> rfl
  unfold addModule
  rw [hnew]
  dsimp only
  generalize (if parent = root then name else s.modulePath parent ++ "." ++ name) = path
  rw [plan?, module?_modifyModule, Option.map_map]
  refine Eq.trans ?_ (congrArg (Option.map _) (halloc path))
  rw [plan?, Option.map_map]
  congr 1
  funext m
  dsimp only [Function.comp]
  split <;> rfl

theorem inner?_enclose (place : Position) {i : DeclId} (hi : i < s.decls.size) (key : String) :
    (s.addModule parent name place).2.inner? i key =
      if i = parent ∧ key = name ∧ (s.plan? i).isSome then some s.decls.size
      else s.inner? i key := by
  rw [inner?, plan?_enclose hnew, if_neg (Nat.ne_of_lt hi), inner?]
  cases hplan : s.plan? i with
  | none => simp
  | some plan =>
    by_cases hparent : i = parent
    · subst hparent
      have hfree := get?_of_plan? hplan hnew
      rw [Option.map_some, Option.bind_some, if_pos rfl]
      dsimp only
      rw [Members.insert_new hfree]
      by_cases hkey : key = name
      · simp [hkey, Members.get?]
      · simp [hkey, Members.get?, List.lookup_cons, beq_eq_false_iff_ne.2 hkey]
    · simp [hparent]

theorem moduleAt?_enclose (hs : s.Charted rootName) (place : Position)
    (h : (s.addModule parent name place).2.moduleAt? names = some id) :
    s.moduleAt? names = some id ∨
      id = s.decls.size ∧ ∃ above, names = above ++ [name] ∧ s.moduleAt? above = some parent := by
  induction names using List.reverseRecOn generalizing id with
  | nil => exact .inl h
  | append_singleton above key ih =>
    rw [moduleAt?_append, Option.bind_eq_some_iff] at h
    obtain ⟨mid, hmid, hinner⟩ := h
    rcases ih hmid with hold | ⟨rfl, above', -, hparent⟩
    · rw [inner?_enclose hnew place (hs.lt hold)] at hinner
      split at hinner
      · next hcase =>
        obtain ⟨rfl, rfl, -⟩ := hcase
        exact .inr ⟨(Option.some.inj hinner).symm, above, rfl, hold⟩
      · refine .inl ?_
        rw [moduleAt?_append, hold]
        exact hinner
    · have hne : s.decls.size ≠ parent := Nat.ne_of_gt (hs.lt hparent)
      rw [inner?, plan?_enclose hnew, if_pos rfl, Option.map_some, if_neg hne] at hinner
      cases hinner

end Enclose

theorem Charted.length_le (hs : s.Charted rootName) (h : s.moduleAt? names = some id) :
    names.length ≤ id := by
  induction names using List.reverseRecOn generalizing id with
  | nil => exact Nat.zero_le _
  | append_singleton above name ih =>
    rw [moduleAt?_append, Option.bind_eq_some_iff] at h
    obtain ⟨mid, hmid, hinner⟩ := h
    obtain ⟨inside, hplan, hholding⟩ := hs.plotted above mid hmid
    rw [inner?, hplan, Option.bind_some] at hinner
    have hlt := (hholding.entries _ (mem_of_lookup hinner)).2
    rw [List.length_append, List.length_singleton]
    exact Nat.lt_of_le_of_lt (ih hmid) hlt

theorem Charted.moduleAt?_root (hs : s.Charted rootName) (h : s.moduleAt? names = some root) :
    names = [] :=
  List.eq_nil_of_length_eq_zero (Nat.le_zero.1 (hs.length_le h))

theorem Charted.modulePath (hs : s.Charted rootName) (h : s.moduleAt? names = some id) :
    s.modulePath id = pathAt rootName names := by
  obtain ⟨inside, hplan, -⟩ := hs.plotted names id h
  rw [Store.modulePath, hs.owned id _ hplan]
  rw [plan?, Option.map_eq_some_iff] at hplan
  obtain ⟨m, hm, hpath⟩ := hplan
  rw [hm]
  exact congrArg Prod.fst hpath

theorem Holding.insert {inside : Members} (h : Holding id inside) (hname : IsName name)
    (hfree : inside.get? name = none) {inner : DeclId} (hlt : id < inner) :
    Holding id (inside.insert (some name) inner).2 := by
  rw [Members.insert_new hfree]
  refine ⟨?_, ?_, List.forall_mem_cons.2 ⟨⟨hname, hlt⟩, h.entries⟩⟩
  · simp [h.order]
  · rw [List.map_cons, List.nodup_cons]
    refine ⟨fun hmem => ?_, h.keys⟩
    obtain ⟨entry, hentry, rfl⟩ := List.mem_map.1 hmem
    exact absurd (List.lookup_eq_none_iff.1 hfree entry hentry) (by simp)

theorem Charted.enclose (hs : s.Charted rootName) {parent : DeclId}
    (hnew : (s.module? parent).bind (·.submodules.get? name) = none) (hname : IsName name)
    (place : Position) : (s.addModule parent name place).2.Charted rootName := by
  have hcontinues : s.Continues (s.addModule parent name place).2 :=
    (Edit.enclose (P := fun _ => True) (N := fun _ => True) parent name place trivial
      hnew).continues
  have hsize : (s.addModule parent name place).2.decls.size = s.decls.size + 1 := by
    unfold addModule
    rw [hnew]
    simp
  refine ⟨fun id plan h => ?_, fun names id h => ?_⟩
  · have hlt := lt_of_plan? h
    rw [hsize] at hlt
    rcases Nat.lt_succ_iff_lt_or_eq.1 hlt with hlt | rfl
    · rw [plan?_enclose hnew, if_neg (Nat.ne_of_lt hlt), Option.map_eq_some_iff] at h
      obtain ⟨old, hold, -⟩ := h
      rw [owningModule_of_continues hcontinues _ hlt]
      exact hs.owned id old hold
    · unfold addModule
      rw [hnew]
      exact owningModule_new ..
  · rcases moduleAt?_enclose hnew hs place h with hold | ⟨rfl, above, rfl, hparent⟩
    · obtain ⟨inside, hplan, hholding⟩ := hs.plotted names id hold
      have hlt := hs.lt hold
      rw [plan?_enclose hnew, if_neg (Nat.ne_of_lt hlt), hplan, Option.map_some]
      by_cases hid : id = parent
      · subst hid
        rw [if_pos rfl]
        exact ⟨_, rfl, hholding.insert hname (get?_of_plan? hplan hnew) hlt⟩
      · rw [if_neg hid]
        exact ⟨inside, rfl, hholding⟩
    · refine ⟨.empty, ?_, rfl, List.nodup_nil, nofun⟩
      have hlt := hs.lt hparent
      rw [plan?_enclose hnew, if_pos rfl, Option.map_some, if_neg (Nat.ne_of_gt hlt), pathAt_append,
        hs.modulePath hparent]
      by_cases habove : above = []
      · subst habove
        rw [if_pos (Option.some.inj hparent).symm, if_pos rfl]
      · have hne : parent ≠ root := fun hroot => habove (hs.moduleAt?_root (hroot ▸ hparent))
        rw [if_neg hne, if_neg habove]

theorem Edit.charted (h : Edit Entity.Fresh IsName s t) (hs : s.Charted rootName) :
    t.Charted rootName := by
  have howner := owningModule_of_continues h.continues
  rcases h.frame?_cases with hframe | ⟨parent, name, place, hname, hnew, rfl⟩ | ⟨id, -, -, rfl⟩
  · refine hs.of_plans howner fun id => ?_
    rw [plan?_eq, hframe, plan?_eq]
  · exact hs.enclose hnew hname place
  · exact hs.of_plans howner fun i => plan?_modifyModule _ _ i fun _ => rfl

theorem Edits.charted (h : Edits Entity.Fresh IsName s t) (hs : s.Charted rootName) :
    t.Charted rootName := by
  induction h with
  | refl => exact hs
  | tail _ hlast ih => exact hlast.charted ih

theorem charted_empty (rootName : String) : (empty rootName).Charted rootName := by
  have hplan : ∀ id plan, (empty rootName).plan? id = some plan →
      id = root ∧ plan = (rootName, .empty) := by
    intro id plan h
    have hlt := lt_of_plan? h
    obtain rfl : id = root := Nat.lt_one_iff.1 hlt
    exact ⟨rfl, (Option.some.inj h).symm⟩
  refine ⟨fun id plan h => ?_, fun names id h => ?_⟩
  · rw [(hplan id plan h).1]
    rfl
  · cases names with
    | nil =>
      obtain rfl : root = id := Option.some.inj h
      exact ⟨.empty, rfl, rfl, List.nodup_nil, nofun⟩
    | cons name rest => cases h

/-! ## Listed modules -/

section Listed

variable (hs : s.Charted rootName)

include hs

section Found

variable (h : s.moduleAt? names = some id)

include h

/-- The modules inside a module are those that names lead to from it. -/
theorem Charted.mem_order_iff {m : Module}
    (hm : s.module? id = some m) (inner : DeclId) :
    inner ∈ m.submodules.order ↔ ∃ name, s.moduleAt? (names ++ [name]) = some inner := by
  obtain ⟨inside, hplan, hholding⟩ := hs.plotted names id h
  have hinside : inside = m.submodules := by
    rw [plan?, hm] at hplan
    exact (congrArg Prod.snd (Option.some.inj hplan)).symm
  simp only [moduleAt?_append, h, Option.bind_some, inner?, hplan, ← hinside, hholding.order,
    List.mem_reverse, List.mem_map, Members.get?]
  constructor
  · rintro ⟨⟨name, inner⟩, hentry, rfl⟩
    exact ⟨name, lookup_of_mem hholding.keys hentry⟩
  · rintro ⟨name, hget⟩
    exact ⟨(name, inner), mem_of_lookup hget, rfl⟩

theorem Charted.isName : ∀ name ∈ names, IsName name := by
  induction names using List.reverseRecOn generalizing id with
  | nil => nofun
  | append_singleton above name ih =>
    rw [moduleAt?_append, Option.bind_eq_some_iff] at h
    obtain ⟨mid, hmid, hinner⟩ := h
    obtain ⟨inside, hplan, hholding⟩ := hs.plotted above mid hmid
    rw [inner?, hplan, Option.bind_some] at hinner
    intro other hother
    rcases List.mem_append.1 hother with hother | hother
    · exact ih hmid other hother
    · obtain rfl := List.mem_singleton.1 hother
      exact (hholding.entries _ (mem_of_lookup hinner)).1

theorem Charted.pathParts (hid : id ≠ root) : Script.pathParts (s.modulePath id) = names := by
  have hne : names ≠ [] := by
    rintro rfl
    exact hid (Option.some.inj h).symm
  rw [hs.modulePath h]
  cases names with
  | nil => exact absurd rfl hne
  | cons first rest =>
    exact Script.pathParts_intercalate hne fun name hname => (hs.isName h name hname).not_mem_dot

theorem Charted.eq_of_modulePath {names' : List String} {id' : DeclId}
    (h' : s.moduleAt? names' = some id') (hid : id ≠ root)
    (hid' : id' ≠ root) (hpath : s.modulePath id = s.modulePath id') : id = id' := by
  rw [← hs.pathParts h hid, hpath, hs.pathParts h' hid', h'] at h
  exact (Option.some.inj h).symm

/-- One list of names only leads to a module. -/
theorem Charted.names_unique {names' : List String}
    (h' : s.moduleAt? names' = some id) : names = names' := by
  by_cases hid : id = root
  · subst hid
    rw [hs.moduleAt?_root h, hs.moduleAt?_root h']
  · rw [← hs.pathParts h hid, hs.pathParts h' hid]

theorem Charted.exists_of_mem {n : Nat} {other : DeclId}
    (hmem : other ∈ s.modulesWithin n id) : ∃ below, s.moduleAt? (names ++ below) = some other := by
  induction n generalizing names id with
  | zero => cases hmem
  | succ n ih =>
    rw [modulesWithin, List.mem_cons] at hmem
    rcases hmem with rfl | hmem
    · exact ⟨[], by rwa [List.append_nil]⟩
    · cases hm : s.module? id with
      | none =>
        rw [hm] at hmem
        cases hmem
      | some m =>
        rw [hm] at hmem
        obtain ⟨inner, hinner, hother⟩ := List.mem_flatMap.1 hmem
        obtain ⟨name, hname⟩ := (hs.mem_order_iff h hm inner).1 hinner
        obtain ⟨below, hbelow⟩ := ih hname hother
        exact ⟨name :: below, by rwa [List.append_assoc] at hbelow⟩

theorem Charted.mem_of_append {n : Nat} {below : List String} {other : DeclId}
    (hother : s.moduleAt? (names ++ below) = some other)
    (hlength : below.length < n) : other ∈ s.modulesWithin n id := by
  induction n generalizing names id below with
  | zero => cases hlength
  | succ n ih =>
    rw [modulesWithin]
    cases below with
    | nil =>
      rw [List.append_nil, h] at hother
      exact List.mem_cons.2 (.inl (Option.some.inj hother).symm)
    | cons name below =>
      refine List.mem_cons_of_mem _ ?_
      rw [List.append_cons] at hother
      obtain ⟨inner, hinner⟩ : ∃ inner, s.moduleAt? (names ++ [name]) = some inner := by
        rw [Store.moduleAt?, List.foldlM_append] at hother
        obtain ⟨inner, hinner, -⟩ := Option.bind_eq_some_iff.1 hother
        exact ⟨inner, hinner⟩
      obtain ⟨inside, hplan, -⟩ := hs.plotted names id h
      obtain ⟨m, hm, -⟩ := Option.map_eq_some_iff.1 hplan
      rw [hm]
      exact List.mem_flatMap.2 ⟨inner, (hs.mem_order_iff h hm inner).2 ⟨name, hinner⟩,
        ih hinner hother (Nat.lt_of_succ_lt_succ hlength)⟩

omit h in
theorem Charted.mem_modules_iff : id ∈ s.modules ↔ ∃ names, s.moduleAt? names = some id := by
  constructor
  · intro hmem
    exact hs.exists_of_mem s.moduleAt?_nil hmem
  · rintro ⟨names, h⟩
    exact hs.mem_of_append s.moduleAt?_nil h (Nat.lt_of_le_of_lt (hs.length_le h) (hs.lt h))

theorem Charted.nodup_order {m : Module}
    (hm : s.module? id = some m) : m.submodules.order.Nodup := by
  obtain ⟨inside, hplan, hholding⟩ := hs.plotted names id h
  obtain ⟨m', hm', hpair⟩ := Option.map_eq_some_iff.1 hplan
  rw [hm] at hm'
  cases hm'
  rw [← (Prod.mk.inj hpair).2] at hholding
  rw [hholding.order, List.nodup_reverse, List.nodup_map_iff_inj_on (.of_map _ hholding.keys)]
  -- two names for one module would be two ways to it
  have hat : ∀ entry ∈ m.submodules.names, s.moduleAt? (names ++ [entry.1]) = some entry.2 := by
    intro entry hentry
    rw [moduleAt?_append, h, Option.bind_some, inner?, plan?, hm]
    exact lookup_of_mem hholding.keys hentry
  intro entry hentry entry' hentry' heq
  have hnames := hs.names_unique (hat entry hentry) (heq ▸ hat entry' hentry')
  exact Prod.ext (List.singleton_inj.1 (List.append_cancel_left hnames)) heq

theorem Charted.nodup_modulesWithin {n : Nat} : (s.modulesWithin n id).Nodup := by
  induction n generalizing names id with
  | zero => exact List.nodup_nil
  | succ n ih =>
    rw [modulesWithin, List.nodup_cons]
    cases hm : s.module? id with
    | none => exact ⟨nofun, List.nodup_nil⟩
    | some m =>
      have hway : ∀ inner ∈ m.submodules.order, ∀ other ∈ s.modulesWithin n inner,
          ∃ name below, s.moduleAt? (names ++ [name]) = some inner ∧
            s.moduleAt? (names ++ [name] ++ below) = some other := by
        intro inner hinner other hother
        obtain ⟨name, hname⟩ := (hs.mem_order_iff h hm inner).1 hinner
        obtain ⟨below, hbelow⟩ := hs.exists_of_mem hname hother
        exact ⟨name, below, hname, hbelow⟩
      constructor
      · intro hmem
        obtain ⟨inner, hinner, hid⟩ := List.mem_flatMap.1 hmem
        obtain ⟨name, below, -, hbelow⟩ := hway inner hinner id hid
        have hlength := congrArg List.length (hs.names_unique h hbelow)
        simp at hlength
      · refine List.nodup_flatMap.2 ⟨fun inner hinner => ?_, ?_⟩
        · obtain ⟨name, hname⟩ := (hs.mem_order_iff h hm inner).1 hinner
          exact ih hname
        · refine (hs.nodup_order h hm).pairwise_of_forall_ne fun inner hinner inner' hinner' hne => ?_
          intro other hother hother'
          obtain ⟨name, below, hat, hbelow⟩ := hway inner hinner other hother
          obtain ⟨name', below', hat', hbelow'⟩ := hway inner' hinner' other hother'
          have hnames := hs.names_unique hbelow hbelow'
          rw [List.append_assoc, List.append_assoc] at hnames
          obtain ⟨rfl, -⟩ := List.cons.inj (List.append_cancel_left hnames)
          rw [hat] at hat'
          exact hne (Option.some.inj hat')

end Found

theorem Charted.nodup_modules : s.modules.Nodup :=
  hs.nodup_modulesWithin s.moduleAt?_nil

theorem Charted.root_mem_modules : root ∈ s.modules :=
  hs.mem_modules_iff.2 ⟨[], rfl⟩

/-- The parts of its name lead from the root to a namespace just if this has the path of the
root. -/
theorem Charted.moduleAt?_pathParts :
    s.moduleAt? (Script.pathParts rootName) = some id ↔
      id ∈ s.modules ∧ id ≠ root ∧ s.modulePath id = rootName := by
  constructor
  · intro h
    refine ⟨hs.mem_modules_iff.2 ⟨_, h⟩, ?_, ?_⟩
    · rintro rfl
      exact Script.pathParts_ne_nil _ (hs.moduleAt?_root h)
    · rw [hs.modulePath h]
      cases hparts : Script.pathParts rootName with
      | nil => rfl
      | cons first rest =>
        show ".".intercalate (first :: rest) = rootName
        rw [← hparts, Script.intercalate_pathParts]
  · rintro ⟨hmem, hid, hpath⟩
    obtain ⟨names, h⟩ := hs.mem_modules_iff.1 hmem
    rw [← hpath, hs.pathParts h hid, h]

theorem Charted.nodup_paths_iff :
    (s.modules.map s.modulePath).Nodup ↔ s.moduleAt? (Script.pathParts rootName) = none := by
  have hroot : s.modulePath root = rootName := hs.modulePath s.moduleAt?_nil
  rw [List.nodup_map_iff_inj_on hs.nodup_modules]
  constructor
  · intro hinj
    by_contra hsome
    obtain ⟨id, hid⟩ := Option.ne_none_iff_exists'.1 hsome
    obtain ⟨hmem, hne, hpath⟩ := hs.moduleAt?_pathParts.1 hid
    exact hne (hinj id hmem root hs.root_mem_modules (hpath.trans hroot.symm))
  · intro hnone id hid id' hid' hpath
    have hfree : ∀ other ∈ s.modules, other ≠ root → s.modulePath other ≠ rootName := by
      intro other hmem hne hother
      rw [hs.moduleAt?_pathParts.2 ⟨hmem, hne, hother⟩] at hnone
      cases hnone
    obtain ⟨names, h⟩ := hs.mem_modules_iff.1 hid
    obtain ⟨names', h'⟩ := hs.mem_modules_iff.1 hid'
    by_cases hr : id = root
    · by_cases hr' : id' = root
      · rw [hr, hr']
      · exact absurd (hpath.symm.trans (hr ▸ hroot)) (hfree id' hid' hr')
    · by_cases hr' : id' = root
      · exact absurd (hpath.trans (hr' ▸ hroot)) (hfree id hid hr)
      · exact hs.eq_of_modulePath h h' hr hr' hpath

end Listed

end Store

end Serpentine
