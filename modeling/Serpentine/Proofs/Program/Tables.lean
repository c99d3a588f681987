import Serpentine.Proofs.Lowering.Modules
import Serpentine.Proofs.Program.Hierarchy

/-!
# Tables of members

The members of a declaration are listed in the order in which their places were first taken, and
found by their names. Both lists stay in step through all operations: nothing that is listed is lost
from the names, and nothing that is named from the list. So a member is printed once
(**`tables_of_tended`**).
-/

namespace Serpentine

variable {name : String} {i : DeclId}

namespace Members

/-- The list and the names of a table agree. -/
structure Tidy (name? : DeclId → Option String) (m : Members) : Prop where
  nodup : m.order.Nodup
  entries : ∀ name id, (name, id) ∈ m.names → id ∈ m.order ∧ name? id = some name
  named : ∀ id ∈ m.order, ∀ name, name? id = some name → m.get? name = some id

variable {m : Members} {name? : DeclId → Option String} {id : DeclId}

theorem tidy_empty : empty.Tidy name? :=
  ⟨List.nodup_nil, by simp [empty], by simp [empty]⟩

theorem mem_bind {name key : String} (h : (key, i) ∈ m.bind name id) :
    key = name ∧ i = id ∨ key ≠ name ∧ (key, i) ∈ m.names := by
  rcases List.mem_cons.1 h with heq | hmem
  · cases heq
    exact .inl ⟨rfl, rfl⟩
  · obtain ⟨hmem, hne⟩ := List.mem_filter.1 hmem
    exact .inr ⟨by simpa using hne, hmem⟩

theorem exists_replaceFirst {old : DeclId} {order : List DeclId} (h : old ∈ order) (new : DeclId) :
    ∃ before after, order = before ++ old :: after ∧ old ∉ before ∧
      replaceFirst old new order = before ++ new :: after := by
  induction order with
  | nil => cases h
  | cons first rest ih =>
    by_cases hfirst : first = old
    · exact ⟨[], rest, by rw [hfirst]; rfl, List.not_mem_nil, by rw [replaceFirst, if_pos hfirst]; rfl⟩
    · obtain ⟨before, after, rfl, hnot, hreplaced⟩ := ih ((List.mem_cons.1 h).resolve_left (Ne.symm hfirst))
      refine ⟨first :: before, after, rfl, ?_, by rw [replaceFirst, if_neg hfirst, hreplaced]; rfl⟩
      exact fun hmem => (List.mem_cons.1 hmem).elim (Ne.symm hfirst) hnot

namespace Tidy

theorem get?_iff (h : m.Tidy name?) : m.get? name = some id ↔ id ∈ m.order ∧ name? id = some name :=
  ⟨fun hget => h.entries name id (mem_of_lookup hget), fun hid => h.named id hid.1 name hid.2⟩

variable {other? : DeclId → Option String}

section

variable (h : m.Tidy name?)

include h

theorem congr (hother : ∀ i ∈ m.order, other? i = name? i) : m.Tidy other? where
  nodup := h.nodup
  entries name i hi := by
    obtain ⟨hmem, hname⟩ := h.entries name i hi
    exact ⟨hmem, (hother i hmem).trans hname⟩
  named i hi name hname := h.named i hi name ((hother i hi).symm.trans hname)

theorem exists_insert {old : DeclId} (hold : m.get? name = some old) (id : DeclId) : ∃ before after,
      m.order = before ++ old :: after ∧
        (m.insert (some name) id).2 = ⟨before ++ id :: after, m.bind name id⟩ := by
  obtain ⟨before, after, horder, -, hreplaced⟩ := exists_replaceFirst (h.get?_iff.1 hold).1 id
  refine ⟨before, after, horder, ?_⟩
  rw [Members.insert]
  simp only [hold, hreplaced]

/-- The name of an entry is bound to another one: nothing else in the list has the name. -/
theorem bind {order : List DeclId}
    (hnodup : order.Nodup) (hid : id ∈ order) (hnew : other? id = some name)
    (hkept : ∀ i ∈ m.order, ∀ key, name? i = some key → key ≠ name → i ∈ order ∧ other? i = some key)
    (hlisted : ∀ i ∈ order, i ≠ id → other? i = name? i ∧ i ∈ m.order ∧ m.get? name ≠ some i) :
    Tidy other? ⟨order, m.bind name id⟩ := by
  refine ⟨hnodup, fun key i hi => ?_, fun i hi key hkey => ?_⟩
  · rcases mem_bind hi with ⟨rfl, rfl⟩ | ⟨hne, hi⟩
    · exact ⟨hid, hnew⟩
    · obtain ⟨hi, hkey⟩ := h.entries key i hi
      exact hkept i hi key hkey hne
  · rw [get?_bind]
    by_cases heq : i = id
    · subst heq
      rw [if_pos (Option.some.inj (hkey.symm.trans hnew))]
    · obtain ⟨hsame, hi, hne⟩ := hlisted i hi heq
      have hfound := h.named i hi key (hsame.symm.trans hkey)
      rw [if_neg (by rintro rfl; exact hne hfound), hfound]

theorem insert (hid : id ∉ m.order) : (m.insert (name? id) id).2.Tidy name? := by
  have hnodup : (m.order ++ [id]).Nodup :=
    h.nodup.append (List.nodup_singleton id) (by simpa using hid)
  cases hname : name? id with
  | none =>
    refine ⟨hnodup, fun key i hi => ?_, fun i hi key hkey => ?_⟩
    · exact (h.entries key i hi).imp_left (List.mem_append_left [id])
    · rcases List.mem_append.1 hi with hi | hi
      · exact h.named i hi key hkey
      · rw [List.mem_singleton.1 hi, hname] at hkey
        cases hkey
  | some name =>
    cases hget : m.get? name with
    | none =>
      simp only [Members.insert, hget]
      refine h.bind hnodup (by simp) hname (fun i hi key hkey _ => ⟨by simp [hi], hkey⟩)
        fun i hi hne => ⟨rfl, ?_, by simp [hget]⟩
      simpa [hne] using hi
    | some old =>
      obtain ⟨before, after, horder, hinsert⟩ := h.exists_insert hget id
      obtain ⟨-, hold⟩ := h.get?_iff.1 hget
      have hmiddle := h.nodup
      rw [horder] at hmiddle hid
      have hne := List.nodup_middle.1 hmiddle
      have hmem : ∀ i, i ∈ before ++ id :: after ↔ i = id ∨ i ∈ m.order ∧ i ≠ old := by
        rw [horder]
        grind
      rw [hinsert]
      refine h.bind (List.nodup_middle.2 (by grind)) (by simp) hname (fun i hi key hkey hkey' => ?_)
        fun i hi hne => ?_
      · refine ⟨(hmem i).2 (.inr ⟨hi, ?_⟩), hkey⟩
        rintro rfl
        exact hkey' (Option.some.inj (hkey.symm.trans hold))
      · obtain ⟨hi, hold⟩ := ((hmem i).1 hi).resolve_left hne
        exact ⟨rfl, hi, by simpa [hget] using hold.symm⟩

theorem nameEntry (hid : id ∈ m.order) (hnone : name? id = none)
    (hnew : other? id = some name) (hother : ∀ i, i ≠ id → other? i = name? i) : (m.nameEntry name id).2.Tidy other? := by
  have hne : ∀ {i key}, name? i = some key → i ≠ id := by
    rintro _ _ hkey rfl
    cases hnone.symm.trans hkey
  cases hget : m.get? name with
  | none =>
    simp only [Members.nameEntry, hget]
    exact h.bind h.nodup hid hnew (fun i hi key hkey _ => ⟨hi, (hother i (hne hkey)).trans hkey⟩)
      fun i hi hi' => ⟨hother i hi', hi, by simp [hget]⟩
  | some old =>
    simp only [Members.nameEntry, hget]
    obtain ⟨-, hold⟩ := h.get?_iff.1 hget
    refine h.bind (h.nodup.filter _) (List.mem_filter.2 ⟨hid, by simpa using (hne hold).symm⟩) hnew
      (fun i hi key hkey hkey' => ⟨List.mem_filter.2 ⟨hi, ?_⟩, (hother i (hne hkey)).trans hkey⟩)
      fun i hi hi' => ⟨hother i hi', List.mem_of_mem_filter hi, ?_⟩
    · have hother : i ≠ old := by
        rintro rfl
        exact hkey' (Option.some.inj (hkey.symm.trans hold))
      simpa using hother
    · have hother : i ≠ old := by simpa using (List.mem_filter.1 hi).2
      simpa [hget] using hother.symm

theorem unlist (hnone : name? id = none) : (m.unlist id).Tidy name? := by
  refine ⟨h.nodup.filter _, fun key i hi => ?_, fun i hi key hkey =>
    h.named i (List.mem_of_mem_filter hi) key hkey⟩
  obtain ⟨hi, hkey⟩ := h.entries key i hi
  refine ⟨List.mem_filter.2 ⟨hi, ?_⟩, hkey⟩
  have hne : i ≠ id := by
    rintro rfl
    rw [hnone] at hkey
    cases hkey
  simpa using hne

end

end Tidy

end Members

/-! ## Members that are printed -/

namespace Lowering

/-- What gives nothing for some members may leave them out. -/
theorem Lower.mapM_filter {α : Type} {l : List DeclId} {f : DeclId → Lower (List α)}
    {p : DeclId → Bool} (h : ∀ id, p id = false → f id = pure []) :
    (l.mapM f >>= fun xs => pure xs.flatten) =
      ((l.filter p).mapM f >>= fun xs => pure xs.flatten) := by
  induction l with
  | nil => rfl
  | cons id rest ih =>
    cases hp : p id with
    | false =>
      rw [List.filter_cons_of_neg (by simp [hp]), ← ih]
      simp [h id hp]
    | true =>
      rw [List.filter_cons_of_pos hp]
      simp only [List.mapM_cons, bind_assoc, pure_bind, List.flatten_cons]
      refine congrArg (f id >>= ·) (funext fun first => ?_)
      have happend := congrArg (fun x : Lower (List α) => x >>= fun xs => pure (first ++ xs)) ih
      simpa only [bind_assoc, pure_bind] using happend

namespace Scene

variable {scene : Scene}

/-- A method, if it has a body or must be overridden. -/
def methodItems (scene : Scene) (id : DeclId) : Lower (List Script.Item) :=
  match scene.store.entity? id with
  | some (.routine .method r) => do
    if r.statements.isSome || r.isPure then return [← scene.function id r true] else return []
  | _ => return []

theorem methods_eq (c : ClassType) : scene.methods c =
    ((c.members.order.filter scene.isMethod).mapM scene.methodItems >>= fun items =>
      pure items.flatten) := by
  refine Eq.trans ?_ (Lower.mapM_filter fun id hid => ?_)
  · rfl
  · have hnone (r : Routine) : scene.store.entity? id ≠ some (.routine .method r) := by
      intro hr
      rw [isMethod, hr] at hid
      cases hid
    unfold methodItems
    split
    · next r hr => exact absurd hr (hnone r)
    · rfl

/-- A module or class is printed by going through members: first the ones that are printed by
themselves, then the methods. -/
inductive GoesThrough (scene : Scene) (id : DeclId) : List DeclId → List DeclId → Prop
  | module {m : Module} {members : List DeclId} (hm : scene.store.module? id = some m)
    (h : scene.lowerModule id = (do
      let own ← members.mapM scene.items
      return ⟨m.imports, own.flatten ++ if id = Store.root then scene.mainGuard else []⟩)) :
    GoesThrough scene id members []
  | class {c : ClassType} {members methods : List DeclId} (hc : scene.store.class? id = some c)
    (h : ∀ nested, scene.classItem nested id c = (do
      let base ← baseTerm (scene.env id) c
      let own ← members.mapM nested
      let ctors ← scene.constructors id c
      let dtor ← scene.destructors c
      let ms ← methods.mapM scene.methodItems
      let name := Script.identifier ((scene.store.name? id).getD "")
      return .classDef name base (own.flatten ++ ctors ++ dtor ++ ms.flatten))) :
    GoesThrough scene id members methods

theorem exists_goesThrough {id : DeclId} {m : Members} (hm : scene.store.members? id = some m)
    (h : scene.store.isModule id ∨ (scene.store.class? id).isSome) :
    ∃ members methods, scene.GoesThrough id members methods ∧ (members ++ methods).Perm m.order := by
  rcases h with hmodule | hclass
  · obtain ⟨held, hheld⟩ := Option.isSome_iff_exists.1 hmodule
    rw [Store.members?, Store.entity?_of_module? hheld] at hm
    cases hm
    refine ⟨held.members.order, [], .module hheld ?_, by rw [List.append_nil]⟩
    rw [lowerModule, hheld]
  · obtain ⟨c, hc⟩ := Option.isSome_iff_exists.1 hclass
    rw [Store.members?, Store.entity?_of_class? hc] at hm
    cases hm
    refine ⟨_, _, .class hc fun nested => ?_, (List.perm_append_comm ..).trans
      (List.filter_append_perm scene.isMethod c.members.order)⟩
    rw [classItem_eq, methods_eq]
    simp only [bind_assoc, pure_bind]

end Scene

end Lowering

namespace Store

open Relation (ReflTransGen)

variable {s t : Store} {A : Store → DeclId → Prop} {N : String → Prop} {D : List DeclId}
  {id : DeclId} {m : Members}

/-- The table of a declaration agrees with the names of its members, all of which are inside it. -/
structure Tabulates (s : Store) (id : DeclId) (m : Members) : Prop where
  tidy : m.Tidy s.name?
  inside : ∀ member ∈ m.order, s.parent? member = some id

/-- All tables are tidy, but for those of the given classes. -/
structure Tidy (D : List DeclId) (s : Store) : Prop where
  members : ∀ id ∉ D, ∀ m, s.members? id = some m → s.Tabulates id m
  submodules : ∀ id ∉ D, ∀ path m, s.plan? id = some (path, m) →
    s.Tabulates id m ∧ ∀ member ∈ m.order, s.name? member ≠ none

theorem Tabulates.congr (h : s.Tabulates id m) (hviews : ∀ i ∈ m.order, s.parent? i = some id →
    t.name? i = s.name? i ∧ t.parent? i = some id) : t.Tabulates id m where
  tidy := h.tidy.congr fun i hi => (hviews i hi (h.inside i hi)).1
  inside i hi := (hviews i hi (h.inside i hi)).2

/-- What keeps the names and the places of members keeps the tables that it does not change. -/
theorem Tidy.of_views (hs : s.Tidy D)
    (hviews : ∀ i owner, owner ∉ D → s.parent? i = some owner →
      t.name? i = s.name? i ∧ t.parent? i = some owner)
    (hmembers : ∀ id ∉ D, ∀ m, t.members? id = some m → s.members? id = some m ∨ t.Tabulates id m)
    (hsubmodules : ∀ id ∉ D, ∀ path m, t.plan? id = some (path, m) → s.plan? id = some (path, m) ∨
      t.Tabulates id m ∧ ∀ member ∈ m.order, t.name? member ≠ none) : t.Tidy D := by
  refine ⟨fun id hid m hm => ?_, fun id hid path m hm => ?_⟩
  · refine (hmembers id hid m hm).elim (fun hm => ?_) fun h => h
    exact (hs.members id hid m hm).congr fun i _ hi => hviews i id hid hi
  · refine (hsubmodules id hid path m hm).elim (fun hm => ?_) fun h => h
    obtain ⟨hold, hnamed⟩ := hs.submodules id hid path m hm
    refine ⟨hold.congr fun i _ hi => hviews i id hid hi, fun i hi => ?_⟩
    rw [(hviews i id hid (hold.inside i hi)).1]
    exact hnamed i hi

theorem tabulates_empty : s.Tabulates id .empty :=
  ⟨Members.tidy_empty, by simp [Members.empty]⟩

theorem tidy_empty (rootName : String) : (empty rootName).Tidy [] := by
  refine ⟨fun id _ m hm => members?_empty hm ▸ tabulates_empty, fun id _ path m hm => ?_⟩
  rw [plan?_bind, Option.bind_eq_some_iff] at hm
  obtain ⟨d, hd, hm⟩ := hm
  obtain ⟨-, rfl⟩ := eq_of_getElem?_empty hd
  cases hm
  exact ⟨tabulates_empty, by simp [Module.empty, Members.empty]⟩

theorem Tabulates.insert (h : s.Tabulates id m) {member : DeclId} (hnot : member ∉ m.order)
    (hmember : s.parent? member = some id) :
    s.Tabulates id (m.insert (s.name? member) member).2 where
  tidy := h.tidy.insert hnot
  inside i hi := (Members.mem_insert hi).elim (fun heq => heq ▸ hmember) (h.inside i)

section

variable (hs : s.Tidy D)

include hs

theorem Tidy.mono (id : DeclId) : s.Tidy (id :: D) where
  members i hi := hs.members i fun h => hi (List.mem_cons_of_mem _ h)
  submodules i hi := hs.submodules i fun h => hi (List.mem_cons_of_mem _ h)

theorem Tidy.of_decls (h : t.decls = s.decls) : t.Tidy D := by
  refine hs.of_views (fun i owner _ hi => ?_) (fun id _ m hm => .inl ?_)
    fun id _ path m hm => .inl ?_
  · rw [name?, name?, parent?, h]
    exact ⟨rfl, hi⟩
  · rwa [members?_bind, ← h, ← members?_bind]
  · rwa [plan?_bind, ← h, ← plan?_bind]

theorem Tidy.modifyEntity (id : DeclId) {f : Entity → Entity} (hplan : ∀ e, (f e).plan? = e.plan?)
    (h : id ∉ D → ∀ e, s.entity? id = some e → ∀ m, (f e).members? = some m → s.Tabulates id m) :
    (s.modifyEntity id f).Tidy D := by
  have hviews (i owner : DeclId) (hi : s.parent? i = some owner) :
      (s.modifyEntity id f).name? i = s.name? i ∧ (s.modifyEntity id f).parent? i = some owner :=
    ⟨name?_modifyEntity .., (parent?_modifyEntity ..).trans hi⟩
  refine hs.of_views (fun i owner _ => hviews i owner) (fun i hi m hm => ?_)
    fun i hi path m hm => .inl ?_
  · rw [members?, entity?_modifyEntity] at hm
    split at hm
    · next heq =>
      subst heq
      rw [Option.bind_map, Option.bind_eq_some_iff] at hm
      obtain ⟨e, he, hm⟩ := hm
      exact .inr ((h hi e he m hm).congr fun j _ => hviews j i)
    · exact .inl hm
  · rwa [← plan?_modifyEntity id hplan]

theorem Tidy.setMembers (h : id ∉ D → s.Tabulates id m) :
    (s.modifyEntity id (Entity.setMembers m)).Tidy D := by
  refine hs.modifyEntity id (Entity.plan?_setMembers m) fun hid e _ after hafter => ?_
  cases Entity.members?_setMembers hafter
  exact h hid

theorem Tidy.relist {relisted : Option (Option DeclId × Members)}
    (h : id ∉ D → ∀ r ∈ relisted, s.Tabulates id r.2) (place : Position) (name : String) :
    (s.relist id relisted place name).Tidy D := by
  rcases relisted with _ | ⟨_ | old, members⟩
  · exact hs
  · exact hs.setMembers fun hid => h hid _ rfl
  · exact (hs.setMembers fun hid => h hid _ rfl).of_decls rfl

theorem Tidy.addImport (id : DeclId) (path : String) (symbol : Option String) :
    (s.modifyModule id (·.addImport path symbol)).Tidy D := by
  refine hs.modifyEntity id (fun e => ?_) fun hid e he m hm => hs.members id hid m ?_
  · cases e <;> rfl
  · rw [members?, he]
    cases e <;> exact hm

theorem Tidy.revise (id : DeclId) {f : Entity → Entity} {bound : Nat}
    (hf : ∀ e : Entity, e.Revises bound (f e)) : (s.modifyEntity id f).Tidy D := by
  refine hs.modifyEntity id (fun e => Entity.plan?_of_frame? (hf e).frame?) fun hid e he m hm => ?_
  rcases (hf e).members? with hsame | hempty
  · exact hs.members id hid m (by rw [members?, he]; exact hsame.symm.trans hm)
  · cases hempty.symm.trans hm
    exact tabulates_empty

end

section New

variable {parent : DeclId} (hparent : parent < s.decls.size)

include hparent

theorem Tidy.push (hs : s.Tidy D) (name : Option String) (place : Position) {entity : Entity}
    (hempty : entity.Empty) : (s.alloc parent name place entity).2.Tidy D := by
  refine hs.of_views (fun i owner _ hi => ?_) (fun i hi m hm => ?_) fun i hi path m hm => ?_
  · have hne := Nat.ne_of_lt (lt_of_parent? hi)
    rw [name?_alloc, parent?_alloc hparent, if_neg hne, if_neg hne]
    exact ⟨rfl, hi⟩
  · rw [members?, entity?_alloc] at hm
    split at hm
    · rw [hempty.members m hm]
      exact .inr tabulates_empty
    · exact .inl hm
  · rw [plan?_eq, frame?_alloc] at hm
    split at hm
    · obtain ⟨frame, hframe, hplan⟩ := Option.map_eq_some_iff.1 hm
      cases hplan
      rw [hempty.submodules frame hframe]
      exact .inr ⟨tabulates_empty, by simp [Members.empty]⟩
    · exact .inl (by rwa [plan?_eq])

theorem members?_alloc {name : Option String} {place : Position} {entity : Entity} :
    (s.alloc parent name place entity).2.members? parent = s.members? parent := by
  rw [members?, entity?_alloc, if_neg (Nat.ne_of_lt hparent), members?]

theorem Tidy.enter (hs : s.Tidy D) (name : Option String) (place : Position) {entity : Entity}
    (hempty : entity.Empty) : (s.enter parent name entity place).Tidy D := by
  have hpushed := hs.push hparent name place hempty
  refine hpushed.relist (fun hid r hr => ?_) place _
  obtain ⟨members, hmembers, rfl⟩ := Option.map_eq_some_iff.1 hr
  have hnot : s.decls.size ∉ members.order := fun hmem => by
    rw [members?_alloc hparent] at hmembers
    exact Nat.lt_irrefl _ (lt_of_parent? ((hs.members parent hid members hmembers).inside _ hmem))
  have hinsert := (hpushed.members parent hid members hmembers).insert hnot
    (by rw [parent?_alloc hparent, if_pos rfl])
  rwa [name?_alloc, if_pos rfl] at hinsert

theorem Tidy.enclose (hs : s.Tidy D) (place : Position)
    (hnew : (s.module? parent).bind (·.submodules.get? name) = none) :
    (s.addModule parent name place).2.Tidy D := by
  have hviews (i owner : DeclId) (hi : s.parent? i = some owner) :
      (s.addModule parent name place).2.name? i = s.name? i ∧
        (s.addModule parent name place).2.parent? i = some owner := by
    have hne := Nat.ne_of_lt (lt_of_parent? hi)
    rw [name?_addModule hnew place, parent?_addModule hnew place hparent, if_neg hne, if_neg hne]
    exact ⟨rfl, hi⟩
  refine hs.of_views (fun i owner _ => hviews i owner) (fun i hi m hm => ?_) fun i hi path m hm => ?_
  · rw [members?_addModule hnew place] at hm
    split at hm
    · cases hm
      exact .inr tabulates_empty
    · exact .inl hm
  · rw [plan?_enclose hnew] at hm
    obtain ⟨plan, hplan, hpair⟩ := Option.map_eq_some_iff.1 hm
    clear hm
    split at hpair
    · next heq =>
      subst heq
      cases hpair
      rw [if_neg (Nat.ne_of_lt hparent)] at hplan
      obtain ⟨hold, hnamed⟩ := hs.submodules i hi plan.1 plan.2 hplan
      have hname := name?_addModule hnew place s.decls.size
      rw [if_pos rfl] at hname
      have hnot : s.decls.size ∉ plan.2.order := fun hmem =>
        Nat.lt_irrefl _ (lt_of_parent? (hold.inside _ hmem))
      have hinsert := (hold.congr fun j _ => hviews j i).insert hnot
        (by rw [parent?_addModule hnew place hparent, if_pos rfl])
      rw [hname] at hinsert
      refine .inr ⟨hinsert, fun j hj => ?_⟩
      rcases Members.mem_insert hj with rfl | hj
      · rw [hname]
        exact Option.some_ne_none name
      · rw [(hviews j i (hold.inside j hj)).1]
        exact hnamed j hj
    · cases hpair
      split at hplan
      · cases hplan
        exact .inr ⟨tabulates_empty, by simp [Members.empty]⟩
      · exact .inl hplan

end New

theorem Extend.tidy (h : Extend True Entity.Empty N s t) (hs : s.Tidy D) : t.Tidy D := by
  cases h with
  | note hdecls => exact hs.of_decls hdecls
  | revise id f hf => exact hs.revise id hf
  | push parent name place entity hparent hempty =>
    exact hs.push (hparent trivial) name place hempty
  | enter parent name entity place hparent hempty =>
    exact hs.enter (hparent trivial) name place hempty
  | enclose parent name place _ hparent hnew =>
    obtain ⟨module, hmodule⟩ := Option.isSome_iff_exists.1 (hparent trivial)
    have hplan : s.plan? parent = some (module.path, module.submodules) := by
      rw [plan?, hmodule]
      rfl
    exact hs.enclose (lt_of_plan? hplan) place hnew
  | importEnum id _ _ => exact hs.addImport ..

theorem Extends.tidy (h : Extends True Entity.Empty N s t) (hs : s.Tidy D) : t.Tidy D := by
  induction h with
  | refl => exact hs
  | tail _ hlast ih => exact hlast.tidy ih

/-! ## Declarations without a name -/

/-- A declaration without a name that is in the table of the declaration around it. -/
def Anonymous (s : Store) (id : DeclId) : Prop :=
  s.name? id = none ∧ ∃ owner m, s.parent? id = some owner ∧ s.members? owner = some m ∧ id ∈ m.order

theorem Tidy.nameAnonymous (hs : s.Tidy D) (h : s.Anonymous id) (name : String) :
    (s.nameAnonymous id name).Tidy D := by
  obtain ⟨hnone, owner, members, howner, hmembers, hmem⟩ := h
  rw [nameAnonymous_eq]
  have hparent := parent?_rename (s := s) id name
  have hentity := entity?_rename (s := s) id name
  have hnew := name?_rename_self name howner
  have hother (i : DeclId) (hi : i ≠ id) : (s.rename id name).name? i = s.name? i := by
    rw [name?_rename, if_neg hi]
  dsimp only
  generalize s.rename id name = t at hparent hentity hnew hother
  have hmembers' (i : DeclId) : t.members? i = s.members? i := by
    rw [members?, hentity, members?]
  rw [hparent, howner]
  dsimp only
  rw [hmembers', hmembers, Option.map_some]
  have hset : (t.modifyEntity owner (Entity.setMembers (members.nameEntry name id).2)).Tidy D := by
    have hviews (i p : DeclId) (hi : s.parent? i = some p) (hne : i ≠ id) :
        (t.modifyEntity owner (Entity.setMembers (members.nameEntry name id).2)).name? i =
            s.name? i ∧
          (t.modifyEntity owner (Entity.setMembers (members.nameEntry name id).2)).parent? i =
            some p :=
      ⟨(name?_modifyEntity ..).trans (hother i hne),
        (parent?_modifyEntity ..).trans ((hparent i).trans hi)⟩
    refine ⟨fun i hi m hm => ?_, fun i hi path m hm => ?_⟩
    · rw [members?, entity?_modifyEntity] at hm
      split at hm
      · next heq =>
        subst heq
        rw [Option.bind_map, Option.bind_eq_some_iff] at hm
        obtain ⟨e, -, hm⟩ := hm
        cases Entity.members?_setMembers hm
        have hold := hs.members i hi members hmembers
        refine ⟨hold.tidy.nameEntry hmem hnone ((name?_modifyEntity ..).trans hnew) fun j hj =>
          (name?_modifyEntity ..).trans (hother j hj), fun j hj => ?_⟩
        exact (parent?_modifyEntity ..).trans
          ((hparent j).trans (hold.inside j (Members.mem_nameEntry hj)))
      · next hne =>
        refine (hs.members i hi m ((hmembers' i).symm.trans hm)).congr fun j _ hj =>
          hviews j i hj ?_
        rintro rfl
        exact hne (Option.some.inj (hj.symm.trans howner))
    · rw [plan?_modifyEntity _ (Entity.plan?_setMembers _), plan?_of_entity? (hentity i)] at hm
      obtain ⟨hold, hnamed⟩ := hs.submodules i hi path m hm
      have hne : ∀ j ∈ m.order, j ≠ id := by
        rintro j hj rfl
        exact hnamed j hj hnone
      refine ⟨hold.congr fun j hmem hj => hviews j i hj (hne j hmem), fun j hj => ?_⟩
      rw [(hviews j i (hold.inside j hj) (hne j hj)).1]
      exact hnamed j hj
  generalize members.nameEntry name id = named at hset
  obtain ⟨old, new⟩ := named
  have hlisted : (t.relist owner (some (old, new)) (t.place id) name).Tidy D := by
    cases old with
    | none => exact hset
    | some old => exact hset.of_decls rfl
  split
  · exact hlisted.addImport ..
  · exact hlisted

theorem parent?_setParent {id parent : DeclId} (h : parent < id) (hid : id < s.decls.size)
    (i : DeclId) : (s.setParent id parent h).parent? i =
      if i = id then some parent else s.parent? i := by
  split
  · next hi =>
    rw [parent?, getElem?_setParent h, hi, Array.getElem?_eq_getElem hid, Option.map_some,
      if_pos rfl]
    rfl
  · next hi => exact bind_of_getElem? (getElem?_setParent h) fun d => by rw [if_neg hi]

theorem Tidy.adopt (hs : s.Tidy (id :: D)) {owner member : DeclId} (hlt : owner < member)
    (hmember : s.parent? member = some id) : (s.adopt owner member hlt).Tidy (id :: D) := by
  have hparent (i : DeclId) : (s.setParent member owner hlt).parent? i =
      if i = member then some owner else s.parent? i := parent?_setParent hlt (lt_of_parent? hmember) i
  have hmembers' (i : DeclId) : (s.setParent member owner hlt).members? i = s.members? i := by
    rw [members?, entity?_setParent, members?]
  have hne (i p : DeclId) (hp : p ∉ id :: D) (hi : s.parent? i = some p) : i ≠ member := by
    rintro rfl
    exact hp (Option.some.inj (hi.symm.trans hmember) ▸ List.mem_cons_self)
  have hmoved : (s.setParent member owner hlt).Tidy (id :: D) := by
    refine hs.of_views (fun i p hp hi => ⟨name?_setParent .., ?_⟩)
      (fun i _ m hm => .inl (hmembers' i ▸ hm)) fun i _ path m hm => .inl ?_
    · rw [hparent, if_neg (hne i p hp hi), hi]
    · rwa [plan?_of_entity? (entity?_setParent ..)] at hm
  unfold Store.adopt
  dsimp only
  split
  · exact hmoved
  · next members hmembers =>
    refine hmoved.setMembers fun hlive => ?_
    refine (hmoved.members owner hlive members hmembers).insert (fun hmem => ?_) ?_
    · rw [hmembers'] at hmembers
      exact hne member owner hlive ((hs.members owner hlive members hmembers).inside member hmem) rfl
    · rw [hparent, if_pos rfl]

theorem parent?_adopt {owner member i : DeclId} (hlt : owner < member) (hi : i ≠ member) :
    (s.adopt owner member hlt).parent? i = s.parent? i := by
  have hmoved : (s.setParent member owner hlt).parent? i = s.parent? i :=
    bind_of_getElem? (getElem?_setParent hlt) fun d => by rw [if_neg hi]
  unfold Store.adopt
  dsimp only
  split
  · exact hmoved
  · exact (parent?_modifyEntity ..).trans hmoved

theorem Tidy.dissolve (hs : s.Tidy D) (hid : id ∉ D) (h : s.Anonymous id) :
    (s.dissolve id).Tidy (id :: D) := by
  obtain ⟨hnone, owner, members, howner, hmembers, -⟩ := h
  obtain ⟨hnodup, hinside⟩ : (s.classMembers id).Nodup ∧
      ∀ member ∈ s.classMembers id, s.parent? member = some id := by
    rw [classMembers]
    cases hclass : s.class? id with
    | none => simp
    | some c =>
      have hheld := hs.members id hid c.members (by rw [members?, entity?_of_class? hclass]; rfl)
      exact ⟨hheld.tidy.nodup, hheld.inside⟩
  have hlt : ∀ member ∈ s.classMembers id, owner < member := fun member hmember =>
    Nat.lt_trans (s.nested id owner howner) (s.nested member id (hinside member hmember))
  have hunlisted : (s.modifyEntity owner (Entity.setMembers (members.unlist id))).Tidy D :=
    hs.setMembers fun hlive => by
      have hheld := hs.members owner hlive members hmembers
      exact ⟨hheld.tidy.unlist hnone, fun i hi => hheld.inside i (List.mem_of_mem_filter hi)⟩
  unfold Store.dissolve
  rw [howner]
  dsimp only
  rw [dif_pos hlt, hmembers]
  -- Those that are still to be moved are different and inside the class.
  refine (adoptAll_induction (I := fun rest t => t.Tidy (id :: D) ∧ rest.Nodup ∧
    ∀ member ∈ rest, t.parent? member = some id) ?_ hlt ⟨hunlisted.mono id, hnodup, fun i hi =>
      (parent?_modifyEntity ..).trans (hinside i hi)⟩).1
  rintro member rest t hlt ⟨ht, hnodup, hinside⟩
  obtain ⟨hmember, hrest⟩ := List.forall_mem_cons.1 hinside
  obtain ⟨hnot, hnodup⟩ := List.nodup_cons.1 hnodup
  refine ⟨ht.adopt hlt hmember, hnodup, fun i hi => ?_⟩
  have hne : i ≠ member := by
    rintro rfl
    exact hnot hi
  rw [parent?_adopt _ hne, hrest i hi]

/-- Programs in which what is added holds nothing yet, only listed declarations without a name are
named, and only such classes dissolved, each once; the list has the dissolved classes. -/
inductive Tended (rootName : String) : List DeclId → Store → Prop where
  | empty : Tended rootName [] (empty rootName)
  | operation {D : List DeclId} {s t : Store} (h : Tended rootName D s)
      (hop : Operation Entity.Empty Anonymous (fun _ _ => False) s t) : Tended rootName D t
  | dissolve {D : List DeclId} {s : Store} (h : Tended rootName D s) (id : DeclId) (hid : id ∉ D)
      (hclass : (s.class? id).isSome) (hanonymous : s.Anonymous id) :
      Tended rootName (id :: D) (s.dissolve id)

theorem Tended.operations {rootName : String} (h : Tended rootName D s)
    (hst : ReflTransGen (Operation Entity.Empty Anonymous fun _ _ => False) s t) :
    Tended rootName D t := by
  induction hst with
  | refl => exact h
  | tail _ hop ih => exact ih.operation hop

theorem Tended.sound {rootName : String} (h : Tended rootName D s) : s.Linked ∧ s.Tidy D := by
  induction h with
  | empty => exact ⟨linked_empty rootName, tidy_empty rootName⟩
  | operation _ hop ih =>
    obtain ⟨hlinked, htidy⟩ := ih
    refine ⟨hop.linked (fun _ he => he.empty) (fun _ he => he.routines) hlinked, ?_⟩
    rcases hop.cases (fun _ he => he.empty) fun _ : True => hlinked with ⟨id, hid, name, rfl⟩ |
      ⟨id, hid, -⟩ | hextends | ⟨id, path, symbol, rfl⟩
    · exact htidy.nameAnonymous hid name
    · cases hid
    · exact hextends.tidy htidy
    · exact htidy.addImport id path symbol
  | dissolve _ id hid _ hanonymous ih =>
    exact ⟨(edits_dissolve (P := Entity.Empty) (N := fun _ => True) id).linked
      (fun _ he => he.routines) ih.1, ih.2.dissolve hid hanonymous⟩

/-! ## Places -/

theorem members?_modifyEntity_of_ne {f : Entity → Entity} (hi : i ≠ id) :
    (s.modifyEntity id f).members? i = s.members? i := by
  rw [members?, entity?_modifyEntity, if_neg hi, members?]

theorem members?_relist (id : DeclId) (f : Members → Option DeclId × Members) (place : Position)
    (name : String)
    (i : DeclId) : (s.relist id ((s.members? id).map f) place name).members? i =
      if i = id then (s.members? i).map fun m => (f m).2 else s.members? i := by
  cases hm : s.members? id with
  | none =>
    split
    · next hi =>
      rw [hi, hm]
      exact hm
    · rfl
  | some m =>
    have hset : (s.modifyEntity id (Entity.setMembers (f m).2)).members? i =
        if i = id then (s.members? i).map fun m => (f m).2 else s.members? i := by
      split
      · next hi =>
        rw [hi, hm]
        rw [members?, Option.bind_eq_some_iff] at hm
        obtain ⟨e, he, hm⟩ := hm
        rw [members?, entity?_modifyEntity, if_pos rfl, he]
        cases e <;> cases hm <;> rfl
      · next hi => exact members?_modifyEntity_of_ne hi
    rw [Option.map_some]
    generalize f m = relisted at hset ⊢
    obtain ⟨_ | old, members⟩ := relisted
    · exact hset
    · exact hset

theorem members?_add (parent : DeclId) (name : Option String) (entity : Entity) (place : Position)
    (hi : i < s.decls.size) : (s.add parent name entity place).2.members? i =
      if i = parent then (s.members? i).map fun m => (m.insert name s.decls.size).2
      else s.members? i := by
  have hold : (s.alloc parent name place entity).2.members? i = s.members? i := by
    rw [members?, entity?_alloc, if_neg (Nat.ne_of_lt hi), members?]
  rw [add_eq]
  dsimp only
  generalize (s.alloc parent name place entity).2 = t at hold
  have hlisted := t.members?_relist parent (·.insert name s.decls.size) place (name.getD "") i
  rw [hold] at hlisted
  split
  · dsimp only
    rw [importEnum, members?_modifyModule]
    · exact hlisted
    · exact fun _ => rfl
  · exact hlisted

theorem members?_addParameter {routine : DeclId} (spec : ParameterSpec) (index : Nat)
    (hi : i < s.decls.size) : (s.addParameter routine spec index).2.members? i =
      if i = routine then (s.members? i).map fun m =>
        (m.insert (some (spec.name.getD ("arg" ++ toString index))) s.decls.size).2
      else s.members? i := by
  rw [← members?_add routine _ (.parameter ⟨spec.type, spec.default⟩) spec.place hi]
  unfold addParameter
  dsimp only
  generalize s.add routine _ _ _ = added
  rw [members?, modifyRoutine, entity?_modifyEntity, members?]
  split
  · rw [Option.bind_map]
    congr 1
    funext e
    cases e <;> rfl
  · rfl

theorem members?_addParametersFrom {routine : DeclId} (index : Nat) (params : List ParameterSpec)
    (hi : i < s.decls.size) (hne : i ≠ routine) :
    (s.addParametersFrom routine index params).members? i = s.members? i := by
  induction params generalizing s index with
  | nil => rfl
  | cons spec rest ih =>
    rw [addParametersFrom, ih, members?_addParameter spec index hi, if_neg hne]
    rw [size_addParameter]
    exact Nat.lt_succ_of_lt hi

theorem members?_addNewRoutine (kind : RoutineKind) (name : String) (spec : RoutineSpec)
    (place : Position) (hid : id < s.decls.size) :
    (s.addNewRoutine kind id name spec place).2.members? id =
      (s.members? id).map fun m => (m.insert (some name) s.decls.size).2 := by
  have hadded := members?_add id (some name) (.routine kind spec.routine) place hid
  have hsize := s.size_add id (some name) (.routine kind spec.routine) place
  have hfirst : (s.add id (some name) (.routine kind spec.routine) place).1 = s.decls.size := rfl
  rw [if_pos rfl] at hadded
  unfold addNewRoutine
  generalize s.add id (some name) _ place = added at hadded hsize hfirst
  refine (members?_addParametersFrom 0 spec.params ?_ ?_).trans hadded
  · rw [hsize]
    exact Nat.lt_succ_of_lt hid
  · rw [hfirst]
    exact Nat.ne_of_lt hid

/-- A new declaration with a name: of any sort, a routine that completes no other one, or a
parameter, which may be called by its place. -/
inductive Adds (s : Store) (parent : DeclId) (name : String) : Store → Prop where
  | declaration (entity : Entity) (place : Position) :
      Adds s parent name (s.add parent (some name) entity place).2
  | routine {t : Store} (kind : RoutineKind) (spec : RoutineSpec) (place : Position)
      (h : s.addRoutine kind parent name spec place = (s.decls.size, t)) : Adds s parent name t
  | parameter (spec : ParameterSpec) (index : Nat)
      (h : spec.name.getD ("arg" ++ toString index) = name) :
      Adds s parent name (s.addParameter parent spec index).2

theorem Adds.members? (h : Adds s id name t) (hid : id < s.decls.size) :
    t.members? id = (s.members? id).map fun m => (m.insert (some name) s.decls.size).2 := by
  cases h with
  | declaration entity place => rw [members?_add id (some name) entity place hid, if_pos rfl]
  | parameter spec index h => rw [members?_addParameter spec index hid, if_pos rfl, h]
  | routine kind spec place h =>
    have hnew := members?_addNewRoutine kind name spec place hid
    unfold addRoutine at h
    split at h
    · next found hfound =>
      have hlike := (Option.filter_eq_some_iff.1 hfound).2
      have hlt : found ≠ s.decls.size := by
        rintro rfl
        rw [isRoutineLike, entity?, Array.getElem?_size] at hlike
        cases hlike
      split at h
      · exact absurd (congrArg Prod.fst h) hlt
      · split at h
        · exact absurd (congrArg Prod.fst h) hlt
        · rw [h] at hnew
          exact hnew
    · rw [h] at hnew
      exact hnew

/-- **The tables of members lose and duplicate nothing**, whatever sequence of operations built the
program, if what is added holds nothing yet, only listed declarations without a name are named, and
only such classes dissolved, each once. In the table of every declaration but the dissolved classes,
and among the namespaces of every module, no declaration is listed twice, every entry is listed and
has the name of the entry, and every listed declaration with a name is the entry of that name. All
that is listed is inside the declaration, so that no two of the tables list the same. A new
declaration with the name of an entry takes the place of that entry. To print a module or class,
each of its members is gone through once, and nothing else is. -/
theorem tables_of_tended {rootName : String} (h : Tended rootName D s) (hid : id ∉ D) :
    (∀ m, s.members? id = some m → s.Tabulates id m ∧
      (∀ member ∈ m.order, m.order.count member = 1) ∧
      (∀ name old t, m.get? name = some old → Adds s id name t → ∃ before after,
        m.order = before ++ old :: after ∧
          t.members? id = some ⟨before ++ s.decls.size :: after, m.bind name s.decls.size⟩) ∧
      ∀ scene : Lowering.Scene, scene.store = s → s.isModule id ∨ (s.class? id).isSome →
        ∃ members methods, scene.GoesThrough id members methods ∧
          ∀ member, (members ++ methods).count member = if member ∈ m.order then 1 else 0) ∧
    ∀ module, s.module? id = some module → s.Tabulates id module.submodules := by
  obtain ⟨-, htidy⟩ := h.sound
  refine ⟨fun m hm => ?_, fun module hmodule => ?_⟩
  · have hheld := htidy.members id hid m hm
    refine ⟨hheld, fun member => List.count_eq_one_of_mem hheld.tidy.nodup,
      fun name old t hold hadds => ?_, ?_⟩
    · obtain ⟨before, after, horder, hinsert⟩ := hheld.tidy.exists_insert hold s.decls.size
      refine ⟨before, after, horder, ?_⟩
      have hlt : id < s.decls.size := by
        rw [members?_bind, Option.bind_eq_some_iff] at hm
        obtain ⟨d, hd, -⟩ := hm
        exact (Array.getElem?_eq_some_iff.1 hd).1
      rw [hadds.members? hlt, hm, Option.map_some, hinsert]
    · rintro scene rfl hprinted
      obtain ⟨members, methods, hthrough, hperm⟩ := Lowering.Scene.exists_goesThrough hm hprinted
      exact ⟨members, methods, hthrough, fun member => (hperm.count_eq member).trans
        hheld.tidy.nodup.count⟩
  · exact (htidy.submodules id hid module.path module.submodules (by rw [plan?, hmodule]; rfl)).1

theorem tables_of_tended_dissolved :
    Tended "main" [1] (heldInClass.dissolve 1) ∧
      (heldInClass.dissolve 1).Tabulates root ⟨[2], [("x", 2)]⟩ ∧
      ∃ before after, [2] = before ++ 2 :: after ∧
        ((heldInClass.dissolve 1).add root (some "x") (.attribute ⟨none, false⟩) default).2.members?
          root = some ⟨before ++ 3 :: after, [("x", 3)]⟩ := by
  have htended : Tended "main" [1] (heldInClass.dissolve 1) :=
    .dissolve (Tended.empty.operations (operations_heldInClass fun _ he => he.empty)) 1 (by decide)
      (by decide)
      ⟨by decide, root, ⟨[1], []⟩, by decide, by decide, by decide⟩
  have hroot : root ∉ [1] := by decide
  obtain ⟨htabulates, -, hplace, -⟩ :=
    (tables_of_tended htended hroot).1 ⟨[2], [("x", 2)]⟩ (by decide)
  exact ⟨htended, htabulates, hplace "x" 2 _ (by decide) (.declaration _ _)⟩

/-- A class inside a function. -/
def heldInFunction : Store :=
  let s := ((empty "main").add root (some "f")
    (.routine .function ⟨[], some [], .empty, [], "void", false, false, false, []⟩) default).2
  (s.add 1 (some "L") (.classType (.empty .classKey)) default).2

/-- What a function lists is not gone through to print it, and a class may be added with any
table. -/
theorem heldInFunction_not_printed :
    (Tended "main" [] heldInFunction ∧ heldInFunction.members? 1 = some ⟨[2], [("L", 2)]⟩ ∧
      (Writer.script.write heldInFunction [] root).text.toOption = some "def f():\n    pass\n") ∧
    ∃ s m, ReflTransGen (Operation (fun _ => True) (fun _ _ => False) fun _ _ => False)
      (empty "main") s ∧ s.members? 1 = some m ∧ ¬s.Tabulates 1 m := by
  refine ⟨⟨Tended.empty.operations (.tail (.single (operation_add root _ _ (by decide) ?_))
    (operation_add 1 _ _ (by decide) ?_)), by decide, by decide +kernel⟩,
    ((empty "main").add root (some "C") (.classType
      { ClassType.empty .classKey with members := ⟨[2, 2], []⟩ }) default).2,
    ⟨[2, 2], []⟩, .single (operation_add root _ _ (by decide) trivial), by decide, fun h => ?_⟩
  · refine ⟨?_, ?_, rfl⟩
    · rintro _ ⟨⟩
      rfl
    · rintro _ ⟨⟩
  · refine ⟨?_, ?_, rfl⟩
    · rintro _ ⟨⟩
      rfl
    · rintro _ ⟨⟩
  · exact absurd h.tidy.nodup (by decide)

end Store

end Serpentine
