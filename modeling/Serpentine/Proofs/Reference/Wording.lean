import Serpentine.Proofs.Program.Namespaces
import Serpentine.Proofs.Program.Wording
import Serpentine.Proofs.Reference.Spelling
import Serpentine.Proofs.Script.Plain
import Serpentine.Proofs.Script.RoundTrip
import Serpentine.Proofs.TypeName

/-!
# The spelling of names that are read

The names in a program are words. So the parts of a scoped name are those that were written, and
what a use of a name is spelled by is a path of words (**`Lowering.Env.isPlain_nameText`**).
-/

namespace Serpentine

open Script (IsWord)

variable {name : String}

/-! ## Spellings -/

section

variable (h : IsTitle name)

include h

theorem IsTitle.ne_empty : name ≠ "" := by
  rintro rfl
  exact absurd h.1 (by decide)

theorem IsTitle.mem {c : Char} (hc : c ∈ name.toList) : c = '~' ∨ isNameChar c = true := by
  rw [← List.takeWhile_append_dropWhile (p := (· == '~')) (l := name.toList)] at hc
  rcases List.mem_append.1 hc with hc | hc
  · exact .inl (by simpa using List.mem_takeWhile_imp hc)
  · exact .inr (List.all_eq_true.1 h.2 c hc)

theorem IsTitle.not_mem_dot : '.' ∉ name.toList := fun hdot =>
  (h.mem hdot).elim (by decide) (by decide)

theorem IsTitle.oneLine : IsOneLine name := fun hline =>
  (h.mem hline).elim (by decide) (by decide)

theorem pathParts_title : Script.pathParts name = [name] := by
  have hparts := Script.pathParts_intercalate (List.cons_ne_nil name []) (by
    simpa using h.not_mem_dot)
  rwa [String.intercalate_singleton] at hparts

end

/-- The parts of a dotted text are names of declarations or empty. -/
def HasTitles (name : String) : Prop :=
  ∀ part ∈ Script.pathParts name, part = "" ∨ IsTitle part

/-- A name of titles with dots between them. -/
structure IsSpelling (name : String) : Prop where
  nonempty : name ≠ ""
  titles : HasTitles name

theorem IsTitle.hasTitles (h : IsTitle name) : HasTitles name := by
  intro part hpart
  rw [pathParts_title h] at hpart
  exact .inr (List.mem_singleton.1 hpart ▸ h)

theorem IsTitle.isSpelling (h : IsTitle name) : IsSpelling name :=
  ⟨h.ne_empty, h.hasTitles⟩

theorem hasTitles_empty : HasTitles "" := by
  intro part hpart
  exact .inl (List.mem_singleton.1 hpart)

theorem HasTitles.append {path name : String} (hpath : HasTitles path) (hname : HasTitles name) :
    IsSpelling (path ++ "." ++ name) := by
  refine ⟨fun hempty => ?_, fun part hpart => ?_⟩
  · have hlist := congrArg String.toList hempty
    simp at hlist
  · rw [Script.pathParts_append_dot] at hpart
    exact (List.mem_append.1 hpart).elim (hpath part) (hname part)

theorem hasTitles_intercalate {names : List String} (h : ∀ name ∈ names, IsTitle name) :
    HasTitles (".".intercalate names) := by
  cases names with
  | nil =>
    rw [String.intercalate_nil]
    exact hasTitles_empty
  | cons first rest =>
    intro part hpart
    rw [Script.pathParts_intercalate (List.cons_ne_nil _ _) fun name hname =>
      (h name hname).not_mem_dot] at hpart
    exact .inr (h part hpart)

theorem isSpelling_intercalate {names : List String} (hne : names ≠ [])
    (h : ∀ name ∈ names, IsTitle name) : IsSpelling (".".intercalate names) := by
  refine ⟨fun hempty => ?_, hasTitles_intercalate h⟩
  have hparts := Script.pathParts_intercalate hne fun name hname => (h name hname).not_mem_dot
  rw [hempty] at hparts
  have hmem : "" ∈ names := hparts ▸ List.mem_singleton.2 rfl
  exact (h "" hmem).ne_empty rfl

theorem IsModulePath.isSpelling {path : String} (h : IsModulePath path) : IsSpelling path := by
  obtain ⟨names, hne, hnames, rfl⟩ := h
  exact isSpelling_intercalate hne fun name hname => (hnames name hname).isTitle

theorem HasTitles.oneLine (h : HasTitles name) : IsOneLine name := by
  rw [← Script.intercalate_pathParts name]
  refine Script.isOneLine_intercalate (by decide) fun part hpart => ?_
  rcases h part hpart with rfl | htitle
  · decide
  · exact htitle.oneLine

/-! ## Texts -/

namespace Script

theorem isOneLine_identifier (h : IsOneLine name) : IsOneLine (identifier name) := by
  unfold identifier
  split
  · exact isOneLine_append.2 ⟨h, by decide⟩
  · exact h

theorem isPlain_identifier (h : IsTitle name) : IsPlain (identifier name) := by
  have hline := isOneLine_identifier h.oneLine
  cases hname : name.toList with
  | nil => exact absurd (String.toList_eq_nil_iff.1 hname) h.ne_empty
  | cons c cs =>
    by_cases hc : c = '~'
    · subst hc
      have hfree : reserved.contains name = false := by
        have hall : ∀ word ∈ reserved, word.toList.head? ≠ some '~' := by decide
        rw [← Bool.not_eq_true]
        intro hmem
        exact hall name (by simpa using hmem) (by rw [hname]; rfl)
      rw [identifier, hfree] at hline ⊢
      exact isPlain_of_head hname (by decide) hline
    · have hword : IsWord name.toList := by
        have htitle : IsWord (name.toList.dropWhile (· == '~')) := h
        rwa [hname, List.dropWhile_cons_of_neg (by simpa using hc), ← hname] at htitle
      obtain ⟨hident, hfree⟩ := Lowering.Env.isIdent_identifier hword
      have hleading : leadingWord (identifier name) = identifier name := by
        rw [leadingWord, List.takeWhile_eq_self_iff.2 (List.all_eq_true.1 hident.2),
          String.ofList_toList]
      refine ⟨hline, ?_, ?_⟩
      · cases hcs : (identifier name).toList with
        | nil =>
          have hstart := hident.1
          rw [hcs] at hstart
          cases hstart
        | cons d ds =>
          have hstart := hident.1
          rw [hcs] at hstart
          have hd : d ≠ ' ' := by
            rintro rfl
            cases hstart
          simpa using hd
      · have hall : ∀ word ∈ headerWords, word ∈ reserved := by decide
        rw [hleading]
        exact fun hmem => hfree (hall _ hmem)

theorem isPlain_dotted (h : IsSpelling name) : IsPlain (dotted name) := by
  obtain ⟨first, rest, hparts⟩ := List.exists_cons_of_ne_nil (pathParts_ne_nil name)
  have htitles := h.titles
  have hline : ∀ part ∈ (pathParts name).map identifier, IsOneLine part := by
    intro part hpart
    obtain ⟨title, htitle, rfl⟩ := List.mem_map.1 hpart
    refine isOneLine_identifier ?_
    rcases htitles title htitle with rfl | htitle
    · decide
    · exact htitle.oneLine
  unfold HasTitles at htitles
  rw [hparts] at htitles hline
  rw [dotted, hparts]
  obtain ⟨hfirst, -⟩ := List.forall_mem_cons.1 htitles
  cases rest with
  | nil =>
    rw [List.map_singleton, String.intercalate_singleton]
    rcases hfirst with rfl | htitle
    · exact absurd (by rw [← intercalate_pathParts name, hparts]; rfl) h.nonempty
    · exact isPlain_identifier htitle
  | cons second rest =>
    have hrest : IsOneLine (".".intercalate ((second :: rest).map identifier)) :=
      isOneLine_intercalate (by decide) (List.forall_mem_cons.1 hline).2
    rw [List.map_cons, List.map_cons, String.intercalate_cons_cons, ← List.map_cons]
    refine (IsOpening.append ?_ hrest).toIsPlain
    rcases hfirst with rfl | htitle
    · decide
    · exact (isPlain_identifier htitle).mark (by decide)

end Script

theorem Lowering.Env.isPlain_nameText {env : Lowering.Env}
    (htable : ∀ entry ∈ env.table, IsSpelling entry.2.name) {ref : NameRef}
    (href : IsScopedName ref.raw) : Script.IsPlain (env.nameText ref) := by
  unfold nameText
  cases hget : env.table.get? ref.id with
  | none =>
    obtain ⟨scope, hscope, hraw⟩ := href
    dsimp only
    rw [hraw, TypeName.cutAtScope_scope hscope]
    refine Script.isPlain_dotted ?_
    obtain ⟨names, hne, hnames, rfl | rfl⟩ := hscope
    · exact isSpelling_intercalate hne fun name hname => (hnames name hname).isTitle
    · obtain ⟨first, rest, rfl⟩ := List.exists_cons_of_ne_nil hne
      rw [String.intercalate_cons_cons]
      exact hasTitles_empty.append
        (hasTitles_intercalate fun name hname => (hnames name hname).isTitle)
  | some r =>
    have hspelling := htable _ (mem_of_lookup hget)
    dsimp only
    split
    · exact (Script.IsOpening.append (by decide)
        (Script.isOneLine_identifier hspelling.titles.oneLine)).toIsPlain
    · exact Script.isPlain_dotted hspelling

/-! ## Searches -/

namespace Search

variable {α β : Type} {B : Option DeclId → Prop} {Q : α → Prop} {R : β → Prop}

/-- The result of the search has a property, given one of the base classes that it is told. -/
def Yields (B : Option DeclId → Prop) (Q : α → Prop) : Search α → Prop
  | .done a => Q a
  | .ask _ next => ∀ base, B base → (next base).Yields B Q

theorem Yields.bind {search : Search α} {next : α → Search β} (h : search.Yields B Q)
    (hnext : ∀ a, Q a → (next a).Yields B R) : (search >>= next).Yields B R := by
  induction search with
  | done a => exact hnext a h
  | ask cls more ih => exact fun base hbase => ih base (h base hbase)

theorem Yields.of_run {base : DeclId → Option (Option DeclId)} {search : Search α} {a : α}
    (h : search.Yields B Q) (hbase : ∀ cls b, base cls = some b → B b)
    (hrun : search.run base = some a) : Q a := by
  induction search with
  | done b =>
    cases hrun
    exact h
  | ask cls next ih =>
    obtain ⟨b, hb, hnext⟩ := Option.bind_eq_some_iff.1 hrun
    exact ih b (h b (hbase cls b hb)) hnext

theorem yields_any (search : Search α) : search.Yields B fun _ => True := by
  induction search with
  | done a => exact trivial
  | ask cls next ih => exact fun base _ => ih base

end Search

variable {W : NameRef → Prop} {id : DeclId} {found : Found}

namespace Store

variable {s : Store}

/-- What was found has a name, and is not the root. -/
def Finds (s : Store) : Found → Prop
  | .decl id => id ≠ root ∧ (s.name? id).isSome
  | .enumerator enumeration index =>
    enumeration ≠ root ∧ IsName (s.enumeratorName enumeration index)

namespace Worded

theorem ne_root_of_ordinary (hs : s.Worded W) (h : s.Ordinary id) : id ≠ Store.root := by
  rintro rfl
  exact Bool.false_ne_true (h.isModule.symm.trans hs.root)

theorem name?_isSome_of_isModule (hs : s.Worded W) (h : s.isModule id) : (s.name? id).isSome := by
  rw [isModule, module?] at h
  split at h
  · next m hm => exact hs.named id _ hm rfl
  · cases h

section

variable (hs : s.Worded W)

include hs

theorem listed {e : Entity} (h : s.entity? id = some e) {members : Members}
    (hm : e.members? = some members) : s.Listed members :=
  (hs.holds id e h).members members hm

theorem finds_enumerator {e : Enumeration} (h : s.entity? id = some (.enumeration e))
    {index : Nat} (hindex : e.indexOf? name = some index) : s.Finds (.enumerator id index) := by
  refine ⟨hs.ne_root_of_entity h rfl, ?_⟩
  obtain ⟨hlt, -, -⟩ := List.findIdx?_eq_some_iff_getElem.1 hindex
  have hget : e.enumerators[index]? = some e.enumerators[index] := List.getElem?_eq_getElem hlt
  rw [enumeratorName, enumeration?, h]
  simp only [Option.bind_some, hget, Option.map_some, Option.getD_some]
  exact ((hs.holds id _ h).worded _ (List.getElem_mem hlt)).name

theorem finds_lookupIn {members : Members} (hm : s.Listed members)
    (h : s.lookupIn members name = some found) : s.Finds found := by
  unfold lookupIn at h
  split at h
  · next id hid =>
    cases h
    obtain ⟨hordinary, hname⟩ := hm.names name id hid
    exact ⟨hs.ne_root_of_ordinary hordinary, hname⟩
  · obtain ⟨id, -, hid⟩ := List.exists_of_findSome?_eq_some h
    split at hid
    · next e he =>
      split at hid
      · cases hid
      · obtain ⟨index, hindex, rfl⟩ := Option.map_eq_some_iff.1 hid
        unfold enumeration? at he
        split at he
        · next hentity =>
          cases he
          exact hs.finds_enumerator hentity hindex
        · cases he
    · cases hid

theorem finds_indexOf? {e : Enumeration} (h : s.entity? id = some (.enumeration e)) :
    ∀ found ∈ (e.indexOf? name).map (Found.enumerator id), s.Finds found := by
  intro found hfound
  obtain ⟨index, hindex, rfl⟩ := Option.map_eq_some_iff.1 hfound
  exact hs.finds_enumerator h hindex

theorem finds_module {m : Module} (h : s.entity? id = some (.namespaceOf m)) :
    ∀ found ∈ (s.lookupIn m.members name).or ((m.submodules.get? name).map .decl),
      s.Finds found := by
  intro found hfound
  rcases Option.or_eq_some_iff.1 hfound with hown | ⟨-, hinner⟩
  · exact hs.finds_lookupIn (hs.listed h rfl) hown
  · obtain ⟨inner, hget, rfl⟩ := Option.map_eq_some_iff.1 hinner
    obtain ⟨hroot, hmodule⟩ := (hs.holds id _ h).submodules m name inner rfl hget
    exact ⟨hroot, hs.name?_isSome_of_isModule hmodule⟩

theorem finds_local {kind : RoutineKind} {r : Routine}
    (h : s.entity? id = some (.routine kind r)) :
    ∀ found ∈ (r.locals.get? name).map Found.decl, s.Finds found := by
  intro found hfound
  obtain ⟨inner, hget, rfl⟩ := Option.map_eq_some_iff.1 hfound
  obtain ⟨hordinary, hname⟩ := (hs.listed h rfl).names name inner hget
  exact ⟨hs.ne_root_of_ordinary hordinary, hname⟩

theorem yields_memberSearch (n : Nat) (id : DeclId) (name : String) :
    (s.memberSearch n id name).Yields (fun _ => True) fun found? => ∀ found ∈ found?, s.Finds found := by
  fun_induction memberSearch s n id name with
  | case1 n id name e he => exact hs.finds_indexOf? he
  | case2 n id name m hm => exact hs.finds_module hm
  | case3 n id name c hc found hfound =>
    rintro _ ⟨⟩
    exact hs.finds_lookupIn (hs.listed hc rfl) hfound
  | case5 id name c hc n hnone ih =>
    refine Search.Yields.bind (Search.yields_any _) fun base _ => ?_
    cases base with
    | none => rintro _ ⟨⟩
    | some base => exact ih base
  | case6 n id name kind r hr => exact hs.finds_local hr
  | _ => rintro _ ⟨⟩

theorem yields_firstSearch (name : String) (ids : List DeclId) :
    (s.firstSearch name ids).Yields (fun _ => True) fun found? => ∀ found ∈ found?, s.Finds found := by
  induction ids with
  | nil => rintro _ ⟨⟩
  | cons id rest ih =>
    refine Search.Yields.bind (hs.yields_memberSearch maxBases id name) fun found? hfound => ?_
    cases found? with
    | some found => exact hfound
    | none => exact ih

theorem yields_walkSearch (segments : List String) (h : s.Finds found) :
    (s.walkSearch found segments).Yields (fun _ => True) fun r => ∀ f, r = .ok f → s.Finds f := by
  induction segments generalizing found with
  | nil =>
    cases found <;>
    · rintro _ ⟨⟩
      exact h
  | cons segment rest ih =>
    cases found with
    | enumerator enumeration index => rintro _ ⟨⟩
    | decl id =>
      refine Search.Yields.bind (hs.yields_memberSearch maxBases id segment) fun found? hfound => ?_
      cases found? with
      | none => rintro _ ⟨⟩
      | some found => exact ih (hfound found rfl)

theorem yields_qualifiedSearch (scope : DeclId) (segments : List String) :
    (s.qualifiedSearch scope segments).Yields (fun _ => True) fun r => ∀ f, r = .ok f → s.Finds f := by
  unfold qualifiedSearch
  split
  · rintro _ ⟨⟩
  · split
    · split
      · rintro _ ⟨⟩
      · refine Search.Yields.bind (hs.yields_memberSearch maxBases _ _) fun found? hfound => ?_
        cases found? with
        | none => rintro _ ⟨⟩
        | some found => exact hs.yields_walkSearch _ (hfound found rfl)
    · refine Search.Yields.bind (hs.yields_firstSearch _ _) fun found? hfound => ?_
      cases found? with
      | none => rintro _ ⟨⟩
      | some found => exact hs.yields_walkSearch _ (hfound found rfl)

theorem finds_lookupMember (h : s.lookupMember id name = some found) :
    s.Finds found :=
  (hs.yields_memberSearch maxBases id name).of_run (fun _ _ _ => trivial)
    (Option.join_eq_some_iff.1 h) found rfl

theorem finds_lookupQualified {scope : DeclId} {segments : List String}
    (h : s.lookupQualified scope segments = .ok found) : s.Finds found := by
  unfold lookupQualified at h
  cases hrun : s.findQualified scope segments with
  | none => simp [hrun] at h
  | some r =>
    rw [hrun] at h
    exact (hs.yields_qualifiedSearch scope segments).of_run (fun _ _ _ => trivial) hrun found h

end

/-- What is told is a class. -/
def AreClasses (s : Store) (base : Option DeclId) : Prop :=
  ∀ id ∈ base, (s.class? id).isSome

theorem yields_baseSearch (cls : DeclId) :
    (s.baseSearch cls).Yields (fun _ => True) (AreClasses s) := by
  unfold baseSearch
  split
  · next raw parent _ _ =>
    generalize s.qualifiedSearch parent (TypeName.segments raw) = search
    refine Search.Yields.bind (Search.yields_any search) fun result _ => ?_
    split
    · show AreClasses s (if _ then _ else _)
      split
      · next hid =>
        rintro _ ⟨⟩
        exact hid.2
      · rintro _ ⟨⟩
    · rintro _ ⟨⟩
  · rintro _ ⟨⟩

theorem areClasses_findBase {cls : DeclId} {base : Option DeclId}
    (h : s.findBase cls = some base) : AreClasses s base := by
  rw [findBase] at h
  generalize s.maxWaiting = n at h
  cases n with
  | zero => cases h
  | succ n => exact (yields_baseSearch cls).of_run (fun _ _ _ => trivial) h

theorem yields_classSearch (hs : s.Worded W) (n : Nat) (hclass : (s.class? id).isSome)
    (name : String) : (s.memberSearch n id name).Yields (AreClasses s) fun found? =>
      ∀ inner, found? = some (.decl inner) → s.Ordinary inner := by
  fun_induction memberSearch s n id name with
  | case3 n id name c hc found hfound =>
    rintro inner ⟨⟩
    unfold lookupIn at hfound
    split at hfound
    · next hown =>
      cases hfound
      exact ((hs.listed hc rfl).names name inner hown).1
    · obtain ⟨enumeration, -, hfound⟩ := List.exists_of_findSome?_eq_some hfound
      split at hfound
      · split at hfound
        · cases hfound
        · obtain ⟨_, -, hpair⟩ := Option.map_eq_some_iff.1 hfound
          cases hpair
      · cases hfound
  | case4 => rintro _ ⟨⟩
  | case5 id name c hc n hnone ih =>
    have hbase : (s.baseOf id).Yields (AreClasses s) (AreClasses s) := by
      unfold baseOf
      split
      · exact fun _ h => h
      · rintro _ ⟨⟩
    refine hbase.bind fun base hbase => ?_
    cases base with
    | none => rintro _ ⟨⟩
    | some base => exact ih base (hbase base rfl)
  | _ =>
    obtain ⟨c, hc⟩ := Option.isSome_iff_exists.1 hclass
    have hentity := entity?_of_class? hc
    simp_all

theorem ordinary_lookupMember (hs : s.Worded W) (hclass : (s.class? id).isSome) {inner : DeclId}
    (h : s.lookupMember id name = some (.decl inner)) : s.Ordinary inner :=
  (hs.yields_classSearch maxBases hclass name).of_run (fun _ _ hbase => areClasses_findBase hbase)
    (Option.join_eq_some_iff.1 h) inner rfl

theorem isTitle_of_finds (hs : s.Worded W) (h : s.Finds (.decl id)) :
    IsTitle ((s.name? id).getD "") := by
  obtain ⟨hroot, hsome⟩ := h
  obtain ⟨name, hname⟩ := Option.isSome_iff_exists.1 hsome
  rw [hname]
  exact hs.names id name hroot hname

theorem isTitle_namesBelowModule (hs : s.Worded W) (id : DeclId) :
    ∀ name ∈ s.namesBelowModule id, IsTitle name := by
  intro name hname
  obtain ⟨d, hd, hn⟩ := List.mem_filterMap.1 hname
  have hbelow := List.mem_takeWhile_imp (List.mem_reverse.1 hd)
  refine hs.names d name (fun hroot => ?_) hn
  rw [hroot, hs.root] at hbelow
  cases hbelow

end Worded

end Store

/-! ## Bindings -/

/-- What a use of a name is bound to has a spelling, and what it asks for stays in its line. -/
structure Bound.Spelled (b : Bound) : Prop where
  name : IsSpelling b.resolution.name
  request : ∀ path symbol, b.request = some (path, symbol) →
    IsOneLine path ∧ ∀ x ∈ symbol, IsOneLine x

theorem Bound.spelled_bare (h : IsSpelling name) (binding : Binding) :
    (Bound.bare name binding).Spelled :=
  ⟨h, nofun⟩

namespace Store.Worded

variable {s : Store} (hs : s.Worded W) (hpaths : ∀ id, IsOneLine (s.modulePath id))

include hs

theorem spelled_bindOwn (h : s.Finds (.decl id)) (binding : Binding) :
    (s.bindOwn id binding).Spelled :=
  ⟨(hs.isTitle_of_finds h).isSpelling, nofun⟩

include hpaths

theorem spelled_bindModule (requester : DeclId) (h : s.Finds (.decl id)) (hmodule : s.isModule id) :
    (s.bindModule requester id).Spelled := by
  refine ⟨(hs.isModulePath_modulePath hmodule h.1).isSpelling, fun path symbol hrequest => ?_⟩
  dsimp only [bindModule] at hrequest
  split at hrequest
  · cases hrequest
  · cases hrequest
    exact ⟨hpaths id, nofun⟩

theorem oneLine_declImport {requester : DeclId} {path : String} {symbol : Option String}
    (h : s.declImport requester id = some (path, symbol)) :
    IsOneLine path ∧ ∀ x ∈ symbol, IsOneLine x := by
  obtain ⟨rfl, rfl⟩ := eq_of_declImport h
  exact ⟨hpaths id, fun x hx => (hs.isTitle_namesBelowModule id x (List.mem_of_head? hx)).oneLine⟩

omit hpaths in
theorem isSpelling_declSpelling (h : s.Finds (.decl id)) (hmodule : s.isModule id = false) :
    IsSpelling (s.declSpelling id) := by
  refine isSpelling_intercalate ?_ (hs.isTitle_namesBelowModule id)
  obtain ⟨name, hname⟩ := Option.isSome_iff_exists.1 h.2
  refine List.ne_nil_of_mem (a := name) (List.mem_filterMap.2 ⟨id, List.mem_reverse.2 ?_, hname⟩)
  rw [belowModule, ancestors, ancestorsWithin, List.takeWhile_cons_of_pos (by simpa using hmodule)]
  exact List.mem_cons_self

theorem spelled_below (requester id : DeclId) (hname : IsName name) :
    ((s.bindDeclared requester id).below name).Spelled :=
  ⟨(hasTitles_intercalate (hs.isTitle_namesBelowModule id)).append hname.isTitle.hasTitles,
    fun _ _ hrequest => hs.oneLine_declImport hpaths hrequest⟩

theorem spelled_bindEnumerator (requester : DeclId) {enumeration : DeclId} {index : Nat}
    (h : s.Finds (.enumerator enumeration index)) :
    (s.bindEnumerator requester enumeration index).Spelled := by
  have hname : IsName (s.enumeratorName enumeration index) := h.2
  unfold bindEnumerator
  dsimp only
  split
  · exact hs.spelled_below hpaths requester enumeration hname
  · split
    · refine ⟨hname.isTitle.isSpelling, fun path symbol hrequest => ?_⟩
      dsimp only at hrequest
      split at hrequest
      · cases hrequest
      · cases hrequest
        refine ⟨hpaths _, ?_⟩
        rintro _ ⟨⟩
        exact hname.isTitle.oneLine
    · exact hs.spelled_below hpaths requester _ hname

omit hpaths in
theorem finds_target? {ref : NameRef} (h : s.target? ref = some found) : s.Finds found := by
  unfold target? at h
  split at h
  · obtain ⟨context, -, hmember⟩ := List.exists_of_findSome?_eq_some h
    exact hs.finds_lookupMember hmember
  · exact hs.finds_lookupQualified (eq_ok_of_toOption h)

theorem spelled_of_binds {requester : DeclId} (h : s.Finds found) {b : Bound}
    (hbinds : s.Binds requester found b) : b.Spelled := by
  cases hbinds with
  | bare id => exact Bound.spelled_bare (hs.isTitle_of_finds h).isSpelling _
  | own => exact hs.spelled_bindOwn h _
  | wholeModule hkind =>
    exact hs.spelled_bindModule hpaths requester h ((isModule_of_targetKind requester _).2 hkind)
  | declared _ hkind =>
    refine ⟨hs.isSpelling_declSpelling h ?_, fun _ _ hrequest =>
      hs.oneLine_declImport hpaths hrequest⟩
    rcases hkind with hkind | ⟨context, name, hclass, hmember⟩
    · exact Bool.not_eq_true _ ▸ fun hm => hkind ((isModule_of_targetKind requester _).1 hm)
    · exact (hs.ordinary_lookupMember hclass hmember).isModule
  | bareEnumerator => exact Bound.spelled_bare h.2.isTitle.isSpelling _
  | inClass henum =>
    have htitle := hs.names _ _ h.1 henum
    exact Bound.spelled_bare (htitle.hasTitles.append h.2.isTitle.hasTitles) _
  | enumerator => exact hs.spelled_bindEnumerator hpaths requester h

/-- **What uses of names are bound to.** -/
theorem spelled_bind {ref : NameRef} (href : IsScopedName ref.raw) {b : Bound}
    (h : s.bind ref = .ok b) : b.Spelled := by
  obtain ⟨segments, hscope, hraw⟩ := href
  rcases binds_bind h with ⟨name, hname, rfl⟩ | ⟨found, hfound, hbinds⟩
  · rw [hraw, TypeName.segments_joinScope hscope] at hname
    obtain ⟨names, hne, hnames, hsegments⟩ := hscope
    refine Bound.spelled_bare ?_ _
    rcases hsegments with hsame | hroot
    · exact (hnames name (by simp [← hsame, hname])).isTitle.isSpelling
    · exact absurd (List.cons.inj (hroot.symm.trans hname)).2 hne
  · exact hs.spelled_of_binds hpaths (hs.finds_target? hfound) hbinds

end Store.Worded

end Serpentine
