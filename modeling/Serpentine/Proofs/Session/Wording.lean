import Serpentine.Proofs.Reference.Wording
import Serpentine.Proofs.Session.Modules

/-!
# The wording of a session

All that a session holds is made of names and literals of the files that it reads, but for the name
of its root. If this name stays in its line, so do all imports and all spellings of names
(**`Session.spelled`**).
-/

namespace Serpentine

/-! ## Programs -/

variable {W : NameRef → Prop}

namespace Store

variable {s : Store}

theorem worded_empty (rootName : String) : (empty rootName).Worded W := by
  have hentity : ∀ id e, (empty rootName).entity? id = some e →
      id = root ∧ e = .namespaceOf (.empty rootName) := by
    intro id e h
    cases id with
    | zero => exact ⟨rfl, (Option.some.inj h).symm⟩
    | succ id =>
      have hnone : (empty rootName).decls[id + 1]? = none := by simp [empty]
      rw [entity?, hnone] at h
      cases h
  refine ⟨rfl, fun id name hid hname => ?_, fun id e he _ => ?_, fun id hid => ?_,
    fun id e path hid he _ => absurd (hentity id e he).1 hid, fun id e he => ?_⟩
  · cases id with
    | zero => exact absurd rfl hid
    | succ id =>
      have hnone : (empty rootName).decls[id + 1]? = none := by simp [empty]
      rw [name?, hnone] at hname
      cases hname
  · rw [(hentity id e he).1]
    rfl
  · rw [isModule_eq] at hid
    obtain ⟨path, hpath⟩ := Option.isSome_iff_exists.1 hid
    obtain ⟨e, he, -⟩ := Option.bind_eq_some_iff.1 hpath
    rw [(hentity id e he).1]
    rfl
  · rw [(hentity id e he).2]
    refine ⟨?_, fun members hm => ?_, fun m name inner hm hinner => ?_⟩
    · rintro _ ⟨⟩
    · cases hm
      exact listed_empty
    · cases hm
      cases hinner

theorem Worded.references (hs : s.Worded W) :
    ∀ ref ∈ s.references, IsScopedName ref.raw ∧ W ref := by
  intro ref href
  obtain ⟨d, hd, href⟩ := List.mem_flatMap.1 href
  obtain ⟨e, he, href⟩ := List.mem_flatMap.1 href
  obtain ⟨id, hid⟩ := List.getElem?_of_mem hd
  have hentity : s.entity? id = some d.entity := by
    rw [entity?, ← Array.getElem?_toList, hid]
    rfl
  exact ((hs.holds id _ hentity).worded.exprs e he).names ref href

theorem Worded.isOneLine_modulePath (hs : s.Worded W) (hroot : IsOneLine (s.modulePath Store.root))
    (id : DeclId) : IsOneLine (s.modulePath id) := by
  by_cases howner : s.owningModule id = Store.root
  · rw [modulePath, hs.owned Store.root hs.root] at hroot
    rw [modulePath, howner]
    exact hroot
  · rw [modulePath, module?]
    split
    · next m hm => exact (hs.paths _ _ m.path howner hm rfl).isSpelling.titles.oneLine
    · decide

end Store

/-! ## Bindings -/

/-- The program is worded, and all names that are bound have a spelling. -/
structure Resolving.Spelled (root : String) (r : Resolving) : Prop where
  charted : r.store.Charted root
  worded : r.store.Worded fun _ => True
  table : ∀ entry ∈ r.table, IsSpelling entry.2.name

namespace Resolving.Spelled

variable {root : String} {r next : Resolving}

theorem addImport (hr : r.Spelled root) (id : DeclId) (request : ImportRequest)
    (hpath : IsOneLine request.1) (hsymbol : ∀ x ∈ request.2, IsOneLine x) :
    Spelled root { r with store := r.store.addImport id request } :=
  ⟨hr.charted.of_bare (r.store.bare_addImport id request), hr.worded.addImport id hpath hsymbol,
    hr.table⟩

theorem step (hroot : IsOneLine root) (hr : r.Spelled root) {ref : NameRef}
    (href : IsScopedName ref.raw) (h : r.step ref = .ok next) : next.Spelled root := by
  have hpaths : ∀ id, IsOneLine (r.store.modulePath id) := by
    refine hr.worded.isOneLine_modulePath ?_
    rw [hr.charted.modulePath Store.moduleAt?_nil]
    exact hroot
  obtain ⟨-, rfl⟩ | ⟨-, b, hb, htable, hstore⟩ := Resolving.step_cases h
  · exact hr
  · obtain ⟨hname, hrequest⟩ := hr.worded.spelled_bind hpaths href hb
    have hentries : ∀ entry ∈ next.table, IsSpelling entry.2.name := by
      rw [htable]
      exact List.forall_mem_cons.2 ⟨hname, hr.table⟩
    obtain hsame | ⟨id, ⟨path, symbol⟩, hmem, hadded⟩ := hstore
    · exact ⟨hsame ▸ hr.charted, hsame ▸ hr.worded, hentries⟩
    · obtain ⟨hpath, hsymbol⟩ := hrequest path symbol hmem
      obtain ⟨hcharted, hworded, -⟩ := hr.addImport id (path, symbol) hpath hsymbol
      exact ⟨hadded ▸ hcharted, hadded ▸ hworded, hentries⟩

theorem run (hroot : IsOneLine root) (hr : r.Spelled root) {refs : List NameRef}
    (hrefs : ∀ ref ∈ refs, IsScopedName ref.raw) : (r.run refs).2.Spelled root :=
  Resolving.run_induction
    (fun _ ref href _ hstep hr => hr.step hroot (hrefs ref href) hstep) hr

theorem importForMain (hr : r.Spelled root) :
    Spelled root { r with store := r.store.importForMain } := by
  unfold Store.importForMain
  split
  · exact hr.addImport Store.root ("sys", none) (by decide) nofun
  · exact hr

theorem resolve (hroot : IsOneLine root) (hr : r.Spelled root) :
    (Serpentine.resolve r.store r.table).2.Spelled root := by
  have hrun := hr.run hroot fun ref href => (hr.worded.references ref href).1
  obtain ⟨fault, h⟩ | ⟨-, h⟩ := resolve_cases r.store r.table
  · rw [h]
    exact hrun
  · rw [h]
    exact hrun.importForMain

end Resolving.Spelled

/-! ## Sessions -/

namespace Session

theorem spelled_after {root : String} (hroot : IsOneLine root) {s : Session}
    (hs : Resolving.Spelled root ⟨s.store, s.table⟩) (step : Step) :
    Resolving.Spelled root ⟨(s.after step).store, (s.after step).table⟩ := by
  cases step with
  | parse file text =>
    obtain ⟨t, hwritten, hdecls, -⟩ := s.store_parse file text fun _ _ => trivial
    refine ⟨charted_after hs.charted (.parse file text),
      (hwritten.worded hs.worded).of_decls hdecls, ?_⟩
    rw [after, (s.keeps_parse file text).1]
    exact hs.table
  | resolve => exact hs.resolve hroot

theorem spelled {root : String} (hroot : IsOneLine root) (macros : Macro.Table) (writer : Writer)
    (steps : List Step) : Resolving.Spelled root
      ⟨((start root macros writer).afterAll steps).store,
        ((start root macros writer).afterAll steps).table⟩ := by
  have hall : ∀ (steps : List Step) (s : Session), Resolving.Spelled root ⟨s.store, s.table⟩ →
      Resolving.Spelled root ⟨(s.afterAll steps).store, (s.afterAll steps).table⟩ := by
    intro steps
    induction steps with
    | nil => exact fun _ h => h
    | cons step rest ih => exact fun s h => ih _ (spelled_after hroot h step)
  exact hall steps _ ⟨Store.charted_empty root, Store.worded_empty root, nofun⟩

end Session

end Serpentine
