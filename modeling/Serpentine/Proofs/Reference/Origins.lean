import Serpentine.Proofs.Session.Modules

/-!
# Where imports come from

A module gets an import when an enumeration with a name is declared in it, when the root has a
function to start with, and when a name that was read in its scopes is bound to something elsewhere
(**`Session.import_origin`**).
-/

namespace Serpentine

/-! ## Requests -/

def Bound.Asking (b : Bound) : Prop :=
  ∀ path symbol, b.request = some (path, symbol) →
    b.resolution.binding.isPath ∧ b.resolution.modulePath = path

namespace Store

variable (s : Store)

theorem asking_bindEnumerator (requester enumeration : DeclId) (index : Nat) :
    (s.bindEnumerator requester enumeration index).Asking := by
  have hbelow : ∀ id, ((s.bindDeclared requester id).below
      (s.enumeratorName enumeration index)).Asking := fun id path symbol h =>
    ⟨rfl, (eq_of_declImport h).1⟩
  unfold bindEnumerator
  dsimp only
  split
  · exact hbelow enumeration
  · split
    · intro path symbol h
      dsimp only at h ⊢
      split at h
      · cases h
      · cases h
        exact ⟨rfl, rfl⟩
    · exact hbelow _

theorem asking_bind {ref : NameRef} {b : Bound} (h : s.bind ref = .ok b) : b.Asking := by
  rcases binds_bind h with ⟨name, -, rfl⟩ | ⟨found, -, hbinds⟩
  · exact nofun
  · cases hbinds with
    | bare | own | bareEnumerator | inClass => exact nofun
    | wholeModule =>
      intro path symbol h
      dsimp only [bindModule] at h ⊢
      split at h
      · cases h
      · cases h
        exact ⟨rfl, rfl⟩
    | declared hb =>
      refine fun path symbol h => ⟨?_, (eq_of_declImport h).1⟩
      rcases hb with rfl | rfl <;> rfl
    | enumerator enumeration index => exact s.asking_bindEnumerator _ enumeration index

/-! ## Enumerations -/

variable {s} {t : Store}

/-- An enumeration with a name was declared in the module. -/
def HasEnumeration (s : Store) (id : DeclId) : Prop :=
  ∃ e, s.owningModule e = id ∧ (s.entity? e).map Entity.describe = some "enumeration" ∧
    (s.name? e).isSome

def Explained (s : Store) : Prop :=
  ∀ id path symbol, s.HasImport id path symbol →
    ImportRequest.Meets ("enum", some "Enum") path symbol ∧ s.HasEnumeration id

theorem isSome_name?_of_modify (id : DeclId) (f : Declaration → Declaration)
    (ht : t.decls = s.decls.modify id f) (hf : ∀ d, d.name.isSome → (f d).name.isSome) {i : DeclId}
    (h : (s.name? i).isSome) : (t.name? i).isSome := by
  rw [name?, ht, Array.getElem?_modify]
  rw [name?] at h
  split
  · cases hd : s.decls[i]? with
    | none => simp [hd] at h
    | some d =>
      rw [hd] at h
      exact hf d h
  · exact h

variable {N : String → Prop}

theorem Edit.isSome_name? {P : Entity → Prop} (h : Edit P N s t) {i : DeclId}
    (hi : (s.name? i).isSome) : (t.name? i).isSome := by
  cases h with
  | note hdecls =>
    rw [name?, hdecls]
    exact hi
  | alter id f _ =>
    rw [name?_modifyEntity]
    exact hi
  | push parent name place entity _ => exact isSome_name?_alloc _ _ _ _ hi
  | enclose parent name place _ hnew =>
    unfold addModule
    rw [hnew]
    dsimp only
    rw [modifyModule, name?_modifyEntity]
    exact isSome_name?_alloc _ _ _ _ hi
  | importEnum id _ _ =>
    rw [Store.importEnum, modifyModule, name?_modifyEntity]
    exact hi
  | rename id name =>
    exact isSome_name?_of_modify id (fun d => { d with name := some name }) rfl (fun _ _ => rfl) hi
  | move id parent hlt =>
    exact isSome_name?_of_modify id (fun d => { d with parent := some parent }) rfl (fun _ h => h) hi

theorem HasEnumeration.edit {P : Entity → Prop} {id : DeclId} (hs : s.HasEnumeration id)
    (h : Edit P N s t) : t.HasEnumeration id := by
  obtain ⟨e, howner, hsort, hname⟩ := hs
  obtain ⟨entity, hentity, hdescribe⟩ := Option.map_eq_some_iff.1 hsort
  obtain ⟨d, hd, rfl⟩ := Option.map_eq_some_iff.1 hentity
  obtain ⟨d', hd', hroot, -, hsort'⟩ := h.continues e d hd
  refine ⟨e, ?_, ?_, h.isSome_name? hname⟩
  · rw [owningModule, hd] at howner
    rw [owningModule, hd']
    exact hroot.trans howner
  · rw [entity?, hd']
    exact congrArg some (hsort'.trans hdescribe)

theorem hasImport_iff_frame? {id : DeclId} {path : String} {symbol : Option String} :
    s.HasImport id path symbol ↔
      ∃ frame, s.frame? id = some frame ∧ frame.2.2.Has path symbol := by
  unfold HasImport module? frame?
  cases s.entity? id with
  | none => simp
  | some e => cases e <;> simp [Entity.frame?]

theorem hasImport_enclose {parent : DeclId} {name : String}
    (hnew : (s.module? parent).bind (·.submodules.get? name) = none) (place : Position)
    {id : DeclId} {path : String} {symbol : Option String}
    (h : (s.addModule parent name place).2.HasImport id path symbol) :
    s.HasImport id path symbol := by
  unfold addModule at h
  rw [hnew] at h
  obtain ⟨m, hm, hhas⟩ := h
  rw [module?_modifyModule, Option.map_eq_some_iff] at hm
  obtain ⟨old, hold, rfl⟩ := hm
  have himport : old.imports.Has path symbol := by
    split at hhas
    · exact hhas
    · exact hhas
  obtain ⟨frame, hframe, hhas⟩ := hasImport_iff_frame?.1 ⟨old, hold, himport⟩
  rw [frame?_alloc] at hframe
  split at hframe
  · cases hframe
    obtain ⟨symbols, hmem, -⟩ := hhas
    cases hmem
  · exact hasImport_iff_frame?.2 ⟨frame, hframe, hhas⟩

theorem Edit.explained (h : Edit Entity.Fresh N s t) (hs : s.Explained) : t.Explained := by
  intro id path symbol himport
  have hkeep : s.HasImport id path symbol →
      ImportRequest.Meets ("enum", some "Enum") path symbol ∧ t.HasEnumeration id := fun hold =>
    ⟨(hs id path symbol hold).1, (hs id path symbol hold).2.edit h⟩
  have hedit := h
  rcases h.frame?_cases with hframe | ⟨parent, name, place, -, hnew, rfl⟩ | ⟨e, hname, hsort, rfl⟩
  · refine hkeep ?_
    rw [hasImport_iff_frame?] at himport ⊢
    obtain ⟨frame, hframe', hhas⟩ := himport
    exact ⟨frame, (hframe id).symm.trans hframe', hhas⟩
  · exact hkeep (hasImport_enclose hnew place himport)
  · have himport' : (s.addImport (s.owningModule e) ("enum", some "Enum")).HasImport id path symbol :=
      himport
    rcases hasImport_addImport.1 himport' with hold | ⟨-, howner, hmeets⟩
    · exact hkeep hold
    · exact ⟨hmeets, HasEnumeration.edit ⟨e, howner, hsort, hname⟩ hedit⟩

theorem Edits.explained (h : Edits Entity.Fresh N s t) (hs : s.Explained) : t.Explained := by
  induction h with
  | refl => exact hs
  | tail _ hlast ih => exact hlast.explained ih

theorem explained_empty (rootName : String) : (empty rootName).Explained := by
  rintro id path symbol ⟨m, hm, symbols, hmem, -⟩
  have hlt : id < 1 := lt_of_plan? (s := empty rootName) (by rw [plan?, hm]; rfl)
  obtain rfl : id = root := Nat.lt_one_iff.1 hlt
  cases hm
  cases hmem

theorem owningModule_bare (id : DeclId) : s.bare.owningModule id = s.owningModule id := by
  unfold owningModule
  rw [getElem?_bare, Option.map_map]
  rfl

theorem hasEnumeration_bare (id : DeclId) : s.bare.HasEnumeration id ↔ s.HasEnumeration id := by
  have hsort : ∀ e, (s.bare.entity? e).map Entity.describe = (s.entity? e).map Entity.describe := by
    intro e
    rw [entity?, getElem?_bare, entity?]
    cases s.decls[e]? with
    | none => rfl
    | some d =>
      obtain ⟨name, parent, owner, place, entity⟩ := d
      cases entity <;> rfl
  have hname : ∀ e, s.bare.name? e = s.name? e := by
    intro e
    rw [name?, getElem?_bare, name?]
    cases s.decls[e]? <;> rfl
  unfold HasEnumeration
  simp only [owningModule_bare, hsort, hname]

end Store

namespace Session

theorem explained_afterAll (root : String) (macros : Macro.Table) (writer : Writer)
    (files : List (String × String)) :
    ((start root macros writer).afterAll
      (files.map fun file => .parse file.1 file.2)).store.Explained := by
  have hall : ∀ (files : List (String × String)) (s : Session), s.store.Explained →
      (s.afterAll (files.map fun file => .parse file.1 file.2)).store.Explained := by
    intro files
    induction files with
    | nil => exact fun _ h => h
    | cons file rest ih =>
      intro s h
      exact ih _ ((s.edits_parse file.1 file.2).explained h)
  exact hall files _ (Store.explained_empty root)

/-- **Where imports come from.** Once the names of some files are bound, an import of a module is
that for an enumeration with a name that was declared in the module, or that for the function which
starts the root, or there is a name that was read in the scopes of the module, stands for something
of the imported module and is spelled with the imported symbol in front. The name may be one that no
line of the script has. -/
theorem import_origin {root : String} {macros : Macro.Table} {writer : Writer}
    {files : List (String × String)} {n : Nat} {t : Session}
    (h : ((start root macros writer).afterAll
      (files.map fun file => .parse file.1 file.2)).resolve = (.ok n, t))
    {id : DeclId} {path : String} {symbol : Option String}
    (himport : t.store.HasImport id path symbol) :
    ImportRequest.Meets ("enum", some "Enum") path symbol ∧ t.store.HasEnumeration id ∨
      ImportRequest.Meets ("sys", none) path symbol ∧ id = Store.root ∧
        t.store.mainFunction?.isSome ∨
      ∃ ref ∈ t.store.references, t.store.owningModule ref.scope = id ∧
        ∃ r, t.table.get? ref.id = some r ∧ r.modulePath = path ∧
          ∀ first ∈ symbol, ∀ place,
            (Script.pathParts first).map Script.identifier <+:
              Script.pathParts (Lowering.Env.nameText ⟨t.table, place⟩ ref) := by
  have hexplained := explained_afterAll root macros writer files
  generalize (start root macros writer).afterAll
    (files.map fun file => Step.parse file.1 file.2) = s at h hexplained
  have hok := resolve_eq_ok h
  obtain rfl : s.resolve.2 = t := congrArg Prod.snd h
  have hbare : s.resolve.2.store.bare = s.store.bare := bare_resolve s.store s.table
  have hreferences : s.resolve.2.store.references = s.store.references := by
    rw [← Store.references_bare, hbare, Store.references_bare]
  have hmain : s.resolve.2.store.mainFunction? = s.store.mainFunction? := by
    rw [← Store.mainFunction?_bare, hbare, Store.mainFunction?_bare]
  obtain ⟨uses, huses, hstore, htable⟩ :=
    resolve_ok (r := (Serpentine.resolve s.store s.table).2) (Prod.ext hok rfl)
  have himports : (s.store.addRequests uses).importForMain.HasImport id path symbol :=
    hstore ▸ himport
  rw [Store.hasImport_importForMain, Store.hasImport_addRequests] at himports
  rcases himports with (hold | ⟨-, use, huse, howner, request, hrequest, hmeets⟩) |
    ⟨-, hstart, hroot, hmeets⟩
  · obtain ⟨hmeets, henum⟩ := hexplained id path symbol hold
    refine .inl ⟨hmeets, ?_⟩
    rw [← Store.hasEnumeration_bare, hbare, Store.hasEnumeration_bare]
    exact henum
  · have hbind := Store.bind_of_bindAll huses use huse
    obtain ⟨hpath, hmodule⟩ := s.store.asking_bind hbind request.1 request.2 hrequest
    obtain ⟨found, -, hname, hneeds⟩ := Store.bind_target hbind hpath
    refine .inr (.inr ⟨use.1, hreferences ▸ Store.mem_of_bindAll huses use huse, ?_,
      use.2.resolution, htable use huse, hmodule.trans hmeets.1, fun first hfirst place => ?_⟩)
    · rw [← Store.owningModule_bare, hbare, Store.owningModule_bare]
      exact howner
    · have hsymbol : s.store.importFor (s.store.owningModule use.1.scope)
          use.2.resolution.binding found = some (request.1, some first) := by
        rw [← hneeds, hrequest, ← hmeets.2 first hfirst]
      rw [Lowering.Env.nameText_of_isPath (htable use huse) hpath, Script.pathParts_dotted, hname]
      exact (Store.isPrefix_spelling hsymbol).map Script.identifier
  · rw [← Store.mainFunction?_bare, Store.bare_addRequests, Store.mainFunction?_bare] at hstart
    exact .inr (.inl ⟨hmeets, hroot.symm, hmain ▸ hstart⟩)

/-- A name of another namespace in the default of a parameter, in a head that is never written. -/
@[irreducible] def unwrittenHead : Session :=
  (start "main" (.ofTexts []) .script).afterAll
    (List.map (fun file => .parse file.1 file.2)
      [("a.cpp", "namespace P \x7b int k = 1; \x7d int f(int a = P::k);")])

/-- The root asks for the symbol, for the sake of the name in the head. -/
theorem import_origin_unwrittenHead :
    ∃ n t, unwrittenHead.resolve = (.ok n, t) ∧ t.store.HasImport Store.root "P" (some "k") ∧
      ∃ ref ∈ t.store.references, t.store.owningModule ref.scope = Store.root ∧
        ∃ r, t.table.get? ref.id = some r ∧ r.modulePath = "P" := by
  have hrun : unwrittenHead.resolve.1.toOption = some 1 ∧
      (unwrittenHead.resolve.2.store.module? Store.root).map Module.imports =
        some [("P", ["k"])] := by
    unfold unwrittenHead
    decide +kernel
  obtain ⟨m, hm, himports⟩ := Option.map_eq_some_iff.1 hrun.2
  have hresolve : unwrittenHead.resolve = (.ok 1, unwrittenHead.resolve.2) :=
    Prod.ext (eq_ok_of_toOption hrun.1) rfl
  have himport : unwrittenHead.resolve.2.store.HasImport Store.root "P" (some "k") :=
    ⟨m, hm, ["k"], by simp [himports], by simp⟩
  refine ⟨1, _, hresolve, himport, ?_⟩
  unfold unwrittenHead at hresolve himport ⊢
  rcases import_origin hresolve himport with ⟨hmeets, -⟩ | ⟨hmeets, -⟩ |
    ⟨ref, href, howner, r, hr, hpath, -⟩
  · exact absurd hmeets.1 (by decide)
  · exact absurd hmeets.1 (by decide)
  · exact ⟨ref, href, howner, r, hr, hpath⟩

/-- The script of the root has the import and no other line. -/
theorem render_unwrittenHead :
    unwrittenHead.resolve.1.toOption = some 1 ∧
      (unwrittenHead.resolve.2.store.module? Store.root).map Module.imports =
        some [("P", ["k"])] ∧
      (unwrittenHead.resolve.2.render "main").text.toOption = some "from P import k\n" := by
  unfold unwrittenHead
  decide +kernel

end Session

end Serpentine
