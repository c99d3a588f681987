import Serpentine.Proofs.Lowering.Modules
import Serpentine.Proofs.Program.Likeness

/-!
# Names of programs that differ in places

Two programs that differ in places only use the same names in the same order. Resolving binds them
to the same, asks for the same imports, and stops at the same name if at all
(**`Store.Like.resolve`**). The texts of modules are the same then (**`Store.Like.write`**).
-/

namespace Serpentine

variable {f : Position → Position}

namespace Store

/-! ## Names and imports -/

theorem Relocated.references {s t : Store} (h : s.Relocated f t) :
    t.references = s.references.map (NameRef.relocate f) := by
  unfold Store.references
  rw [show t.decls = s.decls.map (Declaration.relocate f) from h, Array.toList_map,
    List.flatMap_map, List.map_flatMap]
  refine List.flatMap_congr fun d _ => ?_
  rw [show (d.relocate f).entity = d.entity.relocate f from rfl, Entity.exprs_relocate,
    List.flatMap_map, List.map_flatMap]
  exact List.flatMap_congr fun e _ => Expr.names_relocate f e

theorem bind_relocate (s : Store) (ref : NameRef) :
    s.bind (ref.relocate f) = (s.bind ref).mapError (Fault.relocate f) := by
  unfold bind
  simp only [NameRef.relocate]
  split
  · rfl
  · split <;> rfl

namespace Like

variable {s t : Store} (h : s.Like f t)

include h

theorem references :
    s.references.map (NameRef.relocate f) = t.references.map (NameRef.relocate f) :=
  (s.relocated_relocate f).references.symm.trans h.relocated.references

theorem bind {ref ref' : NameRef} (href : ref.relocate f = ref'.relocate f) :
    (s.bind ref).mapError (Fault.relocate f) = (t.bind ref').mapError (Fault.relocate f) := by
  rw [← bind_relocate, ← bind_relocate, href, ← t.bind_outline, h.outline, s.bind_outline]

theorem addImport (id : DeclId) (request : ImportRequest) :
    (s.addImport id request).Like f (t.addImport id request) :=
  h.modifyModule id _

theorem isSome_mainFunction? : t.mainFunction?.isSome = s.mainFunction?.isSome := by
  unfold Store.mainFunction?
  rw [h.module?]
  cases s.module? root with
  | none => rfl
  | some m =>
    cases hmain : m.members.get? "main" with
    | none => simp [hmain]
    | some id =>
      have hentity := h.entity? id
      simp only [Option.bind_eq_bind, Option.bind_some, hmain]
      generalize s.entity? id = e, t.entity? id = e' at hentity
      cases hentity with
      | none => rfl
      | some hlike =>
        cases hlike with
        | routine kind _ => cases kind <;> rfl
        | _ => rfl

theorem importForMain : s.importForMain.Like f t.importForMain := by
  unfold Store.importForMain
  rw [h.isSome_mainFunction?]
  split
  · exact h.addImport root _
  · exact h

end Like

end Store

/-! ## Runs -/

namespace Resolving

/-- The same bindings, and programs that differ in places. -/
structure Like (f : Position → Position) (r r' : Resolving) : Prop where
  store : r.store.Like f r'.store
  table : r'.table = r.table

variable {r r' : Resolving}

theorem Like.step (h : r.Like f r') {ref ref' : NameRef}
    (href : ref.relocate f = ref'.relocate f) :
    (∃ next next', r.step ref = .ok next ∧ r'.step ref' = .ok next' ∧ next.Like f next') ∨
      ∃ fault fault', r.step ref = .error fault ∧ r'.step ref' = .error fault' ∧
        fault.relocate f = fault'.relocate f := by
  have hid : ref'.id = ref.id := (congrArg NameRef.id href).symm
  have hscope : ref'.scope = ref.scope := (congrArg NameRef.scope href).symm
  have hbind := h.store.bind href
  unfold Resolving.step
  rw [hid, hscope, h.table]
  cases r.table.get? ref.id with
  | some _ => exact .inl ⟨r, r', rfl, rfl, h⟩
  | none =>
    cases hs : r.store.bind ref with
    | error fault =>
      cases ht : r'.store.bind ref' with
      | error fault' =>
        rw [hs, ht] at hbind
        exact .inr ⟨fault, fault', rfl, rfl, Except.error.inj hbind⟩
      | ok bound' =>
        rw [hs, ht] at hbind
        cases hbind
    | ok bound =>
      cases ht : r'.store.bind ref' with
      | error fault' =>
        rw [hs, ht] at hbind
        cases hbind
      | ok bound' =>
        rw [hs, ht] at hbind
        obtain rfl : bound = bound' := Except.ok.inj hbind
        refine .inl ⟨_, _, rfl, rfl, ?_, rfl⟩
        cases bound.request with
        | none => exact h.store
        | some request =>
          dsimp only
          rw [h.store.owningModule]
          exact h.store.addImport _ request

theorem Like.run (h : r.Like f r') {refs refs' : List NameRef}
    (hrefs : refs.map (NameRef.relocate f) = refs'.map (NameRef.relocate f)) :
    (r.run refs).1.mapError (Fault.relocate f) = (r'.run refs').1.mapError (Fault.relocate f) ∧
      (r.run refs).2.Like f (r'.run refs').2 := by
  induction refs generalizing r r' refs' with
  | nil =>
    obtain rfl : refs' = [] := List.map_eq_nil_iff.1 hrefs.symm
    exact ⟨rfl, h⟩
  | cons ref rest ih =>
    obtain ⟨ref', rest', rfl, hfirst, hrest⟩ := List.map_eq_cons_iff.1 hrefs.symm
    rw [Resolving.run, Resolving.run]
    obtain ⟨next, next', hstep, hstep', hnext⟩ | ⟨fault, fault', hstep, hstep', hfault⟩ :=
      h.step hfirst.symm
    · rw [hstep, hstep']
      exact ih hnext hrest.symm
    · rw [hstep, hstep']
      exact ⟨congrArg Except.error hfault, h⟩

end Resolving

namespace Store.Like

variable {s t : Store} (h : s.Like f t)

include h

theorem resolve (table : Resolutions) :
    (Serpentine.resolve s table).1.mapError (Fault.relocate f) =
        (Serpentine.resolve t table).1.mapError (Fault.relocate f) ∧
      (Serpentine.resolve s table).2.Like f (Serpentine.resolve t table).2 := by
  have hstart : Resolving.Like f ⟨s, table⟩ ⟨t, table⟩ := ⟨h, rfl⟩
  obtain ⟨houtcome, hlast⟩ := hstart.run h.references
  unfold Serpentine.resolve
  generalize Resolving.run ⟨s, table⟩ s.references = run,
    Resolving.run ⟨t, table⟩ t.references = run' at houtcome hlast
  obtain ⟨outcome, last⟩ := run
  obtain ⟨outcome', last'⟩ := run'
  cases outcome with
  | error fault =>
    cases outcome' with
    | error fault' => exact ⟨houtcome, hlast⟩
    | ok _ => cases houtcome
  | ok _ =>
    cases outcome' with
    | error fault' => cases houtcome
    | ok _ => exact ⟨rfl, hlast.store.importForMain, hlast.table⟩

theorem write (hf : f ⟨"", 0, none⟩ = ⟨"", 0, none⟩) (table : Resolutions) (id : DeclId) :
    (Writer.script.write s table id).text.mapError (Fault.relocate f) =
      (Writer.script.write t table id).text.mapError (Fault.relocate f) := by
  have hlowered {u : Store} (hu : u.Relocated f (s.relocate f)) : Lowering.Lower.Relocated f
      (Lowering.Scene.lowerModule ⟨u, table⟩ id)
      (Lowering.Scene.lowerModule ⟨s.relocate f, table⟩ id) :=
    Lowering.Scene.lowerModule_relocate hu (fun _ _ => by rfl) hf id
  have hresult := (hlowered (s.relocated_relocate f)).result.symm.trans (hlowered h.relocated).result
  exact (mapError_map ..).trans ((congrArg (Script.Module.print <$> ·) hresult).trans
    (mapError_map ..).symm)

end Store.Like

end Serpentine
