import Serpentine.Proofs.Grammar.Descent

/-!
# What a file leaves behind

Every change that a file makes to the program is worded: its names and literals are those of tokens
(**`parseFile_written`**). Scopes are opened and closed in pairs. So a parse never closes the
outermost scope, and leaves all open scopes as they are, but for names that it adds to the innermost
one (**`parseFile_scopes`**).
-/

namespace Serpentine.Grammar

theorem parseFile_written {W : NameRef → Prop} (names : Names) (store : Store) (file text : String)
    (huses : ∀ ref ∈ fileDeclarations.uses (State.start file text names store), W ref) :
    store.Written W (parseFile names store file text).2 := by
  let m : Matching :=
    { Matching.exact False file text.length text.length with
      worded := True
      words := W
      origin := store }
  have hstart : (State.start file text names store).Abreast m (State.start file text names store) :=
    { (State.sound_start file text names store).abreast False (Nat.le_refl _) with
      written := fun _ => .refl
      stream := ⟨rfl, rfl, rfl, rfl, rfl⟩
      genuine := fun _ => Stream.genuine_start text }
  have houtcome := agrees_fileDeclarations (K := Any) hstart (Nat.lt_succ_self _) trivial
    fun _ => huses
  rw [parseFile_snd]
  generalize fileDeclarations.run (State.start file text names store) = outcome at houtcome
  cases houtcome with
  | ok _ _ hst => exact hst.written trivial
  | error _ _ hst => exact hst.written trivial

/-- **Scopes are closed as they are opened.** Whatever is known of names and declared before, and
whatever the text of a file: no scope is closed that is not open, and if the file is accepted there
are as many scopes as before. All but the innermost are as they were, and the innermost has at most
gained names. -/
theorem parseFile_scopes (names : Names) (store : Store) (file text : String) :
    (∀ place, (parseFile names store file text).1 ≠ .error (.scope .underflow place)) ∧
      ∀ after, (parseFile names store file text).1 = .ok after →
        after.scopes.depth = names.scopes.depth ∧
        after.scopes.frames.tail = names.scopes.frames.tail ∧
        names.scopes.frames.headD [] <:+ after.scopes.frames.headD [] := by
  have hsound := State.sound_start file text names store
  have hself := agrees_fileDeclarations (K := fun _ => True)
    (hsound.abreast True (Nat.le_refl _)) (Nat.lt_succ_self _) trivial False.elim
  unfold parseFile
  dsimp only
  generalize fileDeclarations.run (State.start file text names store) = outcome,
    fileDeclarations.run (State.withSize _ _) = other at hself
  cases hself with
  | @ok a _ t _ _ hgrown _ =>
    have hgrows := hgrown.2 trivial
    dsimp only
    cases t.stream.faults.head? with
    | some fault => exact ⟨nofun, nofun⟩
    | none =>
      refine ⟨nofun, ?_⟩
      rintro after ⟨⟩
      exact ⟨hgrows.depth_eq, hgrows.tail_frames, hgrows.isSuffix⟩
  | @error fault _ t _ _ hfault _ =>
    dsimp only
    cases t.stream.faults.head? with
    | some fault => exact ⟨nofun, nofun⟩
    | none =>
      refine ⟨fun place heq => hfault trivial (.inl ⟨place, ?_⟩), nofun⟩
      exact Except.error.inj heq

end Serpentine.Grammar
