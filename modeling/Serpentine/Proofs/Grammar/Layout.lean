import Serpentine.Proofs.Grammar.Faults

/-!
# Layout of a file

Where the words of a text stand does not count: two texts without faults that are made of the same
words are read to the same declarations, or refused for the same reason (**`parseFile_sameWords`**).
-/

namespace Serpentine

/-- What is left of a place where places do not count. -/
def Position.hidden (_ : Position) : Position :=
  ⟨"", 0, none⟩

/-! ## The words of a text -/

namespace Scan

/-- The text that is left has no faults. -/
def Clean (s : Scan) : Prop :=
  ∀ piece ∈ s.pieces, piece.skipped = []

theorem Clean.pull {s : Scan} (h : s.Clean) : s.pull.1 = [] ∧ s.pull.2.2.Clean := by
  unfold Clean at h
  rw [pieces_eq, List.forall_mem_cons] at h
  obtain ⟨hfirst, hrest⟩ := h
  refine ⟨hfirst, ?_⟩
  cases hend : s.pull.2.1.isEnd with
  | true =>
    unfold Clean
    rw [pieces_of_rest_nil (pull_end hend)]
    exact List.forall_mem_singleton.2 rfl
  | false => simpa [hend, Clean] using hrest

/-- Texts without faults, made of the same words. -/
structure SameWords (a b : Scan) : Prop where
  clean : a.Clean
  clean' : b.Clean
  words : a.pieces.map (·.token.word) = b.pieces.map (·.token.word)

theorem SameWords.pull {a b : Scan} (h : a.SameWords b) :
    a.pull.2.1.word = b.pull.2.1.word ∧ a.pull.2.2.SameWords b.pull.2.2 := by
  have hwords := h.words
  rw [pieces_eq a, pieces_eq b, List.map_cons, List.map_cons, List.cons.injEq] at hwords
  obtain ⟨hfirst, hrest⟩ := hwords
  refine ⟨hfirst, h.clean.pull.2, h.clean'.pull.2, ?_⟩
  have hsame : b.pull.2.1.isEnd = a.pull.2.1.isEnd := by
    rw [Token.isEnd, Token.isEnd, show b.pull.2.1.kind = a.pull.2.1.kind from
      (congrArg Prod.fst hfirst).symm]
  cases hend : a.pull.2.1.isEnd with
  | true =>
    rw [pieces_of_rest_nil (pull_end hend), pieces_of_rest_nil (pull_end (hsame.trans hend))]
    rfl
  | false => simpa [hend, hsame] using hrest

end Scan

theorem SameWords.scan {text text' : String} (h : SameWords text text') :
    (Scan.start text).SameWords (Scan.start text') where
  clean := List.flatMap_eq_nil_iff.1 h.clean
  clean' := List.flatMap_eq_nil_iff.1 h.clean'
  words := by simpa [tokenize, Function.comp_def] using h.words

/-! ## Texts without places -/

/-- Texts of the same words, of which no place is seen. -/
def Matching.layout (file file' text text' : String) : Matching where
  see := Position.hidden
  half := id
  see_half _ _ := rfl
  file := file
  file' := file'
  size := text.length
  size' := text'.length
  nested := False
  Same := Scan.SameWords
  pull h := by
    obtain ⟨hword, hrest⟩ := h.pull
    refine ⟨h.clean.pull.1.trans h.clean'.pull.1.symm, ?_, hrest⟩
    exact congrArg (fun w : Kind × String => (w.1, w.2, Position.hidden default)) hword

namespace Grammar

theorem State.abreast_start {text text' : String} (h : SameWords text text') {store store' : Store}
    (hstore : store.Like Position.hidden store') (names : Names) (file file' : String) :
    (State.start file text names store).Abreast (.layout file file' text text')
      (State.start file' text' names store') where
  file := rfl
  file' := rfl
  size := rfl
  size' := rfl
  names := rfl
  store := hstore
  context := rfl
  templateParams := rfl
  pendingTemplate := rfl
  inTemplateArgs := rfl
  written := False.elim
  stream := ⟨h.scan, rfl, rfl, rfl, rfl⟩
  sound := sound_start file text names store
  sound' := sound_start file' text' names store'
  genuine := False.elim

theorem parseFile_of_clean {text : String} (h : (tokenize text).2 = []) (names : Names)
    (store : Store) (file : String) :
    parseFile names store file text =
      match fileDeclarations.run (State.start file text names store) with
      | .ok _ s => (.ok s.names, s.store)
      | .error fault s => (.error fault, s.store) := by
  have haccounts : (fileDeclarations.run (.start file text names store)).state.stream.Accounts [] :=
    (fileDeclarations.reaches _).invariant (Stream.invariant_accounts _)
      (h ▸ Stream.accounts_start text)
  have hfaults := (List.append_eq_nil_iff.1 haccounts.sum).1
  unfold parseFile
  dsimp only
  generalize fileDeclarations.run (State.start file text names store) = outcome at hfaults ⊢
  cases outcome with
  | ok _ s => simp [show s.stream.faults = [] from hfaults, Except.map]
  | error fault s => simp [show s.stream.faults = [] from hfaults, Except.map]

theorem parseFile_sameWords {text text' : String} (h : SameWords text text') {store store' : Store}
    (hstore : store.Like Position.hidden store') (names : Names) (file file' : String) :
    (parseFile names store file text).1.mapError (Fault.relocate Position.hidden) =
        (parseFile names store' file' text').1.mapError (Fault.relocate Position.hidden) ∧
      (parseFile names store file text).2.Like Position.hidden
        (parseFile names store' file' text').2 := by
  have hstart := State.abreast_start h hstore names file file'
  have houtcome := agrees_fileDeclarations (K := fun _ => True) hstart (Nat.lt_succ_self _) trivial
    False.elim
  rw [parseFile_of_clean h.clean, parseFile_of_clean h.clean']
  generalize fileDeclarations.run (State.start file text names store) = o,
    fileDeclarations.run (State.start file' text' names store') = o' at houtcome
  cases houtcome with
  | ok _ _ hst => exact ⟨congrArg Except.ok hst.names.symm, hst.store⟩
  | error hfault _ hst => exact ⟨congrArg Except.error hfault, hst.store⟩

end Grammar

end Serpentine
