import Serpentine.Proofs.Grammar.Descent

/-!
# The faults of a text

A parse takes its text apart once, however often it looks ahead, splits a `>>` and goes back. So the
faults that it has met, and those of what is left, are the faults of the text in their order; and a
parse that has come to the end has met them all (**`parseFile_faults`**).
-/

namespace Serpentine

theorem Scan.faults_eq (s : Scan) : s.faults = s.pull.1 ++ s.pull.2.2.faults := by
  rw [faults, faults, pieces_eq, List.flatMap_cons]
  cases hend : s.pull.2.1.isEnd with
  | true => simp [pieces_of_rest_nil (pull_end hend)]
  | false => rfl

namespace Stream

/-- The faults met and the faults left are these, and nothing is left behind the end. -/
structure Accounts (faults : List ScanFault) (s : Stream) : Prop where
  sum : s.faults ++ s.scan.faults = faults
  ends : ∀ token ∈ s.buffer, token.isEnd = true → s.scan.rest = []

theorem accounts_start (text : String) : (start text).Accounts (tokenize text).2 :=
  ⟨rfl, by simp [start]⟩

theorem invariant_accounts (faults : List ScanFault) : Invariant (Accounts faults) where
  pull {s} h := by
    refine ⟨?_, fun token htoken hend => ?_⟩
    · show s.faults ++ s.scan.pull.1 ++ s.scan.pull.2.2.faults = faults
      rw [List.append_assoc, ← Scan.faults_eq, h.sum]
    · rcases Array.mem_push.1 htoken with htoken | rfl
      · have hlength := s.scan.pull_length.1
        rw [h.ends token htoken hend, List.length_nil] at hlength
        exact List.eq_nil_of_length_eq_zero (Nat.le_zero.1 (Nat.le_of_add_left_le hlength))
      · exact Scan.pull_end hend
  edit {s t} h hst := by
    refine ⟨by rw [hst.faults, hst.scan, h.sum], fun token htoken hend => ?_⟩
    rw [hst.scan]
    rcases hst.buffer token htoken with hmem | hkind | hkind
    · exact h.ends token hmem hend
    · rw [Token.isEnd, hkind] at hend
      cases hend
    · rw [Token.isEnd, hkind] at hend
      cases hend

theorem Accounts.of_end {faults : List ScanFault} {s : Stream} (h : s.Accounts faults)
    {token : Token} (hmem : token ∈ s.buffer) (hend : token.kind = .eof) : s.faults = faults := by
  have hleft : s.scan.faults = [] := by
    rw [Scan.faults, Scan.pieces_of_rest_nil (h.ends token hmem (beq_iff_eq.2 hend))]
    rfl
  rw [← h.sum, hleft, List.append_nil]

end Stream

namespace Grammar

variable {rules : Rules} {close : Kind} {s t : State}

theorem run_check_true {e : Effect} (h : (check close : Parse e Bool).run s = .ok true t) :
    ∃ token ∈ t.stream.buffer, token.kind = close := by
  obtain ⟨-, hpulled, hsize⟩ := s.stream.peekAt_eq 0
  injection h with hkind hstate
  subst hstate
  refine ⟨(s.stream.peekAt 0).1, ?_, beq_iff_eq.1 hkind⟩
  show (s.stream.peekAt 0).2.buffer.getD ((s.stream.peekAt 0).2.cursor + 0) default ∈ _
  rw [hpulled.cursor, Array.getD_eq_getD_getElem?, Array.getElem?_eq_getElem hsize]
  exact Array.getElem_mem hsize

/-- Declarations that are read to their end have met the token that closes them. -/
theorem exists_close_of_run {n : Nat}
    (h : (loopWithin n (fun _ => declarationBefore rules close) ()).run s = .ok () t) :
    ∃ token ∈ t.stream.buffer, token.kind = close := by
  induction n generalizing s with
  | zero => cases h
  | succ n ih =>
    obtain ⟨round, u, hround, hrest⟩ := run_bind_ok h
    cases round with
    | inl => exact ih hrest
    | inr =>
      cases hrest
      obtain ⟨closed, v, hcheck, hnext⟩ := run_bind_ok hround
      cases closed with
      | true =>
        cases hnext
        exact run_check_true hcheck
      | false =>
        obtain ⟨ended, w, -, hnext⟩ := run_bind_ok hnext
        cases ended with
        | true =>
          obtain ⟨_, _, hstop, -⟩ := run_bind_ok hnext
          cases hstop
        | false =>
          obtain ⟨_, _, -, hlast⟩ := run_bind_ok hnext
          cases hlast

/-- **Only a text without faults is accepted.** Whatever is known of names and declared before: a
file is accepted only if its text has no faults of scanning; and if it is refused for one, it is the
first of its text, wherever in the text the parse has come to. -/
theorem parseFile_faults (names : Names) (store : Store) (file text : String) :
    (∀ after, (parseFile names store file text).1 = .ok after → (tokenize text).2 = []) ∧
      ∀ file' fault, (parseFile names store file text).1 = .error (.scan file' fault) →
        file' = file ∧ (tokenize text).2.head? = some fault := by
  have haccounts : (fileDeclarations.run (.start file text names store)).state.stream.Accounts
      (tokenize text).2 :=
    (fileDeclarations.reaches _).invariant (Stream.invariant_accounts _)
      (Stream.accounts_start text)
  have hend : ∀ t, fileDeclarations.run (.start file text names store) = .ok () t →
      ∃ token ∈ t.stream.buffer, token.kind = .eof := by
    intro t hrun
    rw [run_fileDeclarations] at hrun
    exact exists_close_of_run hrun
  have hself := agrees_fileDeclarations (K := Any)
    ((State.sound_start file text names store).abreast True (Nat.le_refl _)) (Nat.lt_succ_self _)
    trivial False.elim
  unfold parseFile
  dsimp only
  generalize fileDeclarations.run (State.start file text names store) = outcome,
    fileDeclarations.run (State.withSize _ _) = other at haccounts hend hself
  have hfirst : ∀ found, outcome.state.stream.faults.head? = some found →
      (tokenize text).2.head? = some found := by
    intro found hfound
    rw [← haccounts.sum, List.head?_append, hfound, Option.some_or]
  cases hself with
  | @ok a _ t =>
    obtain ⟨token, hmem, heof⟩ := hend t rfl
    have hall : t.stream.faults = (tokenize text).2 := haccounts.of_end hmem heof
    dsimp only
    cases hhead : t.stream.faults.head? with
    | some found =>
      refine ⟨nofun, ?_⟩
      rintro _ _ ⟨⟩
      exact ⟨rfl, hfirst found hhead⟩
    | none => exact ⟨fun _ _ => hall ▸ List.head?_eq_none_iff.1 hhead, nofun⟩
  | @error refused _ t _ _ hforeign =>
    dsimp only
    cases hhead : t.stream.faults.head? with
    | some found =>
      refine ⟨nofun, ?_⟩
      rintro _ _ ⟨⟩
      exact ⟨rfl, hfirst found hhead⟩
    | none =>
      refine ⟨nofun, fun file' fault heq => ?_⟩
      cases heq
      exact absurd (.inr ⟨_, _, rfl⟩) (hforeign trivial)

end Grammar

end Serpentine
