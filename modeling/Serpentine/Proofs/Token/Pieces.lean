import Serpentine.Proofs.Token.Lines

/-!
# The pieces of a text

A scan ends: each piece but the end takes a character. What a text is made of is told by its first
piece and what that leaves.
-/

namespace Serpentine

namespace Scan

/-! ## Lengths -/

theorem next_length {s left : Scan} {token : Token} (h : s.next = (.ok token, left)) :
    token.lexeme.length + left.rest.length ≤ s.rest.length ∧
      (token.isEnd = false → 0 < token.lexeme.length) := by
  have hlen := s.length_skipBlanks_le
  obtain ⟨rfl, rfl, hrest⟩ | ⟨c, cs, kind, taken, hrest, hread, rfl, -⟩ := next_eq_ok h
  · simp [hrest, Token.isEnd]
  · have happend := congrArg List.length (Cut.read_append c cs)
    have hpos := List.length_pos_iff.2 (Cut.taken_ne_nil c cs)
    rw [hread] at happend hpos
    simp only [hrest, List.length_append, List.length_cons, String.length_ofList] at happend hlen ⊢
    exact ⟨by omega, fun _ => hpos⟩

theorem pull_length (s : Scan) :
    s.pull.2.1.lexeme.length + s.pull.2.2.rest.length ≤ s.rest.length ∧
      (s.pull.2.1.isEnd = false → 0 < s.pull.2.1.lexeme.length) := by
  obtain ⟨a, ha, hle⟩ := s.exists_next_eq_pull
  exact (next_length ha).imp_left (Nat.le_trans · hle)

/-! ## One token after the other -/

theorem next_end {s left : Scan} {token : Token} (h : s.next = (.ok token, left))
    (hend : token.isEnd = true) : left.rest = [] := by
  obtain ⟨-, rfl, hrest⟩ | ⟨c, cs, kind, taken, -, hread, rfl, -⟩ := next_eq_ok h
  · exact hrest
  · obtain rfl : kind = .eof := beq_iff_eq.1 hend
    exact absurd (congrArg Cut.found hread) (Cut.read_ne_eof c cs)

theorem pull_end {s : Scan} (h : s.pull.2.1.isEnd = true) : s.pull.2.2.rest = [] := by
  obtain ⟨a, ha, -⟩ := s.exists_next_eq_pull
  exact next_end ha h

theorem piecesFrom_congr {m n : Nat} {s : Scan} (hm : s.rest.length < m) (hn : s.rest.length < n)
    (faults : List ScanFault) : s.piecesFrom m faults = s.piecesFrom n faults := by
  induction m generalizing n s faults with
  | zero => omega
  | succ m ih =>
    obtain ⟨n, rfl⟩ : ∃ k, n = k + 1 := ⟨n - 1, by omega⟩
    rw [piecesFrom, piecesFrom]
    split
    · next fault left hnext =>
      have hlt := (next_error hnext).1
      exact ih (by omega) (by omega) _
    · next token left hnext =>
      obtain ⟨hlen, hpos⟩ := next_length hnext
      cases hend : token.isEnd with
      | true => rfl
      | false =>
        have hlt := hpos hend
        exact congrArg (List.cons _) (ih (by omega) (by omega) _)

theorem piecesFrom_eq (s : Scan) (faults : List ScanFault) :
    s.piecesFrom (s.rest.length + 1) faults = ⟨faults ++ s.pull.1, s.pull.2.1⟩ ::
      if s.pull.2.1.isEnd then [] else s.pull.2.2.pieces := by
  induction s using pull_induction generalizing faults with
  | ok s token left hnext =>
    rw [piecesFrom, pull_eq, hnext]
    obtain ⟨hlen, hpos⟩ := next_length hnext
    cases hend : token.isEnd with
    | true => simp [hend]
    | false =>
      have hlt := hpos hend
      have hrest : left.piecesFrom s.rest.length [] = left.pieces :=
        piecesFrom_congr (by omega) (Nat.lt_succ_self _) []
      simp [hend, hrest]
  | error s fault left hnext ih =>
    have hlt := (next_error hnext).1
    rw [piecesFrom, pull_eq, hnext]
    dsimp only
    rw [piecesFrom_congr hlt (Nat.lt_succ_self _), ih, List.append_assoc, List.singleton_append]

theorem pieces_eq (s : Scan) :
    s.pieces = ⟨s.pull.1, s.pull.2.1⟩ :: if s.pull.2.1.isEnd then [] else s.pull.2.2.pieces :=
  s.piecesFrom_eq []

theorem pieces_of_rest_nil {s : Scan} (h : s.rest = []) :
    s.pieces = [⟨[], ⟨.eof, "", s.skipBlanks.spot⟩⟩] := by
  rw [pieces_eq, pull_blank (by simp [h])]
  rfl

/-! ## All tokens and all faults -/

def tokens (s : Scan) : List Token :=
  s.pieces.map Piece.token

def faults (s : Scan) : List ScanFault :=
  s.pieces.flatMap Piece.skipped

section Steps

variable {s left : Scan} {token : Token} {fault : ScanFault}

theorem tokens_of_end (h : s.next = (.ok token, left)) (hend : token.isEnd = true) :
    s.tokens = [token] ∧ s.faults = [] := by
  rw [tokens, faults, pieces_eq, pull_eq, h]
  simp [hend]

theorem tokens_of_token (h : s.next = (.ok token, left)) (hend : token.isEnd = false) :
    s.tokens = token :: left.tokens ∧ s.faults = left.faults := by
  rw [tokens, faults, pieces_eq, pull_eq, h]
  simp [hend, tokens, faults]

theorem tokens_of_fault (h : s.next = (.error fault, left)) :
    s.tokens = left.tokens ∧ s.faults = fault :: left.faults := by
  rw [tokens, faults, tokens, faults, pieces_eq, pieces_eq left, pull_eq, h]
  exact ⟨rfl, rfl⟩

end Steps

theorem piece_induction {P : Scan → Prop}
    (ends : ∀ s token left, s.next = (.ok token, left) → token.isEnd = true → P s)
    (token : ∀ s token left, s.next = (.ok token, left) → token.isEnd = false → P left → P s)
    (fault : ∀ s fault left, s.next = (.error fault, left) → P left → P s) (s : Scan) : P s := by
  generalize hn : s.rest.length = n
  induction n using Nat.strongRecOn generalizing s with
  | _ n ih =>
    rcases hnext : s.next with ⟨found | found, left⟩
    · exact fault s found left hnext (ih _ (hn ▸ (next_error hnext).1) left rfl)
    · obtain ⟨hlen, hpos⟩ := next_length hnext
      cases hend : found.isEnd with
      | true => exact ends s found left hnext hend
      | false =>
        have hlt := hpos hend
        exact token s found left hnext hend (ih _ (by omega) left rfl)

end Scan

/-! ## Words -/

/-- A token without its place. -/
def Token.word (t : Token) : Kind × String :=
  (t.kind, t.lexeme)

/-- Texts without faults, made of the same words. -/
structure SameWords (text text' : String) : Prop where
  clean : (tokenize text).2 = []
  clean' : (tokenize text').2 = []
  words : (tokenize text).1.map Token.word = (tokenize text').1.map Token.word

end Serpentine
