import Serpentine.Proofs.Token.Partition

/-!
# Texts one below the other

A newline is to a scan what the end is: the line before it is taken apart as if nothing followed,
and what follows as if it stood alone, only further down (**`tokenize_append_newline`**).
-/

namespace Serpentine

/-! ## Further down -/

/-- The same column, so many lines further down. -/
def Spot.below (n : Nat) (s : Spot) : Spot :=
  ⟨s.line + n, s.column⟩

def Token.below (n : Nat) (t : Token) : Token :=
  { t with spot := t.spot.below n }

def ScanFault.below (n : Nat) (f : ScanFault) : ScanFault :=
  { f with spot := f.spot.below n }

def Scan.below (n : Nat) (s : Scan) : Scan :=
  ⟨s.spot.below n, s.rest⟩

theorem Spot.next_below (n : Nat) (s : Spot) (c : Char) :
    (s.below n).next c = (s.next c).below n := by
  unfold Spot.next Spot.below
  split
  · rw [Nat.add_right_comm]
  · rfl

theorem Spot.past_below (n : Nat) (s : Spot) (cs : List Char) :
    (s.below n).past cs = (s.past cs).below n := by
  induction cs generalizing s with
  | nil => rfl
  | cons c cs ih =>
    show ((s.below n).next c).past cs = _
    rw [Spot.next_below, ih]
    rfl

namespace Scan

theorem next_below (n : Nat) (s : Scan) : (s.below n).next =
    ((s.next.1.map (Token.below n)).mapError (ScanFault.below n), s.next.2.below n) := by
  have hskip : (s.below n).skipBlanks = s.skipBlanks.below n := by
    simp only [skipBlanks, below, Spot.past_below]
  unfold next
  rw [hskip]
  cases hrest : s.skipBlanks.rest with
  | nil => simp only [below, hrest]; rfl
  | cons c cs =>
    simp only [below, hrest]
    cases (Cut.read c cs).found with
    | ok kind => simp only [Spot.past_below]; rfl
    | error cause => simp only [Spot.past_below]; rfl

/-- Where a text starts is seen in the places of its tokens and faults only. -/
theorem tokens_below (n : Nat) (s : Scan) : (s.below n).tokens = s.tokens.map (Token.below n) ∧
    (s.below n).faults = s.faults.map (ScanFault.below n) := by
  induction s using piece_induction with
  | ends s token left hnext hend =>
    have hbelow := s.next_below n
    rw [hnext] at hbelow
    obtain ⟨htokens, hfaults⟩ := tokens_of_end hnext hend
    obtain ⟨htokens', hfaults'⟩ := tokens_of_end hbelow hend
    rw [htokens, hfaults, htokens', hfaults']
    exact ⟨rfl, rfl⟩
  | token s token left hnext hend ih =>
    have hbelow := s.next_below n
    rw [hnext] at hbelow
    obtain ⟨htokens, hfaults⟩ := tokens_of_token hnext hend
    obtain ⟨htokens', hfaults'⟩ := tokens_of_token hbelow hend
    rw [htokens, hfaults, htokens', hfaults', ih.1, ih.2]
    exact ⟨rfl, rfl⟩
  | fault s fault left hnext ih =>
    have hbelow := s.next_below n
    rw [hnext] at hbelow
    obtain ⟨htokens, hfaults⟩ := tokens_of_fault hnext
    obtain ⟨htokens', hfaults'⟩ := tokens_of_fault hbelow
    rw [htokens, hfaults, htokens', hfaults', ih.1, ih.2]
    exact ⟨rfl, rfl⟩

/-! ## A text behind a newline -/

theorem tokens_ne_nil (s : Scan) : s.tokens ≠ [] := by
  rw [tokens, pieces_eq]
  exact List.cons_ne_nil _ _

theorem tokens_of_blank {s : Scan} (h : ∀ c ∈ s.rest, isBlank c = true) :
    s.tokens = [⟨.eof, "", s.skipBlanks.spot⟩] ∧ s.faults = [] := by
  rw [tokens, faults, pieces_eq, pull_blank h]
  exact ⟨rfl, rfl⟩

theorem tokens_of_skipBlanks {a b : Scan} (h : a.skipBlanks = b.skipBlanks) :
    a.tokens = b.tokens ∧ a.faults = b.faults := by
  rw [tokens, tokens, faults, faults, pieces_eq a, pieces_eq b, pull_eq_of_skipBlanks h]
  exact ⟨rfl, rfl⟩

/-- What a scan takes from a line does not depend on whether a newline or the end follows. -/
theorem next_line {x : List Char} (hx : x.dropWhile isBlank ≠ []) (spot : Spot) :
    ∃ found done left, x = done ++ left ∧ left.length < x.length ∧
      (⟨spot, x⟩ : Scan).next = (found, ⟨spot.past done, left⟩) ∧
      (∀ token, found = .ok token → token.isEnd = false) ∧
      ∀ y, (⟨spot, x ++ '\n' :: y⟩ : Scan).next = (found, ⟨spot.past done, left ++ '\n' :: y⟩) := by
  obtain ⟨c, line, hline⟩ := List.exists_cons_of_ne_nil hx
  have hc : isBlank c = false := isBlank_of_skipBlanks (s := ⟨spot, x⟩) hline
  have hblank : ∀ c ∈ x.takeWhile isBlank, isBlank c = true := fun _ => List.mem_takeWhile_imp
  obtain ⟨found, taken, rest, halone, hcut⟩ := Cut.inLine_read c line
  obtain ⟨w, rfl, rfl⟩ := Cut.read_cons halone
  have hsplit : x = x.takeWhile isBlank ++ c :: w ++ rest := by
    rw [List.append_assoc, List.cons_append, ← hline, List.takeWhile_append_dropWhile]
  generalize x.takeWhile isBlank = blanks at hsplit hblank
  subst hsplit
  refine ⟨(found.map (⟨·, String.ofList (c :: w), spot.past blanks⟩)).mapError (⟨·, spot.past blanks⟩),
    blanks ++ c :: w, rest, rfl, by simp; omega, ?_, fun token htoken => ?_, fun y => ?_⟩
  · rw [List.append_assoc, next_of_blanks hblank, List.cons_append, next_of_read hc halone,
      Spot.past_append]
  · cases found with
    | error cause => cases htoken
    | ok kind =>
      cases htoken
      simpa [Token.isEnd] using fun hkind => Cut.read_ne_eof c _ (by rw [halone, hkind])
  · rw [List.append_assoc, List.append_assoc, next_of_blanks hblank, List.cons_append,
      ← List.append_assoc, next_of_read hc (hcut y), Spot.past_append]

theorem tokens_line (spot : Spot) (x y : List Char) :
    (⟨spot, x ++ '\n' :: y⟩ : Scan).tokens = (⟨spot, x⟩ : Scan).tokens.dropLast ++
        (⟨spot.past (x ++ ['\n']), y⟩ : Scan).tokens ∧
      (⟨spot, x ++ '\n' :: y⟩ : Scan).faults = (⟨spot, x⟩ : Scan).faults ++
        (⟨spot.past (x ++ ['\n']), y⟩ : Scan).faults := by
  generalize hn : x.length = n
  induction n using Nat.strongRecOn generalizing spot x with
  | _ n ih =>
    by_cases hx : x.dropWhile isBlank = []
    · have hblank := List.dropWhile_eq_nil_iff.1 hx
      have hnewline : ∀ c ∈ x ++ ['\n'], isBlank c = true :=
        List.forall_mem_append.2 ⟨hblank, List.forall_mem_singleton.2 rfl⟩
      obtain ⟨htokens, hfaults⟩ := tokens_of_blank (s := ⟨spot, x⟩) hblank
      have hskip := tokens_of_skipBlanks (skipBlanks_append hnewline spot y)
      rw [← List.append_cons] at hskip
      rw [htokens, hfaults, hskip.1, hskip.2]
      exact ⟨rfl, rfl⟩
    · obtain ⟨found, done, left, hsplit, hlt, halone, htoken, hnext⟩ := next_line hx spot
      obtain ⟨hown, hskipped⟩ := ih _ (hn ▸ hlt) (spot.past done) left rfl
      have hplace : (spot.past done).past (left ++ ['\n']) = spot.past (x ++ ['\n']) := by
        rw [← Spot.past_append, ← List.append_assoc, ← hsplit]
      rw [hplace] at hown hskipped
      cases found with
      | ok token =>
        obtain ⟨htokens, hfaults⟩ := tokens_of_token halone (htoken token rfl)
        obtain ⟨htokens', hfaults'⟩ := tokens_of_token (hnext y) (htoken token rfl)
        rw [htokens, hfaults, htokens', hfaults', hown, hskipped,
          List.dropLast_cons_of_ne_nil (tokens_ne_nil _)]
        exact ⟨rfl, rfl⟩
      | error fault =>
        obtain ⟨htokens, hfaults⟩ := tokens_of_fault halone
        obtain ⟨htokens', hfaults'⟩ := tokens_of_fault (hnext y)
        rw [htokens, hfaults, htokens', hfaults', hown, hskipped]
        exact ⟨rfl, rfl⟩

end Scan

/-- **Scanning is local to lines.** The tokens of two texts, one below the other, are those of the
first without its end and those of the second, and so are the faults, with the second text as many
lines further down as the first has lines. -/
theorem tokenize_append_newline (a b : String) :
    let lines := a.toList.count '\n' + 1
    tokenize (a ++ "\n" ++ b) =
      ((tokenize a).1.dropLast ++ (tokenize b).1.map (Token.below lines),
        (tokenize a).2 ++ (tokenize b).2.map (ScanFault.below lines)) := by
  intro lines
  have hstart : Scan.start (a ++ "\n" ++ b) = ⟨.first, a.toList ++ '\n' :: b.toList⟩ := by
    simp [Scan.start]
  have hplace : Spot.first.past (a.toList ++ ['\n']) = Spot.first.below lines := by
    have hbehind := Spot.behind_append [] (a.toList ++ ['\n'])
    rw [show Spot.behind [] = Spot.first from rfl] at hbehind
    rw [← hbehind]
    simp [Spot.behind, Spot.below, Spot.first, lines, Nat.add_comm]
  obtain ⟨htokens, hfaults⟩ := Scan.tokens_line .first a.toList b.toList
  obtain ⟨htokens', hfaults'⟩ := (Scan.start b).tokens_below lines
  rw [hplace] at htokens hfaults
  refine Prod.ext ?_ ?_
  · show (Scan.start (a ++ "\n" ++ b)).tokens = _
    rw [hstart, htokens]
    exact congrArg _ htokens'
  · show (Scan.start (a ++ "\n" ++ b)).faults = _
    rw [hstart, hfaults]
    exact congrArg _ hfaults'

end Serpentine
