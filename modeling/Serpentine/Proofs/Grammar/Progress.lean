import Serpentine.Proofs.Grammar.Backtracking
import Serpentine.Proofs.Grammar.Statements
import Serpentine.Proofs.Token.Pieces

/-!
# Progress of a parse

A parse never goes behind the place where it started, and no place is behind the text.
-/

namespace Serpentine

/-! ## The text of tokens -/

/-- How many characters spell the first tokens of a sequence. -/
def textLength (f : Nat → Token) : Nat → Nat
  | 0 => 0
  | n + 1 => (f 0).lexeme.length + textLength (fun i => f (i + 1)) n

theorem textLength_le_succ (f : Nat → Token) (n : Nat) : textLength f n ≤ textLength f (n + 1) := by
  induction n generalizing f with
  | zero => exact Nat.zero_le _
  | succ n ih =>
    rw [textLength, textLength]
    exact Nat.add_le_add_left (ih _) _

theorem length_halves : ">".length + ">".length = ">>".length := by decide

theorem textLength_splitAt {f : Nat → Token} {k : Nat} (h : (f k).lexeme = ">>") (n : Nat) :
    textLength (Stream.splitAt k f) n ≤ textLength f n := by
  have hhalves := length_halves
  induction k generalizing f n with
  | zero =>
    match n with
    | 0 => exact Nat.le_refl _
    | 1 =>
      simp only [textLength, Stream.splitAt, Stream.firstHalf, h]
      simp
      omega
    | n + 2 =>
      have hbehind : (fun i => Stream.splitAt 0 f (i + 1 + 1)) = fun i => f (i + 1) := by
        funext i
        simp [Stream.splitAt]
      have hle := textLength_le_succ (fun i => f (i + 1)) n
      rw [textLength, textLength, hbehind, textLength]
      simp only [Stream.splitAt, Stream.firstHalf, Stream.secondHalf, h]
      simp
      omega
  | succ k ih =>
    cases n with
    | zero => exact Nat.le_refl _
    | succ n =>
      have hbehind : (fun i => Stream.splitAt (k + 1) f (i + 1)) =
          Stream.splitAt k fun i => f (i + 1) := by
        funext i
        cases i with
        | zero => cases k <;> simp [Stream.splitAt]
        | succ i => simp [Stream.splitAt]
      rw [textLength, textLength, hbehind]
      exact Nat.add_le_add (by simp [Stream.splitAt]) (ih h n)

theorem Scan.textLength_tokenAt_le (s : Scan) (n : Nat) :
    textLength s.tokenAt n ≤ s.rest.length := by
  induction n generalizing s with
  | zero => exact Nat.zero_le _
  | succ n ih =>
    have hpull := s.pull_length.1
    have hrest := ih s.pull.2.2
    show s.pull.2.1.lexeme.length + textLength s.pull.2.2.tokenAt n ≤ _
    omega

theorem Scan.length_tokenAt_pos (s : Scan) (i : Nat) (h : (s.tokenAt i).isEnd = false) :
    0 < (s.tokenAt i).lexeme.length := by
  induction i generalizing s with
  | zero => exact s.pull_length.2 h
  | succ i ih => exact ih s.pull.2.2 h

namespace Stream

/-- The tokens have so many characters, and the end is not yet behind. -/
structure Counted (size : Nat) (s : Stream) : Prop where
  length : ∀ n, textLength s.tokenAt n ≤ size
  pos : ∀ i, (s.tokenAt i).isEnd = false → 0 < (s.tokenAt i).lexeme.length
  inside : ∀ i < s.cursor, (s.tokenAt i).isEnd = false

theorem counted_start (text : String) : (start text).Counted text.length where
  length n := by
    have hle := (Scan.start text).textLength_tokenAt_le n
    rwa [Scan.start, String.length_toList] at hle
  pos i := (Scan.start text).length_tokenAt_pos i
  inside i hi := absurd hi (Nat.not_lt_zero i)

namespace Counted

variable {size : Nat} {s t : Stream}

section

variable (h : s.Counted size)

include h

theorem of_alike (htokens : t.tokenAt = s.tokenAt)
    (hcursor : t.cursor = s.cursor) : t.Counted size := by
  refine ⟨?_, ?_, ?_⟩
  · rw [htokens]
    exact h.length
  · rw [htokens]
    exact h.pos
  · rw [htokens, hcursor]
    exact h.inside

theorem peekAt (offset : Nat) : (s.peekAt offset).2.Counted size := by
  obtain ⟨-, hpulled, -⟩ := s.peekAt_eq offset
  exact h.of_alike hpulled.tokenAt hpulled.cursor

theorem advance : s.advance.2.Counted size := by
  obtain ⟨htoken, hpulled, -⟩ := s.peekAt_eq 0
  have hpeek := h.peekAt 0
  unfold Stream.advance
  dsimp only
  split
  · exact hpeek
  · next hend =>
    refine ⟨hpeek.length, hpeek.pos, fun i hi => ?_⟩
    rcases Nat.lt_succ_iff_lt_or_eq.1 hi with hlt | rfl
    · exact hpeek.inside i hlt
    · show ((s.peekAt 0).2.tokenAt _).isEnd = false
      rw [htoken, Nat.add_zero] at hend
      rw [hpulled.tokenAt, hpulled.cursor]
      exact Bool.eq_false_iff.2 hend

theorem splitShift (hs : s.Fits) : s.splitShift.Counted size := by
  obtain ⟨-, hpulled, hsize⟩ := s.peekAt_eq 0
  have hpeek := h.peekAt 0
  rw [splitShift_eq]
  split
  · next hshr =>
    rw [Nat.add_zero, ← hpulled.cursor] at hsize
    rw [← hpulled.tokenAt, ← hpulled.cursor] at hshr ⊢
    have hlexeme := (hpulled.fits hs).shr _ hshr
    refine ⟨?_, ?_, ?_⟩
    · rw [tokenAt_split hsize]
      exact fun n => Nat.le_trans (textLength_splitAt hlexeme n) (hpeek.length n)
    · rw [tokenAt_split hsize]
      intro i
      unfold splitAt
      split_ifs
      · exact hpeek.pos i
      · exact fun _ => show 0 < ">".length by decide
      · exact fun _ => show 0 < ">".length by decide
      · exact hpeek.pos (i - 1)
    · rw [tokenAt_split hsize]
      intro i hi
      have hlt : i < (s.peekAt 0).2.cursor := hi
      rw [splitAt, if_pos hlt]
      exact hpeek.inside i hlt
  · exact hpeek

end

end Counted

/-! ## The size of a text -/

theorem size_peekAt (s : Stream) (offset : Nat) : (s.peekAt offset).2.size = s.size := by
  have hpull : ∀ (n : Nat) (s : Stream), (s.pullMany n).size = s.size := by
    intro n
    induction n with
    | zero => exact fun _ => rfl
    | succ n ih => exact fun s => ih s.pull
  exact hpull _ s

theorem size_advance (s : Stream) : s.advance.2.size = s.size := by
  rw [← s.size_peekAt 0]
  unfold advance
  dsimp only
  split <;> rfl

theorem size_splitShift (s : Stream) : s.splitShift.size = s.size := by
  rw [← s.size_peekAt 0, splitShift_eq]
  split <;> rfl

theorem size_restore (s : Stream) (m : Mark) : (s.restore m).size = s.size := by
  have hjoin : ∀ (splits : List Nat) (s : Stream), (joinUntil m.splits splits s).size = s.size := by
    intro splits
    induction splits with
    | nil => exact fun _ => rfl
    | cons index splits ih =>
      intro s
      rw [joinUntil]
      split
      · exact ih _
      · rfl
  exact hjoin _ s

/-! ## The place in a text -/

theorem cursor_peekAt (s : Stream) (offset : Nat) : (s.peekAt offset).2.cursor = s.cursor :=
  (s.peekAt_eq offset).2.1.cursor

theorem cursor_splitShift (s : Stream) : s.splitShift.cursor = s.cursor := by
  rw [splitShift_eq]
  split
  · exact s.cursor_peekAt 0
  · exact s.cursor_peekAt 0

theorem cursor_advance (s : Stream) :
    s.advance.2.cursor =
      if (s.tokenAt s.cursor).isEnd then s.cursor else s.cursor + 1 := by
  have htoken : (s.peekAt 0).1 = s.tokenAt s.cursor := (s.peekAt_eq 0).1
  unfold advance
  dsimp only
  rw [htoken]
  split
  · exact s.cursor_peekAt 0
  · exact congrArg (· + 1) (s.cursor_peekAt 0)

end Stream

namespace Grammar

variable {e : Effect} {α β : Type} {s t : State}

theorem Setting.stream_enter (setting : Setting e) (s : State) :
    (setting.enter s).stream = s.stream := by
  have hblind : setting.enter s = { setting.enter s with stream := s.stream } :=
    setting.enter_blind s s.stream
  rw [hblind]

theorem Setting.stream_leave (setting : Setting e) (s t : State) :
    (setting.leave s t).stream = t.stream := by
  have hblind : setting.leave s t = { setting.leave s t with stream := t.stream } :=
    setting.leave_blind s t s.stream t.stream
  rw [hblind]

theorem Reaches.file_eq (h : Reaches e s t) : t.file = s.file ∧ t.stream.size = s.stream.size := by
  induction h with
  | refl s => exact ⟨rfl, rfl⟩
  | step _ change ih =>
    rw [← ih.1, ← ih.2]
    cases change with
    | peek offset => exact ⟨rfl, Stream.size_peekAt _ offset⟩
    | advance => exact ⟨rfl, Stream.size_advance _⟩
    | split => exact ⟨rfl, Stream.size_splitShift _⟩
    | _ => exact ⟨rfl, rfl⟩
  | rewind _ _ before spec =>
    exact ⟨spec.1.trans before.1, (Stream.size_restore _ _).trans (spec.2.trans before.2)⟩

theorem Reaches.cursor_le (h : Reaches e s t) : s.stream.cursor ≤ t.stream.cursor := by
  induction h with
  | refl s => exact Nat.le_refl _
  | @step _ u _ _ change ih =>
    refine Nat.le_trans ih ?_
    cases change with
    | peek offset => exact Nat.le_of_eq (u.stream.cursor_peekAt offset).symm
    | advance =>
      show _ ≤ u.stream.advance.2.cursor
      rw [Stream.cursor_advance]
      split
      · exact Nat.le_refl _
      · exact Nat.le_succ _
    | split => exact Nat.le_of_eq u.stream.cursor_splitShift.symm
    | _ => exact Nat.le_refl _
  | rewind _ _ before _ => exact before

theorem Reaches.counted {size : Nat} (h : Reaches e s t) (hs : s.stream.Fits)
    (hcount : s.stream.Counted size) : t.stream.Counted size := by
  induction h with
  | refl s => exact hcount
  | step before change ih =>
    have hcount' := ih hs hcount
    have hfits := (before.later hs).fits
    cases change with
    | peek offset => exact hcount'.peekAt offset
    | advance => exact hcount'.advance
    | split => exact hcount'.splitShift hfits
    | _ => exact hcount'
  | rewind before spec ihbefore _ =>
    have hfits := (before.later hs).fits
    obtain ⟨htokens, hcursor, -⟩ := Stream.restore_eq (spec.later hfits) hfits
    exact (ihbefore hs hcount).of_alike htokens hcursor

/-! ## Parses that take a token -/

def State.ahead (s : State) : Kind :=
  (s.stream.tokenAt s.stream.cursor).kind

def Parse.TakesFrom (p : Parse e α) (K : Kind → Prop) : Prop :=
  ∀ s a t, K s.ahead → p.run s = .ok a t → s.stream.cursor < t.stream.cursor

def Parse.Looks (p : Parse e α) (f : State → α) : Prop :=
  ∀ s, ∃ t, p.run s = .ok (f s) t ∧ t.ahead = s.ahead ∧ t.stream.cursor = s.stream.cursor

section Takes

variable {p : Parse e α} {next : α → Parse e β}

theorem Parse.reaches_of_ok (p : Parse e α) {a : α} (h : p.run s = .ok a t) : Reaches e s t := by
  have hreaches := p.reaches s
  rwa [h] at hreaches

theorem Parse.cursor_le (p : Parse e α) {a : α} (h : p.run s = .ok a t) :
    s.stream.cursor ≤ t.stream.cursor :=
  (p.reaches_of_ok h).cursor_le

theorem run_bind_ok {b : β} (h : (p >>= next).run s = .ok b t) :
    ∃ a u, p.run s = .ok a u ∧ (next a).run u = .ok b t := by
  rw [Parse.run_bind] at h
  cases hp : p.run s with
  | ok a u =>
    rw [hp] at h
    exact ⟨a, u, rfl, h⟩
  | error fault u =>
    rw [hp] at h
    cases h

theorem looks_peekAt (offset : Nat) :
    (peekAt offset : Parse e Token).Looks
      fun s => s.stream.tokenAt (s.stream.cursor + offset) := by
  intro s
  obtain ⟨htoken, hpulled, -⟩ := s.stream.peekAt_eq offset
  refine ⟨{ s with stream := (s.stream.peekAt offset).2 }, ?_, ?_, hpulled.cursor⟩
  · dsimp only
    rw [← htoken]
    rfl
  · rw [State.ahead, State.ahead, hpulled.tokenAt, hpulled.cursor]

theorem Parse.Looks.map {f : State → α} (hp : p.Looks f) (g : α → β) :
    (p >>= fun a => pure (g a)).Looks fun s => g (f s) := by
  intro s
  obtain ⟨t, hrun, hahead, hcursor⟩ := hp s
  refine ⟨t, ?_, hahead, hcursor⟩
  rw [Parse.run_bind, hrun]
  rfl

theorem looks_kind : (kind : Parse e Kind).Looks State.ahead :=
  (looks_peekAt 0).map Token.kind

theorem looks_check (k : Kind) : (check k : Parse e Bool).Looks fun s => s.ahead == k :=
  looks_kind.map (· == k)

theorem takes_advance {k : Kind} (hk : k ≠ .eof) : (advance : Parse e Token).TakesFrom (· = k) := by
  intro s a t hs hrun
  cases hrun
  have hend : (s.stream.tokenAt s.stream.cursor).isEnd = false :=
    beq_eq_false_iff_ne.2 fun heof => hk (hs.symm.trans heof)
  show s.stream.cursor < s.stream.advance.2.cursor
  rw [Stream.cursor_advance, hend]
  exact Nat.lt_succ_self _

end Takes

end Grammar

end Serpentine
