import Serpentine.Grammar.State
import Serpentine.Proofs.Grammar.TokenSequence

/-!
# What every stream of a parse keeps

The tokens that a stream has taken change in two ways: more are taken from the text, and a `>>` is
split or put together again. A property that withstands both holds along a parse, wherever it goes
back (**`Grammar.Reaches.invariant`**).
-/

namespace Serpentine

namespace Stream

variable {I : Stream → Prop} {s t : Stream}

/-- The stream has no tokens but those of the other, `>` and `>>`, and the same text left. -/
structure Resembles (s t : Stream) : Prop where
  scan : t.scan = s.scan
  faults : t.faults = s.faults
  buffer : ∀ token ∈ t.buffer, token ∈ s.buffer ∨ token.kind = .gt ∨ token.kind = .shr

/-- A property that new tokens and splits leave. -/
structure Invariant (I : Stream → Prop) : Prop where
  pull {s : Stream} : I s → I s.pull
  edit {s t : Stream} : I s → s.Resembles t → I t

theorem resembles_split (s : Stream) (token : Token) : s.Resembles (s.split token) := by
  refine ⟨rfl, rfl, fun other hother => ?_⟩
  simp only [split, Array.insertIdxIfInBounds] at hother
  split at hother
  · rw [Array.mem_insertIdx] at hother
    obtain rfl | hother := hother
    · exact .inr (.inl rfl)
    · refine (Array.mem_or_eq_of_mem_setIfInBounds hother).imp_right ?_
      rintro rfl
      exact .inl rfl
  · refine (Array.mem_or_eq_of_mem_setIfInBounds hother).imp_right ?_
    rintro rfl
    exact .inl rfl

theorem resembles_joinShift (s : Stream) (index : Nat) : s.Resembles (s.joinShift index) := by
  refine ⟨rfl, rfl, fun other hother => ?_⟩
  simp only [joinShift, Array.eraseIdxIfInBounds] at hother
  rcases Array.mem_or_eq_of_mem_setIfInBounds hother with hother | rfl
  · split at hother
    · exact .inl (Array.mem_of_mem_eraseIdx hother)
    · exact .inl hother
  · exact .inr (.inr rfl)

namespace Invariant

section

variable (hI : Invariant I)

include hI

theorem peekAt (h : I s) (offset : Nat) : I (s.peekAt offset).2 := by
  have hmany : ∀ n {s : Stream}, I s → I (s.pullMany n) := by
    intro n
    induction n with
    | zero => exact id
    | succ n ih => exact fun h => ih (hI.pull h)
  exact hmany _ h

theorem advance (h : I s) : I s.advance.2 := by
  have hpeek := hI.peekAt h 0
  unfold Stream.advance
  dsimp only
  split
  · exact hpeek
  · exact hI.edit hpeek ⟨rfl, rfl, fun _ => .inl⟩

theorem splitShift (h : I s) : I s.splitShift := by
  have hpeek := hI.peekAt h 0
  rw [splitShift_eq]
  split
  · exact hI.edit hpeek (resembles_split _ _)
  · exact hpeek

theorem restore (h : I s) (mark : Mark) : I (s.restore mark) := by
  have hjoin : ∀ splits {s : Stream}, I s → I (joinUntil mark.splits splits s) := by
    intro splits
    induction splits with
    | nil => exact fun h => hI.edit h ⟨rfl, rfl, fun _ => .inl⟩
    | cons index splits ih =>
      intro s h
      rw [joinUntil]
      split
      · exact ih (hI.edit h (s.resembles_joinShift index))
      · exact hI.edit h ⟨rfl, rfl, fun _ => .inl⟩
  exact hI.edit (hjoin s.splits h) ⟨rfl, rfl, fun _ => .inl⟩

end

end Invariant

end Stream

theorem Grammar.Reaches.invariant {e : Effect} {s t : State} {I : Stream → Prop}
    (h : Reaches e s t) (hI : Stream.Invariant I) (hs : I s.stream) : I t.stream := by
  induction h with
  | refl => exact hs
  | step _ change ih =>
    have ht := ih hs
    cases change with
    | peek offset => exact hI.peekAt ht offset
    | advance => exact hI.advance ht
    | split => exact hI.splitShift ht
    | _ => exact ht
  | rewind _ _ before spec => exact hI.restore (spec (before hs)) _

end Serpentine
