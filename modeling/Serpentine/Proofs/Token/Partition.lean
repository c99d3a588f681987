import Serpentine.Proofs.Token.Pieces

/-!
# A text as its tokens, faults and blanks

A scan takes its text apart without losing, doubling or changing a character, and the place of each
token and fault is where its first character stands (**`tokenize_partition`**).
-/

namespace Serpentine

/-! ## Places -/

/-- The place behind some characters: the line is told by the newlines among them, the column by the
characters behind the last newline. -/
def Spot.behind (front : List Char) : Spot :=
  ⟨front.count '\n' + 1, (front.reverse.takeWhile (· != '\n')).length + 1⟩

theorem Spot.behind_concat (front : List Char) (c : Char) :
    Spot.behind (front ++ [c]) = (Spot.behind front).next c := by
  by_cases hc : c = '\n'
  · subst hc
    simp [Spot.behind, Spot.next]
  · simp [Spot.behind, Spot.next, hc]

theorem Spot.behind_append (front cs : List Char) :
    Spot.behind (front ++ cs) = (Spot.behind front).past cs := by
  induction cs generalizing front with
  | nil => rw [List.append_nil]; rfl
  | cons c cs ih =>
    rw [List.append_cons, ih, behind_concat]
    rfl

/-! ## Segments -/

/-- A part of a text. -/
inductive Segment where
  | blanks (run : List Char)
  | token (t : Token)
  /-- A fault and the characters that it skips. -/
  | fault (f : ScanFault) (skipped : List Char)
deriving Repr, DecidableEq, Inhabited

namespace Segment

def chars : Segment → List Char
  | .blanks run => run
  | .token t => t.lexeme.toList
  | .fault _ skipped => skipped

def token? : Segment → Option Token
  | .token t => some t
  | _ => none

def fault? : Segment → Option ScanFault
  | .fault f _ => some f
  | _ => none

/-- Behind some characters, the part is what it should be: blanks are blank, tokens and faults are at
their place and start with no blank, and nothing but the end is empty. -/
def Sound (front : List Char) : Segment → Prop
  | .blanks run => ∀ c ∈ run, isBlank c = true
  | .token t => t.spot = .behind front ∧ (∀ c ∈ t.lexeme.toList.head?, isBlank c = false) ∧
      (t.lexeme = "" ↔ t.kind = .eof)
  | .fault f skipped => f.spot = .behind front ∧ (∀ c ∈ skipped.head?, isBlank c = false) ∧
      skipped ≠ []

end Segment

open Segment (chars)

/-- Segments that stand end to end, each at its place. -/
def Laid (front : List Char) (segments : List Segment) : Prop :=
  ∀ before segment rest, segments = before ++ segment :: rest →
    segment.Sound (front ++ before.flatMap chars)

theorem laid_nil (front : List Char) : Laid front [] := by
  intro before segment rest h
  simp at h

theorem laid_cons {front : List Char} {segment : Segment} {segments : List Segment}
    (hfirst : segment.Sound front) (hrest : Laid (front ++ segment.chars) segments) :
    Laid front (segment :: segments) := by
  intro before other rest h
  cases before with
  | nil =>
    obtain ⟨rfl, rfl⟩ := List.cons.inj h
    simpa using hfirst
  | cons first before =>
    obtain ⟨rfl, htail⟩ := List.cons.inj h
    have hother := hrest before other rest htail
    rwa [List.append_assoc, ← List.flatMap_cons] at hother

/-! ## Scans -/

namespace Scan

/-- What is left behind some characters falls into segments, with its end as last token. -/
structure Divides (s : Scan) (front : List Char) (segments : List Segment) : Prop where
  whole : s.rest = segments.flatMap chars
  tokens : s.tokens = segments.filterMap Segment.token?
  faults : s.faults = segments.filterMap Segment.fault?
  laid : Laid front segments
  ends : ∃ body last, s.tokens = body ++ [last] ∧ last.kind = .eof ∧ ∀ t ∈ body, t.kind ≠ .eof

section Steps

variable {s left : Scan} {front : List Char} {token : Token} {segments : List Segment}

theorem rest_eq (s : Scan) : s.rest = s.rest.takeWhile isBlank ++ s.skipBlanks.rest :=
  List.takeWhile_append_dropWhile.symm

theorem divides_end (hs : s.spot = .behind front) (h : s.next = (.ok token, left))
    (hend : token.isEnd = true) : s.Divides front [.blanks s.rest, .token token] := by
  obtain ⟨htokens, hfaults⟩ := tokens_of_end h hend
  obtain ⟨rfl, -, hrest⟩ | ⟨c, cs, kind, taken, -, hread, rfl, -⟩ := next_eq_ok h
  · have hall := s.rest_eq
    rw [hrest, List.append_nil] at hall
    refine ⟨by simp [chars], htokens, hfaults, ?_, [], _, htokens, rfl, by simp⟩
    refine laid_cons (List.dropWhile_eq_nil_iff.1 hrest)
      (laid_cons ⟨?_, by simp, by simp⟩ (laid_nil _))
    rw [chars, Spot.behind_append, ← hs, skipBlanks, ← hall]
  · obtain rfl : kind = .eof := beq_iff_eq.1 hend
    exact absurd (congrArg Cut.found hread) (Cut.read_ne_eof c cs)

theorem divides_piece (piece : Segment) (hrest : s.skipBlanks.rest = piece.chars ++ left.rest)
    (hpiece : piece.Sound (front ++ s.rest.takeWhile isBlank))
    (htokens : s.tokens = piece.token?.toList ++ left.tokens)
    (hfaults : s.faults = piece.fault?.toList ++ left.faults)
    (hend : ∀ t ∈ piece.token?.toList, t.kind ≠ .eof)
    (hleft : left.Divides (front ++ s.rest.takeWhile isBlank ++ piece.chars) segments) :
    s.Divides front (.blanks (s.rest.takeWhile isBlank) :: piece :: segments) := by
  obtain ⟨body, last, hbody, hlast, hnone⟩ := hleft.ends
  refine ⟨?_, ?_, ?_, ?_, piece.token?.toList ++ body, last, ?_, hlast,
    List.forall_mem_append.2 ⟨hend, hnone⟩⟩
  · rw [List.flatMap_cons, List.flatMap_cons, ← hleft.whole, ← hrest]
    exact s.rest_eq
  · rw [htokens, hleft.tokens]
    cases piece <;> rfl
  · rw [hfaults, hleft.faults]
    cases piece <;> rfl
  · exact laid_cons (fun _ => List.mem_takeWhile_imp) (laid_cons hpiece hleft.laid)
  · rw [htokens, hbody, List.append_assoc]

end Steps

/-- What is left behind some characters always falls into segments. -/
theorem exists_divides {s : Scan} {front : List Char} (hs : s.spot = .behind front) :
    ∃ segments, s.Divides front segments := by
  have hblanks (s : Scan) {front : List Char} (hs : s.spot = .behind front) :
      s.skipBlanks.spot = .behind (front ++ s.rest.takeWhile isBlank) := by
    rw [Spot.behind_append, ← hs]
    rfl
  induction s using piece_induction generalizing front with
  | ends s token left hnext hend => exact ⟨_, divides_end hs hnext hend⟩
  | token s token left hnext hend ih =>
    obtain ⟨htokens, hfaults⟩ := tokens_of_token hnext hend
    obtain ⟨rfl, -, -⟩ | ⟨c, cs, kind, taken, hrest, hread, rfl, hspot⟩ := next_eq_ok hnext
    · cases hend
    · obtain ⟨w, rfl, rfl⟩ := Cut.read_cons hread
      rw [hblanks s hs, ← Spot.behind_append] at hspot
      obtain ⟨segments, hleft⟩ := ih hspot
      have hkind : kind ≠ .eof := by simpa [Token.isEnd] using hend
      have hchars : (String.ofList (c :: w)).toList = c :: w := String.toList_ofList
      rw [← hchars] at hleft
      refine ⟨_, divides_piece (.token _) ?_ ⟨hblanks s hs, ?_, ?_⟩ htokens hfaults ?_ hleft⟩
      · rw [hrest, chars, hchars]
        rfl
      · simpa using isBlank_of_skipBlanks hrest
      · exact iff_of_false (by simp [String.ext_iff]) hkind
      · simpa [Segment.token?] using hkind
  | fault s fault left hnext ih =>
    obtain ⟨htokens, hfaults⟩ := tokens_of_fault hnext
    obtain ⟨c, cs, taken, hrest, hread, hplace, hspot⟩ := next_eq_error hnext
    obtain ⟨w, rfl, rfl⟩ := Cut.read_cons hread
    rw [hblanks s hs, ← Spot.behind_append] at hspot
    obtain ⟨segments, hleft⟩ := ih hspot
    refine ⟨_, divides_piece (.fault fault (c :: w)) hrest
      ⟨hplace.trans (hblanks s hs), ?_, List.cons_ne_nil _ _⟩ htokens hfaults (by rintro _ ⟨⟩) hleft⟩
    simpa using isBlank_of_skipBlanks hrest

end Scan

/-- **Nothing of a text is lost.** A text is made of runs of blanks, of the lexemes of its tokens and
of the characters that its faults skip, in the order of the tokens and of the faults. Tokens and
faults carry the places of their first characters, and the end is the last token and no other. -/
theorem tokenize_partition (text : String) :
    ∃ segments : List Segment, text.toList = segments.flatMap chars ∧
      (tokenize text).1 = segments.filterMap Segment.token? ∧
      (tokenize text).2 = segments.filterMap Segment.fault? ∧ Laid [] segments ∧
      ∃ body last, (tokenize text).1 = body ++ [last] ∧ last.kind = .eof ∧
        ∀ t ∈ body, t.kind ≠ .eof := by
  have hstart : (Scan.start text).spot = .behind [] := rfl
  obtain ⟨segments, h⟩ := Scan.exists_divides hstart
  exact ⟨segments, h.whole, h.tokens, h.faults, h.laid, h.ends⟩

end Serpentine
