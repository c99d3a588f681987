import Serpentine.Proofs.Grammar.Scopes

/-!
# Frames of scopes

A frame that is opened and closed again leaves nothing behind, whatever is declared in between and
whichever declarations are refused (**`Scopes.frames_isolated`**).
-/

namespace Serpentine

namespace Scopes

/-- The changes of scopes. -/
inductive Step where
  | push
  | pop
  | declare (name : String) (c : NameClass)
deriving Repr, DecidableEq, Inhabited

def apply (s : Scopes) : Step → Except ScopeCause Scopes
  | .push => .ok s.push
  | .pop => s.pop
  | .declare name c => s.declare name c

/-- Steps one after the other. One that fails changes nothing. -/
def run (s : Scopes) : List Step → Scopes
  | [] => s
  | step :: rest => ((s.apply step).toOption.getD s).run rest

/-- The number of frames that are open behind steps, of those that were opened by them and by others
before; nothing if a frame is closed that is not among them. -/
def stillOpen? : Nat → List Step → Option Nat
  | n, [] => some n
  | n, .push :: rest => stillOpen? (n + 1) rest
  | 0, .pop :: _ => none
  | n + 1, .pop :: rest => stillOpen? n rest
  | n, .declare .. :: rest => stillOpen? n rest

/-- The names of one frame are in another one, with the same class. -/
def Keeps (frame grown : Frame) : Prop :=
  ∀ name c, frame.lookup name = some c → grown.lookup name = some c

theorem Keeps.refl (frame : Frame) : Keeps frame frame :=
  fun _ _ h => h

variable {s t : Scopes} {name : String} {c : NameClass}

theorem keeps_declareIn {frame grown : Frame} (h : declareIn frame name c = .ok grown) :
    Keeps frame grown := by
  unfold declareIn at h
  split at h
  · next hnew =>
    cases h
    intro other k hother
    have hne : other ≠ name := by
      rintro rfl
      rw [hnew] at hother
      cases hother
    rwa [List.lookup_cons, beq_false_of_ne hne]
  · split at h <;> cases h
    exact .refl frame

/-! ## One step -/

theorem eq_of_frames (h : s.frames = t.frames) : s = t := by
  obtain ⟨inner, outermost⟩ := s
  obtain ⟨inner', outermost'⟩ := t
  obtain ⟨hinner, hlast⟩ := List.append_inj' h rfl
  exact congr (congrArg mk hinner) (List.singleton_inj.1 hlast)

theorem pop_of_frames {first second : Frame} {rest : List Frame}
    (h : s.frames = first :: second :: rest) : ∃ t, s.pop = .ok t ∧ t.frames = second :: rest := by
  obtain ⟨inner, outermost⟩ := s
  cases inner with
  | nil => cases h
  | cons frame inner =>
    obtain ⟨-, hrest⟩ := List.cons.inj h
    exact ⟨⟨inner, outermost⟩, rfl, hrest⟩

theorem frames_declare {frame : Frame} {behind : List Frame} (hs : s.frames = frame :: behind)
    (h : s.declare name c = .ok t) : ∃ grown, Keeps frame grown ∧ t.frames = grown :: behind := by
  obtain ⟨grown, hgrown, rfl⟩ := declareIn_of_declare h
  rw [hs] at hgrown
  exact ⟨grown, keeps_declareIn hgrown, by rw [frames_setFirst, hs, List.tail_cons]⟩

/-! ## Many steps -/

/-- The frame that was innermost before the steps has at most gained names, and those behind it are
as they were. -/
theorem frames_run {steps : List Step} (own : List Frame) {frame : Frame} {behind : List Frame}
    {n : Nat} (hs : s.frames = own ++ frame :: behind) (h : stillOpen? own.length steps = some n) :
    ∃ left grown, left.length = n ∧ Keeps frame grown ∧
      (s.run steps).frames = left ++ grown :: behind := by
  -- the frames opened on the way are those of `own`; each step changes the first of them
  induction steps generalizing s own frame with
  | nil =>
    cases h
    exact ⟨own, frame, rfl, .refl frame, hs⟩
  | cons step rest ih =>
    rw [run]
    cases step with
    | push => exact ih ([] :: own) (congrArg (List.cons []) hs) h
    | pop =>
      cases own with
      | nil => cases h
      | cons first own =>
        obtain ⟨second, more, hmore⟩ := List.exists_cons_of_ne_nil
          (show own ++ frame :: behind ≠ [] by simp)
        obtain ⟨t, hpop, ht⟩ := pop_of_frames (hs.trans (congrArg (List.cons first) hmore))
        rw [show s.apply .pop = .ok t from hpop]
        exact ih own (ht.trans hmore.symm) h
    | declare name c =>
      cases hstep : s.apply (.declare name c) with
      | error cause => exact ih own hs h
      | ok t =>
        cases own with
        | nil =>
          obtain ⟨grown, hgrown, ht⟩ := frames_declare hs hstep
          obtain ⟨left, last, hleft, hlast, hrun⟩ := ih [] ht h
          exact ⟨left, last, hleft, fun _ _ hold => hlast _ _ (hgrown _ _ hold), hrun⟩
        | cons first own =>
          obtain ⟨grown, -, ht⟩ := frames_declare hs hstep
          exact ih (grown :: own) ht h

theorem frames_ne_nil (s : Scopes) : s.frames ≠ [] := by
  simp [frames]

theorem pop_run_push {steps : List Step} (h : stillOpen? 0 steps = some 0) (s : Scopes) :
    (s.push.run steps).pop = .ok s := by
  obtain ⟨left, grown, hleft, -, hrun⟩ := frames_run (s := s.push) [] rfl h
  rw [List.eq_nil_of_length_eq_zero hleft] at hrun
  obtain ⟨first, more, hs⟩ := List.exists_cons_of_ne_nil s.frames_ne_nil
  obtain ⟨t, hpop, ht⟩ := pop_of_frames (hrun.trans (congrArg (List.cons grown) hs))
  rw [hpop, eq_of_frames (ht.trans hs.symm)]

end Scopes

/-- New scopes that are refused leave the old ones, and the program as it is. -/
theorem Grammar.kept_of_rescope_error {e : Effect} {f : Scopes → Except ScopeCause Scopes}
    {h : ∀ (s : State) scopes, f s.names.scopes = .ok scopes → Change e s (s.withScopes scopes)}
    {s after : State} {fault : Fault} (hrun : (rescope f h).run s = .error fault after) :
    after.names = s.names ∧ after.store = s.store := by
  change ((Action.rescope f h).run s).bind _ = _ at hrun
  simp only [Action.run, Action.rescope] at hrun
  cases hf : f s.names.scopes with
  | ok scopes =>
    rw [hf] at hrun
    cases hrun
  | error cause =>
    rw [hf] at hrun
    cases hrun
    exact ⟨rfl, rfl⟩

/-- Whatever is declared between a scope's opening and its closing, and whichever declarations are
refused, the scopes are the same again. What steps leave open stands before the innermost frame, which
keeps the classes of its names, and those behind it. A name has the class of the innermost frame that
holds it. A parse that is refused a step has the scopes from before. -/
theorem Scopes.frames_isolated (s : Scopes) :
    (∀ steps, stillOpen? 0 steps = some 0 → (s.push.run steps).pop = .ok s) ∧
    (∀ steps n, stillOpen? 0 steps = some n → ∃ left grown, left.length = n ∧
      (s.run steps).frames = left ++ grown :: s.frames.tail ∧
      ∀ name c, (s.frames.headD []).lookup name = some c → grown.lookup name = some c) ∧
    (∀ name c, s.classify name = some c ↔ ∃ before frame behind,
      s.frames = before ++ frame :: behind ∧ frame.lookup name = some c ∧
      ∀ other ∈ before, other.lookup name = none) ∧
    ∀ (state after : Grammar.State) (fault : Fault),
      (Grammar.popScope.run state = .error fault after ∨
        ∃ c name, (Grammar.declareName c name).run state = .error fault after) →
      after.names = state.names ∧ after.store = state.store := by
  refine ⟨fun steps h => pop_run_push h s, fun steps n h => ?_, fun name c => ?_, ?_⟩
  · obtain ⟨first, more, hs⟩ := List.exists_cons_of_ne_nil s.frames_ne_nil
    obtain ⟨left, grown, hleft, hgrown, hrun⟩ := frames_run (s := s) [] hs h
    rw [hs]
    exact ⟨left, grown, hleft, hrun, hgrown⟩
  · exact List.findSome?_eq_some_iff
  · rintro state after fault (hpop | ⟨c, name, hdeclare⟩)
    · exact Grammar.kept_of_rescope_error hpop
    · exact Grammar.kept_of_rescope_error hdeclare

/-- A name that is a value is refused as a type, in a scope that is then closed. -/
def Scopes.refusing : List Scopes.Step :=
  [.declare "T" .value, .declare "T" .type, .push, .declare "T" .type, .pop]

theorem Scopes.frames_isolated_refusing :
    (Scopes.empty.push.run refusing).pop = .ok Scopes.empty ∧
    (∃ left grown, left.length = 0 ∧
      (Scopes.empty.run refusing).frames = left ++ grown :: Scopes.empty.frames.tail ∧
      ∀ name c, (Scopes.empty.frames.headD []).lookup name = some c →
        grown.lookup name = some c) ∧
    ∃ fault after, Grammar.popScope.run default = .error fault after ∧ after.store = default :=
  ⟨(frames_isolated .empty).1 refusing rfl, (frames_isolated .empty).2.1 refusing 0 rfl,
    _, _, rfl, ((frames_isolated .empty).2.2.2 default _ _ (.inl rfl)).2⟩

end Serpentine
