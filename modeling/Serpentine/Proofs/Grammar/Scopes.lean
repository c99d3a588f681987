import Serpentine.Grammar.Unit

/-!
# Scopes that gain names
-/

namespace Serpentine

namespace Scopes

/-- The innermost frame has gained names, and all else is as it was. -/
inductive Grows : Scopes → Scopes → Prop where
  | outermost (added frame : Frame) : Grows ⟨[], frame⟩ ⟨[], added ++ frame⟩
  | inner (added frame : Frame) (rest : List Frame) (outermost : Frame) :
      Grows ⟨frame :: rest, outermost⟩ ⟨(added ++ frame) :: rest, outermost⟩

namespace Grows

variable {s t u : Scopes}

theorem refl (s : Scopes) : s.Grows s := by
  obtain ⟨inner, frame⟩ := s
  cases inner with
  | nil => exact .outermost [] frame
  | cons first rest => exact .inner [] first rest frame

theorem trans (hst : s.Grows t) (htu : t.Grows u) : s.Grows u := by
  cases hst with
  | outermost added frame =>
    cases htu with
    | outermost more => exact List.append_assoc more added frame ▸ .outermost (more ++ added) frame
  | inner added frame rest last =>
    cases htu with
    | inner more =>
      exact List.append_assoc more added frame ▸ .inner (more ++ added) frame rest last

theorem depth_eq (h : s.Grows t) : t.depth = s.depth := by
  cases h <;> rfl

theorem tail_frames (h : s.Grows t) : t.frames.tail = s.frames.tail := by
  cases h <;> rfl

theorem isSuffix (h : s.Grows t) : s.frames.headD [] <:+ t.frames.headD [] := by
  cases h with
  | outermost added frame => exact ⟨added, rfl⟩
  | inner added frame rest last => exact ⟨added, rfl⟩

theorem pop_push (h : s.push.Grows t) : t.pop = .ok s := by
  obtain ⟨inner, frame⟩ := s
  cases h
  rfl

end Grows

/-- The scopes with another innermost frame. -/
def setFirst : Scopes → Frame → Scopes
  | ⟨[], _⟩, frame => ⟨[], frame⟩
  | ⟨_ :: rest, outermost⟩, frame => ⟨frame :: rest, outermost⟩

theorem frames_setFirst (s : Scopes) (frame : Frame) :
    (s.setFirst frame).frames = frame :: s.frames.tail := by
  obtain ⟨inner, outermost⟩ := s
  cases inner <;> rfl

theorem declare_eq (s : Scopes) (name : String) (c : NameClass) :
    s.declare name c = (declareIn (s.frames.headD []) name c).map s.setFirst := by
  obtain ⟨inner, outermost⟩ := s
  cases inner with
  | nil =>
    show (declareIn outermost name c >>= fun frame => pure _) = (declareIn outermost name c).map _
    cases declareIn outermost name c <;> rfl
  | cons first rest =>
    show (declareIn first name c >>= fun frame => pure _) = (declareIn first name c).map _
    cases declareIn first name c <;> rfl

/-- A declaration that is not refused changes the innermost frame alone. -/
theorem declareIn_of_declare {s t : Scopes} {name : String} {c : NameClass}
    (h : s.declare name c = .ok t) :
    ∃ frame, declareIn (s.frames.headD []) name c = .ok frame ∧ s.setFirst frame = t := by
  rw [declare_eq] at h
  cases hd : declareIn (s.frames.headD []) name c with
  | error cause => cases hd ▸ h
  | ok frame => exact ⟨frame, rfl, Except.ok.inj (hd ▸ h)⟩

theorem grows_declare {s t : Scopes} {name : String} {c : NameClass}
    (h : s.declare name c = .ok t) : s.Grows t := by
  obtain ⟨frame, hframe, rfl⟩ := declareIn_of_declare h
  obtain ⟨added, rfl⟩ : ∃ added, frame = added ++ s.frames.headD [] := by
    unfold declareIn at hframe
    split at hframe
    · cases hframe
      exact ⟨[_], rfl⟩
    · split at hframe <;> cases hframe
      exact ⟨[], rfl⟩
  obtain ⟨inner, outermost⟩ := s
  cases inner with
  | nil => exact .outermost added outermost
  | cons first rest => exact .inner added first rest outermost

theorem declare_ne_underflow {s : Scopes} {name : String} {c : NameClass} :
    s.declare name c ≠ .error .underflow := by
  rw [declare_eq]
  unfold declareIn
  split
  · nofun
  · split <;> nofun

end Scopes

/-- No rule gives the fault: a scope was closed that was not open, or the text is no sequence of
tokens. -/
def Fault.IsForeign (fault : Fault) : Prop :=
  (∃ place, fault = .scope .underflow place) ∨ ∃ file found, fault = .scan file found

theorem Fault.not_isForeign_grammar (cause : GrammarCause) (place : Position) :
    ¬ (Fault.grammar cause place).IsForeign := by
  rintro (⟨_, ⟨⟩⟩ | ⟨_, _, ⟨⟩⟩)

theorem Fault.not_isForeign_unsupported (construct : String) (place : Position) :
    ¬ (Fault.unsupported construct place).IsForeign := by
  rintro (⟨_, ⟨⟩⟩ | ⟨_, _, ⟨⟩⟩)

theorem Build.not_isForeign {α : Type} {op : Build α} {s : Store} {fault : Fault}
    (h : op.apply s = .error fault) : ¬ fault.IsForeign := by
  cases op with
  | addDestructor cls spec place =>
    simp only [apply, Store.addDestructor] at h
    rintro (⟨_, rfl⟩ | ⟨_, _, rfl⟩) <;> grind
  | _ => cases h

end Serpentine
