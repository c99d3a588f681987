import Serpentine.Grammar.Parse
import Serpentine.Proofs.Grammar.TokenSequence

/-!
# Going back in a parse

Whatever a parse did since a checkpoint, the way back leads to the same tokens, the same place and
the same scopes, so that nothing can tell the states apart (**`restore_runAll`**). The faults met on
the way are kept.
-/

namespace Serpentine.Grammar

/-- The steps of a parse. -/
inductive Step where
  /-- Looks at the token so many places ahead. -/
  | peek (offset : Nat)
  | advance
  | split
  /-- Opens or closes a scope, or declares a name. -/
  | rescope (change : Scopes → Scopes)
  /-- Goes through some steps and back again. -/
  | speculate (steps : List Step)

namespace Step

mutual

def run (s : State) : Step → List Token × State
  | .peek offset =>
    let (token, stream) := s.stream.peekAt offset
    ([token], { s with stream })
  | .advance =>
    let (token, stream) := s.stream.advance
    ([token], { s with stream })
  | .split => ([], { s with stream := s.stream.splitShift })
  | .rescope change =>
    ([], { s with names := { s.names with scopes := change s.names.scopes } })
  | .speculate steps =>
    let (tokens, after) := runAll s steps
    (tokens, after.restore s.checkpoint)

/-- Steps one after the other, with the tokens that they answer. -/
def runAll (s : State) : List Step → List Token × State
  | [] => ([], s)
  | step :: rest =>
    let (tokens, next) := step.run s
    let (more, last) := runAll next rest
    (tokens ++ more, last)

end

mutual

theorem later_run (s : State) (h : s.stream.Fits) :
    ∀ step : Step, Stream.Later s.stream (step.run s).2.stream
  | .peek offset => Stream.later_peekAt h offset
  | .advance => Stream.later_advance h
  | .split => Stream.later_splitShift h
  | .rescope _ => .refl h
  | .speculate steps => by
    rw [run]
    exact (Stream.restore_eq (later_runAll s h steps) h).2.2.2.2

theorem later_runAll (s : State) (h : s.stream.Fits) :
    ∀ steps : List Step, Stream.Later s.stream (runAll s steps).2.stream
  | [] => .refl h
  | step :: rest => by
    have hstep := later_run s h step
    rw [runAll]
    exact hstep.trans (later_runAll _ hstep.fits rest)

end

end Step

/-- States that no step can tell apart. -/
structure State.Alike (s t : State) : Prop where
  stream : s.stream.Alike t.stream
  scopes : s.names.scopes = t.names.scopes

theorem alike_restore {s later : State} (h : Stream.Later s.stream later.stream)
    (hs : s.stream.Fits) : (later.restore s.checkpoint).Alike s :=
  ⟨h.alike_restore hs, rfl⟩

namespace Step

mutual

theorem run_alike {s t : State} (h : s.Alike t) (hs : s.stream.Fits) (ht : t.stream.Fits) :
    ∀ step : Step, (step.run s).1 = (step.run t).1 ∧ (step.run s).2.Alike (step.run t).2
  | .peek offset => by
    obtain ⟨hanswer, halike⟩ := h.stream.peekAt offset
    exact ⟨congrArg ([·]) hanswer, halike, h.scopes⟩
  | .advance => by
    obtain ⟨hanswer, halike⟩ := h.stream.advance
    exact ⟨congrArg ([·]) hanswer, halike, h.scopes⟩
  | .split => ⟨rfl, h.stream.splitShift, h.scopes⟩
  | .rescope change => ⟨rfl, h.stream, congrArg change h.scopes⟩
  | .speculate steps => by
    have hback := alike_restore (later_runAll s hs steps) hs
    have hback' := alike_restore (later_runAll t ht steps) ht
    rw [run, run]
    refine ⟨(runAll_alike h hs ht steps).1, ?_, ?_⟩
    · exact hback.stream.trans (h.stream.trans hback'.stream.symm)
    · rw [hback.scopes, hback'.scopes, h.scopes]

theorem runAll_alike {s t : State} (h : s.Alike t) (hs : s.stream.Fits) (ht : t.stream.Fits) :
    ∀ steps : List Step,
      (runAll s steps).1 = (runAll t steps).1 ∧ (runAll s steps).2.Alike (runAll t steps).2
  | [] => ⟨rfl, h⟩
  | step :: rest => by
    obtain ⟨hanswer, halike⟩ := run_alike h hs ht step
    obtain ⟨hmore, hlast⟩ :=
      runAll_alike halike (later_run s hs step).fits (later_run t ht step).fits rest
    rw [runAll, runAll]
    exact ⟨by simp only [hanswer, hmore], hlast⟩

end

end Step

/-! ## Parses -/

variable {e : Effect} {α : Type} {s t : State}

theorem Reaches.later (h : Reaches e s t) (hs : s.stream.Fits) :
    Stream.Later s.stream t.stream := by
  induction h with
  | refl s => exact .refl hs
  | step _ change ih =>
    have hbefore := ih hs
    refine hbefore.trans ?_
    cases change with
    | peek offset => exact Stream.later_peekAt hbefore.fits offset
    | advance => exact Stream.later_advance hbefore.fits
    | split => exact Stream.later_splitShift hbefore.fits
    | _ => exact .refl hbefore.fits
  | rewind _ _ before spec =>
    have hbefore := before hs
    exact hbefore.trans (Stream.restore_eq (spec hbefore.fits) hbefore.fits).2.2.2.2

theorem alike_speculate {p : Parse e α} (hs : s.stream.Fits)
    (h : (speculate p).run s = .ok none t) : t.Alike s := by
  have hlater := (p.reaches s).later hs
  unfold speculate at h
  dsimp only at h
  generalize p.run s = outcome at h hlater
  cases outcome with
  | ok a t => cases h
  | error fault u =>
    cases h
    exact alike_restore hlater hs

/-! ## Any steps -/

theorem nodup_of_order {faults : List ScanFault}
    (h : faults.Pairwise fun f g => f.spot.Before g.spot) : faults.Nodup := by
  refine List.Pairwise.imp ?_ h
  rintro f _ hbefore rfl
  exact f.spot.not_before_self hbefore

/-- **The way back**: after any steps from the start of a text, and any more steps behind a
checkpoint, the way back to it leads to the same sequence of tokens, the same place in it and the
same scopes. All steps from there are answered as from the checkpoint itself. The faults met on the
way go on with those met before, each of them once and in the order of the text. -/
theorem restore_runAll (file text : String) (names : Names) (store : Store)
    (before since later : List Step) :
    let s := (Step.runAll (.start file text names store) before).2
    let back := (Step.runAll s since).2.restore s.checkpoint
    back.stream.tokenAt = s.stream.tokenAt ∧ back.stream.cursor = s.stream.cursor ∧
      back.names.scopes = s.names.scopes ∧
      (Step.runAll back later).1 = (Step.runAll s later).1 ∧
      s.stream.faults <+: back.stream.faults ∧ back.stream.faults.Nodup ∧
      back.stream.faults.Pairwise fun f g => f.spot.Before g.spot := by
  intro s back
  have hs : s.stream.Fits := (Step.later_runAll _ (Stream.fits_start text) before).fits
  have hsince := Step.later_runAll s hs since
  have halike : back.Alike s := alike_restore hsince hs
  have hback : Stream.Later s.stream back.stream := (Stream.restore_eq hsince hs).2.2.2.2
  refine ⟨halike.stream.tokenAt, halike.stream.cursor, halike.scopes, ?_, hback.faults, ?_,
    hback.fits.order⟩
  · exact (Step.runAll_alike halike hback.fits hs later).1
  · exact nodup_of_order hback.fits.order

end Serpentine.Grammar
