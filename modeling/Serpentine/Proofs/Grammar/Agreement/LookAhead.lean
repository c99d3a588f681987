import Serpentine.Proofs.Grammar.Agreement

/-!
# Agreement of looks ahead

Some loops take no token and look one token further in each round instead. The text of the tokens
that they have passed grows, so they end in both texts as well.
-/

namespace Serpentine

/-! ## Texts of tokens -/

section TextLength

variable (f : Nat → Token)

theorem textLength_succ (n : Nat) :
    textLength f (n + 1) = textLength f n + (f n).lexeme.length := by
  induction n generalizing f with
  | zero => simp [textLength]
  | succ n ih =>
    rw [textLength, ih, textLength]
    omega

theorem textLength_mono {i j : Nat} (h : i ≤ j) : textLength f i ≤ textLength f j := by
  induction h with
  | refl => exact Nat.le_refl _
  | step _ ih => exact Nat.le_trans ih (textLength_le_succ f _)

theorem textLength_congr {g : Nat → Token} (h : ∀ i, (g i).lexeme = (f i).lexeme) (n : Nat) :
    textLength g n = textLength f n := by
  induction n generalizing f g with
  | zero => rfl
  | succ n ih => rw [textLength, textLength, h 0, ih _ fun i => h (i + 1)]

end TextLength

namespace Grammar

variable {m : Matching} {n : Nat} {e : Effect} {α β : Type}

/-! ## Parses that take no tokens -/

def Parse.Peeks (p : Parse e α) : Prop :=
  ∀ s, (p.run s).state.stream.tokenAt = s.stream.tokenAt ∧
    (p.run s).state.stream.cursor = s.stream.cursor

theorem peeks_pure (a : α) : (pure a : Parse e α).Peeks :=
  fun _ => ⟨rfl, rfl⟩

theorem peeks_bind {p : Parse e α} {next : α → Parse e β} (hp : p.Peeks)
    (h : ∀ a, (next a).Peeks) : (p >>= next).Peeks := by
  intro s
  have hfirst := hp s
  rw [Parse.run_bind]
  generalize p.run s = o at hfirst
  cases o with
  | ok a t => exact ⟨(h a t).1.trans hfirst.1, (h a t).2.trans hfirst.2⟩
  | error fault t => exact hfirst

theorem peeks_peekAt (offset : Nat) : (peekAt offset : Parse e Token).Peeks := by
  intro s
  obtain ⟨-, hpulled, -⟩ := s.stream.peekAt_eq offset
  exact ⟨hpulled.tokenAt, hpulled.cursor⟩

theorem peeks_kindAt (offset : Nat) : (kindAt offset : Parse e Kind).Peeks :=
  peeks_bind (peeks_peekAt offset) fun _ => peeks_pure _

theorem peeks_checkAt (offset : Nat) (k : Kind) : (checkAt offset k : Parse e Bool).Peeks :=
  peeks_bind (peeks_kindAt offset) fun _ => peeks_pure _

theorem peeks_read : (read : Parse e State).Peeks :=
  fun _ => ⟨rfl, rfl⟩

theorem peeks_tooDeep : (tooDeep : Parse e α).Peeks :=
  peeks_bind (peeks_bind (peeks_peekAt 0) fun _ => peeks_bind peeks_read fun _ => peeks_pure _)
    fun _ _ => ⟨rfl, rfl⟩

theorem peeks_loop {step : β → Parse e (β ⊕ α)} (h : ∀ b, (step b).Peeks) (b : β) :
    (loop b step).Peeks := by
  have hloop : ∀ k b, (loopWithin k step b).Peeks := by
    intro k
    induction k with
    | zero => exact fun _ => peeks_tooDeep
    | succ k ih =>
      intro b
      refine peeks_bind (h b) fun r => ?_
      cases r with
      | inl c => exact ih c
      | inr a => exact peeks_pure a
  exact peeks_bind peeks_read fun _ => hloop _ b

theorem peeks_and {p q : Parse e Bool} (hp : p.Peeks) (hq : q.Peeks) : (p <&&> q).Peeks :=
  peeks_bind hp fun b => by
    cases b with
    | true => exact hq
    | false => exact peeks_pure false

theorem peeks_or {p q : Parse e Bool} (hp : p.Peeks) (hq : q.Peeks) : (p <||> q).Peeks :=
  peeks_bind hp fun b => by
    cases b with
    | true => exact peeks_pure true
    | false => exact hq

/-! ## Loops that look further -/

theorem agrees_lookLoop {K : Kind → Prop} {R : α → α → Prop} {step step' : β → Parse e (β ⊕ α)}
    (offset : β → Nat) {b : β} (hpeeks : ∀ b, (step b).Peeks)
    (hstep : ∀ b, (step b).Agrees m n Any (Sum.LiftRel Eq R) Never (step' b))
    (hmoves : ∀ b, (step b).Gives (Sum.elim (fun c => offset b < offset c) fun _ => True))
    (hends : ∀ b c s t, (step b).run s = .ok (.inl c) t →
      (s.stream.tokenAt (s.stream.cursor + offset b)).isEnd = false) :
    (loop b step).Agrees m n K R Never (loop b step') := by
  refine .read fun r r' hr => ?_
  rw [hr.size, hr.size']
  intro s t hst hleft _ hnotes
  -- The text of the tokens passed is no longer than either text.
  let f : Nat → Token := fun i => s.stream.tokenAt (s.stream.cursor + i)
  have hlength : ∀ i, textLength f i ≤ min m.size m.size' := by
    intro i
    refine Nat.le_min.2 ⟨?_, ?_⟩
    · rw [← hst.size]
      exact Stream.textLength_drop_le hst.sound.counted.length _ i
    · rw [← hst.size', ← textLength_congr f fun i => (hst.stream.tokenAt (s.stream.cursor + i)).lexeme]
      rw [← hst.stream.cursor]
      exact Stream.textLength_drop_le hst.sound'.counted.length _ i
  refine (loopWithin_matches (P := s.Nests m) (fun b b' u v => b = b' ∧ u.Abreast m v ∧ u.left < n ∧
    s.Nests m u ∧ u.stream.tokenAt = s.stream.tokenAt ∧ u.stream.cursor = s.stream.cursor)
    (fun b _ => min m.size m.size' - textLength f (offset b)) ?_ ⟨rfl, hst, hleft, .refl s, rfl, rfl⟩
    (by omega) (by omega) hnotes).imp (fun _ _ h => h) fun _ _ hsu => ⟨False.elim, hsu⟩
  rintro c _ u v ⟨rfl, huv, hlt, hsu, htokens, hcursor⟩ hnotes
  have hpeek := hpeeks c u
  rcases (hstep c).on.cases huv hlt trivial hnotes with
    ⟨r, r', w, x, hrun, hrun', hr, hwx, hle', -, huw⟩ |
    ⟨fault, fault', w, x, hrun, hrun', hfault, hscope, hwx⟩
  · rw [hrun] at hpeek
    rw [hrun, hrun']
    cases hr with
    | inr ha => exact .done ha (hsu.trans huw) hwx.toMatches
    | @inl d _ hd =>
      have hoffset : offset c < offset d := hmoves c u _ w hrun
      have hend := hends c d u w hrun
      rw [htokens, hcursor] at hend
      have hpos := hst.sound.counted.pos _ hend
      have hmono := textLength_mono f (show offset c + 1 ≤ offset d from hoffset)
      have hsucc := textLength_succ f (offset c)
      have hbound := hlength (offset d)
      have hlexeme : 0 < (f (offset c)).lexeme.length := hpos
      refine .again ⟨⟨hd, hwx, by omega, hsu.trans huw, hpeek.1.trans htokens, hpeek.2.trans hcursor⟩, ?_⟩
      show min m.size m.size' - textLength f (offset d) <
        min m.size m.size' - textLength f (offset c)
      omega
  · rw [hrun, hrun']
    exact .error hfault hscope hwx

theorem run_peekAt_ok {offset : Nat} {token : Token} {s t : State}
    (h : (peekAt offset : Parse e Token).run s = .ok token t) :
    token = s.stream.tokenAt (s.stream.cursor + offset) := by
  cases h
  exact (s.stream.peekAt_eq offset).1

/-! ## Angle brackets and names -/

theorem gives_scanAngles (offset : Nat) :
    (scanAngles offset).Gives fun r => ∀ j ∈ r, offset ≤ j := by
  refine gives_loop (I := fun b => offset ≤ b.2) (Nat.le_refl offset) ?_
  rintro ⟨depth, i⟩ (hi : offset ≤ i)
  refine gives_behind fun k => ?_
  dsimp only
  split
  case h_4 | h_5 | h_6 | h_7 => exact gives_pure (fun _ h => nomatch h)
  all_goals
    refine gives_pure ?_
    split
    · rintro _ ⟨⟩
      exact Nat.le_succ_of_le hi
    · exact Nat.le_succ_of_le hi

theorem peeks_scanAngles (offset : Nat) : (scanAngles offset).Peeks := by
  refine peeks_loop (fun ⟨depth, i⟩ => peeks_bind (peeks_kindAt i) fun k => ?_) _
  split <;> exact peeks_pure _

instance steady_scanAngles (offset : Nat) : (scanAngles offset).Steady := by
  refine ⟨fun m n K => agrees_lookLoop Prod.snd ?_ ?_ ?_ ?_⟩
  · rintro ⟨depth, i⟩
    refine peeks_bind (peeks_kindAt i) fun k => ?_
    split <;> exact peeks_pure _
  · rintro ⟨depth, i⟩
    refine (.step fun k => ?_ : Parse.Agrees m n _ Eq _ _ _).weaken fun _ _ => sumRel_of_eq
    split <;> exact .pure rfl
  · rintro ⟨depth, i⟩
    refine gives_behind fun k => ?_
    dsimp only
    split
    case h_4 | h_5 | h_6 | h_7 => exact gives_pure trivial
    all_goals
      refine gives_pure ?_
      split
      · trivial
      · exact Nat.lt_succ_self i
  · rintro ⟨depth, i⟩ next s t h
    obtain ⟨k, u, hkind, h⟩ := run_bind_ok h
    obtain ⟨token, v, htoken, hpure⟩ := run_bind_ok hkind
    cases hpure
    rw [run_peekAt_ok htoken] at h
    refine beq_eq_false_iff_ne.2 fun heof => ?_
    rw [heof] at h
    cases h

theorem peeks_isTypeName (segments : List String) : (isTypeName segments : Parse e Bool).Peeks :=
  peeks_bind peeks_read fun _ => peeks_pure _

theorem peeks_isTemplateName (segments : List String) :
    (isTemplateName segments : Parse e Bool).Peeks :=
  peeks_bind peeks_read fun _ => peeks_pure _

instance steady_scanName (offset : Nat) : (scanName offset).Steady := by
  refine ⟨fun m n K => .step fun global => agrees_lookLoop Prod.snd ?_ ?_ ?_ ?_⟩
  · rintro ⟨before, i⟩
    refine peeks_bind (peeks_peekAt i) fun token => ?_
    dsimp only
    split
    · exact peeks_pure _
    · refine peeks_bind (peeks_bind (peeks_and (peeks_checkAt _ _) (peeks_or (peeks_pure _)
        (peeks_or (peeks_isTemplateName _) (peeks_isTypeName _)))) fun angles => ?_) fun after => ?_
      · split
        · exact peeks_scanAngles _
        · exact peeks_pure _
      · split
        · exact peeks_pure _
        · refine peeks_bind (peeks_and (peeks_checkAt _ _) (peeks_checkAt _ _)) fun more => ?_
          split <;> exact peeks_pure _
  · rintro ⟨before, i⟩
    refine .bind (.peekAt i) fun token token' ht => ?_
    rw [ht.kind, ht.lexeme]
    refine (?_ : Parse.Agrees m n _ Eq _ _ _).weaken fun _ _ => sumRel_of_eq
    split
    · exact .pure rfl
    · refine .seq (.step fun angles => ?_) fun after => ?_
      · split
        · exact .steady
        · exact .pure rfl
      · split
        · exact .pure rfl
        · refine .step fun more => ?_
          split <;> exact .pure rfl
  · rintro ⟨before, i⟩
    refine gives_behind fun token => ?_
    dsimp only
    split
    · exact gives_pure trivial
    · refine gives_bind (P := fun r => ∀ j ∈ r, i < j) ?_ fun r hr => ?_
      · refine gives_behind fun angles => ?_
        split
        · exact gives_scanAngles (i + 1)
        · refine gives_pure ?_
          rintro _ ⟨⟩
          exact Nat.lt_succ_self i
      · split
        · exact gives_pure trivial
        · refine gives_behind fun more => ?_
          split
          · exact gives_pure (Nat.lt_succ_of_lt (hr _ rfl))
          · exact gives_pure trivial
  · rintro ⟨before, i⟩ next s t h
    obtain ⟨token, u, htoken, h⟩ := run_bind_ok h
    rw [run_peekAt_ok htoken] at h
    refine beq_eq_false_iff_ne.2 fun heof => ?_
    dsimp only at h
    rw [heof] at h
    cases h

end Grammar

end Serpentine
