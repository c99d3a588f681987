import Serpentine.Proofs.Grammar.Agreement.Declarations

/-!
# Files in agreement

The parses of all rules agree, by induction on the tokens that are left and, where no token was
taken, on the rank of the rule. How deep rules may be nested does not matter, as long as it is deep
enough for the tokens that are left (**`agrees_fileDeclarations`**).
-/

namespace Serpentine.Grammar

variable {m : Matching} {n : Nat} {K : Kind → Prop} {rules rules' : Rules} {e : Effect} {α : Type}

theorem agrees_tooDeep {R : α → α → Prop} {O : α → Prop} :
    (tooDeep : Parse e α).Agrees m n K R O tooDeep :=
  .here fun _ _ hplace => .unsupported hplace

/-- The parses of a rule agree, if those do that it calls: behind a token those of all rules, and
before it those of the rules of smaller rank. -/
theorem Rule.agrees_body (h : rules.Agree m n rules') (rule : Rule e α)
    (hrank : ∀ ⦃e' : Effect⦄ ⦃β : Type⦄ (called : Rule e' β), called.rank < rule.rank →
      called.Agrees m (n + 1) rules rules') :
    (rule.body rules).Agrees m (n + 1) Any
      (m.Under (rule.relocate m.see) (rule.Worded m.words)) rule.Owes (rule.body rules') := by
  cases rule with
  | templateArgs => exact (agrees_templateArgs h).weaken fun _ _ h => ⟨h, fun _ => trivial⟩
  | expr power => exact agrees_expression h power
  | unary => exact agrees_unary h
  | exprList close => exact agrees_exprList h (hrank _ Nat.zero_lt_one) close
  | declarator mode => exact agrees_declarator h mode
  | templateParams => exact (agrees_templateParams h).weaken fun _ _ h => ⟨h, fun _ => trivial⟩
  | statement => exact agrees_statement h (hrank _ Nat.zero_lt_two) (hrank _ Nat.one_lt_two)
  | declaration =>
    exact (agrees_declaration h (hrank _ Nat.zero_lt_one)).weaken fun _ _ h => ⟨h, fun _ => trivial⟩

theorem Rules.agree_within (depth n : Nat) : (Rules.within depth).Agree m n (.within depth) := by
  induction depth generalizing n with
  | zero => exact fun _ _ _ => agrees_tooDeep
  | succ depth ih =>
    intro e α rule
    cases n with
    | zero => exact .zero
    | succ n => exact rule.agrees_body (ih n) fun _ _ called _ => ih (n + 1) called

/-- Rules that may be nested deep enough for the tokens that are left. At each token no more than
three rules are open before it is taken. -/
theorem Rules.agrees_within {depth depth' : Nat} (rule : Rule e α)
    (hdepth : 3 * n + rule.rank < depth + 3) (hdepth' : 3 * n + rule.rank < depth' + 3) :
    rule.Agrees m n (.within depth) (.within depth') := by
  induction depth generalizing depth' n e α with
  | zero =>
    obtain rfl : n = 0 := by omega
    exact .zero
  | succ depth ih =>
    cases n with
    | zero => exact .zero
    | succ n =>
      obtain ⟨depth', rfl⟩ : ∃ d, depth' = d + 1 := ⟨depth' - 1, by omega⟩
      refine rule.agrees_body (fun _ _ called => ih called ?_ ?_) fun _ _ called hrank =>
        ih called ?_ ?_
      all_goals
        have hle := called.rank_le
        omega

/-- No parse starts where more tokens are left than the shorter text has characters. -/
theorem Parse.Agrees.of_size {R : α → α → Prop} {O : α → Prop} {p p' : Parse e α}
    (h : p.Agrees m (min m.size m.size' + 1) K R O p') : p.Agrees m n K R O p' := by
  intro s t hst _ hK hnotes
  have hle := hst.toMatches.left_le hst.sound hst.sound'
  exact h hst (by omega) hK hnotes

/-- Declarations agree, however deep rules may be nested, if it is deep enough for the shorter
text. -/
theorem agrees_declarations_within {depth depth' : Nat}
    (hdepth : 3 * min m.size m.size' + 3 ≤ depth) (hdepth' : 3 * min m.size m.size' + 3 ≤ depth')
    (close : Kind) :
    (declarations (.within depth) close).Alike m n K (declarations (.within depth') close) := by
  refine Parse.Agrees.of_size (agrees_declarations (fun _ _ rule => ?_) close)
  have hle := rule.rank_le
  exact Rules.agrees_within rule (by omega) (by omega)

theorem agrees_fileDeclarations : fileDeclarations.Alike m n K fileDeclarations := by
  refine .read fun r r' hr => ?_
  rw [hr.size, hr.size']
  exact agrees_declarations_within (by unfold depthFor; omega) (by unfold depthFor; omega) .eof

end Serpentine.Grammar
