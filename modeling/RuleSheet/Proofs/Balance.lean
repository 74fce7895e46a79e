import RuleSheet.Proofs.Postfix.Parentheses
import RuleSheet.Proofs.Session.Reachable
import RuleSheet.Proofs.Token.Depth

/-!
# When balancing is enough

With balancing on, the tokens of an expression close as many parentheses as they open,
but they need not be nested: a text that closes too early and opens as often later has
nothing added to it, and is refused for its parentheses as if balancing were off. This
happens in those parts of a statement, and only in those, whose tokens are not mendable.
-/
namespace RuleSheet
variable {W : Type}

namespace Expression

theorem mismatched_plainValue_iff {t : Table W} {autoBalance : Bool} {cs : List Char}
    {h : Host W} :
    ((plainValue t autoBalance cs).outcome h).1 = .error .mismatchedParentheses ↔
      ((Postfix.ofTokens t (Token.scan autoBalance cs)).outcome h).1 =
        .error .mismatchedParentheses := by
  unfold plainValue
  rw [Attempt.outcome_bind]
  rcases (Postfix.ofTokens t (Token.scan autoBalance cs)).outcome h with ⟨e | items, k⟩
  · simp
  · dsimp only
    rw [Attempt.outcome_lift_bind]
    cases hrun : (Postfix.run items []).1 with
    | ok x => simp
    | error e =>
        rw [Postfix.eq_malformed_of_run hrun]
        simp

/-- A part of the text, without a choice in it, that balancing does not mend. -/
def Unmended (cs : List Char) : Prop :=
  ∃ part, part <:+: cs ∧ '?' ∉ part ∧ ¬Token.Mendable (Token.scan false part)

theorem Unmended.mono {part cs : List Char} (h : Unmended part) (hpart : part <:+: cs) :
    Unmended cs := by
  obtain ⟨inner, hinner, hq, hnot⟩ := h
  exact ⟨inner, hinner.trans hpart, hq, hnot⟩

theorem not_mendable_of_plainValue {t : Table W} {cs : List Char} {h : Host W}
    (hm : ((plainValue t true cs).outcome h).1 = .error .mismatchedParentheses) :
    ¬Token.Mendable (Token.scan false cs) := by
  rw [mismatched_plainValue_iff] at hm
  rcases Postfix.ofTokens_cases t (Token.scan true cs) h with ⟨e, k, hout, he⟩ | ⟨items, k, hout, _⟩
  · rw [hout] at hm
    rw [← Token.nested_scan_true_iff]
    exact he (Except.error.inj hm)
  · rw [hout] at hm
    cases hm

/-- What is refused for its parentheses although they are balanced has a part that is not
mended. -/
theorem unmended_of_value {t : Table W} {cs : List Char} {h : Host W}
    (hm : ((value t true cs).outcome h).1 = .error .mismatchedParentheses) : Unmended cs := by
  induction cs using choice_induction generalizing h with
  | plain cs hplain =>
      rw [value_plain hplain] at hm
      exact ⟨cs, List.infix_rfl, hplain, not_mendable_of_plainValue hm⟩
  | missing cs condition branches hq hc =>
      rw [value_missing hq hc] at hm
      cases hm
  | choice cs condition branches yes no hq hc ihYes ihNo =>
      have hcs := splitQuestion_eq_some_iff.mp hq
      have hbranches := splitColon_append hc
      rw [value_choice hq hc, Attempt.outcome_bind] at hm
      rcases hout : (plainValue t true condition).outcome h with ⟨e | x, k⟩
      · rw [hout] at hm
        have he := congrArg Prod.fst hout
        rw [Except.error.inj hm] at he
        exact ⟨condition, ⟨[], '?' :: branches, hcs.1.symm⟩, hcs.2, not_mendable_of_plainValue he⟩
      · rw [hout] at hm
        dsimp only at hm
        split at hm
        · refine (ihYes hm).mono ⟨condition ++ ['?'], ':' :: no, ?_⟩
          simp [hcs.1, hbranches]
        · refine (ihNo hm).mono ⟨condition ++ '?' :: yes ++ [':'], [], ?_⟩
          simp [hcs.1, hbranches]

end Expression

namespace Session

/-- A statement is refused for its parentheses only if its expression is. -/
theorem exists_value_of_evaluate {s : Session W} {statement : String} {h : Host W}
    (hm : ((s.evaluate statement).run h).1.1 = .error .mismatchedParentheses) :
    ∃ cs, cs <:+: statement.toList ∧
      ((Expression.value s.table s.settings.autoBalance cs).outcome h).1 =
        .error .mismatchedParentheses := by
  cases hs : splitEquals statement.toList with
  | none =>
      rw [evaluate_none hs] at hm
      exact ⟨statement.toList, List.infix_rfl, hm⟩
  | some sides =>
      obtain ⟨left, right⟩ := sides
      by_cases hr : '=' ∈ right
      · rw [evaluate_multiple hs hr] at hm
        cases hm
      rw [evaluate_sides hs hr] at hm
      cases ht : s.target left with
      | error e =>
          rw [assign, ht] at hm
          obtain rfl := Except.error.inj hm
          cases isStructural_of_target ht
      | ok target =>
          have ho := Expression.tries_value s.table s.settings.autoBalance right h
          refine ⟨right, ⟨left ++ ['='], [], by simp [(splitEquals_eq_some_iff.mp hs).1]⟩, ?_⟩
          rcases hv : (Expression.value s.table s.settings.autoBalance right).outcome h
            with ⟨e | x, j⟩
          · rw [run_assign ht hv] at hm
            exact hm
          · rw [hv] at ho
            obtain ⟨s', h', f, hstore, _⟩ := store_happened hs ht x ho
            rw [run_assign ht hv] at hm
            dsimp only at hm
            rw [hstore] at hm
            cases hm

/-- A plain expression whose tokens can all be read is refused for its parentheses exactly
when it is not mended. -/
theorem mismatched_iff_of_readable {s : Session W} (hs : s.settings.autoBalance = true)
    {text : String} (hq : '?' ∉ text.toList) {h j : Host W} {pieces : List Piece}
    (hread : ((Token.scan true text.toList).mapM (Piece.read s.table) : Attempt W _).outcome h =
      (.ok pieces, j)) :
    ((s.evaluateExpression text).outcome h).1 = .error .mismatchedParentheses ↔
      ¬Token.Mendable (Token.scan false text.toList) := by
  rw [evaluateExpression, Expression.value_plain hq, hs]
  refine ⟨Expression.not_mendable_of_plainValue, fun hnot => ?_⟩
  rw [Expression.mismatched_plainValue_iff]
  rw [← Token.nested_scan_true_iff] at hnot
  rcases Postfix.ofTokens_cases s.table (Token.scan true text.toList) h
    with ⟨e, k, hout, _⟩ | ⟨items, k, _, hnested⟩
  · rw [hout, Postfix.eq_mismatched_of_readable hread hout]
  · exact absurd hnested hnot

/-- With balancing on, tokens close as many parentheses as they open, and they are nested
exactly when they are mendable. A plain expression that can be read is refused for its
parentheses exactly when it is not, and a statement of any kind only if a part of it is
not. -/
theorem mismatched_of_balancing {s : Session W} (hs : s.settings.autoBalance = true)
    (text : String) (h : Host W) :
    (Token.scan true text.toList).count .opening = (Token.scan true text.toList).count .closing ∧
    (Nested .opening .closing (Token.scan true text.toList) ↔
      Token.Mendable (Token.scan false text.toList)) ∧
    ('?' ∉ text.toList →
      (∃ pieces j, ((Token.scan true text.toList).mapM (Piece.read s.table) :
        Attempt W _).outcome h = (.ok pieces, j)) →
      (((s.evaluateExpression text).outcome h).1 = .error .mismatchedParentheses ↔
        ¬Token.Mendable (Token.scan false text.toList))) ∧
    (((s.evaluateExpression text).outcome h).1 = .error .mismatchedParentheses →
      Expression.Unmended text.toList) ∧
    (((s.evaluate text).run h).1.1 = .error .mismatchedParentheses →
      Expression.Unmended text.toList) := by
  refine ⟨Token.count_scan_true _, Token.nested_scan_true_iff _, ?_, ?_, ?_⟩
  · rintro hq ⟨pieces, j, hread⟩
    exact mismatched_iff_of_readable hs hq hread
  · intro hm
    rw [evaluateExpression, hs] at hm
    exact Expression.unmended_of_value hm
  · intro hm
    obtain ⟨cs, hcs, hv⟩ := exists_value_of_evaluate hm
    rw [hs] at hv
    exact (Expression.unmended_of_value hv).mono hcs

/-- A sum that closes before it opens, which balancing leaves as it is. -/
theorem exists_mismatched_with_balancing :
    ∃ (s : Session Unit) (text : String) (h : Host Unit), s.Reachable ∧
      s.settings.autoBalance = true ∧ ¬Nested .opening .closing (Token.scan true text.toList) ∧
      ((s.evaluateExpression text).outcome h).1 = .error .mismatchedParentheses ∧
      ((s.evaluate text).run h).1.1 = .error .mismatchedParentheses := by
  refine ⟨create {}, "2)+(3", ⟨(), []⟩, .create {}, rfl, fun hnested => ?_, ?_, ?_⟩
  · have hprefix : [Token.number "2", .closing] <+: Token.scan true "2)+(3".toList := by
      decide +kernel
    exact absurd (hnested.prefixes _ hprefix) (by decide)
  · exact Attempt.fault?_eq_some_iff.mp (by decide +kernel)
  · exact Attempt.fault?_eq_some_iff.mp (by decide +kernel)

/-- All tokens of the sum can be read, so it is refused because it is not mended. Where it
is the condition of a choice, it is the part that is not. -/
theorem mismatched_of_balancing_condition :
    let s : Session Unit := create {}
    let h : Host Unit := ⟨(), []⟩
    let sum := "2)+(3"
    let choice := "2)+(3 ? 1 : 0"
    s.settings.autoBalance = true ∧ '?' ∉ sum.toList ∧
      (∃ pieces j, ((Token.scan true sum.toList).mapM (Piece.read s.table) :
        Attempt Unit _).outcome h = (.ok pieces, j)) ∧
      (((s.evaluateExpression sum).outcome h).1 = .error .mismatchedParentheses ↔
        ¬Token.Mendable (Token.scan false sum.toList)) ∧
      ((s.evaluateExpression choice).outcome h).1 = .error .mismatchedParentheses ∧
      ((s.evaluate choice).run h).1.1 = .error .mismatchedParentheses ∧
      Expression.Unmended choice.toList := by
  intro s h sum choice
  have hquestion : '?' ∉ sum.toList := by decide
  obtain ⟨pieces, hpieces⟩ := Attempt.fault?_eq_none_iff.mp
    (show Attempt.fault? (((Token.scan true sum.toList).mapM (Piece.read s.table) :
      Attempt Unit _).outcome h).1 = none by decide +kernel)
  have hread : ∃ pieces j, ((Token.scan true sum.toList).mapM (Piece.read s.table) :
      Attempt Unit _).outcome h = (.ok pieces, j) :=
    ⟨pieces, _, Prod.ext hpieces rfl⟩
  have hexpression : ((s.evaluateExpression choice).outcome h).1 =
      .error .mismatchedParentheses :=
    Attempt.fault?_eq_some_iff.mp (by decide +kernel)
  have hstatement : ((s.evaluate choice).run h).1.1 = .error .mismatchedParentheses :=
    Attempt.fault?_eq_some_iff.mp (by decide +kernel)
  exact ⟨rfl, hquestion, hread, (mismatched_of_balancing rfl sum h).2.2.1 hquestion hread,
    hexpression, hstatement, (mismatched_of_balancing rfl choice h).2.2.2.1 hexpression⟩

end Session
end RuleSheet
