import RuleSheet.Proofs.Nested
import RuleSheet.Proofs.Postfix.Weight

/-!
# Which lists of tokens are found to mismatch

The yard holds one opening parenthesis for each that is not closed yet. A closing
parenthesis is refused when there is none, and at the end there must be none left. So a
list that is nested is never refused for its parentheses, and a list that is converted
is nested. A list that is not nested may be refused for another fault before.
-/
namespace RuleSheet
variable {W : Type}

namespace Yard

theorem releaseGroup_eq_none_iff {sent : List Item} {held : List Held} :
    releaseGroup sent held = none ↔ depth ⟨sent, held⟩ = 0 := by
  fun_induction releaseGroup sent held with
  | case1 => exact iff_of_true rfl rfl
  | case2 sent rest => simp [depth, Held.isOpening]
  | case3 sent op rest ih => simpa [depth, Held.isOpening] using ih
  | case4 sent f rest ih => simpa [depth, Held.isOpening] using ih

theorem releaseAll_cases (sent : List Item) (held : List Held) :
    (depth ⟨sent, held⟩ = 0 ∧ ∃ items, releaseAll sent held = .ok items) ∨
      depth ⟨sent, held⟩ ≠ 0 ∧ releaseAll sent held = .error .mismatchedParentheses := by
  fun_induction releaseAll sent held with
  | case1 sent => exact .inl ⟨rfl, _, rfl⟩
  | case2 => exact .inr ⟨by simp [depth, Held.isOpening], rfl⟩
  | case3 sent op rest ih => simpa [depth, Held.isOpening] using ih
  | case4 sent f rest ih => simpa [depth, Held.isOpening] using ih

/-- A closing parenthesis with none open is refused. All other tokens are taken, unless
they cannot be read, and count as they are to count. -/
theorem take_cases (t : Table W) (y : Yard) (token : Token) (h : Host W) :
    (∃ e k, (take t y token).outcome h = (.error e, k) ∧
      (e = .mismatchedParentheses → token = .closing ∧ y.depth = 0)) ∨
    ∃ z k, (take t y token).outcome h = (.ok z, k) ∧ ¬(token = .closing ∧ y.depth = 0) ∧
      z.depth = if token = .opening then y.depth + 1
        else if token = .closing then y.depth - 1 else y.depth := by
  cases token with
  | number text =>
      rw [take]
      cases Number.read? text.toList with
      | none => exact .inl ⟨_, h, rfl, by simp⟩
      | some x => exact .inr ⟨_, h, rfl, by simp, rfl⟩
  | name n =>
      rw [take, Attempt.outcome_lift_bind]
      cases ((t.resolve n).run h).1 with
      | some x => exact .inr ⟨_, _, rfl, by simp, rfl⟩
      | none =>
          dsimp only
          cases Builtin.ofName? n with
          | none => exact .inl ⟨_, _, rfl, by simp⟩
          | some f => exact .inr ⟨_, _, rfl, by simp, by simp [depth, hold, Held.isOpening]⟩
  | operator op =>
      have hdepth := depth_releaseBefore op y.sent y.held
      exact .inr ⟨_, h, rfl, by simp, by simpa [depth, hold, Held.isOpening] using hdepth⟩
  | opening => exact .inr ⟨_, h, rfl, by simp, List.countP_cons_of_pos rfl⟩
  | closing =>
      rw [take]
      cases hz : releaseGroup y.sent y.held with
      | none => exact .inl ⟨_, h, rfl, fun _ => ⟨rfl, releaseGroup_eq_none_iff.mp hz⟩⟩
      | some z =>
          have hdepth : z.depth + 1 = y.depth := depth_releaseGroup hz
          have hcall : z.releaseCall.depth = z.depth := depth_releaseCall z
          refine .inr ⟨_, h, rfl, by simp; omega, ?_⟩
          simp only [reduceCtorEq, if_false, if_true]
          omega
  | stray c => exact .inl ⟨_, h, rfl, by simp⟩

/-- The tokens are taken as far as they can be. If they close what is open they are not
refused for their parentheses, and if all are taken, what they leave open is to be
closed. -/
theorem foldlM_take_cases (t : Table W) (tokens : List Token) (y : Yard) (h : Host W) :
    (∃ e k, (tokens.foldlM (take t) y : Attempt W Yard).outcome h = (.error e, k) ∧
      (e = .mismatchedParentheses → ¬Closes .opening .closing y.depth tokens)) ∨
    ∃ z k, (tokens.foldlM (take t) y : Attempt W Yard).outcome h = (.ok z, k) ∧
      (Closes .opening .closing y.depth tokens ↔ z.depth = 0) := by
  induction tokens generalizing y h with
  | nil => exact .inr ⟨y, h, rfl, Closes.nil_iff⟩
  | cons token rest ih =>
      rw [List.foldlM_cons, Attempt.outcome_bind, Closes.cons_iff (by decide)]
      rcases take_cases t y token h with ⟨e, k, hout, he⟩ | ⟨z, k, hout, hnot, hz⟩
      · rw [hout]
        exact .inl ⟨e, k, rfl, fun hm hboth => hboth.1 (he hm)⟩
      · rw [hout, ← hz]
        dsimp only
        rcases ih z k with ⟨e, j, hrest, he⟩ | ⟨w, j, hrest, hw⟩
        · exact .inl ⟨e, j, hrest, fun hm hboth => he hm hboth.2⟩
        · exact .inr ⟨w, j, hrest, by rw [and_iff_right hnot, hw]⟩

theorem eq_mismatched_of_readable {t : Table W} {tokens : List Token} {y : Yard} {h j k : Host W}
    {pieces : List Piece} {e : StatementError}
    (hread : (tokens.mapM (Piece.read t) : Attempt W _).outcome h = (.ok pieces, j))
    (he : (tokens.foldlM (take t) y : Attempt W Yard).outcome h = (.error e, k)) :
    e = .mismatchedParentheses := by
  induction tokens generalizing y h j pieces with
  | nil => cases congrArg Prod.fst he
  | cons token rest ih =>
      rw [List.mapM_cons] at hread
      obtain ⟨p, i, hp, hread⟩ := Attempt.outcome_bind_ok.mp hread
      obtain ⟨more, l, hmore, _⟩ := Attempt.outcome_bind_ok.mp hread
      rw [List.foldlM_cons, take_eq, bind_assoc, Attempt.outcome_bind, hp] at he
      dsimp only at he
      rw [Attempt.outcome_bind, stepOrFail] at he
      cases hz : y.step p with
      | none =>
          rw [hz] at he
          cases congrArg Prod.fst he
          rfl
      | some z =>
          rw [hz] at he
          exact ih hmore he

end Yard

namespace Postfix

/-- Tokens that are nested are not refused for their parentheses, and no others are
converted. -/
theorem ofTokens_cases (t : Table W) (tokens : List Token) (h : Host W) :
    (∃ e k, (ofTokens t tokens).outcome h = (.error e, k) ∧
      (e = .mismatchedParentheses → ¬Nested .opening .closing tokens)) ∨
    ∃ items k, (ofTokens t tokens).outcome h = (.ok items, k) ∧
      Nested .opening .closing tokens := by
  unfold ofTokens
  rw [Attempt.outcome_bind]
  rcases Yard.foldlM_take_cases t tokens Yard.empty h with ⟨e, k, hout, he⟩ | ⟨z, k, hout, hz⟩
  · rw [hout]
    exact .inl ⟨e, k, rfl, he⟩
  · rw [hout]
    dsimp only
    change Nested .opening .closing tokens ↔ _ at hz
    rcases Yard.releaseAll_cases z.sent z.held with ⟨hdepth, items, hitems⟩ | ⟨hdepth, herror⟩
    · rw [hitems]
      exact .inr ⟨items, k, rfl, hz.mpr hdepth⟩
    · rw [herror]
      exact .inl ⟨_, k, rfl, fun _ hn => hdepth (hz.mp hn)⟩

theorem eq_mismatched_of_readable {t : Table W} {tokens : List Token} {h j k : Host W}
    {pieces : List Piece} {e : StatementError}
    (hread : (tokens.mapM (Piece.read t) : Attempt W _).outcome h = (.ok pieces, j))
    (he : (ofTokens t tokens).outcome h = (.error e, k)) : e = .mismatchedParentheses := by
  unfold ofTokens at he
  rw [Attempt.outcome_bind] at he
  rcases hout : (tokens.foldlM (Yard.take t) Yard.empty : Attempt W Yard).outcome h
    with ⟨f | z, i⟩
  · rw [hout] at he
    cases congrArg Prod.fst he
    exact Yard.eq_mismatched_of_readable hread hout
  · rw [hout] at he
    dsimp only at he
    rcases Yard.releaseAll_cases z.sent z.held with ⟨_, items, hitems⟩ | ⟨_, herror⟩
    · rw [hitems] at he
      cases congrArg Prod.fst he
    · rw [herror] at he
      cases congrArg Prod.fst he
      rfl

theorem eq_malformed_of_run {items : List Item} {stack : List Float} {e : StatementError}
    (h : (run items stack).1 = .error e) : e = .malformedExpression := by
  fun_induction run items stack with
  | case1 => cases h
  | case2 => cases h; rfl
  | case3 stack x rest ih => exact ih h
  | case4 f rest x stack answer printed he ih =>
      rw [he] at ih
      exact ih h
  | case5 op rest y x stack ih => exact ih h
  | case6 => cases h; rfl

end Postfix
end RuleSheet
