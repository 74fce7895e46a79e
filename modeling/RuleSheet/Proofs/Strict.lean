import RuleSheet.Proofs.Balance

/-!
# What balancing leaves alone

Two sessions that differ only in whether they balance make the same of every statement
that the strict one does not refuse for its parentheses. The tokens of the one are those
of the other with opening parentheses before them or closing ones after them. The yard
keeps what is opened before below all else that it holds, and reaches it only where it
would otherwise be at the end of its stack; and what is closed after comes too late to
change a fault or a reading before. So up to the first parenthesis that does not match
the two conversions run side by side, and if there is none, nothing has been added.
-/
namespace RuleSheet
variable {W : Type}

namespace Yard

/-- The yard with more opening parentheses below all that it holds. -/
def raised (y : Yard) (count : Nat) : Yard :=
  { y with held := y.held ++ List.replicate count .opening }

theorem releaseBefore_raised (op : Operator) (sent : List Item) (held : List Held) (count : Nat) :
    releaseBefore op sent (held ++ List.replicate count .opening) =
      (releaseBefore op sent held).raised count := by
  fun_induction releaseBefore op sent held with
  | case1 sent top rest hyields ih =>
      rw [List.cons_append, releaseBefore, if_pos hyields]
      exact ih
  | case2 sent top rest hyields =>
      rw [List.cons_append, releaseBefore, if_neg hyields]
      rfl
  | case3 sent held hother =>
      cases held with
      | nil => cases count <;> rfl
      | cons top rest =>
          cases top with
          | operator op => exact absurd rfl (hother op rest)
          | opening => rfl
          | function f => rfl

theorem releaseGroup_raised {sent : List Item} {held : List Held} {z : Yard}
    (h : releaseGroup sent held = some z) (count : Nat) :
    releaseGroup sent (held ++ List.replicate count .opening) = some (z.raised count) := by
  fun_induction releaseGroup sent held with
  | case1 => cases h
  | case2 sent rest =>
      obtain rfl := Option.some.inj h
      rfl
  | case3 sent op rest ih => exact ih h
  | case4 sent f rest ih => exact ih h

@[simp] theorem releaseCall_raised (y : Yard) (count : Nat) :
    (y.raised count).releaseCall = y.releaseCall.raised count := by
  obtain ⟨sent, held⟩ := y
  cases held with
  | nil => cases count <;> rfl
  | cons top rest => cases top <;> rfl

theorem step_raised {y z : Yard} {p : Piece} (h : y.step p = some z) (count : Nat) :
    (y.raised count).step p = some (z.raised count) := by
  cases p with
  | value x =>
      obtain rfl := Option.some.inj h
      rfl
  | function f =>
      obtain rfl := Option.some.inj h
      rfl
  | operator op =>
      obtain rfl := Option.some.inj h
      change some ((releaseBefore op y.sent (y.held ++ _)).hold _) = _
      rw [releaseBefore_raised]
      rfl
  | opening =>
      obtain rfl := Option.some.inj h
      rfl
  | closing =>
      obtain ⟨w, hw, rfl⟩ := Option.map_eq_some_iff.mp h
      change (releaseGroup y.sent (y.held ++ _)).map releaseCall = _
      rw [releaseGroup_raised hw, Option.map_some, releaseCall_raised]

/-- Tokens are taken alike, or are refused alike, however many parentheses were opened
before, unless they are refused because too few were. -/
theorem foldlM_take_raised (t : Table W) (tokens : List Token) (y : Yard) (count : Nat)
    (h : Host W) :
    ((tokens.foldlM (take t) y : Attempt W Yard).outcome h).1 = .error .mismatchedParentheses ∨
    (tokens.foldlM (take t) (y.raised count) : Attempt W Yard).outcome h =
      (((tokens.foldlM (take t) y : Attempt W Yard).outcome h).1.map (·.raised count),
        ((tokens.foldlM (take t) y : Attempt W Yard).outcome h).2) := by
  induction tokens generalizing y h with
  | nil => exact .inr rfl
  | cons token rest ih =>
      simp only [List.foldlM_cons, take_eq, bind_assoc]
      rw [Attempt.outcome_bind, Attempt.outcome_bind]
      rcases (Piece.read t token).outcome h with ⟨e | p, k⟩
      · exact .inr rfl
      · dsimp only
        rw [stepOrFail, stepOrFail]
        cases hz : y.step p with
        | none => exact .inl rfl
        | some z =>
            rw [step_raised hz]
            exact ih z k

@[simp] theorem foldlM_take_openings (t : Table W) (count : Nat) :
    ((List.replicate count Token.opening).foldlM (take t) empty : Attempt W Yard) =
      pure (empty.raised count) := by
  induction count with
  | zero => rfl
  | succ count ih =>
      rw [List.replicate_succ', List.foldlM_append, ih, pure_bind]
      rfl

end Yard

theorem Token.scan_true_of_nested {cs : List Char}
    (h : Nested opening closing (scan false cs)) : scan true cs = scan false cs := by
  have htotal := h.total
  rw [Nat.zero_add] at htotal
  rw [scan_true, htotal, Nat.sub_self]
  exact List.append_nil _

/-- The second attempt does what the first one does, unless the first is refused for its
parentheses. -/
def Attempt.Relaxed {α : Type} (m n : Attempt W α) : Prop :=
  ∀ h, (m.outcome h).1 = .error .mismatchedParentheses ∨ n.outcome h = m.outcome h

theorem Attempt.Relaxed.refl {α : Type} (m : Attempt W α) : Relaxed m m :=
  fun _ => .inr rfl

theorem Attempt.Relaxed.bind {α β : Type} {m n : Attempt W α} {f g : α → Attempt W β}
    (hm : Relaxed m n) (hf : ∀ x, Relaxed (f x) (g x)) : Relaxed (m >>= f) (n >>= g) := by
  intro h
  rw [outcome_bind, outcome_bind]
  have hfirst := hm h
  generalize m.outcome h = out at hfirst ⊢
  obtain ⟨e | x, k⟩ := out
  · rcases hfirst with hmismatched | hsame
    · rw [Except.error.inj hmismatched]
      exact .inl rfl
    · rw [hsame]
      exact .inr rfl
  · rw [hfirst.resolve_left (by simp)]
    exact hf x k

theorem Postfix.relaxed_ofTokens (t : Table W) (cs : List Char) :
    Attempt.Relaxed (ofTokens t (Token.scan false cs)) (ofTokens t (Token.scan true cs)) := by
  by_cases hnested : Nested .opening .closing (Token.scan false cs)
  · rw [Token.scan_true_of_nested hnested]
    exact .refl _
  intro h
  rw [Token.scan_true]
  generalize Token.scan false cs = tokens at hnested
  generalize tokens.count .closing - tokens.count .opening = before
  generalize List.replicate _ Token.closing = after
  unfold ofTokens
  rw [List.foldlM_append, Yard.foldlM_take_openings, pure_bind, List.foldlM_append, bind_assoc,
    Attempt.outcome_bind, Attempt.outcome_bind]
  rcases Yard.foldlM_take_cases t tokens Yard.empty h with ⟨e, k, hout, -⟩ | ⟨z, k, hout, hz⟩
  · -- the tokens are refused before anything that was added after them is seen
    rcases Yard.foldlM_take_raised t tokens Yard.empty before h with hm | hraised
    · rw [hout] at hm
      rw [hout, Except.error.inj hm]
      exact .inl rfl
    · rw [hraised, hout]
      exact .inr rfl
  · rcases Yard.releaseAll_cases z.sent z.held with ⟨hdepth, -⟩ | ⟨-, herror⟩
    · exact absurd (hz.mpr hdepth) hnested
    · rw [hout]
      dsimp only
      rw [herror]
      exact .inl rfl

namespace Expression

theorem relaxed_plainValue (t : Table W) (cs : List Char) :
    Attempt.Relaxed (plainValue t false cs) (plainValue t true cs) :=
  .bind (Postfix.relaxed_ofTokens t cs) fun _ => .refl _

/-- The two values agree through all choices: as long as no condition is refused, the same
sides are taken. -/
theorem relaxed_value (t : Table W) (cs : List Char) :
    Attempt.Relaxed (value t false cs) (value t true cs) := by
  induction cs using choice_induction with
  | plain cs hplain =>
      rw [value_plain hplain, value_plain hplain]
      exact relaxed_plainValue t cs
  | missing cs condition branches hq hc =>
      rw [value_missing hq hc, value_missing hq hc]
      exact .refl _
  | choice cs condition branches yes no hq hc ihYes ihNo =>
      rw [value_choice hq hc, value_choice hq hc]
      refine .bind (relaxed_plainValue t condition) fun x => ?_
      split
      · exact ihYes
      · exact ihNo

end Expression

namespace Session

/-- The session with balancing switched on or off. -/
def balancing (s : Session W) (autoBalance : Bool) : Session W :=
  { s with settings := { s.settings with autoBalance := autoBalance } }

theorem run_store_balancing (s : Session W) (autoBalance : Bool) (x : Float) (target : Target)
    (h : Host W) :
    ((s.balancing autoBalance).store x target).run h =
      let out := (s.store x target).run h
      ((out.1.1, out.1.2.balancing autoBalance), out.2) := by
  have htable : (s.balancing autoBalance).table = s.table := rfl
  cases target with
  | declaration name =>
      rw [store, store, htable]
      cases s.table.declare name x <;> rfl
  | symbol name =>
      rw [store, store, htable, StateT.run_bind, StateT.run_bind]
      obtain ⟨e | table, k⟩ := (s.table.assign name x).run h <;> rfl

/-- With balancing and without it a statement has the same answer, calls the same getters and
setters and leaves the same session, unless it is refused for its parentheses without
balancing. -/
theorem evaluate_balancing (s : Session W) (statement : String) (h : Host W) :
    let strict := ((s.balancing false).evaluate statement).run h
    strict.1.1 = .error .mismatchedParentheses ∨
      ((s.balancing true).evaluate statement).run h =
        ((strict.1.1, strict.1.2.balancing true), strict.2) := by
  cases hs : splitEquals statement.toList with
  | none =>
      have hrun (autoBalance : Bool) : ((s.balancing autoBalance).evaluate statement).run h =
          let out := (Expression.value s.table autoBalance statement.toList).outcome h
          ((out.1, s.balancing autoBalance), out.2) := by
        rw [evaluate_none hs]
        rfl
      rw [hrun, hrun]
      refine (Expression.relaxed_value s.table statement.toList h).imp id fun hsame => ?_
      rw [hsame]
      rfl
  | some sides =>
      obtain ⟨left, right⟩ := sides
      by_cases hr : '=' ∈ right
      · rw [evaluate_multiple hs hr, evaluate_multiple hs hr]
        exact .inr rfl
      rw [evaluate_sides hs hr, evaluate_sides hs hr]
      have htarget (autoBalance : Bool) : (s.balancing autoBalance).target left = s.target left :=
        rfl
      cases ht : s.target left with
      | error e =>
          rw [assign, assign, htarget, htarget, ht]
          exact .inr rfl
      | ok target =>
          have hvalue := Expression.relaxed_value s.table right h
          rcases hstrict : (Expression.value s.table false right).outcome h with ⟨e | x, j⟩
          · rw [run_assign ((htarget false).trans ht) hstrict]
            rw [hstrict] at hvalue
            refine hvalue.imp id fun hsame => ?_
            rw [run_assign ((htarget true).trans ht) hsame]
            rfl
          · rw [run_assign ((htarget false).trans ht) hstrict]
            rw [hstrict] at hvalue
            right
            rw [run_assign ((htarget true).trans ht) (hvalue.resolve_left (by simp))]
            dsimp only
            rw [run_store_balancing, run_store_balancing]
            rfl

end Session
end RuleSheet
