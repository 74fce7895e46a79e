import Mathlib.Data.List.Induction
import RuleSheet.Proofs.Calls
import RuleSheet.Proofs.Postfix.Parentheses

/-!
# Where a conversion stops

Whether a token can be taken depends on the names that are known and on the parentheses
before it, and not on what names stand for at the moment. The conversion stops at the first
token that cannot be taken, and fails with what is wrong with that token. Until then it has
called the getter of each accessor that is named, in the order of the tokens, and it has
done nothing else outside.
-/
namespace RuleSheet
variable {W : Type}

namespace Token

/-- Why the token cannot be taken after the tokens `before`, if it cannot. -/
def fault? (t : Table W) (before : List Token) : Token → Option StatementError
  | number text =>
      if (Number.read? text.toList).isSome then none else some (.invalidNumber text)
  | name n => if t.contains n || Builtin.isName n then none else some (.unknownIdentifier n)
  | operator _ | opening => none
  | closing =>
      if before.count opening ≤ before.count closing then some .mismatchedParentheses else none
  | stray c => some (.unexpectedCharacter c)

/-- What is wrong with the first token that cannot be taken. -/
def firstFault? (t : Table W) (before : List Token) : List Token → Option StatementError
  | [] => none
  | token :: rest => (token.fault? t before).or (firstFault? t (before ++ [token]) rest)

/-- All of the tokens can be taken, each after those before it. -/
def Faultless (t : Table W) (tokens : List Token) : Prop :=
  ∀ before token after, tokens = before ++ token :: after → token.fault? t before = none

/-- The leftmost token that cannot be taken is at fault for the reason `e`. -/
def FirstFault (t : Table W) (tokens : List Token) (e : StatementError) : Prop :=
  ∃ before token after, tokens = before ++ token :: after ∧ Faultless t before ∧
    token.fault? t before = some e

theorem firstFault?_append (t : Table W) (before xs ys : List Token) :
    firstFault? t before (xs ++ ys) =
      (firstFault? t before xs).or (firstFault? t (before ++ xs) ys) := by
  induction xs generalizing before with
  | nil =>
      rw [List.append_nil]
      rfl
  | cons x rest ih =>
      rw [List.cons_append, firstFault?, firstFault?, ih, Option.or_assoc, List.append_assoc]
      rfl

theorem firstFault?_eq_none_iff {t : Table W} {tokens : List Token} :
    firstFault? t [] tokens = none ↔ Faultless t tokens := by
  constructor
  · rintro h before token after rfl
    rw [firstFault?_append, firstFault?, List.nil_append, Option.or_eq_none_iff,
      Option.or_eq_none_iff] at h
    exact h.2.1
  · intro h
    induction tokens using List.reverseRecOn with
    | nil => rfl
    | append_singleton front last ih =>
        have hfront : Faultless t front := by
          rintro before token after rfl
          exact h before token (after ++ [last]) (by simp)
        rw [firstFault?_append, ih hfront, List.nil_append, firstFault?,
          h front last [] rfl]
        rfl

theorem firstFault?_eq_some_iff {t : Table W} {tokens : List Token} {e : StatementError} :
    firstFault? t [] tokens = some e ↔ FirstFault t tokens e := by
  constructor
  · intro h
    induction tokens using List.reverseRecOn with
    | nil => cases h
    | append_singleton front last ih =>
        rw [firstFault?_append, List.nil_append, firstFault?, firstFault?, Option.or_none,
          Option.or_eq_some_iff] at h
        rcases h with hfront | ⟨hnone, hlast⟩
        · obtain ⟨before, token, after, rfl, hbefore, htoken⟩ := ih hfront
          exact ⟨before, token, after ++ [last], by simp, hbefore, htoken⟩
        · exact ⟨front, last, [], rfl, firstFault?_eq_none_iff.mp hnone, hlast⟩
  · rintro ⟨before, token, after, rfl, hbefore, htoken⟩
    rw [firstFault?_append, firstFault?_eq_none_iff.mpr hbefore, List.nil_append, firstFault?,
      htoken]
    rfl

/-- The tokens up to the first that cannot be taken. -/
def accepted (t : Table W) (before : List Token) : List Token → List Token
  | [] => []
  | token :: rest =>
      match token.fault? t before with
      | none => token :: accepted t (before ++ [token]) rest
      | some _ => []

/-- The getter that has to be called to take the token. -/
def getter? (t : Table W) : Token → Option (AccessorCall W)
  | name n =>
      match t.get n with
      | some (.accessor a) => some (.get a)
      | _ => none
  | _ => none

theorem getter?_of_fault? {t : Table W} {before : List Token} {token : Token}
    {e : StatementError} (h : token.fault? t before = some e) : token.getter? t = none := by
  cases token with
  | name n =>
      rw [fault?, Table.contains] at h
      rw [getter?]
      cases hn : t.get n with
      | none => rfl
      | some symbol =>
          rw [hn] at h
          cases h
  | _ => rfl

/-- The getters that are called for the tokens, in order. -/
def gets (t : Table W) (tokens : List Token) : List (AccessorCall W) :=
  (accepted t [] tokens).filterMap (getter? t)

end Token

namespace Table

theorem run_resolve_cases (t : Table W) (n : String) (h : Host W) :
    ((t.resolve n).run h).2 = h.replay ((Token.name n).getter? t).toList ∧
      ((t.resolve n).run h).1.isSome = t.contains n := by
  rw [resolve, Token.getter?, contains]
  cases t.get n with
  | none => exact ⟨rfl, rfl⟩
  | some symbol =>
      cases symbol with
      | constant x => exact ⟨rfl, rfl⟩
      | «variable» x => exact ⟨rfl, rfl⟩
      | accessor a => exact ⟨rfl, rfl⟩

end Table

namespace Yard

/-- As many parentheses are open in the yard as in the tokens that it has taken. -/
def Holds (y : Yard) (before : List Token) : Prop :=
  y.depth + before.count .closing = before.count .opening

theorem fault?_take (t : Table W) {y : Yard} {before : List Token} (hy : y.Holds before)
    (token : Token) (h : Host W) :
    Attempt.fault? ((take t y token).outcome h).1 = token.fault? t before ∧
      ((take t y token).outcome h).2 = h.replay (token.getter? t).toList := by
  cases token with
  | number text =>
      rw [take, Token.fault?]
      cases Number.read? text.toList with
      | none => exact ⟨rfl, rfl⟩
      | some x => exact ⟨rfl, rfl⟩
  | name n =>
      obtain ⟨hcalls, hknown⟩ := t.run_resolve_cases n h
      rw [take, Attempt.outcome_lift_bind, Token.fault?, ← hknown, ← hcalls, Builtin.isName]
      cases ((t.resolve n).run h).1 with
      | some x => exact ⟨rfl, rfl⟩
      | none =>
          dsimp only
          cases Builtin.ofName? n with
          | some f => exact ⟨rfl, rfl⟩
          | none => exact ⟨rfl, rfl⟩
  | operator op => exact ⟨rfl, rfl⟩
  | opening => exact ⟨rfl, rfl⟩
  | closing =>
      have hnone : releaseGroup y.sent y.held = none ↔
          before.count .opening ≤ before.count .closing := by
        rw [releaseGroup_eq_none_iff]
        unfold Holds at hy
        change y.depth = 0 ↔ _
        omega
      rw [take, Token.fault?]
      cases hz : releaseGroup y.sent y.held with
      | none =>
          rw [if_pos (hnone.mp hz)]
          exact ⟨rfl, rfl⟩
      | some z =>
          rw [if_neg fun hle => by rw [hnone.mpr hle] at hz; cases hz]
          exact ⟨rfl, rfl⟩
  | stray c => exact ⟨rfl, rfl⟩

theorem Holds.take {t : Table W} {y z : Yard} {before : List Token} (hy : y.Holds before)
    {token : Token} {h : Host W} (hz : ((take t y token).outcome h).1 = .ok z) :
    z.Holds (before ++ [token]) := by
  rcases take_cases t y token h with ⟨e, k, hout, _⟩ | ⟨w, k, hout, hnot, hdepth⟩
  · rw [hout] at hz
    cases hz
  · rw [hout] at hz
    obtain rfl := Except.ok.inj hz
    unfold Holds at *
    rw [List.count_append, List.count_append]
    by_cases ho : token = .opening
    · subst ho
      rw [if_pos rfl] at hdepth
      change w.depth + (_ + 0) = _ + 1
      omega
    by_cases hc : token = .closing
    · subst hc
      have hopen : y.depth ≠ 0 := fun hzero => hnot ⟨rfl, hzero⟩
      rw [if_neg ho, if_pos rfl] at hdepth
      change w.depth + (_ + 1) = _ + 0
      omega
    · rw [if_neg ho, if_neg hc] at hdepth
      rw [List.count_singleton, List.count_singleton, if_neg (by simpa using hc),
        if_neg (by simpa using ho)]
      omega

/-- The tokens fail with what is wrong with the first that cannot be taken. -/
theorem fault?_foldlM_take (t : Table W) (tokens : List Token) {y : Yard} {before : List Token}
    (hy : y.Holds before) (h : Host W) :
    let out := (tokens.foldlM (take t) y : Attempt W Yard).outcome h
    Attempt.fault? out.1 = Token.firstFault? t before tokens ∧
      out.2 = h.replay ((Token.accepted t before tokens).filterMap (Token.getter? t)) ∧
      ∀ z, out.1 = .ok z → z.Holds (before ++ tokens) := by
  induction tokens generalizing y before h with
  | nil =>
      refine ⟨rfl, rfl, fun z hz => ?_⟩
      obtain rfl : y = z := Except.ok.inj hz
      rwa [List.append_nil]
  | cons token rest ih =>
      obtain ⟨hfault, hcalls⟩ := fault?_take t hy token h
      rw [List.foldlM_cons, Attempt.outcome_bind, Token.firstFault?, Token.accepted]
      rcases hout : (take t y token).outcome h with ⟨e | z, k⟩
      · rw [hout] at hfault hcalls
        rw [← hfault]
        rw [Token.getter?_of_fault? hfault.symm] at hcalls
        exact ⟨rfl, hcalls, fun z hz => by cases hz⟩
      · rw [hout] at hfault hcalls
        have hz : z.Holds (before ++ [token]) := hy.take (congrArg Prod.fst hout)
        obtain ⟨hrest, hmore, hlast⟩ := ih hz k
        rw [← hfault]
        refine ⟨hrest, hmore.trans ?_, fun w hw => ?_⟩
        · dsimp only [Attempt.fault?]
          dsimp only at hcalls
          rw [List.filterMap_cons, hcalls]
          cases token.getter? t with
          | none => rfl
          | some c => rfl
        · have hall := hlast w hw
          rwa [List.append_assoc] at hall

end Yard

namespace Postfix

/-- The conversion fails with what is wrong with the first token that cannot be taken, and
otherwise if a parenthesis is left open. It calls getters up to there and does nothing else. -/
theorem fault?_ofTokens (t : Table W) (tokens : List Token) (h : Host W) :
    Attempt.fault? ((ofTokens t tokens).outcome h).1 =
        (Token.firstFault? t [] tokens).or
          (if tokens.count .closing < tokens.count .opening then some .mismatchedParentheses
            else none) ∧
      ((ofTokens t tokens).outcome h).2 = h.replay (Token.gets t tokens) := by
  have hempty : Yard.empty.Holds [] := rfl
  obtain ⟨hfault, hcalls, hlast⟩ := Yard.fault?_foldlM_take t tokens hempty h
  unfold ofTokens
  rw [Attempt.outcome_bind]
  rcases hout : (tokens.foldlM (Yard.take t) Yard.empty : Attempt W Yard).outcome h
    with ⟨e | z, k⟩
  · rw [hout] at hfault hcalls
    rw [← hfault]
    exact ⟨rfl, hcalls⟩
  · rw [hout] at hfault hcalls hlast
    rw [← hfault]
    have hz : z.depth + tokens.count .closing = tokens.count .opening := hlast z rfl
    rcases Yard.releaseAll_cases z.sent z.held with ⟨hdepth, items, hitems⟩ | ⟨hdepth, herror⟩
    · change z.depth = 0 at hdepth
      rw [if_neg (by omega)]
      dsimp only
      rw [hitems]
      exact ⟨rfl, hcalls⟩
    · change z.depth ≠ 0 at hdepth
      rw [if_pos (by omega)]
      dsimp only
      rw [herror]
      exact ⟨rfl, hcalls⟩

/-- The conversion fails with what is wrong with the leftmost token that cannot be taken. If
all can be taken, it succeeds, unless a parenthesis is left open. -/
theorem ofTokens_error_iff (t : Table W) (tokens : List Token) (h : Host W) :
    (∀ e, ((ofTokens t tokens).outcome h).1 = .error e ↔
      Token.FirstFault t tokens e ∨ Token.Faultless t tokens ∧
        tokens.count .closing < tokens.count .opening ∧ e = .mismatchedParentheses) ∧
    ((∃ items, ((ofTokens t tokens).outcome h).1 = .ok items) ↔
      Token.Faultless t tokens ∧ tokens.count .opening ≤ tokens.count .closing) := by
  obtain ⟨hfault, _⟩ := fault?_ofTokens t tokens h
  constructor
  · intro e
    rw [← Attempt.fault?_eq_some_iff, hfault, Option.or_eq_some_iff,
      Token.firstFault?_eq_some_iff, Token.firstFault?_eq_none_iff]
    simp only [Option.ite_none_right_eq_some, Option.some.injEq, eq_comm (b := e)]
  · rw [← Attempt.fault?_eq_none_iff, hfault, Option.or_eq_none_iff,
      Token.firstFault?_eq_none_iff]
    simp

end Postfix
end RuleSheet
