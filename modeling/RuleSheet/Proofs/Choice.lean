import RuleSheet.Proofs.Expression
import RuleSheet.Proofs.Nested
import RuleSheet.Session

/-!
# Choices inside choices

A choice is written without parentheses, also when it stands on a side of another choice.
The question mark that comes first belongs to the outermost choice, and its colon is the
one before which all further question marks have found theirs. Whatever the sides are,
they are nested, so the colon is the right one, and a choice is evaluated as it is meant:
its condition, and then the side that was chosen and nothing of the other. Where the
first question mark has no colon, nothing is evaluated at all.
-/
namespace RuleSheet
variable {W : Type}

namespace Expression

/-- The colon that is found has the choices before it closed that were opened, and
`depth` choices more. -/
theorem splitColon_eq_some_iff {depth : Nat} {cs before after : List Char} :
    splitColon depth cs = some (before, after) ↔
      cs = before ++ ':' :: after ∧ Closes '?' ':' depth before := by
  induction cs generalizing depth before with
  | nil => simp [splitColon]
  | cons c rest ih =>
      by_cases hfound : c = ':' ∧ depth = 0
      · rw [splitColon, if_pos hfound]
        cases before with
        | nil => simp [hfound, eq_comm]
        | cons d more =>
            refine iff_of_false (by simp) fun h => ?_
            have hd : c = d := (List.cons.inj h.1).1
            have hnot := ((Closes.cons_iff (by decide)).mp h.2).1
            exact hnot (hd ▸ hfound)
      · rw [splitColon, if_neg hfound]
        dsimp only
        cases before with
        | nil =>
            refine iff_of_false (by simp) fun h => ?_
            exact hfound ⟨(List.cons.inj h.1).1, Closes.nil_iff.mp h.2⟩
        | cons d more =>
            rw [Closes.cons_iff (by decide), Option.map_eq_some_iff]
            constructor
            · rintro ⟨⟨a, b⟩, hsplit, heq⟩
              cases heq
              exact ⟨congrArg (c :: ·) (ih.mp hsplit).1, hfound, (ih.mp hsplit).2⟩
            · rintro ⟨heq, -, hcloses⟩
              cases heq
              exact ⟨(more, after), ih.mpr ⟨rfl, hcloses⟩, rfl⟩

theorem splitColon_eq_none_iff {depth : Nat} {cs : List Char} :
    splitColon depth cs = none ↔
      ¬∃ before after, cs = before ++ ':' :: after ∧ Closes '?' ':' depth before := by
  rw [Option.eq_none_iff_forall_ne_some]
  simp only [ne_eq, Prod.forall, splitColon_eq_some_iff, not_exists]

end Expression

/-- A text in which no sign of a choice stands. -/
structure Clause where
  text : String
  noQuestion : '?' ∉ text.toList
  noColon : ':' ∉ text.toList

/-- A clause by itself, or a clause as the condition of a choice. -/
inductive Choice where
  | clause (p : Clause)
  | choose (condition : Clause) (yes no : Choice)

namespace Choice

/-- How a choice is written. -/
def text : Choice → String
  | clause p => p.text
  | choose condition yes no => condition.text ++ "?" ++ yes.text ++ ":" ++ no.text

/-- The value of a choice as it is meant. Only a zero is false. -/
def value (s : Session W) : Choice → Attempt W Float
  | clause p => Expression.plainValue s.table s.settings.autoBalance p.text.toList
  | choose condition yes no => do
      let x ← Expression.plainValue s.table s.settings.autoBalance condition.text.toList
      if x == 0 then no.value s else yes.value s

@[simp] theorem toList_text_choose (condition : Clause) (yes no : Choice) :
    (choose condition yes no).text.toList =
      condition.text.toList ++ '?' :: (yes.text.toList ++ ':' :: no.text.toList) := by
  simp [text, String.toList_append]

theorem nested_text (c : Choice) : Nested '?' ':' c.text.toList := by
  induction c with
  | clause p => exact .of_not_mem p.noQuestion p.noColon
  | choose condition yes no ihYes ihNo =>
      have hno : Closes '?' ':' 1 (':' :: no.text.toList) :=
        (Closes.cons_iff (by decide)).mpr ⟨by decide, ihNo⟩
      have hsides := ihYes.append hno
      have hchoice : Nested '?' ':' ('?' :: (yes.text.toList ++ ':' :: no.text.toList)) :=
        (Closes.cons_iff (by decide)).mpr ⟨by decide, hsides⟩
      rw [toList_text_choose]
      exact (Closes.of_not_mem condition.noQuestion condition.noColon).append hchoice

@[simp] theorem value_text (s : Session W) (c : Choice) :
    s.evaluateExpression c.text = c.value s := by
  unfold Session.evaluateExpression
  induction c with
  | clause p => exact Expression.value_plain p.noQuestion s.table s.settings.autoBalance
  | choose condition yes no ihYes ihNo =>
      have hquestion : Expression.splitQuestion
          (condition.text.toList ++ '?' :: (yes.text.toList ++ ':' :: no.text.toList)) =
            some (condition.text.toList, yes.text.toList ++ ':' :: no.text.toList) :=
        Expression.splitQuestion_eq_some_iff.mpr ⟨rfl, condition.noQuestion⟩
      have hcolon : Expression.splitColon 0 (yes.text.toList ++ ':' :: no.text.toList) =
          some (yes.text.toList, no.text.toList) :=
        Expression.splitColon_eq_some_iff.mpr ⟨rfl, yes.nested_text⟩
      rw [toList_text_choose, Expression.value_choice hquestion hcolon, value, ihYes, ihNo]
      refine bind_congr fun x => ?_
      unfold Number.holds
      cases hx : x == 0 <;> simp [bne, hx]

end Choice

namespace Session

/-- A choice is evaluated as it is meant: the same answer, the same calls of getters in the
same order, and only the chosen side is touched. If the first question mark has no colon,
that is the answer and nothing is called. -/
theorem evaluateExpression_choice (s : Session W) :
    (∀ (c : Choice) (h : Host W), (s.evaluateExpression c.text).outcome h =
      (c.value s).outcome h) ∧
    ∀ (text : String) (condition rest : List Char),
      text.toList = condition ++ '?' :: rest → '?' ∉ condition →
      (¬∃ yes no, rest = yes ++ ':' :: no ∧ Nested '?' ':' yes) →
      ∀ h : Host W, (s.evaluateExpression text).outcome h =
        (.error (.missingTernaryBranch (String.ofList (Text.trim text.toList))), h) := by
  constructor
  · intro c h
    rw [c.value_text]
  · intro text condition rest htext hfirst hcolon h
    have hquestion := Expression.splitQuestion_eq_some_iff.mpr ⟨htext, hfirst⟩
    rw [evaluateExpression, Expression.value_missing hquestion
      (Expression.splitColon_eq_none_iff.mpr hcolon)]
    rfl

/-- The only colon belongs to the choice inside, so the outer choice has none. -/
theorem evaluateExpression_choice_without_colon :
    let s : Session Unit := create {}
    let h : Host Unit := ⟨(), []⟩
    let text := "pi ? 2 ? 3 : 4"
    text.toList = "pi ".toList ++ '?' :: " 2 ? 3 : 4".toList ∧ '?' ∉ "pi ".toList ∧
      (¬∃ yes no, " 2 ? 3 : 4".toList = yes ++ ':' :: no ∧ Nested '?' ':' yes) ∧
      (s.evaluateExpression text).outcome h =
        (.error (.missingTernaryBranch (String.ofList (Text.trim text.toList))), h) := by
  intro s h text
  have htext : text.toList = "pi ".toList ++ '?' :: " 2 ? 3 : 4".toList := by decide
  have hfirst : '?' ∉ "pi ".toList := by decide
  have hcolon := Expression.splitColon_eq_none_iff.mp
    (show Expression.splitColon 0 " 2 ? 3 : 4".toList = none by decide)
  exact ⟨htext, hfirst, hcolon,
    (evaluateExpression_choice s).2 text _ _ htext hfirst hcolon h⟩

end Session
end RuleSheet
