import RuleSheet.Proofs.Token.Printed

/-!
# The order of the tokens

Whatever the text is, its tokens follow each other in an order that the later stages rely on.
Operands are kept apart, but for numerals; each function has its parenthesis; and all signs
that are left are binary. The first two are what fits, and hold for the parentheses that were
put in as for those that were written. The last is what makes the tokens legible: a sign where
an operand is expected would not be read back as an operator.
-/
namespace RuleSheet

/-- The operators whose symbols can also be the sign of an operand. -/
def Operator.isSign : Operator → Bool
  | add | subtract => true
  | _ => false

namespace Token

/-- The order that the tokens of a text have. -/
structure Orderly (tokens : List Token) : Prop where
  operands : ∀ before last next after, tokens = before ++ last :: next :: after →
    last.endsOperand = true → next.startsOperand = true →
      last.isNumber = true ∧ next.isNumber = true
  calls : ∀ before n after, tokens = before ++ name n :: after → Builtin.isName n = true →
    ∃ rest, after = opening :: rest
  signs : ∀ before op after, tokens = before ++ operator op :: after → op.isSign = true →
    ∃ front last, before = front ++ [last] ∧ last ≠ opening ∧ ∀ o, last ≠ operator o

theorem Legible.readsAfter {t : Token} {before : List Token} (later : List Token)
    {rest : List Char} (h : Legible (later ++ t :: before) rest) :
    ∃ r, ReadsAfter before t r := by
  induction later generalizing rest with
  | nil => exact ⟨rest, h.1⟩
  | cons u more ih => exact ih h.2

/-- The last of some tokens, unless an operand is expected after them. -/
theorem exists_last_of_expected {before : List Token} (h : expected before.reverse = false) :
    ∃ front last, before = front ++ [last] ∧ last ≠ opening ∧ ∀ o, last ≠ operator o := by
  rcases List.eq_nil_or_concat' before with rfl | ⟨front, last, rfl⟩
  · cases h
  · rw [List.reverse_append] at h
    refine ⟨front, last, rfl, ?_, ?_⟩
    · rintro rfl
      cases h
    · rintro o rfl
      cases h

/-- The tokens of a text are in order, whether parentheses are balanced or not. -/
theorem orderly_scan (autoBalance : Bool) (cs : List Char) : Orderly (scan autoBalance cs) where
  operands := by
    intro before last next after htokens
    have hchain := isChain_scan autoBalance cs
    rw [htokens, List.isChain_append_cons_cons] at hchain
    exact hchain.2.1.operands
  calls := by
    intro before n after htokens hn
    cases after with
    | nil =>
        have hneat := neat_scan autoBalance cs
        rw [htokens, List.reverse_append] at hneat
        cases hneat.called (name n) rfl hn
    | cons next rest =>
        have hchain := isChain_scan autoBalance cs
        rw [htokens, List.isChain_append_cons_cons] at hchain
        exact ⟨rest, by rw [hchain.2.1.argument hn]⟩
  signs := by
    intro before op after htokens hop
    have hlegible := legible_scan autoBalance cs
    rw [htokens, List.reverse_append, List.reverse_cons, List.append_assoc] at hlegible
    obtain ⟨r, hread⟩ := Legible.readsAfter after.reverse hlegible
    apply exists_last_of_expected
    rw [Bool.eq_false_iff]
    intro he
    obtain ⟨hsubtract, hadd⟩ := hread he
    cases op with
    | add => exact hadd rfl
    | subtract => exact hsubtract rfl
    | _ => cases hop

end Token
end RuleSheet
