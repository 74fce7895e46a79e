import RuleSheet.Postfix.Convert
import RuleSheet.Token.Scan

/-!
# The value of an expression

An expression is either plain or a choice: a plain condition, a question mark, an
expression, a colon and an expression. The question mark is the first in the
text, and the colon is the one that matches it when question marks and colons are
counted as opening and closing. Parentheses play no part in this. Only the chosen
side is evaluated, and the condition counts as true unless it is zero.
-/
namespace RuleSheet.Expression
variable {W : Type}

/-- Converts the tokens, runs the sequence and records what it printed. -/
def plainValue (t : Table W) (autoBalance : Bool) (cs : List Char) : Attempt W Float := do
  let items ← Postfix.ofTokens t (Token.scan autoBalance cs)
  let (answer, printed) := Postfix.run items []
  (Act.recordPrinted printed : Act W Unit)
  match answer with
  | .ok x => pure x
  | .error e => throw e

/-- The text before and after the first question mark. -/
def splitQuestion : List Char → Option (List Char × List Char)
  | [] => none
  | c :: rest =>
      if c = '?' then some ([], rest)
      else (splitQuestion rest).map fun (before, after) => (c :: before, after)

/-- The text before and after the colon that closes `depth` nested choices and then
the outer one. -/
def splitColon : Nat → List Char → Option (List Char × List Char)
  | _, [] => none
  | depth, c :: rest =>
      if c = ':' ∧ depth = 0 then some ([], rest)
      else
        let inside := if c = '?' then depth + 1 else if c = ':' then depth - 1 else depth
        (splitColon inside rest).map fun (before, after) => (c :: before, after)

theorem splitQuestion_append {cs before after : List Char}
    (h : splitQuestion cs = some (before, after)) : cs = before ++ '?' :: after := by
  induction cs generalizing before after with
  | nil => simp [splitQuestion] at h
  | cons c rest ih =>
      simp only [splitQuestion] at h
      split at h
      · rename_i hc
        simp only [Option.some.injEq, Prod.mk.injEq] at h
        simp [hc, ← h.1, h.2]
      · obtain ⟨⟨a, b⟩, hr, he⟩ := Option.map_eq_some_iff.mp h
        simp only [Prod.mk.injEq] at he
        rw [ih hr, ← he.1, ← he.2]
        rfl

theorem splitColon_append {depth : Nat} {cs before after : List Char}
    (h : splitColon depth cs = some (before, after)) : cs = before ++ ':' :: after := by
  induction cs generalizing depth before after with
  | nil => simp [splitColon] at h
  | cons c rest ih =>
      simp only [splitColon] at h
      split at h
      · rename_i hc
        simp only [Option.some.injEq, Prod.mk.injEq] at h
        simp [hc.1, ← h.1, h.2]
      · obtain ⟨⟨a, b⟩, hr, he⟩ := Option.map_eq_some_iff.mp h
        simp only [Prod.mk.injEq] at he
        rw [ih hr, ← he.1, ← he.2]
        rfl

theorem sides_length {cs condition branches yes no : List Char}
    (hq : splitQuestion cs = some (condition, branches))
    (hc : splitColon 0 branches = some (yes, no)) :
    yes.length < cs.length ∧ no.length < cs.length := by
  have h := congrArg List.length (splitQuestion_append hq)
  have k := congrArg List.length (splitColon_append hc)
  simp only [List.length_append, List.length_cons] at h k
  omega

/-- The value of an expression. -/
def value (t : Table W) (autoBalance : Bool) (cs : List Char) : Attempt W Float :=
  match hq : splitQuestion cs with
  | none => plainValue t autoBalance cs
  | some (condition, branches) =>
      match hc : splitColon 0 branches with
      | none => throw (.missingTernaryBranch (String.ofList (Text.trim cs)))
      | some (yes, no) => do
          have ⟨_, _⟩ := sides_length hq hc
          let x ← plainValue t autoBalance condition
          if Number.holds x then value t autoBalance yes else value t autoBalance no
termination_by cs.length

end RuleSheet.Expression
