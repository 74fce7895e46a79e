/-!
# Cutting a text at a sign

A text is cut at the first sign of a kind, as an expression is at its first question mark
and a statement at its first equals sign.
-/
namespace RuleSheet.Text

/-- What stands before and after the first `sign`. -/
def cut (sign : Char) : List Char → Option (List Char × List Char)
  | [] => none
  | c :: rest =>
      if c = sign then some ([], rest)
      else (cut sign rest).map fun (before, after) => (c :: before, after)

theorem cut_eq_some_iff {sign : Char} {cs before after : List Char} :
    cut sign cs = some (before, after) ↔ cs = before ++ sign :: after ∧ sign ∉ before := by
  induction cs generalizing before with
  | nil => simp [cut]
  | cons c rest ih =>
      rw [cut]
      by_cases hc : c = sign
      · rw [if_pos hc]
        cases before with
        | nil => simp [hc, eq_comm]
        | cons d more => simp +contextual [hc, eq_comm]
      · rw [if_neg hc, Option.map_eq_some_iff]
        constructor
        · rintro ⟨⟨a, b⟩, hcut, heq⟩
          cases heq
          have hrest := ih.mp hcut
          rw [hrest.1]
          exact ⟨rfl, by simp [Ne.symm hc, hrest.2]⟩
        · rintro ⟨heq, hnot⟩
          cases before with
          | nil => exact absurd (List.cons.inj heq).1 hc
          | cons d more =>
              rw [List.cons_append, List.cons.injEq] at heq
              obtain ⟨rfl, rfl⟩ := heq
              exact ⟨(more, after), ih.mpr ⟨rfl, fun h => hnot (.tail _ h)⟩, rfl⟩

theorem cut_eq_none_iff {sign : Char} {cs : List Char} : cut sign cs = none ↔ sign ∉ cs := by
  induction cs with
  | nil => simp [cut]
  | cons c rest ih =>
      rw [cut, List.mem_cons, not_or, ← ih]
      by_cases hc : c = sign
      · simp [hc]
      · simp [hc, Ne.symm hc]

end RuleSheet.Text
