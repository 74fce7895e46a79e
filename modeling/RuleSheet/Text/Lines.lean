/-!
# Lines

A text is cut at its line feeds, and a text without one is a single line. A
carriage return before a line feed stays with its line.
-/
namespace RuleSheet.Text

def lines : List Char → List (List Char)
  | [] => [[]]
  | c :: rest =>
      if c = '\n' then [] :: lines rest
      else match lines rest with
        | [] => [[c]]
        | line :: more => (c :: line) :: more

@[simp] theorem lines_append (a b : List Char) : lines (a ++ '\n' :: b) = lines a ++ lines b := by
  induction a with
  | nil => simp [lines]
  | cons c rest ih =>
      rw [List.cons_append, lines, lines, ih]
      split
      · rfl
      · cases h : lines rest with
        | nil =>
            exfalso
            revert h
            cases rest with
            | nil => simp [lines]
            | cons d tail =>
                simp only [lines]
                split
                · simp
                · split <;> simp
        | cons line more => rfl

end RuleSheet.Text
