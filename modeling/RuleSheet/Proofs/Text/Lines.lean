import RuleSheet.Text.Lines

/-!
# Lines and texts

Lines without line feeds, joined with line feeds, are read back. So a text can be changed
line by line.
-/
namespace RuleSheet.Text

theorem lines_eq_splitOn (cs : List Char) : lines cs = cs.splitOn '\n' := by
  induction cs with
  | nil => rfl
  | cons c rest ih =>
      rw [lines, List.splitOn_cons_eq_if_modifyHead, ih]
      by_cases hc : c = '\n'
      · rw [if_pos hc, if_pos (beq_iff_eq.mpr hc)]
      · rw [if_neg hc, if_neg (by simpa using hc)]
        cases h : rest.splitOn '\n' with
        | nil => exact absurd h (List.splitOn_ne_nil _ _)
        | cons line more => rfl

theorem lines_intercalate {ls : List (List Char)} (hls : ls ≠ []) (h : ∀ l ∈ ls, '\n' ∉ l) :
    lines (['\n'].intercalate ls) = ls := by
  rw [lines_eq_splitOn, List.splitOn_intercalate '\n' h hls]

theorem not_mem_of_mem_lines {cs line : List Char} (h : line ∈ lines cs) : '\n' ∉ line := by
  induction cs generalizing line with
  | nil =>
      rw [lines, List.mem_singleton] at h
      simp [h]
  | cons c rest ih =>
      rw [lines] at h
      split at h
      · rcases List.mem_cons.mp h with rfl | h
        · exact List.not_mem_nil
        · exact ih h
      · rename_i hc
        cases hrest : lines rest with
        | nil =>
            rw [hrest, List.mem_singleton] at h
            simp [h, Ne.symm hc]
        | cons first more =>
            rw [hrest] at h ih
            rcases List.mem_cons.mp h with rfl | h
            · simp [Ne.symm hc, ih List.mem_cons_self]
            · exact ih (List.mem_cons_of_mem _ h)

/-- The text with one more line before its line `position`, counted from zero, or at its end
if it has no such line. -/
def insertLine (line cs : List Char) (position : Nat) : List Char :=
  ['\n'].intercalate ((lines cs).take position ++ line :: (lines cs).drop position)

theorem lines_insertLine {line : List Char} (h : '\n' ∉ line) (cs : List Char)
    (position : Nat) :
    lines (insertLine line cs position) =
      (lines cs).take position ++ line :: (lines cs).drop position := by
  refine lines_intercalate (by simp) fun l hl => ?_
  rcases List.mem_append.mp hl with hl | hl
  · exact not_mem_of_mem_lines (List.mem_of_mem_take hl)
  · rcases List.mem_cons.mp hl with rfl | hl
    · exact h
    · exact not_mem_of_mem_lines (List.mem_of_mem_drop hl)

end RuleSheet.Text
