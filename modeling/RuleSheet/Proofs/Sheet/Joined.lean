import RuleSheet.Proofs.Ruleset.Account
import RuleSheet.Proofs.Text.Lines
import RuleSheet.Proofs.Text.Trim

/-!
# Text sheets that are joined

A text sheet is read line by line, so the sheets of two texts, joined with a line feed, have
the constraints of the one and then those of the other. A constraint is trimmed, is not
blank and has no line feed in it, so constraints that are joined again are read as they are.
A pass over the constraints of a text therefore counts every one of them.
-/
namespace RuleSheet

namespace Sheet

/-- What is read from a text. -/
structure IsRead (commentPrefix c : List Char) : Prop where
  constraint : isConstraint commentPrefix c = true
  trimmed : Text.Trimmed c
  noBreak : '\n' ∉ c

theorem isRead_of_mem {commentPrefix text c : List Char}
    (h : c ∈ textConstraints commentPrefix text) : IsRead commentPrefix c := by
  obtain ⟨hmem, hc⟩ := List.mem_filter.mp h
  obtain ⟨line, hline, rfl⟩ := List.mem_map.mp hmem
  refine ⟨hc, Text.trimmed_trim line, fun hbreak => Text.not_mem_of_mem_lines hline ?_⟩
  obtain ⟨l, r, hsplit, _, _⟩ := Text.exists_trim line
  rw [hsplit]
  simp [hbreak]

theorem constraints_ofText (text : String) (passes : PassSettings) :
    (ofText text passes).constraints =
      (textConstraints passes.commentPrefix.toList text.toList).map String.ofList :=
  rfl

theorem map_toList_constraints (text : String) (passes : PassSettings) :
    (ofText text passes).constraints.map String.toList =
      textConstraints passes.commentPrefix.toList text.toList := by
  rw [constraints_ofText, List.map_map]
  exact (List.map_congr_left fun c _ => String.toList_ofList).trans (List.map_id _)

@[simp] theorem textConstraints_append (commentPrefix a b : List Char) :
    textConstraints commentPrefix (a ++ '\n' :: b) =
      textConstraints commentPrefix a ++ textConstraints commentPrefix b := by
  simp [textConstraints]

theorem textConstraints_intercalate {commentPrefix : List Char} {cs : List (List Char)}
    (h : ∀ c ∈ cs, IsRead commentPrefix c) :
    textConstraints commentPrefix (['\n'].intercalate cs) = cs := by
  cases cs with
  | nil => rfl
  | cons c rest =>
      unfold textConstraints
      rw [Text.lines_intercalate (List.cons_ne_nil c rest) fun l hl => (h l hl).noBreak,
        List.map_congr_left fun l hl => Text.trim_of_trimmed (h l hl).trimmed, List.map_id']
      exact List.filter_eq_self.mpr fun l hl => (h l hl).constraint

theorem not_isBlankStatement_of_isRead {commentPrefix c : List Char}
    (h : IsRead commentPrefix c) : Ruleset.isBlankStatement (String.ofList c) = false := by
  have hc := h.constraint
  rw [isConstraint, Bool.and_eq_true, Bool.not_eq_true'] at hc
  rw [Ruleset.isBlankStatement, String.toList_ofList, Text.trim_of_trimmed h.trimmed, hc.1]

end Sheet

namespace History
variable {W : Type}

/-- A ruleset built from a sheet, after calls of the host and passes in any order. Its list is
still that of the sheet. -/
inductive Running (sheet : Sheet) : History W → Prop
  | begin : Running sheet (begin (.ofSheet sheet))
  | call {t : History W} (c : Call W) (h : Host W) :
      Running sheet t → Running sheet (t.advance h (.call c))
  | apply {t : History W} (h : Host W) : Running sheet t → Running sheet (t.advance h .apply)

theorem Running.constraints_eq {sheet : Sheet} {t : History W} (ht : t.Running sheet) :
    t.ruleset.constraints = sheet.constraints := by
  induction ht with
  | begin => rfl
  | call c h _ ih => exact ih
  | @apply t h _ ih =>
      change (t.ruleset.apply.run h).1.2.constraints = _
      rw [Ruleset.run_apply]
      exact ih

end History

namespace Sheet
variable {W : Type}

/-- Texts joined with a line feed have the constraints of both, and constraints joined with
line feeds are read again. None of them is blank, so that every pass of a ruleset built from
the sheet counts each of them, as a success or as a failure. -/
theorem ofText_joined (passes : PassSettings) (a b : String) :
    (ofText (a ++ "\n" ++ b) passes).constraints =
      (ofText a passes).constraints ++ (ofText b passes).constraints ∧
    (ofText ("\n".intercalate (ofText a passes).constraints) passes).constraints =
      (ofText a passes).constraints ∧
    (∀ c ∈ (ofText a passes).constraints, Ruleset.isBlankStatement c = false) ∧
    ∀ (t : History W), t.Running (ofText a passes) → ∀ h,
      let report := (t.ruleset.apply.run h).1.1
      report.applied + report.failures.length = (ofText a passes).constraints.length := by
  have hread : ∀ c ∈ (ofText a passes).constraints, Ruleset.isBlankStatement c = false := by
    intro c hc
    obtain ⟨line, hline, rfl⟩ := List.mem_map.mp hc
    exact not_isBlankStatement_of_isRead (isRead_of_mem hline)
  refine ⟨?_, ?_, hread, ?_⟩
  · have htext : (a ++ "\n" ++ b).toList = a.toList ++ '\n' :: b.toList := by simp
    rw [constraints_ofText, htext, textConstraints_append, List.map_append]
    rfl
  · have hbreak : "\n".toList = ['\n'] := rfl
    rw [constraints_ofText, String.toList_intercalate, map_toList_constraints, hbreak,
      textConstraints_intercalate fun c hc => isRead_of_mem hc, constraints_ofText]
  · intro t ht h
    have htotal := Ruleset.total_runFrom t.ruleset.cleared h 0 t.ruleset.constraints
    rw [ht.constraints_eq] at htotal
    dsimp only at htotal ⊢
    rw [Ruleset.report_apply, ht.constraints_eq, htotal, Ruleset.nonBlank]
    refine congrArg List.length (List.filter_eq_self.mpr fun c hc => ?_)
    rw [hread c hc]
    rfl

/-- A text with both kinds of line breaks, a comment and a statement that fails, and a second
text that begins with a wide blank and has a carriage return within a line. The ruleset has
made one pass after a call of the host. -/
theorem ofText_joined_margins :
    let passes : PassSettings := {}
    let a := "# margins\r\nvar m = 4\n\n  5 = m  \r"
    let b := "\u3000m = k\rj\n\n #done"
    let h : Host Unit := ⟨(), []⟩
    let t := ((History.begin (.ofSheet (ofText a passes))).advance h
      (.call (.evaluate "var k = 1"))).advance h .apply
    let report := (t.ruleset.apply.run h).1.1
    t.Running (ofText a passes) ∧ (ofText a passes).constraints = ["var m = 4", "5 = m"] ∧
      (ofText (a ++ "\n" ++ b) passes).constraints = ["var m = 4", "5 = m", "m = k\rj"] ∧
      (ofText "var m = 4\n5 = m" passes).constraints = ["var m = 4", "5 = m"] ∧
      report.applied + report.failures.length = 2 := by
  intro passes a b h t report
  have ht : t.Running (ofText a passes) := .apply h (.call _ h .begin)
  have ha : (ofText a passes).constraints = ["var m = 4", "5 = m"] := by decide +kernel
  have hb : (ofText b passes).constraints = ["m = k\rj"] := by decide +kernel
  obtain ⟨happend, hagain, _, hcount⟩ := ofText_joined (W := Unit) passes a b
  rw [ha, hb] at happend
  rw [ha] at hagain
  have hreport := hcount t ht h
  rw [ha] at hreport
  exact ⟨ht, ha, happend, hagain, hreport⟩

end Sheet
end RuleSheet
