import RuleSheet.Proofs.Text.Lines
import RuleSheet.Proofs.Text.Trim
import RuleSheet.Sheet

/-!
# Comment lines

A line is trimmed before it is compared with the comment prefix, but the prefix is not. So a
line that begins with the prefix, or is indented and then begins with it, is a comment only
if trimming leaves the prefix whole. A prefix that begins with a blank is never found. One
that ends in a blank is found unless nothing but blanks comes after it.

A line that is no comment and not blank adds a constraint, wherever it is put.
-/
namespace RuleSheet.Sheet
open Text

/-- The prefix begins with no blank, and it ends in none unless more than blanks comes after
it in the line. -/
structure Survives (commentPrefix rest : List Char) : Prop where
  first : ∀ c ∈ commentPrefix.head?, isBlank c = false
  last : (∀ c ∈ commentPrefix.getLast?, isBlank c = false) ∨ ∃ c ∈ rest, isBlank c = false

theorem Survives.prefix_trim {commentPrefix rest : List Char}
    (h : Survives commentPrefix rest) (hp : commentPrefix ≠ []) :
    commentPrefix <+: trim (commentPrefix ++ rest) := by
  obtain ⟨l, r, hrest, hl, hr⟩ := exists_trim rest
  have hhead (more : List Char) : (commentPrefix ++ more).head? = commentPrefix.head? :=
    List.head?_append_of_ne_nil _ hp
  by_cases htrim : trim rest = []
  · -- nothing but blanks comes after the prefix, so the prefix ends in no blank itself
    have hblank := trim_eq_nil_iff.mp htrim
    have hlast := h.last.resolve_right fun ⟨c, hc, hnot⟩ => by simp [hblank c hc] at hnot
    have heq := trim_append (l := []) (by simp) ⟨h.first, hlast⟩ hblank
    rw [List.nil_append] at heq
    exact heq.symm ▸ List.prefix_rfl
  · have htrimmed : Trimmed (commentPrefix ++ (l ++ trim rest)) := by
      refine ⟨hhead _ ▸ h.first, ?_⟩
      rw [← List.append_assoc, List.getLast?_append_of_ne_nil _ htrim]
      exact (trimmed_trim rest).last
    have heq := trim_append (l := []) (by simp) htrimmed hr
    have hline : commentPrefix ++ rest = [] ++ (commentPrefix ++ (l ++ trim rest)) ++ r := by
      conv_lhs => rw [hrest]
      simp only [List.nil_append, List.append_assoc]
    rw [hline, heq]
    exact List.prefix_append _ _

theorem survives_of_prefix_trim {commentPrefix rest : List Char} (hp : commentPrefix ≠ [])
    (h : commentPrefix <+: trim (commentPrefix ++ rest)) : Survives commentPrefix rest := by
  obtain ⟨more, hmore⟩ := h
  have htrimmed := trimmed_trim (commentPrefix ++ rest)
  rw [← hmore] at htrimmed
  have hhead : (commentPrefix ++ more).head? = commentPrefix.head? :=
    List.head?_append_of_ne_nil _ hp
  have hfirst : ∀ c ∈ commentPrefix.head?, isBlank c = false := hhead ▸ htrimmed.first
  refine ⟨hfirst, ?_⟩
  by_cases hrest : ∃ c ∈ rest, isBlank c = false
  · exact .inr hrest
  · -- the blanks after the prefix are trimmed off, so the prefix is trimmed already
    have hblank : ∀ c ∈ rest, isBlank c = true := by simpa using hrest
    have heq := trim_between (l := []) (by simp) commentPrefix hblank
    rw [List.nil_append] at heq
    have hself : trim commentPrefix = commentPrefix := by
      obtain ⟨l, r, hsplit, _, _⟩ := exists_trim commentPrefix
      have hlength := congrArg List.length hsplit
      simp only [List.length_append] at hlength
      refine (List.IsPrefix.eq_of_length_le (heq ▸ ⟨more, hmore⟩) (by omega)).symm
    exact .inl (hself ▸ (trimmed_trim commentPrefix).last)

/-- A line that begins with the prefix after an indentation adds no constraint exactly if the
prefix survives in it or the line is blank. -/
theorem isConstraint_trim_iff {commentPrefix indent rest : List Char} (hp : commentPrefix ≠ [])
    (hindent : ∀ c ∈ indent, isBlank c = true) :
    isConstraint commentPrefix (trim (indent ++ commentPrefix ++ rest)) = false ↔
      Survives commentPrefix rest ∨ ∀ c ∈ commentPrefix ++ rest, isBlank c = true := by
  have htrim := trim_between hindent (commentPrefix ++ rest) (r := []) (by simp)
  rw [List.append_nil, ← List.append_assoc] at htrim
  rw [htrim, ← trim_eq_nil_iff]
  simp only [isConstraint, Bool.and_eq_false_iff, Bool.not_eq_false', List.isEmpty_iff,
    Bool.or_eq_false_iff, List.isPrefixOf_iff_prefix, List.isEmpty_eq_false_iff]
  rw [or_comm, and_iff_right hp]
  exact or_congr_left ⟨survives_of_prefix_trim hp, fun h => h.prefix_trim hp⟩

theorem textConstraints_insertLine {commentPrefix line : List Char} (h : '\n' ∉ line)
    (text : List Char) (position : Nat) :
    textConstraints commentPrefix (insertLine line text position) =
        textConstraints commentPrefix text ↔
      isConstraint commentPrefix (trim line) = false := by
  unfold textConstraints
  rw [lines_insertLine h]
  conv_lhs => rhs; rw [← List.take_append_drop position (lines text)]
  simp only [List.map_append, List.map_cons, List.filter_append]
  rw [List.append_right_inj]
  cases hc : isConstraint commentPrefix (trim line) with
  | false => simp [hc]
  | true =>
      rw [List.filter_cons_of_pos hc]
      exact iff_of_false (List.cons_ne_self _ _) (by simp)

/-- A line that begins with the prefix, after an indentation or not, may be put anywhere in a
text without a change to its constraints, if and only if the prefix does not begin with a
blank, and does not end in one unless more than blanks comes after it. A line that is all
blank may be put anywhere too. -/
theorem ofText_insertLine_iff (passes : PassSettings) {indent rest : List Char}
    (hp : passes.commentPrefix ≠ "") (hbreak : '\n' ∉ passes.commentPrefix.toList)
    (hindent : ∀ c ∈ indent, isBlank c = true ∧ c ≠ '\n') (hrest : '\n' ∉ rest)
    (text : String) (position : Nat) :
    (ofText (String.ofList (insertLine (indent ++ passes.commentPrefix.toList ++ rest)
        text.toList position)) passes).constraints = (ofText text passes).constraints ↔
      Survives passes.commentPrefix.toList rest ∨
        ∀ c ∈ passes.commentPrefix.toList ++ rest, isBlank c = true := by
  have hprefix : passes.commentPrefix.toList ≠ [] := by simpa using hp
  have hline : '\n' ∉ indent ++ passes.commentPrefix.toList ++ rest := by
    simp only [List.mem_append, not_or]
    exact ⟨⟨fun hc => (hindent _ hc).2 rfl, hbreak⟩, hrest⟩
  rw [← isConstraint_trim_iff hprefix fun c hc => (hindent c hc).1,
    ← textConstraints_insertLine hline text.toList position]
  change List.map String.ofList (textConstraints _ (String.ofList _).toList) =
    List.map String.ofList (textConstraints _ _) ↔ _
  rw [String.toList_ofList]
  exact List.map_inj_right fun a b h => String.ofList_injective h

/-- An indented comment, under a prefix that ends in a blank, between two lines. -/
theorem ofText_insertLine_indented :
    let passes : PassSettings := { commentPrefix := "// " }
    let indent := ['\t', ' ']
    let rest := "note".toList
    let text := "a = 1\r\nb"
    passes.commentPrefix ≠ "" ∧ '\n' ∉ passes.commentPrefix.toList ∧
      (∀ c ∈ indent, isBlank c = true ∧ c ≠ '\n') ∧ '\n' ∉ rest ∧
      Survives passes.commentPrefix.toList rest ∧
      String.ofList (insertLine (indent ++ passes.commentPrefix.toList ++ rest) text.toList 1) =
        "a = 1\r\n\t // note\nb" ∧
      (ofText "a = 1\r\n\t // note\nb" passes).constraints = ["a = 1", "b"] := by
  intro passes indent rest text
  have hp : passes.commentPrefix ≠ "" := by decide
  have hbreak : '\n' ∉ passes.commentPrefix.toList := by decide
  have hindent : ∀ c ∈ indent, isBlank c = true ∧ c ≠ '\n' :=
    List.forall_mem_cons.mpr ⟨by decide, List.forall_mem_singleton.mpr (by decide)⟩
  have hrest : '\n' ∉ rest := by decide
  have hsurvives : Survives passes.commentPrefix.toList rest :=
    ⟨by simp [passes]; decide, .inr ⟨'n', by decide, by decide⟩⟩
  have hline : String.ofList (insertLine (indent ++ passes.commentPrefix.toList ++ rest)
      text.toList 1) = "a = 1\r\n\t // note\nb" := by decide
  have hread := (ofText_insertLine_iff passes hp hbreak hindent hrest text 1).mpr (.inl hsurvives)
  rw [hline] at hread
  exact ⟨hp, hbreak, hindent, hrest, hsurvives, hline, hread.trans (by decide)⟩

/-- Under a prefix that begins with a blank a comment is read as a constraint. -/
theorem exists_comment_read :
    ∃ (passes : PassSettings) (rest text : String) (position : Nat),
      passes.commentPrefix ≠ "" ∧ '\n' ∉ passes.commentPrefix.toList ∧ '\n' ∉ rest.toList ∧
      (ofText (String.ofList (insertLine (passes.commentPrefix.toList ++ rest.toList)
        text.toList position)) passes).constraints ≠ (ofText text passes).constraints :=
  ⟨{ commentPrefix := " #" }, " note", "var a = 1", 0, by decide, by decide, by decide, by decide⟩

end RuleSheet.Sheet
