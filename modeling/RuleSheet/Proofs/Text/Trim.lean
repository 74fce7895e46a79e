import Mathlib.Data.List.DropRight
import RuleSheet.Proofs.Text.Settled

/-!
# Trimming

A text is blanks, then the trimmed text, then blanks, and the trimmed text has no blank
at either end. This determines it.
-/
namespace RuleSheet.Text

/-- There is no blank at either end. -/
structure Trimmed (cs : List Char) : Prop where
  first : ∀ c ∈ cs.head?, isBlank c = false
  last : ∀ c ∈ cs.getLast?, isBlank c = false

theorem trimmed_trim (cs : List Char) : Trimmed (trim cs) where
  last := by
    intro c hc
    unfold trim trimRight at hc
    rw [List.getLast?_reverse] at hc
    have h := List.head?_dropWhile_not isBlank (trimLeft cs).reverse
    rw [Option.mem_def.mp hc] at h
    exact h
  first := by
    intro c hc
    have hprefix : trim cs <+: trimLeft cs := List.rdropWhile_prefix isBlank _
    obtain ⟨r, hr⟩ := hprefix
    have h := List.head?_dropWhile_not isBlank cs
    rw [← trimLeft, ← hr, List.head?_append, Option.mem_def.mp hc] at h
    exact h

theorem exists_trim (cs : List Char) :
    ∃ l r, cs = l ++ trim cs ++ r ∧ (∀ c ∈ l, isBlank c = true) ∧ ∀ c ∈ r, isBlank c = true := by
  refine ⟨cs.takeWhile isBlank, ((trimLeft cs).reverse.takeWhile isBlank).reverse, ?_, ?_, ?_⟩
  · have hright : trimLeft cs =
        trim cs ++ ((trimLeft cs).reverse.takeWhile isBlank).reverse := by
      unfold trim trimRight
      rw [← List.reverse_append, List.takeWhile_append_dropWhile, List.reverse_reverse]
    rw [List.append_assoc, ← hright]
    exact List.takeWhile_append_dropWhile.symm
  · exact fun c hc => List.mem_takeWhile_imp hc
  · exact fun c hc => List.mem_takeWhile_imp (List.mem_reverse.mp hc)

/-- Trimming answers what is left between blanks. -/
theorem trim_append {l m r : List Char} (hl : ∀ c ∈ l, isBlank c = true) (hm : Trimmed m)
    (hr : ∀ c ∈ r, isBlank c = true) : trim (l ++ m ++ r) = m := by
  have hleft : trimLeft (l ++ m ++ r) = trimLeft (m ++ r) := by
    rw [List.append_assoc]
    exact List.dropWhile_append_of_pos hl
  rw [trim, hleft]
  cases m with
  | nil =>
      have hnone : trimLeft r = [] := List.dropWhile_eq_nil_iff.mpr hr
      rw [List.nil_append, hnone]
      rfl
  | cons c rest =>
      have hfirst := hm.first c rfl
      have hkeep : trimLeft (c :: rest ++ r) = c :: rest ++ r := by
        rw [trimLeft, List.cons_append, List.dropWhile_cons, hfirst]
        rfl
      rw [hkeep, trimRight, List.reverse_append,
        List.dropWhile_append_of_pos (by simpa using hr)]
      have hlast : ∀ d ∈ (c :: rest).reverse.head?, isBlank d = false := by
        rw [List.head?_reverse]
        exact hm.last
      cases hreverse : (c :: rest).reverse with
      | nil => simp at hreverse
      | cons d more =>
          rw [hreverse] at hlast
          rw [List.dropWhile_cons, hlast d rfl, ← hreverse]
          exact List.reverse_reverse _

theorem trim_of_trimmed {cs : List Char} (h : Trimmed cs) : trim cs = cs := by
  simpa using trim_append (l := []) (r := []) (by simp) h (by simp)

theorem trim_eq_nil_iff {cs : List Char} : trim cs = [] ↔ ∀ c ∈ cs, isBlank c = true := by
  constructor
  · intro h c hc
    obtain ⟨l, r, hcs, hl, hr⟩ := exists_trim cs
    rw [h, List.append_nil] at hcs
    rw [hcs, List.mem_append] at hc
    exact hc.elim (hl c) (hr c)
  · intro h
    have hnil : Trimmed [] := ⟨by simp, by simp⟩
    simpa using trim_append (r := []) h hnil (by simp)

theorem trim_between {l r : List Char} (hl : ∀ c ∈ l, isBlank c = true) (cs : List Char)
    (hr : ∀ c ∈ r, isBlank c = true) : trim (l ++ cs ++ r) = trim cs := by
  obtain ⟨a, b, hcs, ha, hb⟩ := exists_trim cs
  have hsplit : l ++ cs ++ r = (l ++ a) ++ trim cs ++ (b ++ r) := by
    conv_lhs => rw [hcs]
    simp only [List.append_assoc]
  rw [hsplit]
  refine trim_append ?_ (trimmed_trim cs) ?_
  · exact fun c hc => (List.mem_append.mp hc).elim (hl c) (ha c)
  · exact fun c hc => (List.mem_append.mp hc).elim (hb c) (hr c)

theorem dropBlanks_eq_trim {cs : List Char} (h : ∀ c ∈ trim cs, isBlank c = false) :
    dropBlanks cs = trim cs := by
  obtain ⟨l, r, hcs, hl, hr⟩ := exists_trim cs
  conv_lhs => rw [hcs]
  have hnone {blanks : List Char} (hall : ∀ c ∈ blanks, isBlank c = true) :
      dropBlanks blanks = [] := by
    rw [dropBlanks, List.filter_eq_nil_iff]
    intro c hc
    simp [hall c hc]
  rw [dropBlanks_append, dropBlanks_append, hnone hl, hnone hr, dropBlanks_eq_self h,
    List.nil_append, List.append_nil]

end RuleSheet.Text
