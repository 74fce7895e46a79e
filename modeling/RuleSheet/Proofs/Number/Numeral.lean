import Mathlib.Data.List.TakeWhile
import RuleSheet.Number.Literal
import RuleSheet.Token.Lexeme

/-!
# Unsigned numerals

A numeral is written with digits, at least one, and at most one point. The scanner takes
it as one lexeme, and it can be read; with a minus sign in front it reads as the same
number with its sign changed.
-/
namespace RuleSheet

/-- Digits with at most one point among them, and not the point alone. -/
structure Numeral (cs : List Char) : Prop where
  digit : ∃ c ∈ cs, c.isDigit = true
  only : ∀ c ∈ cs, c.isDigit = true ∨ c = '.'
  point : cs.count '.' ≤ 1

namespace Numeral

/-- A numeral has no point, or digits before and after it, on one side at least. -/
theorem cases {cs : List Char} (h : Numeral cs) :
    ∃ whole fraction : List Char, (∀ c ∈ whole, c.isDigit = true) ∧
      (∀ c ∈ fraction, c.isDigit = true) ∧
      (cs = whole ∧ whole ≠ [] ∨
        cs = whole ++ '.' :: fraction ∧ (whole ≠ [] ∨ fraction ≠ [])) := by
  have happend := List.takeWhile_append_dropWhile (p := Char.isDigit) (l := cs)
  have hwhole : ∀ c ∈ cs.takeWhile Char.isDigit, c.isDigit = true :=
    fun c hc => List.mem_takeWhile_imp hc
  have hhead := List.head?_dropWhile_not Char.isDigit cs
  generalize cs.takeWhile Char.isDigit = whole at happend hwhole
  cases hd : cs.dropWhile Char.isDigit with
  | nil =>
      rw [hd, List.append_nil] at happend
      subst happend
      obtain ⟨c, hc, _⟩ := h.digit
      exact ⟨whole, [], hwhole, by simp, .inl ⟨rfl, List.ne_nil_of_mem hc⟩⟩
  | cons c fraction =>
      rw [hd] at happend hhead
      subst happend
      obtain rfl : c = '.' := by
        rcases h.only c (by simp) with hc | hc
        · simp [hc] at hhead
        · exact hc
      have hpoint := h.point
      rw [List.count_append, List.count_cons_self] at hpoint
      have hnone : '.' ∉ fraction := List.count_eq_zero.mp (by omega)
      have hfraction : ∀ d ∈ fraction, d.isDigit = true := by
        intro d hd
        rcases h.only d (by simp [hd]) with hdigit | rfl
        · exact hdigit
        · exact absurd hd hnone
      refine ⟨whole, fraction, hwhole, hfraction, .inr ⟨rfl, ?_⟩⟩
      obtain ⟨d, hd, hdigit⟩ := h.digit
      rw [List.mem_append, List.mem_cons] at hd
      rcases hd with hd | rfl | hd
      · exact .inl (List.ne_nil_of_mem hd)
      · cases hdigit
      · exact .inr (List.ne_nil_of_mem hd)

theorem takeWhile_isDigit {digits rest : List Char} (hd : ∀ c ∈ digits, c.isDigit = true)
    (hrest : ∀ c ∈ rest.head?, c.isDigit = false) :
    (digits ++ rest).takeWhile Char.isDigit = digits ∧
      (digits ++ rest).dropWhile Char.isDigit = rest := by
  rw [List.takeWhile_append_of_pos hd, List.dropWhile_append_of_pos hd]
  cases rest with
  | nil => simp
  | cons c tail =>
      have hc : c.isDigit = false := hrest c rfl
      simp [hc]

theorem takeWhile_isDigit_self {digits : List Char} (hd : ∀ c ∈ digits, c.isDigit = true) :
    digits.takeWhile Char.isDigit = digits ∧ digits.dropWhile Char.isDigit = [] := by
  have hnone : ∀ c ∈ ([] : List Char).head?, c.isDigit = false := by simp
  have hboth := takeWhile_isDigit hd hnone
  rwa [List.append_nil] at hboth

theorem isDigit_of_startsNumeral {c : Char} (h : Lexeme.startsNumeral c = false) :
    c.isDigit = false := by
  rw [Lexeme.startsNumeral, Bool.or_eq_false_iff] at h
  exact h.1

theorem lexeme_whole {whole rest : List Char} (hwhole : ∀ c ∈ whole, c.isDigit = true)
    (hrest : ∀ c ∈ rest.head?, Lexeme.startsNumeral c = false) :
    Lexeme.numeral (whole ++ rest) = (whole, rest) := by
  obtain ⟨htake, hdrop⟩ :=
    takeWhile_isDigit hwhole fun c hc => isDigit_of_startsNumeral (hrest c hc)
  unfold Lexeme.numeral
  rw [htake, hdrop]
  split
  · have hpoint := hrest '.' rfl
    cases hpoint
  · rfl

theorem lexeme_point {whole fraction rest : List Char} (hwhole : ∀ c ∈ whole, c.isDigit = true)
    (hfraction : ∀ c ∈ fraction, c.isDigit = true)
    (hrest : ∀ c ∈ rest.head?, c.isDigit = false) :
    Lexeme.numeral (whole ++ '.' :: fraction ++ rest) = (whole ++ '.' :: fraction, rest) := by
  have hpoint : ∀ c ∈ ('.' :: (fraction ++ rest)).head?, c.isDigit = false := by
    intro c hc
    obtain rfl : '.' = c := Option.some.inj hc
    rfl
  obtain ⟨htake, hdrop⟩ := takeWhile_isDigit hwhole hpoint
  obtain ⟨hmore, hafter⟩ := takeWhile_isDigit hfraction hrest
  rw [List.append_assoc, List.cons_append]
  unfold Lexeme.numeral
  rw [htake, hdrop]
  change (whole ++ '.' :: (fraction ++ rest).takeWhile Char.isDigit,
    (fraction ++ rest).dropWhile Char.isDigit) = _
  rw [hmore, hafter]

theorem exists_cons {cs : List Char} (h : Numeral cs) :
    ∃ c rest, cs = c :: rest ∧ Lexeme.startsNumeral c = true := by
  cases cs with
  | nil =>
      obtain ⟨c, hc, _⟩ := h.digit
      cases hc
  | cons c rest =>
      refine ⟨c, rest, rfl, ?_⟩
      rw [Lexeme.startsNumeral, Bool.or_eq_true, beq_iff_eq]
      exact h.only c (by simp)

theorem lexeme {cs : List Char} (h : Numeral cs) {rest : List Char}
    (hrest : ∀ c ∈ rest.head?, Lexeme.startsNumeral c = false) :
    Lexeme.numeral (cs ++ rest) = (cs, rest) := by
  obtain ⟨whole, fraction, hwhole, hfraction, ⟨rfl, _⟩ | ⟨rfl, _⟩⟩ := h.cases
  · exact lexeme_whole hwhole hrest
  · exact lexeme_point hwhole hfraction fun c hc => isDigit_of_startsNumeral (hrest c hc)

theorem exists_readDecimal {cs : List Char} (h : Numeral cs) :
    ∃ d, Number.readDecimal cs = some d := by
  obtain ⟨whole, fraction, hwhole, hfraction, ⟨rfl, hne⟩ | ⟨rfl, hne⟩⟩ := h.cases
  · obtain ⟨htake, hdrop⟩ := takeWhile_isDigit_self hwhole
    unfold Number.readDecimal
    rw [htake, hdrop]
    simp [hne, Number.readExponent]
  · have hpoint : ∀ c ∈ ('.' :: fraction).head?, c.isDigit = false := by
      intro c hc
      obtain rfl : '.' = c := Option.some.inj hc
      rfl
    obtain ⟨htake, hdrop⟩ := takeWhile_isDigit hwhole hpoint
    obtain ⟨hmore, hafter⟩ := takeWhile_isDigit_self hfraction
    have hboth : ¬(whole = [] ∧ fraction = []) := by
      rwa [not_and_or]
    unfold Number.readDecimal
    rw [htake, hdrop]
    simp [hmore, hafter, hboth, Number.readExponent]

/-- A numeral can be read, and with a sign in front it reads as the negated number. -/
theorem exists_read {cs : List Char} (h : Numeral cs) :
    ∃ x, Number.read? cs = some x ∧ Number.read? ('-' :: cs) = some (-x) := by
  obtain ⟨d, hd⟩ := h.exists_readDecimal
  have hmagnitude : ∃ x, Number.readMagnitude cs = some x := by
    unfold Number.readMagnitude
    dsimp only
    split
    · exact ⟨_, rfl⟩
    · split
      · exact ⟨_, rfl⟩
      · exact ⟨d.nearest, by rw [hd]; rfl⟩
  obtain ⟨x, hx⟩ := hmagnitude
  have hsign : Number.takeSign cs = (false, cs) := by
    unfold Number.takeSign
    split
    · rcases h.only '+' (by simp) with hc | hc
      · cases hc
      · cases hc
    · rcases h.only '-' (by simp) with hc | hc
      · cases hc
      · cases hc
    · rfl
  refine ⟨x, ?_, ?_⟩
  · rw [Number.read?, hsign]
    simp [hx]
  · rw [Number.read?]
    simp [Number.takeSign, hx]

end Numeral
end RuleSheet
