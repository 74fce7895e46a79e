import RuleSheet.Proofs.Token.Separator
import RuleSheet.Proofs.Token.Turn

/-!
# What the scanner sees of the text ahead

A lexeme ends where the text after it lets it end, and a minus sign and a function name look
at the character that follows. That is all the scanner sees of a text before it reads it.
So two texts that look the same in this respect can stand for each other: what stands
before them is scanned in the same way, up to the place where they begin.
-/
namespace RuleSheet

namespace Lexeme

theorem index?_cons_eq_none_iff {c : Char} {rest : List Char} :
    index? (c :: rest) = none ↔ c = '[' → rest.takeWhile Char.isDigit ≠ [] →
      (rest.dropWhile Char.isDigit).head? ≠ some ']' := by
  by_cases hc : c = '['
  · subst hc
    rw [index?]
    cases hd : rest.dropWhile Char.isDigit with
    | nil => simp
    | cons d after =>
        by_cases hclosing : d = ']'
        · subst hclosing
          simp
        · simp [hclosing]
  · simp only [hc, false_implies, iff_true]
    unfold index?
    split
    · rename_i heq
      exact absurd (List.cons.inj heq).1 hc
    · rfl

theorem exists_body_of_name {n after : List Char} (h : name (n ++ after) = (n, after)) :
    ∃ body digits, n = body ++ digits ∧ nameBody (n ++ after) = (body, digits ++ after) ∧
      digitsTaken body ((digits ++ after).takeWhile Char.isDigit)
        ((digits ++ after).takeWhile Char.isDigit).length = digits.length := by
  unfold name at h
  rcases hb : nameBody (n ++ after) with ⟨body, rest⟩
  rw [hb] at h
  dsimp only at h
  have hle := digitsTaken_le body (rest.takeWhile Char.isDigit)
    (rest.takeWhile Char.isDigit).length
  have hlength := hle.trans (List.takeWhile_prefix Char.isDigit).length_le
  generalize htaken : digitsTaken body _ _ = taken at h hlength
  obtain ⟨hn, hafter⟩ := Prod.mk.inj h
  have hrest : rest.take taken ++ after = rest := by rw [← hafter, List.take_append_drop]
  refine ⟨body, rest.take taken, hn.symm, by rw [hrest], ?_⟩
  rw [hrest, htaken, List.length_take, Nat.min_eq_left hlength]

/-- A lexeme that ends before one of the two texts ends before the other. A name, a member or
an index goes on in both or in none of them, the same digits come first, and so does the
same numeral, if any. -/
structure SameEnd (a b : List Char) : Prop where
  name : startsName a = startsName b
  body : nameBody a = ([], a) ↔ nameBody b = ([], b)
  digits : a.takeWhile Char.isDigit = b.takeWhile Char.isDigit
  bracket : (a.dropWhile Char.isDigit).head? = some ']' ↔
    (b.dropWhile Char.isDigit).head? = some ']'
  numeral : a.head?.filter startsNumeral = b.head?.filter startsNumeral

/-- The scanner cannot tell the two texts apart before it reads them. A function is called on
both or on none of them. -/
structure SameAhead (a b : List Char) : Prop extends SameEnd a b where
  opening : a.head? = some '(' ↔ b.head? = some '('

namespace SameEnd
variable {a b : List Char}

theorem cons (h : SameEnd a b) (c : Char) : SameAhead (c :: a) (c :: b) where
  name := rfl
  body := by
    rw [nameBody_eq_nil_iff, nameBody_eq_nil_iff, index?_cons_eq_none_iff,
      index?_cons_eq_none_iff, h.name, h.digits, ne_eq (a.dropWhile _).head?, h.bracket]
  digits := by rw [List.takeWhile_cons, List.takeWhile_cons, h.digits]
  bracket := by
    rw [List.dropWhile_cons, List.dropWhile_cons]
    split
    · exact h.bracket
    · rfl
  numeral := rfl
  opening := Iff.rfl

theorem append_left (h : SameEnd a b) (w : List Char) : SameEnd (w ++ a) (w ++ b) := by
  induction w with
  | nil => exact h
  | cons c rest ih => exact (ih.cons c).toSameEnd

/-- What goes on with no part of a name ends all lexemes. -/
theorem of_endsName (ha : EndsName a) (hb : EndsName b) : SameEnd a b := by
  have ends {cs : List Char} (h : EndsName cs) : startsName cs = false ∧
      nameBody cs = ([], cs) ∧ cs.takeWhile Char.isDigit = [] ∧
      (cs.dropWhile Char.isDigit).head? ≠ some ']' ∧ cs.head?.filter startsNumeral = none := by
    refine ⟨?_, nameBody_of_endsBody h.endsBody, takeWhile_isDigit_of_endsName h, ?_⟩
    · cases cs with
      | nil => rfl
      | cons c rest =>
          have hc := h c rfl
          simp only [isNamePart, Bool.or_eq_false_iff] at hc
          exact hc.1.1.1.1
    · cases cs with
      | nil => exact ⟨by simp, rfl⟩
      | cons c rest =>
          have hc := h c rfl
          simp only [isNamePart, Bool.or_eq_false_iff, beq_eq_false_iff_ne] at hc
          rw [List.dropWhile_cons_of_neg (by simp [hc.2])]
          exact ⟨by simpa using hc.1.2, by simp [startsNumeral, hc.2, hc.1.1.1.2]⟩
  obtain ⟨hname, hbody, hdigits, hbracket, hnumeral⟩ := ends ha
  obtain ⟨hname', hbody', hdigits', hbracket', hnumeral'⟩ := ends hb
  exact {
    name := hname.trans hname'.symm
    body := iff_of_true hbody hbody'
    digits := hdigits.trans hdigits'.symm
    bracket := iff_of_false hbracket hbracket'
    numeral := hnumeral.trans hnumeral'.symm }

theorem numeralBefore (h : SameEnd a b) {digits : List Char} (hd : NumeralBefore a digits) :
    NumeralBefore b digits := by
  refine hd.of_head fun c hc => ?_
  cases hs : startsNumeral c with
  | false => exact .inl rfl
  | true =>
      right
      have hb : b.head?.filter startsNumeral = some c := by
        rw [Option.mem_def.mp hc, Option.filter_some, if_pos hs]
      rw [← h.numeral, Option.filter_eq_some_iff] at hb
      exact hb.1

theorem nameBefore (h : SameEnd a b) {n : List Char} (hn : NameBefore a n) :
    NameBefore b n := by
  obtain ⟨body, digits, rfl, hbody, htaken⟩ := exists_body_of_name hn.lexeme
  refine ⟨hn.starts, ?_⟩
  have hahead := h.append_left digits
  have hrest : nameBody (digits ++ b) = ([], digits ++ b) := hahead.body.mp (nameBody_rest hbody)
  rw [List.append_assoc, Lexeme.name, nameBody_append_right (nameBody_self hbody) hrest]
  dsimp only
  rw [← hahead.digits, htaken, List.take_left, List.drop_left]

end SameEnd

namespace SameAhead
variable {a b : List Char}

theorem append_left (h : SameAhead a b) (w : List Char) : SameAhead (w ++ a) (w ++ b) := by
  induction w with
  | nil => exact h
  | cons c rest ih => exact ih.toSameEnd.cons c

/-- What comes after a first character that is no digit, point or bracket is not seen. -/
theorem of_head {c : Char} (hdigit : c.isDigit = false) (hpoint : c ≠ '.') (hbracket : c ≠ '[')
    (x y : List Char) : SameAhead (c :: x) (c :: y) where
  name := rfl
  body := by
    simp [nameBody_eq_nil_iff, index?_cons_eq_none_iff, hpoint, hbracket]
  digits := by simp [hdigit]
  bracket := by simp [hdigit]
  numeral := rfl
  opening := Iff.rfl

theorem of_isNameChar {c : Char} (hc : isNameChar c = true) (x y : List Char) :
    SameAhead (c :: x) (c :: y) := by
  have hnumeral := startsNumeral_of_isNameChar hc
  rw [startsNumeral, Bool.or_eq_false_iff, beq_eq_false_iff_ne] at hnumeral
  refine of_head hnumeral.1 hnumeral.2 ?_ x y
  rintro rfl
  exact absurd hc (by decide +kernel)

theorem of_separator {c : Char} (hc : isNamePart c = false) (x y : List Char) :
    SameAhead (c :: x) (c :: y) := by
  simp only [isNamePart, Bool.or_eq_false_iff, beq_eq_false_iff_ne] at hc
  exact of_head hc.2 hc.1.1.1.2 hc.1.1.2 x y

theorem nil_closing (rest : List Char) : SameAhead [] (')' :: rest) where
  toSameEnd := .of_endsName (by simp [EndsName]) (endsName_cons (by decide +kernel) rest)
  opening := by simp

/-- The last characters of a numeral with a digit in it look the same, whatever goes on with
neither a numeral nor an index. -/
theorem digit_append {d : Char} (hd : d.isDigit = true) {point : List Char}
    (hpoint : point = [] ∨ point = ['.']) {rest : List Char}
    (hrest : ∀ c ∈ rest.head?, startsNumeral c = false ∧ c ≠ ']') :
    SameAhead (d :: point) (d :: (point ++ rest)) := by
  have hname : isNameChar d = false := isNameChar_of_isDigit hd
  have hdot : d ≠ '.' := by
    rintro rfl
    cases hd
  have hbracket : d ≠ '[' := by
    rintro rfl
    cases hd
  have hhead : ∀ c ∈ (point ++ rest).head?, c.isDigit = false ∧ c ≠ ']' := by
    intro c hc
    rcases hpoint with rfl | rfl
    · obtain ⟨hnumeral, hne⟩ := hrest c hc
      exact ⟨Numeral.isDigit_of_startsNumeral hnumeral, hne⟩
    · obtain rfl : '.' = c := Option.some.inj hc
      decide
  have hdigits : (point ++ rest).takeWhile Char.isDigit = [] ∧
      (point ++ rest).dropWhile Char.isDigit = point ++ rest := by
    cases hp : point ++ rest with
    | nil => exact ⟨rfl, rfl⟩
    | cons c tail =>
        rw [hp] at hhead
        simp [(hhead c rfl).1]
  have hpointed : point.takeWhile Char.isDigit = [] ∧
      (point.dropWhile Char.isDigit).head? ≠ some ']' := by
    rcases hpoint with rfl | rfl
    · exact ⟨rfl, by simp⟩
    · exact ⟨rfl, by decide⟩
  exact {
    name := rfl
    body := by
      simp [nameBody_eq_nil_iff, index?_cons_eq_none_iff, hname, hdot, hbracket]
    digits := by simp [hd, hdigits.1, hpointed.1]
    bracket := by
      rw [List.dropWhile_cons_of_pos hd, List.dropWhile_cons_of_pos hd, hdigits.2]
      refine iff_of_false hpointed.2 fun hc => ?_
      exact (hhead ']' hc).2 rfl
    numeral := rfl
    opening := Iff.rfl }

/-- A numeral looks the same before everything that goes on with neither a numeral nor an
index. -/
theorem of_numeral {cs : List Char} (h : Numeral cs) {rest : List Char}
    (hrest : ∀ c ∈ rest.head?, startsNumeral c = false ∧ c ≠ ']') :
    SameAhead cs (cs ++ rest) := by
  have last {digits : List Char} (hall : ∀ c ∈ digits, c.isDigit = true) (hne : digits ≠ [])
      {point : List Char} (hpoint : point = [] ∨ point = ['.']) :
      SameAhead (digits ++ point) (digits ++ (point ++ rest)) := by
    obtain ⟨before, d, rfl⟩ : ∃ before d, digits = before ++ [d] :=
      ⟨_, _, (List.dropLast_concat_getLast hne).symm⟩
    rw [List.append_assoc, List.append_assoc]
    exact (digit_append (hall d (by simp)) hpoint hrest).append_left before
  obtain ⟨whole, fraction, hwhole, hfraction, ⟨rfl, hne⟩ | ⟨rfl, hne⟩⟩ := h.cases
  · have hlast := last hwhole hne (.inl rfl)
    rwa [List.append_nil] at hlast
  · by_cases hf : fraction = []
    · subst hf
      rw [List.append_assoc]
      exact last hwhole (hne.resolve_right fun h => h rfl) (.inr rfl)
    · have hlast := (last hfraction hf (.inl rfl)).append_left (whole ++ ['.'])
      rw [List.append_nil] at hlast
      simpa using hlast

end SameAhead
end Lexeme

namespace Scan
open Lexeme

/-- Scanning the first text from the first state takes whole lexemes and comes to the second
state, where the second text is left. -/
inductive Reads : Scan → List Char → Scan → List Char → Prop
  | refl (s : Scan) (cs : List Char) : Reads s cs s cs
  | step {s s' : Scan} {c : Char} {cs rest : List Char} :
      Reads (s.step c cs).1 (s.step c cs).2 s' rest → Reads s (c :: cs) s' rest

namespace Reads
variable {s s' : Scan} {cs rest : List Char}

theorem run (h : Reads s cs s' rest) : s.run cs = s'.run rest := by
  induction h with
  | refl => rfl
  | step _ ih => rw [run_cons, ih]

theorem suffix (h : Reads s cs s' rest) : rest <:+ cs := by
  induction h with
  | refl => exact List.suffix_rfl
  | @step s s' c cs rest _ ih =>
      obtain ⟨taken, htext, -⟩ := turns_step s c cs
      rw [htext]
      exact ih.trans (List.suffix_append _ _)

theorem trans {s'' : Scan} {last : List Char} (h : Reads s cs s' rest)
    (hnext : Reads s' rest s'' last) : Reads s cs s'' last := by
  induction h with
  | refl => exact hnext
  | step _ ih => exact .step (ih hnext)

theorem step_induction {P : Scan → List Char → Prop}
    (hstep : ∀ s c rest, P s (c :: rest) → P (s.step c rest).1 (s.step c rest).2)
    (h : Reads s cs s' rest) (hs : P s cs) : P s' rest := by
  induction h with
  | refl => exact hs
  | @step s s' c cs rest _ ih => exact ih (hstep s c cs hs)

/-- What every turn keeps holds wherever scanning comes. -/
theorem induction {P : Scan → List Char → Prop}
    (hturn : ∀ {s s' taken after}, Turn s after taken s' → P s (taken ++ after) → P s' after)
    (h : Reads s cs s' rest) (hs : P s cs) : P s' rest := by
  refine h.step_induction (fun s c rest hs => ?_) hs
  obtain ⟨taken, htext, ht⟩ := turns_step s c rest
  exact hturn ht (htext ▸ hs)

theorem suffix_tokens (h : Reads s cs s' rest) : s.tokens <:+ s'.tokens :=
  h.induction (P := fun s' _ => s.tokens <:+ s'.tokens) (fun ht hs => hs.trans ht.suffix)
    List.suffix_rfl

end Reads

theorem reads_run (s : Scan) (cs : List Char) : Reads s cs (s.run cs) [] := by
  fun_induction run s cs with
  | case1 s => exact .refl s []
  | case2 s c rest _ ih => exact .step ih

/-- What a minus sign does depends on whether a numeral, a group or a name follows. -/
theorem minus_eq (s : Scan) (rest : List Char) :
    let negating (s : Scan) := (s.push (.number "-1")).push (.operator .multiply)
    s.minus rest =
      if (rest.head?.filter startsNumeral).isSome then s.numeral ['-'] rest
      else if rest.head? = some '(' ∨ startsName rest = true then
        ((negating s.openGroup).owe, rest)
      else (negating s, rest) := by
  cases rest with
  | nil => rfl
  | cons c more => simp [minus, startsName, Option.filter_some]

/-! A step that leaves one text does the same before another text that looks like it. -/

section
variable {a b : List Char} (h : SameAhead a b)
include h

theorem numeral_ahead {c : Char} (hc : startsNumeral c = true) {w sign : List Char} {s : Scan}
    (hs : (s.numeral sign (c :: (w ++ a))).2 = a) :
    s.numeral sign (c :: (w ++ b)) = ((s.numeral sign (c :: (w ++ a))).1, b) := by
  have hl := numeralBefore hc (w ++ a)
  have happend := numeral_append (c :: (w ++ a))
  have hrest : (Lexeme.numeral (c :: (w ++ a))).2 = a := hs
  rw [hrest] at hl happend
  have hdigits : (Lexeme.numeral (c :: (w ++ a))).1 = c :: w :=
    List.append_cancel_right (happend.trans List.cons_append.symm)
  rw [hdigits] at hl
  rw [← List.cons_append, ← List.cons_append, numeral_of_before hl,
    numeral_of_before (h.numeralBefore hl)]

theorem name_ahead {c : Char} (hc : isNameChar c = true) {w : List Char} {s : Scan}
    (hs : (s.name (c :: (w ++ a))).2 = a) :
    s.name (c :: (w ++ b)) = ((s.name (c :: (w ++ a))).1, b) := by
  have hl := nameBefore hc (w ++ a)
  have happend := name_append (c :: (w ++ a))
  have hrest : (Lexeme.name (c :: (w ++ a))).2 = a := (rest_name s _).symm.trans hs
  rw [hrest] at hl happend
  have hn : (Lexeme.name (c :: (w ++ a))).1 = c :: w :=
    List.append_cancel_right (happend.trans List.cons_append.symm)
  rw [hn] at hl
  rw [← List.cons_append, ← List.cons_append, name, name, hl.lexeme,
    (h.nameBefore hl).lexeme]
  simp only [h.opening]
  split <;> rfl

theorem minus_ahead {w : List Char} {s : Scan} (hs : (s.minus (w ++ a)).2 = a) :
    s.minus (w ++ b) = ((s.minus (w ++ a)).1, b) := by
  have hahead := h.append_left w
  rw [minus_eq, ← hahead.numeral, ← hahead.name]
  simp only [← hahead.opening]
  rw [minus_eq] at hs ⊢
  dsimp only at hs ⊢
  split at hs
  · rename_i hnumeral
    rw [if_pos hnumeral, if_pos hnumeral]
    obtain ⟨c, hfirst⟩ := Option.isSome_iff_exists.mp hnumeral
    obtain ⟨hhead, hc⟩ := Option.filter_eq_some_iff.mp hfirst
    cases w with
    | nil =>
        obtain ⟨tail, rfl⟩ := List.head?_eq_some_iff.mp hhead
        have hlength : (Lexeme.numeral (c :: tail)).2.length ≤ tail.length := numeral_length hc
        have hrest : (Lexeme.numeral (c :: tail)).2 = c :: tail := hs
        rw [hrest] at hlength
        exact absurd hlength (Nat.not_succ_le_self _)
    | cons d more =>
        obtain rfl : d = c := Option.some.inj hhead
        exact numeral_ahead h hc hs
  · rename_i hnumeral
    rw [if_neg hnumeral, if_neg hnumeral]
    split at hs
    · rename_i hgroup
      obtain rfl : w = [] := List.append_left_eq_self.mp hs
      rw [if_pos hgroup, if_pos hgroup]
      rfl
    · rename_i hgroup
      obtain rfl : w = [] := List.append_left_eq_self.mp hs
      rw [if_neg hgroup, if_neg hgroup]
      rfl

theorem operator_ahead {op : Operator} {w : List Char} {s : Scan}
    (hs : (s.operator op (w ++ a)).2 = a) :
    s.operator op (w ++ b) = ((s.operator op (w ++ a)).1, b) := by
  unfold operator at *
  split at hs
  · rename_i hminus
    rw [if_pos hminus, if_pos hminus]
    exact minus_ahead h hs
  · rename_i hminus
    rw [if_neg hminus, if_neg hminus]
    split at hs
    · rename_i hplus
      obtain rfl : w = [] := List.append_left_eq_self.mp hs
      rw [if_pos hplus, if_pos hplus]
      rfl
    · rename_i hplus
      obtain rfl : w = [] := List.append_left_eq_self.mp hs
      rw [if_neg hplus, if_neg hplus]
      rfl

theorem step_ahead {c : Char} {w : List Char} {s : Scan} (hs : (s.step c (w ++ a)).2 = a) :
    s.step c (w ++ b) = ((s.step c (w ++ a)).1, b) := by
  have single {t : Scan} (hw : w ++ a = a) : (t, w ++ b) = (t, b) := by
    obtain rfl : w = [] := List.append_left_eq_self.mp hw
    rfl
  unfold step at *
  split at hs
  · rename_i hc
    rw [if_pos hc, if_pos hc]
    exact numeral_ahead h hc hs
  rename_i hnumeral
  rw [if_neg hnumeral, if_neg hnumeral]
  split at hs
  · rename_i hc
    rw [if_pos hc, if_pos hc]
    exact name_ahead h hc hs
  rename_i hname
  rw [if_neg hname, if_neg hname]
  split at hs
  · rename_i hc
    rw [if_pos hc, if_pos hc]
    exact single hs
  rename_i hopening
  rw [if_neg hopening, if_neg hopening]
  split at hs
  · rename_i hc
    rw [if_pos hc, if_pos hc]
    exact single hs
  rename_i hclosing
  rw [if_neg hclosing, if_neg hclosing]
  cases hop : Operator.ofChar? c with
  | some op =>
      rw [hop] at hs
      exact operator_ahead h hs
  | none =>
      rw [hop] at hs
      exact single hs

end

/-- What is scanned before one text is scanned in the same way before another that looks like
it. -/
theorem Reads.ahead {a b : List Char} (h : SameAhead a b) {s s' : Scan} {w : List Char}
    (hr : Reads s (w ++ a) s' a) : Reads s (w ++ b) s' b := by
  generalize hcs : w ++ a = cs at hr
  induction hr generalizing w with
  | refl s a =>
      obtain rfl : w = [] := List.append_left_eq_self.mp hcs
      exact .refl s b
  | @step s s' c cs a hr ih =>
      obtain ⟨u, hu⟩ := hr.suffix
      obtain ⟨lexeme, htext, -⟩ := turns_step s c cs
      rw [← hu, ← hcs, ← List.append_assoc] at htext
      obtain rfl := List.append_cancel_right htext
      have hlength := step_length s c cs
      rw [← hu] at hlength
      cases lexeme with
      | nil =>
          have hsame := congrArg List.length hcs
          simp only [List.nil_append, List.length_cons] at hsame
          omega
      | cons d taken =>
          have hcs : d :: (taken ++ u ++ a) = c :: cs := hcs
          obtain ⟨rfl, rfl⟩ := List.cons.inj hcs
          have hstep := step_ahead (h.append_left u) (w := taken) (s := s) (c := d)
          rw [← List.append_assoc, ← List.append_assoc] at hstep
          change Reads s (d :: (taken ++ u ++ b)) s' b
          refine .step ?_
          rw [hstep hu.symm]
          exact ih h hu

theorem Reads.append {s s' : Scan} {cs last rest : List Char} (hr : Reads s cs s' last)
    (h : SameAhead last (last ++ rest)) : Reads s (cs ++ rest) s' (last ++ rest) := by
  obtain ⟨w, rfl⟩ := hr.suffix
  rw [List.append_assoc]
  exact hr.ahead h

theorem run_append_closing (s : Scan) (cs rest : List Char) :
    s.run (cs ++ ')' :: rest) = (s.run cs).run (')' :: rest) :=
  ((reads_run s cs).append (.nil_closing rest)).run

end Scan
end RuleSheet
