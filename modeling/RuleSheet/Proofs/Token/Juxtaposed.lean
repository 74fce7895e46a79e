import RuleSheet.Proofs.Token.Lookahead
import RuleSheet.Proofs.Token.Written

/-!
# Operands side by side

Where one operand follows another, the scanner multiplies them. It does the same as for a
written multiplication sign: the lexeme before it ends in the same place and closes the same
groups, and the operand after it begins in the same way. So the sign may be put in wherever
a numeral, a name or a closing parenthesis ends, in the middle of any text.
-/
namespace RuleSheet

namespace Token
open Lexeme Text

theorem exists_normalize_of_isNameChar {c : Char} (hc : isNameChar c = true) (rest : List Char) :
    ∃ d more, normalize (c :: rest) = d :: more ∧ isNameChar d = true := by
  have hvisible : isBlank c = false := isBlank_of_isNamePart (by simp [isNamePart, hc])
  rw [isNameChar, Bool.or_eq_true, beq_iff_eq] at hc
  have hlower : ∃ d more, lowerChar c = d :: more ∧ isNameChar d = true := by
    rcases hc with hletter | rfl
    · obtain ⟨d, more, hd, hname⟩ := exists_lowerChar_of_isLetter hletter
      exact ⟨d, more, hd, by simp [isNameChar, hname]⟩
    · exact ⟨'_', [], by decide +kernel, by decide +kernel⟩
  obtain ⟨d, more, hd, hname⟩ := hlower
  refine ⟨d, more ++ normalize rest, ?_, hname⟩
  rw [← List.cons_append, ← hd, normalize, dropBlanks, List.filter_cons_of_pos (by simp [hvisible]),
    lowerChars, List.flatMap_cons]
  rfl

end Token

namespace Scan
open Lexeme

/-- The text is the last lexeme before an operand that begins with the character `c` and is
multiplied by what stands before it. -/
inductive Multiplied (s : Scan) : List Char → Char → Prop
  | numeral {digits : List Char} {c : Char} (h : Numeral digits)
      (hc : c = '(' ∨ isNameChar c = true) : Multiplied s digits c
  | negative {digits : List Char} {c : Char} (he : s.expectsOperand = true) (h : Numeral digits)
      (hc : c = '(' ∨ isNameChar c = true) : Multiplied s ('-' :: digits) c
  | symbol {n : String} (hn : Builtin.isName n = false) (hl : NameBefore [] n.toList) :
      Multiplied s n.toList '('
  | closing {c : Char} (hc : c = '(' ∨ isNameChar c = true ∨ startsNumeral c = true) :
      Multiplied s [')'] c

/-- What is multiplied after an operand is multiplied after the groups that end with it. -/
theorem multiplies_settle {tokens : List Token} {numeral : Bool}
    (h : multiplies tokens.head? numeral = true) (depth : Int) (closers : List Int) :
    multiplies (settle tokens depth closers).tokens.head? numeral = true := by
  induction closers generalizing tokens depth with
  | nil => exact h
  | cons d rest ih =>
      rw [settle]
      split
      · exact ih rfl (depth - 1)
      · exact h

theorem step_multiplied {s : Scan} {c : Char}
    (hc : c = '(' ∨ isNameChar c = true ∨ startsNumeral c = true)
    (hm : multiplies s.tokens.head? (startsNumeral c) = true) (rest : List Char) :
    (s.push (.operator .multiply)).step c rest = s.step c rest := by
  have hstart : (s.push (.operator .multiply)).operandStart (startsNumeral c) =
      s.operandStart (startsNumeral c) := by
    rw [operandStart_of_expectsOperand rfl, operandStart, if_pos hm]
  rcases hc with rfl | hname | hnumeral
  · have hnumeral : startsNumeral '(' = false := by decide
    rw [hnumeral] at hstart
    rw [step_opening, step_opening, hstart]
  · rw [startsNumeral_of_isNameChar hname] at hstart
    rw [step_name hname, step_name hname, name, name, hstart]
  · rw [hnumeral] at hstart
    rw [step, step, if_pos hnumeral, if_pos hnumeral, numeral, numeral, hstart]

theorem run_multiplied {s : Scan} {c : Char}
    (hc : c = '(' ∨ isNameChar c = true ∨ startsNumeral c = true)
    (hm : multiplies s.tokens.head? (startsNumeral c) = true) (rest : List Char) :
    s.run (c :: rest) = s.run ('*' :: c :: rest) := by
  have hsign : s.step '*' (c :: rest) = (s.push (.operator .multiply), c :: rest) :=
    step_operator rfl (by simp) (c :: rest)
  rw [run_cons s '*', hsign, run_cons, run_cons, step_multiplied hc hm]

namespace Multiplied
variable {s : Scan} {last : List Char} {c : Char}

theorem starts (h : s.Multiplied last c) :
    c = '(' ∨ isNameChar c = true ∨ startsNumeral c = true := by
  cases h with
  | numeral _ hc => exact hc.imp_right .inl
  | negative _ _ hc => exact hc.imp_right .inl
  | symbol => exact .inl rfl
  | closing hc => exact hc

theorem startsNumeral_eq_false {c : Char} (hc : c = '(' ∨ isNameChar c = true) :
    startsNumeral c = false := by
  rcases hc with rfl | hc
  · decide
  · exact startsNumeral_of_isNameChar hc

theorem exists_normalize (h : s.Multiplied last c) (rest : List Char) :
    ∃ d more, Token.normalize (c :: rest) = d :: more ∧ s.Multiplied last d := by
  have hopening : Token.normalize ('(' :: rest) = '(' :: Token.normalize rest :=
    Token.normalize_cons_of_lt (by decide) (by decide) rest
  have operand {c : Char} (hc : c = '(' ∨ isNameChar c = true) :
      ∃ d more, Token.normalize (c :: rest) = d :: more ∧ (d = '(' ∨ isNameChar d = true) := by
    rcases hc with rfl | hc
    · exact ⟨'(', _, hopening, .inl rfl⟩
    · obtain ⟨d, more, hd, hname⟩ := Token.exists_normalize_of_isNameChar hc rest
      exact ⟨d, more, hd, .inr hname⟩
  cases h with
  | numeral h hc =>
      obtain ⟨d, more, hd, hstarts⟩ := operand hc
      exact ⟨d, more, hd, .numeral h hstarts⟩
  | negative he h hc =>
      obtain ⟨d, more, hd, hstarts⟩ := operand hc
      exact ⟨d, more, hd, .negative he h hstarts⟩
  | symbol hn hl => exact ⟨'(', _, hopening, .symbol hn hl⟩
  | closing hc =>
      rcases hc with rfl | hc | hnumeral
      · exact ⟨'(', _, hopening, .closing (.inl rfl)⟩
      · obtain ⟨d, more, hd, hname⟩ := Token.exists_normalize_of_isNameChar hc rest
        exact ⟨d, more, hd, .closing (.inr (.inl hname))⟩
      · have hbounds : ' '.toNat < c.toNat ∧ c.toNat < 'A'.toNat := by
          rw [startsNumeral, Bool.or_eq_true, beq_iff_eq] at hnumeral
          rcases hnumeral with hdigit | rfl
          · have hrange := Char.isDigit_iff_toNat.mp hdigit
            exact ⟨Nat.lt_of_lt_of_le (by decide) hrange.1,
              Nat.lt_of_le_of_lt hrange.2 (by decide)⟩
          · decide
        exact ⟨c, _, Token.normalize_cons_of_lt hbounds.1 hbounds.2 rest,
          .closing (.inr (.inr hnumeral))⟩

theorem sameAhead (h : s.Multiplied last c) {d : Char} (hd : d = c ∨ d = '*')
    (rest : List Char) : SameAhead last (last ++ d :: rest) := by
  have numeral {digits : List Char} (hdigits : Numeral digits)
      (hc : c = '(' ∨ isNameChar c = true) : SameAhead digits (digits ++ d :: rest) := by
    refine .of_numeral hdigits fun e he => ?_
    obtain rfl : d = e := Option.some.inj he
    rcases hd with rfl | rfl
    · refine ⟨startsNumeral_eq_false hc, ?_⟩
      rintro rfl
      exact absurd hc (by decide +kernel)
    · decide
  cases h with
  | numeral hdigits hc => exact numeral hdigits hc
  | negative he hdigits hc => exact (numeral hdigits hc).cons '-'
  | symbol hn hl =>
      obtain ⟨first, more, hname, hfirst⟩ := exists_cons_of_startsName hl.starts
      rw [hname]
      exact .of_isNameChar hfirst more (more ++ d :: rest)
  | closing hc => exact .of_separator (by decide +kernel) [] (d :: rest)

/-- After the lexeme the operand is multiplied, and a written sign has come to the same. -/
theorem run_eq (h : s.Multiplied last c) (rest : List Char) :
    s.run (last ++ c :: rest) = s.run (last ++ '*' :: c :: rest) := by
  have hsign : ∀ e ∈ ('*' :: c :: rest).head?, startsNumeral e = false := by
    intro e he
    obtain rfl : '*' = e := Option.some.inj he
    decide
  have numeral (hc : c = '(' ∨ isNameChar c = true) :
      ∀ e ∈ (c :: rest).head?, startsNumeral e = false := by
    simpa using startsNumeral_eq_false hc
  have hstarts := h.starts
  cases h with
  | numeral hdigits hc =>
      rw [run_numeral (numeralBefore_of_numeral hdigits (numeral hc)),
        run_numeral (numeralBefore_of_numeral hdigits hsign)]
      refine run_multiplied hstarts (multiplies_settle ?_ _ _) rest
      simp [push, multiplies, startsNumeral_eq_false hc]
  | negative he hdigits hc =>
      rw [List.cons_append, List.cons_append,
        run_negative (numeralBefore_of_numeral hdigits (numeral hc)) he,
        run_negative (numeralBefore_of_numeral hdigits hsign) he]
      refine run_multiplied hstarts (multiplies_settle ?_ _ _) rest
      simp [push, multiplies, startsNumeral_eq_false hc]
  | @symbol n hn hl =>
      have hbefore {sep : Char} (hsep : isNamePart sep = false) (rest : List Char) :
          NameBefore (sep :: rest) n.toList :=
        NameBefore.separator (w := []) (r := []) hsep hl (by rwa [String.ofList_toList]) rest
      rw [run_symbol hn (hbefore (by decide +kernel) rest),
        run_symbol hn (hbefore (by decide +kernel) ('(' :: rest))]
      refine run_multiplied hstarts (multiplies_settle ?_ _ _) rest
      simp [push, multiplies, hn]
  | closing hc =>
      rw [List.singleton_append, List.singleton_append, run_cons, run_cons, step_closing,
        step_closing]
      exact run_multiplied hstarts (multiplies_settle rfl _ _) rest

end Multiplied
end Scan

namespace Token
open Lexeme

/-- If the last lexeme of a text ends an operand that is multiplied by what begins with `c`,
then a multiplication sign may be written between the two, whatever comes before that lexeme
and after `c`. -/
theorem scan_juxtaposed {u v : List Char} {s : Scan} {last : List Char} {c : Char}
    (hu : Scan.Reads .start (normalize u) s last) (hv : v.head? = some c)
    (h : s.Multiplied last c) (autoBalance : Bool) :
    scan autoBalance (u ++ v) = scan autoBalance (u ++ '*' :: v) := by
  obtain ⟨more, rfl⟩ := List.head?_eq_some_iff.mp hv
  obtain ⟨d, rest, hnormal, hd⟩ := h.exists_normalize more
  have hrun : Scan.start.run (normalize (u ++ c :: more)) =
      Scan.start.run (normalize (u ++ '*' :: c :: more)) := by
    have hsign : normalize ('*' :: c :: more) = '*' :: normalize (c :: more) :=
      normalize_cons_of_lt (by decide) (by decide) _
    rw [normalize_append, normalize_append, hsign, hnormal,
      (hu.append (hd.sameAhead (.inl rfl) rest)).run,
      (hu.append (hd.sameAhead (.inr rfl) (d :: rest))).run]
    exact hd.run_eq rest
  rw [scan, scan, ofNormal, ofNormal, hrun]

/-- The lexeme before the sign ends the operand that the function has taken. -/
theorem scan_juxtaposed_captured :
    Scan.Reads .start (normalize "abs -2".toList) ⟨[.opening, .name "abs"], 1, [1]⟩ "-2".toList ∧
      Scan.Multiplied ⟨[.opening, .name "abs"], 1, [1]⟩ "-2".toList '(' ∧
      scan true ("abs -2".toList ++ "(x".toList) =
        scan true ("abs -2".toList ++ '*' :: "(x".toList) := by
  have htext : normalize "abs -2".toList = 'a' :: "bs-2".toList := by decide +kernel
  have hstep : Scan.start.step 'a' "bs-2".toList =
      (⟨[.opening, .name "abs"], 1, [1]⟩, "-2".toList) := by
    decide +kernel
  have hreads : Scan.Reads .start (normalize "abs -2".toList)
      ⟨[.opening, .name "abs"], 1, [1]⟩ "-2".toList := by
    rw [htext]
    refine .step ?_
    rw [hstep]
    exact .refl _ _
  have hdigits : Numeral ['2'] :=
    ⟨⟨'2', .head _, rfl⟩, List.forall_mem_singleton.mpr (.inl rfl), by decide⟩
  have hlast : Scan.Multiplied ⟨[.opening, .name "abs"], 1, [1]⟩ "-2".toList '(' :=
    .negative rfl hdigits (.inl rfl)
  exact ⟨hreads, hlast, scan_juxtaposed hreads rfl hlast true⟩

end Token
end RuleSheet
