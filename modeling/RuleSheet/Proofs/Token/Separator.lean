import RuleSheet.Proofs.Number.Numeral
import RuleSheet.Proofs.Token.Lexeme

/-!
# Lexemes before a separator

A separator is a character that cannot stand in a name, such as a sign or a parenthesis.
What stands before a separator is read in the same way whatever comes after it, and where
a numeral or a name ended before a text, it ends before the same text with a separator
put into it or after it.
-/
namespace RuleSheet.Lexeme
open Text

/-! A lexeme by itself, and what is left after it. -/

theorem index?_self {cs segment after : List Char} (h : index? cs = some (segment, after)) :
    index? segment = some (segment, []) := by
  obtain ⟨digits, hne, hdigits, hsegment, _⟩ := index?_eq_some_iff.mp h
  exact index?_eq_some_iff.mpr ⟨digits, hne, hdigits, hsegment, (List.append_nil _).symm⟩

theorem startsName_of_nameBody {cs n after : List Char} (h : nameBody cs = (n, after))
    (hs : startsName cs = true) : startsName n = true := by
  cases cs with
  | nil => cases hs
  | cons c rest =>
      have hc : isNameChar c = true := hs
      rw [nameBody, if_pos (by simp [hc])] at h
      obtain ⟨rfl, _⟩ := Prod.mk.inj h
      exact hs

theorem nameBody_self {cs n after : List Char} (h : nameBody cs = (n, after)) :
    nameBody n = (n, []) := by
  fun_induction nameBody cs generalizing n with
  | case1 =>
      obtain ⟨rfl, _⟩ := Prod.mk.inj h
      rw [nameBody]
  | case2 c rest hc body tail he ih =>
      obtain ⟨rfl, rfl⟩ := Prod.mk.inj h
      have hc' : (isNameChar c || (c == '.' && startsName body)) = true := by
        rw [Bool.or_eq_true, Bool.and_eq_true] at hc ⊢
        exact hc.imp_right (And.imp_right (startsName_of_nameBody he))
      rw [nameBody, if_pos hc', ih he]
  | case3 c rest hc segment more hi _ body tail he ih =>
      obtain ⟨rfl, rfl⟩ := Prod.mk.inj h
      rw [nameBody_index (index?_append_right (index?_self hi) body), List.nil_append, ih he]
  | case4 =>
      obtain ⟨rfl, _⟩ := Prod.mk.inj h
      rw [nameBody]

theorem nameBody_rest {cs n after : List Char} (h : nameBody cs = (n, after)) :
    nameBody after = ([], after) := by
  fun_induction nameBody cs generalizing n with
  | case1 =>
      obtain ⟨_, rfl⟩ := Prod.mk.inj h
      rw [nameBody]
  | case2 c rest hc body tail he ih =>
      obtain ⟨_, rfl⟩ := Prod.mk.inj h
      exact ih he
  | case3 c rest hc segment more hi _ body tail he ih =>
      obtain ⟨_, rfl⟩ := Prod.mk.inj h
      exact ih he
  | case4 c rest hc hi =>
      obtain ⟨_, rfl⟩ := Prod.mk.inj h
      rw [nameBody, if_neg hc]
      split
      · rename_i hs
        rw [hi] at hs
        cases hs
      · rfl

/-- No name begins with this character: neither by itself nor with an index. -/
theorem nameBody_eq_nil_iff {c : Char} {rest : List Char} :
    nameBody (c :: rest) = ([], c :: rest) ↔
      (isNameChar c || (c == '.' && startsName rest)) = false ∧ index? (c :: rest) = none := by
  constructor
  · intro h
    constructor
    · rw [Bool.eq_false_iff]
      intro hc
      rw [nameBody, if_pos hc] at h
      cases (Prod.mk.inj h).1
    · cases hi : index? (c :: rest) with
      | none => rfl
      | some found =>
          obtain ⟨segment, tail⟩ := found
          rw [nameBody_index hi] at h
          obtain ⟨rfl, _⟩ := List.append_eq_nil_iff.mp (Prod.mk.inj h).1
          cases index?_self hi
  · rintro ⟨hc, hi⟩
    rw [nameBody, if_neg (by simp [hc])]
    split
    · rename_i hs
      rw [hi] at hs
      cases hs
    · rfl

theorem digitsTaken_ne_zero {body digits : List Char} {count taken : Nat} (hpos : taken ≠ 0)
    (hle : taken ≤ count)
    (hn : Builtin.isName (String.ofList (body ++ digits.take taken)) = true) :
    digitsTaken body digits count ≠ 0 := by
  induction count with
  | zero => omega
  | succ count ih =>
      rw [digitsTaken]
      split
      · exact Nat.succ_ne_zero count
      · rename_i hnot
        refine ih (Nat.le_of_lt_succ (Nat.lt_of_le_of_ne hle ?_))
        rintro rfl
        exact hnot hn

/-- A name that is not the name of a function is its body, if no digits after it would make
it one. -/
theorem name_eq_iff {cs n rest : List Char} (h : nameBody cs = (n, rest))
    (hn : Builtin.isName (String.ofList n) = false) :
    name cs = (n, rest) ↔
      digitsTaken n (rest.takeWhile Char.isDigit) (rest.takeWhile Char.isDigit).length = 0 := by
  unfold name
  rw [h]
  dsimp only
  constructor
  · intro heq
    by_contra hne
    have hname := isName_of_digitsTaken hne
    rw [← take_eq_take_takeWhile (digitsTaken_le _ _ _), (Prod.mk.inj heq).1, hn] at hname
    cases hname
  · intro hzero
    rw [hzero, List.take_zero, List.append_nil, List.drop_zero]

/-- A numeral is the same one before another text, if that begins in the same way or with
neither a digit nor a point. -/
theorem NumeralBefore.of_head {digits after rest : List Char} (h : NumeralBefore after digits)
    (hrest : ∀ c ∈ rest.head?, startsNumeral c = false ∨ after.head? = some c) :
    NumeralBefore rest digits := by
  refine ⟨h.starts, ?_⟩
  have hlexeme := h.lexeme
  have htakeWhile (cs : List Char) : ∀ c ∈ cs.takeWhile Char.isDigit, c.isDigit = true :=
    fun c hc => List.mem_takeWhile_imp hc
  have hdropWhile (cs : List Char) {c : Char} (hc : (cs.dropWhile Char.isDigit).head? = some c) :
      c.isDigit = false := by
    have hhead := List.head?_dropWhile_not Char.isDigit cs
    rw [hc] at hhead
    exact hhead
  have hwhole := htakeWhile (digits ++ after)
  have hafter {c : Char} := hdropWhile (digits ++ after) (c := c)
  unfold numeral at hlexeme
  generalize (digits ++ after).takeWhile Char.isDigit = whole at hlexeme hwhole
  split at hlexeme
  · rename_i tail hd
    obtain ⟨rfl, rfl⟩ := Prod.mk.inj hlexeme
    refine Numeral.lexeme_point hwhole (htakeWhile tail) fun c hc => ?_
    exact (hrest c hc).elim Numeral.isDigit_of_startsNumeral (hdropWhile tail)
  · rename_i hpoint
    obtain ⟨rfl, hdrop⟩ := Prod.mk.inj hlexeme
    refine Numeral.lexeme_whole hwhole fun c hc => (hrest c hc).elim id fun hsame => ?_
    rw [← hdrop] at hsame
    rw [startsNumeral, hafter hsame, Bool.false_or, beq_eq_false_iff_ne]
    rintro rfl
    obtain ⟨tail, htail⟩ := List.head?_eq_some_iff.mp hsame
    exact hpoint tail htail

theorem numeralBefore_of_numeral {digits rest : List Char} (h : Numeral digits)
    (hrest : ∀ c ∈ rest.head?, startsNumeral c = false) : NumeralBefore rest digits :=
  ⟨h.exists_cons, h.lexeme hrest⟩

/-! What a separator changes. -/

section
variable {sep : Char} (hsep : Lexeme.isNamePart sep = false)
include hsep

theorem index?_of_separator {w rest segment after : List Char}
    (h : index? (w ++ sep :: rest) = some (segment, after)) :
    ∃ more, index? w = some (segment, more) := by
  rcases List.append_eq_append_iff.mp (index?_append h) with ⟨more, hw, _⟩ | ⟨more, hsegment, hrest⟩
  · exact ⟨more, by rw [hw]; exact index?_append_right (index?_self h) more⟩
  · cases more with
    | nil =>
        rw [List.append_nil] at hsegment
        exact ⟨[], hsegment ▸ index?_self h⟩
    | cons c tail =>
        obtain ⟨rfl, _⟩ := List.cons.inj hrest
        have hpart := isNamePart_of_mem_index h sep (by simp [hsegment])
        rw [hsep] at hpart
        cases hpart

theorem nameBody_separator {w r : List Char} (h : nameBody (w ++ r) = ([], w ++ r))
    (rest : List Char) : nameBody (w ++ sep :: rest) = ([], w ++ sep :: rest) := by
  cases w with
  | nil => exact nameBody_of_endsBody (endsName_cons hsep rest).endsBody
  | cons c more =>
      obtain ⟨hc, hi⟩ := nameBody_eq_nil_iff.mp h
      refine nameBody_eq_nil_iff.mpr ⟨?_, ?_⟩
      · cases more with
        | nil =>
            simp only [isNamePart, Bool.or_eq_false_iff] at hsep
            have hname : startsName (sep :: rest) = false := hsep.1.1.1.1
            rw [Bool.or_eq_false_iff] at hc
            change (isNameChar c || (c == '.' && startsName (sep :: rest))) = false
            rw [hc.1, hname, Bool.and_false]
            rfl
        | cons d tail => exact hc
      · cases hs : index? (c :: (more ++ sep :: rest)) with
        | none => rfl
        | some found =>
            obtain ⟨after, hafter⟩ := index?_of_separator hsep (w := c :: more) hs
            cases (index?_append_right hafter r).symm.trans hi

theorem takeWhile_isDigit_separator (w rest : List Char) :
    (w ++ sep :: rest).takeWhile Char.isDigit = w.takeWhile Char.isDigit := by
  have hdigit : sep.isDigit = false := by
    rw [Bool.eq_false_iff]
    intro h
    rw [isNamePart_of_isDigit h] at hsep
    cases hsep
  rw [List.takeWhile_append, List.takeWhile_cons, hdigit]
  split
  · rename_i hall
    rw [if_neg (by decide), List.append_nil]
    exact ((List.takeWhile_prefix Char.isDigit).eq_of_length hall).symm
  · rfl

/-- A name ends where it ended before, when a separator comes into what follows it. -/
theorem NameBefore.separator {n w r : List Char} (h : NameBefore (w ++ r) n)
    (hn : Builtin.isName (String.ofList n) = false) (rest : List Char) :
    NameBefore (w ++ sep :: rest) n := by
  refine ⟨h.starts, ?_⟩
  have hbody := nameBody_of_name h.lexeme hn
  have hold := (name_eq_iff hbody hn).mp h.lexeme
  have hnew : nameBody (n ++ (w ++ sep :: rest)) = (n, w ++ sep :: rest) :=
    nameBody_append_right (nameBody_self hbody) (nameBody_separator hsep (nameBody_rest hbody) rest)
  rw [name_eq_iff hnew hn, takeWhile_isDigit_separator hsep]
  by_contra hne
  have hname := isName_of_digitsTaken hne
  have hle := digitsTaken_le n (w.takeWhile Char.isDigit) (w.takeWhile Char.isDigit).length
  have hprefix : w.takeWhile Char.isDigit <+: (w ++ r).takeWhile Char.isDigit := by
    rw [List.takeWhile_append]
    split
    · exact (List.takeWhile_prefix _).trans (List.prefix_append w _)
    · exact List.prefix_rfl
  refine digitsTaken_ne_zero hne (hle.trans hprefix.length_le) ?_ hold
  obtain ⟨more, hmore⟩ := hprefix
  rwa [← hmore, List.take_append_of_le_length hle]

theorem NumeralBefore.separator {digits w r : List Char} (h : NumeralBefore (w ++ r) digits)
    (rest : List Char) : NumeralBefore (w ++ sep :: rest) digits := by
  refine h.of_head fun c hc => ?_
  cases w with
  | nil =>
      obtain rfl : sep = c := Option.some.inj hc
      exact .inl (startsNumeral_of_isNamePart hsep)
  | cons d more => exact .inr hc

end

end RuleSheet.Lexeme
