import Mathlib.Data.List.TakeWhile
import RuleSheet.Operator
import RuleSheet.Proofs.Text.Settled
import RuleSheet.Token.Lexeme

/-!
# Where a name ends

A name takes name characters, and with them dots, brackets and digits. What has been
taken as a name is taken again, and nothing more, when it is followed by a character
that cannot stand in a name. The same holds for the name of a function with its digits.
-/
namespace RuleSheet.Lexeme
open Text

/-- A character that can stand somewhere in a name. -/
def isNamePart (c : Char) : Bool :=
  isNameChar c || c == '.' || c == '[' || c == ']' || c.isDigit

theorem index?_eq_some_iff {cs segment after : List Char} :
    index? cs = some (segment, after) ↔ ∃ digits, digits ≠ [] ∧
      (∀ c ∈ digits, c.isDigit = true) ∧ segment = '[' :: digits ++ [']'] ∧
      cs = segment ++ after := by
  constructor
  · intro h
    have happend := index?_append h
    unfold index? at h
    split at h
    · rename_i rest
      dsimp only at h
      split at h
      · split at h
        · cases h
        · rename_i hempty
          obtain ⟨rfl, rfl⟩ := Prod.mk.inj (Option.some.inj h)
          exact ⟨_, by simpa using hempty, fun c hc => List.mem_takeWhile_imp hc, rfl,
            happend.symm⟩
      · cases h
    · cases h
  · rintro ⟨digits, hne, hdigits, rfl, rfl⟩
    rw [List.append_assoc, List.cons_append, index?, List.takeWhile_append_of_pos hdigits,
      List.dropWhile_append_of_pos hdigits]
    simp [hne]

theorem isNamePart_of_mem_index {cs segment after : List Char}
    (h : index? cs = some (segment, after)) : ∀ c ∈ segment, isNamePart c = true := by
  obtain ⟨digits, _, hdigits, rfl, _⟩ := index?_eq_some_iff.mp h
  intro c hc
  simp only [List.cons_append, List.mem_cons, List.mem_append, List.not_mem_nil,
    or_false] at hc
  rcases hc with rfl | hc | rfl
  · decide +kernel
  · simp [isNamePart, hdigits c hc]
  · decide +kernel

theorem isNamePart_of_mem_nameBody {cs : List Char} :
    ∀ c ∈ (nameBody cs).1, isNamePart c = true := by
  fun_induction nameBody cs with
  | case1 => simp
  | case2 c rest hc body after he ih =>
      intro d hd
      rcases List.mem_cons.mp hd with rfl | hd
      · rw [Bool.or_eq_true, Bool.and_eq_true] at hc
        rcases hc with hc | hc
        · simp [isNamePart, hc]
        · simp [isNamePart, hc.1]
      · rw [he] at ih
        exact ih d hd
  | case3 c rest _ segment tail h _ body after he ih =>
      intro d hd
      rcases List.mem_append.mp hd with hd | hd
      · exact isNamePart_of_mem_index h d hd
      · rw [he] at ih
        exact ih d hd
  | case4 => simp

theorem isNamePart_of_isDigit {c : Char} (h : c.isDigit = true) : isNamePart c = true := by
  simp [isNamePart, h]

theorem isNamePart_of_mem_numeral {cs : List Char} :
    ∀ c ∈ (numeral cs).1, isNamePart c = true := by
  have hdigits (l : List Char) : ∀ c ∈ l.takeWhile Char.isDigit, isNamePart c = true :=
    fun c hc => isNamePart_of_isDigit (List.mem_takeWhile_imp hc)
  unfold numeral
  split
  · rename_i rest _
    intro c hc
    rw [List.mem_append, List.mem_cons] at hc
    rcases hc with hc | rfl | hc
    · exact hdigits cs c hc
    · decide +kernel
    · exact hdigits rest c hc
  · exact hdigits cs

theorem digitsTaken_le (body digits : List Char) (count : Nat) :
    digitsTaken body digits count ≤ count := by
  induction count with
  | zero => exact Nat.le_refl 0
  | succ count ih =>
      rw [digitsTaken]
      split
      · exact Nat.le_refl _
      · omega

/-- Digits are taken only to complete the name of a function. -/
theorem isName_of_digitsTaken {body digits : List Char} {count : Nat}
    (h : digitsTaken body digits count ≠ 0) :
    Builtin.isName (String.ofList (body ++ digits.take (digitsTaken body digits count))) =
      true := by
  induction count with
  | zero => exact absurd rfl h
  | succ count ih =>
      rw [digitsTaken] at h ⊢
      split at h
      · rename_i hn
        rwa [if_pos hn]
      · rename_i hn
        rw [if_neg hn]
        exact ih h

theorem take_eq_take_takeWhile {α : Type} {p : α → Bool} {l : List α} {n : Nat}
    (h : n ≤ (l.takeWhile p).length) : l.take n = (l.takeWhile p).take n := by
  calc l.take n = (l.takeWhile p ++ l.dropWhile p).take n := by
        rw [List.takeWhile_append_dropWhile]
    _ = (l.takeWhile p).take n := List.take_append_of_le_length h

theorem isNamePart_of_mem_name {cs : List Char} : ∀ c ∈ (name cs).1, isNamePart c = true := by
  have hbody : ∀ c ∈ (nameBody cs).1, isNamePart c = true := isNamePart_of_mem_nameBody
  unfold name
  generalize nameBody cs = split at hbody
  obtain ⟨body, rest⟩ := split
  dsimp only at hbody ⊢
  intro c hc
  rcases List.mem_append.mp hc with hc | hc
  · exact hbody c hc
  · rw [take_eq_take_takeWhile (digitsTaken_le _ _ _)] at hc
    exact isNamePart_of_isDigit (List.mem_takeWhile_imp (List.mem_of_mem_take hc))

/-- A name that is not the name of a function has no digits after its body. -/
theorem nameBody_of_name {cs n after : List Char} (h : name cs = (n, after))
    (hn : Builtin.isName (String.ofList n) = false) : nameBody cs = (n, after) := by
  unfold name at h
  rcases hb : nameBody cs with ⟨body, rest⟩
  rw [hb] at h
  dsimp only at h
  have hle := digitsTaken_le body (rest.takeWhile Char.isDigit)
    (rest.takeWhile Char.isDigit).length
  by_cases h0 : digitsTaken body (rest.takeWhile Char.isDigit)
      (rest.takeWhile Char.isDigit).length = 0
  · rw [h0, List.take_zero, List.append_nil, List.drop_zero] at h
    exact h
  · have hname := isName_of_digitsTaken h0
    rw [← take_eq_take_takeWhile hle, (Prod.mk.inj h).1, hn] at hname
    cases hname

theorem isNamePart_of_isName {cs n : List Char} (h : nameBody cs = (n, [])) :
    ∀ c ∈ n, isNamePart c = true := by
  have hparts : ∀ c ∈ (nameBody cs).1, isNamePart c = true := isNamePart_of_mem_nameBody
  rwa [h] at hparts

theorem isNamePart_of_ofChar? {c : Char} {op : Operator} (h : Operator.ofChar? c = some op) :
    isNamePart c = false := by
  unfold Operator.ofChar? at h
  split at h
  all_goals first | decide +kernel | cases h

theorem ofChar?_of_isNamePart {c : Char} (h : isNamePart c = true) : Operator.ofChar? c = none := by
  cases hc : Operator.ofChar? c with
  | none => rfl
  | some op =>
      rw [isNamePart_of_ofChar? hc] at h
      cases h

theorem isBlank_of_isNamePart {c : Char} (h : isNamePart c = true) :
    isBlank c = false := by
  rw [Bool.eq_false_iff]
  intro hb
  have hc : isNamePart c = false :=
    of_isBlank (p := fun c => isNamePart c = false) (by decide +kernel) hb
  rw [h] at hc
  cases hc

theorem startsNumeral_of_isNameChar {c : Char} (h : isNameChar c = true) :
    startsNumeral c = false := by
  rw [Bool.eq_false_iff]
  intro hs
  have hlt : c.toNat < 58 := by
    rw [startsNumeral, Bool.or_eq_true, beq_iff_eq] at hs
    rcases hs with hd | rfl
    · exact Nat.lt_succ_of_le (Char.isDigit_iff_toNat.mp hd).2
    · decide
  have hnot := of_toNat_lt (p := fun c => startsNumeral c = true → isNameChar c = false)
    (by decide +kernel) hlt hs
  rw [h] at hnot
  cases hnot

/-- These characters are the whole numeral at the front of a text that goes on with `after`. -/
structure NumeralBefore (after digits : List Char) : Prop where
  starts : ∃ c more, digits = c :: more ∧ startsNumeral c = true
  lexeme : numeral (digits ++ after) = (digits, after)

/-- These characters are the whole name at the front of a text that goes on with `after`. -/
structure NameBefore (after n : List Char) : Prop where
  starts : startsName n = true
  lexeme : name (n ++ after) = (n, after)

theorem numeralBefore {c : Char} (hc : startsNumeral c = true) (rest : List Char) :
    NumeralBefore (numeral (c :: rest)).2 (numeral (c :: rest)).1 := by
  have happend := numeral_append (c :: rest)
  refine ⟨?_, by rw [happend]⟩
  cases hd : (numeral (c :: rest)).1 with
  | nil =>
      have hlength : (numeral (c :: rest)).2.length ≤ rest.length := numeral_length hc
      rw [hd, List.nil_append] at happend
      rw [happend] at hlength
      exact absurd hlength (Nat.not_succ_le_self _)
  | cons d more =>
      rw [hd] at happend
      exact ⟨d, more, rfl, by rwa [(List.cons.inj happend).1]⟩

theorem nameBefore {c : Char} (hc : isNameChar c = true) (rest : List Char) :
    NameBefore (name (c :: rest)).2 (name (c :: rest)).1 := by
  refine ⟨?_, by rw [name_append]⟩
  unfold name
  rw [nameBody, if_pos (by simp [hc])]
  exact hc

theorem NumeralBefore.isNamePart {after digits : List Char} (h : NumeralBefore after digits) :
    ∀ c ∈ digits, isNamePart c = true := by
  have hparts : ∀ c ∈ (numeral (digits ++ after)).1, Lexeme.isNamePart c = true :=
    isNamePart_of_mem_numeral
  rwa [h.lexeme] at hparts

theorem NameBefore.isNamePart {after n : List Char} (h : NameBefore after n) :
    ∀ c ∈ n, isNamePart c = true := by
  have hparts : ∀ c ∈ (name (n ++ after)).1, Lexeme.isNamePart c = true :=
    isNamePart_of_mem_name
  rwa [h.lexeme] at hparts

/-- The text cannot go on with the body of the name that stands before it. -/
def EndsBody (rest : List Char) : Prop :=
  ∀ c ∈ rest.head?, (isNameChar c || c == '.' || c == '[') = false

/-- The text cannot go on with the name that stands before it, nor with its digits. -/
def EndsName (rest : List Char) : Prop :=
  ∀ c ∈ rest.head?, isNamePart c = false

theorem EndsName.endsBody {rest : List Char} (h : EndsName rest) : EndsBody rest := by
  intro c hc
  have hpart := h c hc
  simp only [isNamePart, Bool.or_eq_false_iff] at hpart ⊢
  exact hpart.1.1

theorem endsName_cons {c : Char} (hc : isNamePart c = false) (rest : List Char) :
    EndsName (c :: rest) := by
  intro d hd
  obtain rfl : c = d := Option.some.inj hd
  exact hc

theorem startsNumeral_of_isNamePart {c : Char} (h : isNamePart c = false) :
    startsNumeral c = false := by
  simp only [isNamePart, Bool.or_eq_false_iff] at h
  rw [startsNumeral, h.2, h.1.1.1.2]
  rfl

theorem nameBody_of_endsBody {rest : List Char} (h : EndsBody rest) :
    nameBody rest = ([], rest) := by
  cases rest with
  | nil => rw [nameBody]
  | cons c tail =>
      have hc := h c rfl
      simp only [Bool.or_eq_false_iff, beq_eq_false_iff_ne] at hc
      obtain ⟨⟨hname, hdot⟩, hbracket⟩ := hc
      have hindex : index? (c :: tail) = none := by
        unfold index?
        split
        · rename_i heq
          exact absurd (List.cons.inj heq).1 hbracket
        · rfl
      rw [nameBody, if_neg (by simp [hname, hdot])]
      split
      · rename_i hs
        rw [hindex] at hs
        cases hs
      · rfl

theorem index?_append_right {cs segment after : List Char} (h : index? cs = some (segment, after))
    (rest : List Char) : index? (cs ++ rest) = some (segment, after ++ rest) := by
  obtain ⟨digits, hne, hdigits, hsegment, rfl⟩ := index?_eq_some_iff.mp h
  exact index?_eq_some_iff.mpr ⟨digits, hne, hdigits, hsegment, List.append_assoc _ _ _⟩

/-- An index and what the name goes on with after it. -/
theorem nameBody_index {cs segment tail : List Char} (h : index? cs = some (segment, tail)) :
    nameBody cs = (segment ++ (nameBody tail).1, (nameBody tail).2) := by
  obtain ⟨digits, _, _, hsegment, hcs⟩ := index?_eq_some_iff.mp h
  have hfirst : cs = '[' :: (digits ++ ']' :: tail) := by
    rw [hcs, hsegment, List.append_assoc]
    rfl
  have hc : ¬(isNameChar '[' || ('[' == '.' && startsName (digits ++ ']' :: tail))) = true := by
    rw [show isNameChar '[' = false by decide +kernel]
    simp
  rw [hfirst] at h ⊢
  rw [nameBody, if_neg hc]
  split
  · rename_i hs
    rw [h] at hs
    obtain ⟨rfl, rfl⟩ := Prod.mk.inj (Option.some.inj hs)
    rfl
  · rename_i hs
    rw [h] at hs
    cases hs

/-- A name is read as far as it goes, whatever follows that begins with no part of it. -/
theorem nameBody_append_right {cs n rest : List Char} (h : nameBody cs = (n, []))
    (hrest : nameBody rest = ([], rest)) : nameBody (cs ++ rest) = (n, rest) := by
  fun_induction nameBody cs generalizing n with
  | case1 =>
      obtain ⟨rfl, _⟩ := Prod.mk.inj h
      exact hrest
  | case2 c tail hc body after he ih =>
      obtain ⟨rfl, rfl⟩ := Prod.mk.inj h
      have hstart : startsName tail = true → startsName (tail ++ rest) = true := by
        cases tail with
        | nil => intro hs; cases hs
        | cons d more => exact id
      have hc' : (isNameChar c || (c == '.' && startsName (tail ++ rest))) = true := by
        rw [Bool.or_eq_true, Bool.and_eq_true] at hc ⊢
        exact hc.imp_right (And.imp_right hstart)
      rw [List.cons_append, nameBody, if_pos hc', ih he]
  | case3 c tail hc segment more hi _ body after he ih =>
      obtain ⟨rfl, rfl⟩ := Prod.mk.inj h
      rw [nameBody_index (index?_append_right hi rest), ih he]
  | case4 => cases (Prod.mk.inj h).2

theorem nameBody_letters {letters : List Char} (h : ∀ c ∈ letters, isNameChar c = true) :
    nameBody letters = (letters, []) := by
  induction letters with
  | nil => rw [nameBody]
  | cons c rest ih =>
      rw [nameBody, if_pos (by simp [h c (by simp)]), ih fun d hd => h d (by simp [hd])]

theorem takeWhile_isDigit_of_endsName {rest : List Char} (h : EndsName rest) :
    rest.takeWhile Char.isDigit = [] := by
  cases rest with
  | nil => rfl
  | cons c tail =>
      have hc := h c rfl
      rw [isNamePart, Bool.or_eq_false_iff] at hc
      rw [List.takeWhile_cons, hc.2]
      rfl

theorem name_append_right {cs n rest : List Char} (h : nameBody cs = (n, []))
    (hrest : EndsName rest) : name (cs ++ rest) = (n, rest) := by
  unfold name
  rw [nameBody_append_right h (nameBody_of_endsBody hrest.endsBody)]
  dsimp only
  rw [takeWhile_isDigit_of_endsName hrest]
  simp [digitsTaken]

theorem isNameChar_of_isDigit {c : Char} (h : c.isDigit = true) : isNameChar c = false := by
  rw [Bool.eq_false_iff]
  intro hname
  have hs := startsNumeral_of_isNameChar hname
  rw [startsNumeral, h] at hs
  cases hs

theorem endsBody_append {digits rest : List Char} (hdigits : ∀ c ∈ digits, c.isDigit = true)
    (hrest : EndsBody rest) : EndsBody (digits ++ rest) := by
  cases digits with
  | nil => exact hrest
  | cons d more =>
      intro c hc
      obtain rfl : d = c := by simpa using hc
      have hd : d.isDigit = true := hdigits d (by simp)
      rw [isNameChar_of_isDigit hd]
      simp only [Bool.false_or, Bool.or_eq_false_iff, beq_eq_false_iff_ne]
      constructor
      · intro heq
        subst heq
        cases hd
      · intro heq
        subst heq
        cases hd

theorem digitsTaken_eq_length {body digits : List Char}
    (h : Builtin.isName (String.ofList (body ++ digits)) = true) :
    digitsTaken body digits digits.length = digits.length := by
  cases hlength : digits.length with
  | zero => rfl
  | succ count =>
      rw [digitsTaken, if_pos]
      rw [← hlength, List.take_length]
      exact h

/-- The name of a function is read again, with its digits. -/
theorem name_function {n : String} (hn : Builtin.isName n = true) {rest : List Char}
    (hrest : EndsName rest) : name (n.toList ++ rest) = (n.toList, rest) := by
  have hsplit : ∀ f ∈ Builtin.all, ∀ m ∈ f.names,
      (m.toList.dropWhile isNameChar).all Char.isDigit = true := by
    decide +kernel
  have hdigits := List.all_eq_true.mp (Builtin.of_isName hsplit hn)
  have hletters : ∀ c ∈ n.toList.takeWhile isNameChar, isNameChar c = true :=
    fun c hc => List.mem_takeWhile_imp hc
  have happend := List.takeWhile_append_dropWhile (p := isNameChar) (l := n.toList)
  generalize n.toList.takeWhile isNameChar = letters at hletters happend
  generalize n.toList.dropWhile isNameChar = digits at hdigits happend
  have htake : (digits ++ rest).takeWhile Char.isDigit = digits := by
    rw [List.takeWhile_append_of_pos hdigits, takeWhile_isDigit_of_endsName hrest,
      List.append_nil]
  have htaken : digitsTaken letters digits digits.length = digits.length := by
    apply digitsTaken_eq_length
    rw [happend, String.ofList_toList]
    exact hn
  rw [← happend, List.append_assoc]
  unfold name
  rw [nameBody_append_right (nameBody_letters hletters)
    (nameBody_of_endsBody (endsBody_append hdigits hrest.endsBody))]
  dsimp only
  rw [htake, htaken, List.take_left, List.drop_left]

theorem exists_cons_of_startsName {cs : List Char} (h : startsName cs = true) :
    ∃ c rest, cs = c :: rest ∧ isNameChar c = true := by
  cases cs with
  | nil => cases h
  | cons c rest => exact ⟨c, rest, rfl, h⟩

theorem startsName_of_isName {n : String} (hn : Builtin.isName n = true) :
    startsName n.toList = true := by
  have hstarts : ∀ f ∈ Builtin.all, ∀ m ∈ f.names, startsName m.toList = true := by
    decide +kernel
  exact Builtin.of_isName hstarts hn

theorem nameBefore_function {n : String} (hn : Builtin.isName n = true) {rest : List Char}
    (hrest : EndsName rest) : NameBefore rest n.toList where
  starts := startsName_of_isName hn
  lexeme := name_function hn hrest

end RuleSheet.Lexeme
