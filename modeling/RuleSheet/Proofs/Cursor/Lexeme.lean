import RuleSheet.Proofs.Token.Lexeme

/-!
# Lexemes read by position

A text may also be read with a cursor into its characters, which looks ahead by index, takes
lexemes out as slices and moves on by adding to a number. Each of these can go wrong where a
list cannot, and here it is checked each time: what goes wrong is a fault. The main statements
of this module are that numerals and names are read by position without a fault, and that they
are those that are read off the list.
-/
namespace RuleSheet

/-- What can go wrong where a text is read by position. -/
inductive Fault where
  /-- An index or a slice reaches beyond the characters. -/
  | outOfBounds
  /-- A count of repetitions is negative. -/
  | negativeCount
  /-- A depth of zero is lowered. -/
  | underflow
  /-- A text is cut within a character or beyond its end. -/
  | insideCharacter
  /-- A turn of a loop leaves the cursor where it was. -/
  | noProgress
  /-- A side of a choice is not shorter than the choice. -/
  | notShorter
  deriving DecidableEq, Repr

namespace Cursor
open Lexeme

/-- The characters from `first` on and before `last`. -/
def slice (chars : List Char) (first last : Nat) : Except Fault (List Char) :=
  if first ≤ last ∧ last ≤ chars.length then .ok ((chars.take last).drop first)
  else .error .outOfBounds

/-- Reads on in a numeral. The characters read so far are `text`. -/
def numeral (chars : List Char) (pos : Nat) (seenPoint : Bool) (text : List Char) :
    List Char × Nat :=
  match h : chars[pos]? with
  | none => (text, pos)
  | some c =>
      have : pos < chars.length := (List.getElem?_eq_some_iff.mp h).choose
      if c == '.' && !seenPoint then numeral chars (pos + 1) true (text ++ [c])
      else if !c.isDigit then (text, pos)
      else numeral chars (pos + 1) seenPoint (text ++ [c])
termination_by chars.length - pos

/-- The length of a bracketed index whose bracket is at `pos`, if there is one. -/
def indexLength? (chars : List Char) (pos : Nat) : Except Fault (Option Nat) := do
  let after ← slice chars (pos + 1) chars.length
  let digits := (after.takeWhile Char.isDigit).length
  return if 0 < digits ∧ chars[pos + (digits + 1)]? = some ']' then some (digits + 2) else none

/-- Tries to complete a name with `count` digits, then with fewer. -/
def tryDigits (chars : List Char) (pos : Nat) (name : List Char) :
    Nat → Except Fault (List Char × Nat)
  | 0 => .ok (name, pos)
  | count + 1 => do
      let digits ← slice chars pos (pos + (count + 1))
      if Builtin.isName (String.ofList (name ++ digits)) then
        .ok (name ++ digits, pos + (count + 1))
      else tryDigits chars pos name count

/-- Completes a name with the digits at `pos`, as many as make it the name of a function. -/
def functionDigits (chars : List Char) (pos : Nat) (name : List Char) :
    Except Fault (List Char × Nat) := do
  let after ← slice chars pos chars.length
  tryDigits chars pos name (after.takeWhile Char.isDigit).length

/-- Reads on in a name. The characters read so far are `name`. -/
def readName (chars : List Char) (pos : Nat) (name : List Char) :
    Except Fault (List Char × Nat) :=
  match h : chars[pos]? with
  | none => .ok (name, pos)
  | some c =>
      have : pos < chars.length := (List.getElem?_eq_some_iff.mp h).choose
      if isNameChar c then readName chars (pos + 1) (name ++ [c])
      else if c = '[' then do
        match ← indexLength? chars pos with
        | none => .ok (name, pos)
        | some count =>
            let segment ← slice chars pos (pos + count)
            if 0 < count then readName chars (pos + count) (name ++ segment)
            else .error .noProgress
      else if c = '.' ∧ (chars[pos + 1]?).any isNameChar then
        readName chars (pos + 1) (name ++ [c])
      else if c.isDigit then functionDigits chars pos name
      else .ok (name, pos)
termination_by chars.length - pos

/-- The cursor at `pos` has the text `rest` before it. -/
structure At (chars : List Char) (pos : Nat) (rest : List Char) : Prop where
  drop : chars.drop pos = rest
  le : pos ≤ chars.length

theorem at_zero (chars : List Char) : At chars 0 chars :=
  ⟨rfl, Nat.zero_le _⟩

namespace At
variable {chars rest taken : List Char} {pos : Nat} {c : Char}

theorem add_length (h : At chars pos rest) : pos + rest.length = chars.length := by
  rw [← h.drop, List.length_drop]
  exact Nat.add_sub_cancel' h.le

theorem getElem? (h : At chars pos rest) (n : Nat) : chars[pos + n]? = rest[n]? := by
  rw [← h.drop, List.getElem?_drop]

theorem peek (h : At chars pos rest) : chars[pos]? = rest.head? := by
  rw [List.head?_eq_getElem?]
  exact h.getElem? 0

theorem skip (h : At chars pos (taken ++ rest)) : At chars (pos + taken.length) rest := by
  refine ⟨?_, ?_⟩
  · rw [← List.drop_drop, h.drop, List.drop_left]
  · have hlength := h.add_length
    rw [List.length_append] at hlength
    omega

theorem next (h : At chars pos (c :: rest)) : At chars (pos + 1) rest := by
  have hsplit : At chars pos ([c] ++ rest) := h
  exact hsplit.skip

theorem slice_eq (h : At chars pos (taken ++ rest)) :
    slice chars pos (pos + taken.length) = .ok taken := by
  have hle := h.skip.le
  rw [slice, if_pos ⟨Nat.le_add_right _ _, hle⟩, List.drop_take, h.drop, Nat.add_sub_cancel_left,
    List.take_left]

theorem slice_rest (h : At chars pos rest) : slice chars pos chars.length = .ok rest := by
  have htaken : At chars pos (rest ++ []) := by rwa [List.append_nil]
  rw [← h.add_length]
  exact htaken.slice_eq

end At

variable {chars rest : List Char} {pos : Nat} {c : Char}

theorem numeral_of_none (h : chars[pos]? = none) (seenPoint : Bool) (text : List Char) :
    numeral chars pos seenPoint text = (text, pos) := by
  rw [numeral]
  split
  · rfl
  · rename_i hc
    rw [h] at hc
    cases hc

theorem numeral_of_some (h : chars[pos]? = some c) (seenPoint : Bool) (text : List Char) :
    numeral chars pos seenPoint text =
      if c == '.' && !seenPoint then numeral chars (pos + 1) true (text ++ [c])
      else if !c.isDigit then (text, pos)
      else numeral chars (pos + 1) seenPoint (text ++ [c]) := by
  rw [numeral]
  split
  · rename_i hn
    rw [h] at hn
    cases hn
  · rename_i d hd
    obtain rfl := Option.some.inj (h.symm.trans hd)
    rfl

theorem numeral_after_point (h : At chars pos rest) (text : List Char) :
    numeral chars pos true text =
      (text ++ rest.takeWhile Char.isDigit, pos + (rest.takeWhile Char.isDigit).length) := by
  induction rest generalizing pos text with
  | nil =>
      rw [numeral_of_none h.peek]
      simp
  | cons c rest ih =>
      rw [numeral_of_some h.peek, Bool.not_true, Bool.and_false, if_neg Bool.false_ne_true]
      cases hc : c.isDigit with
      | false => simp [hc]
      | true =>
          rw [Bool.not_true, if_neg Bool.false_ne_true, ih h.next]
          simp [hc, Nat.add_assoc, Nat.add_comm 1]

/-! The numeral that is read off a list, by the character at the front. -/

theorem lexeme_digit (hc : c.isDigit = true) (rest : List Char) :
    Lexeme.numeral (c :: rest) = (c :: (Lexeme.numeral rest).1, (Lexeme.numeral rest).2) := by
  unfold Lexeme.numeral
  rw [List.takeWhile_cons_of_pos hc, List.dropWhile_cons_of_pos hc]
  split
  · rfl
  · rfl

theorem lexeme_point (rest : List Char) :
    Lexeme.numeral ('.' :: rest) =
      ('.' :: rest.takeWhile Char.isDigit, rest.dropWhile Char.isDigit) := by
  have hpoint : ¬Char.isDigit '.' = true := by decide
  unfold Lexeme.numeral
  rw [List.takeWhile_cons_of_neg hpoint, List.dropWhile_cons_of_neg hpoint]
  rfl

theorem lexeme_other (hc : ¬c.isDigit = true) (hpoint : c ≠ '.') (rest : List Char) :
    Lexeme.numeral (c :: rest) = ([], c :: rest) := by
  unfold Lexeme.numeral
  rw [List.takeWhile_cons_of_neg hc, List.dropWhile_cons_of_neg hc]
  split
  · rename_i heq
    exact absurd (List.cons.inj heq).1 hpoint
  · rfl

theorem numeral_eq (h : At chars pos rest) (text : List Char) :
    numeral chars pos false text =
      (text ++ (Lexeme.numeral rest).1, pos + (Lexeme.numeral rest).1.length) := by
  induction rest generalizing pos text with
  | nil =>
      rw [numeral_of_none h.peek]
      simp [Lexeme.numeral]
  | cons c rest ih =>
      rw [numeral_of_some h.peek, Bool.not_false, Bool.and_true]
      by_cases hpoint : c = '.'
      · subst hpoint
        rw [if_pos (beq_self_eq_true _), numeral_after_point h.next, lexeme_point]
        simp [Nat.add_assoc, Nat.add_comm 1]
      rw [if_neg (by simpa using hpoint)]
      by_cases hdigit : c.isDigit = true
      · rw [if_neg (by simp [hdigit]), ih h.next, lexeme_digit hdigit]
        simp [Nat.add_assoc, Nat.add_comm 1]
      · rw [if_pos (by simp [hdigit]), lexeme_other hdigit hpoint]
        simp

theorem readName_of_none (h : chars[pos]? = none) (name : List Char) :
    readName chars pos name = .ok (name, pos) := by
  rw [readName]
  split
  · rfl
  · rename_i hc
    rw [h] at hc
    cases hc

theorem readName_of_some (h : chars[pos]? = some c) (name : List Char) :
    readName chars pos name =
      if isNameChar c then readName chars (pos + 1) (name ++ [c])
      else if c = '[' then do
        match ← indexLength? chars pos with
        | none => .ok (name, pos)
        | some count =>
            let segment ← slice chars pos (pos + count)
            if 0 < count then readName chars (pos + count) (name ++ segment)
            else .error .noProgress
      else if c = '.' ∧ (chars[pos + 1]?).any isNameChar then
        readName chars (pos + 1) (name ++ [c])
      else if c.isDigit then functionDigits chars pos name
      else .ok (name, pos) := by
  rw [readName]
  split
  · rename_i hn
    rw [h] at hn
    cases hn
  · rename_i d hd
    obtain rfl := Option.some.inj (h.symm.trans hd)
    rfl

theorem indexLength?_eq (h : At chars pos ('[' :: rest)) :
    indexLength? chars pos =
      .ok ((index? ('[' :: rest)).map fun segment => segment.1.length) := by
  have hafter : chars[pos + ((rest.takeWhile Char.isDigit).length + 1)]? =
      (rest.dropWhile Char.isDigit).head? := by
    rw [h.getElem?, List.getElem?_cons_succ, List.head?_eq_getElem?]
    conv => lhs; rw [← List.takeWhile_append_dropWhile (p := Char.isDigit) (l := rest)]
    rw [List.getElem?_append_right (by simp)]
    simp
  rw [indexLength?, h.next.slice_rest]
  change Except.ok (if _ ∧ _ then _ else _) = _
  rw [hafter, index?]
  cases rest.dropWhile Char.isDigit with
  | nil => simp
  | cons d after =>
      by_cases hd : d = ']'
      · subst hd
        cases rest.takeWhile Char.isDigit with
        | nil => simp
        | cons e more => simp
      · simp [hd]

theorem index?_of_ne (hc : c ≠ '[') (rest : List Char) : index? (c :: rest) = none := by
  unfold index?
  split
  · rename_i heq
    exact absurd (List.cons.inj heq).1 hc
  · rfl

theorem tryDigits_eq (h : At chars pos rest) (name : List Char) {count : Nat}
    (hcount : count ≤ (rest.takeWhile Char.isDigit).length) :
    let taken := digitsTaken name (rest.takeWhile Char.isDigit) count
    tryDigits chars pos name count = .ok (name ++ rest.take taken, pos + taken) := by
  induction count with
  | zero => simp [tryDigits, digitsTaken]
  | succ count ih =>
      have hle : count + 1 ≤ rest.length :=
        Nat.le_trans hcount (List.takeWhile_prefix Char.isDigit).length_le
      have hsplit : At chars pos (rest.take (count + 1) ++ rest.drop (count + 1)) := by
        rwa [List.take_append_drop]
      have hslice := hsplit.slice_eq
      rw [List.length_take, Nat.min_eq_left hle] at hslice
      dsimp only
      rw [tryDigits, hslice, digitsTaken, ← take_eq_take_takeWhile hcount]
      change (if _ then _ else _) = _
      split
      · rfl
      · exact ih (Nat.le_of_succ_le hcount)

theorem functionDigits_eq (h : At chars pos rest) (name : List Char) :
    let digits := rest.takeWhile Char.isDigit
    let taken := digitsTaken name digits digits.length
    functionDigits chars pos name = .ok (name ++ rest.take taken, pos + taken) := by
  rw [functionDigits, h.slice_rest]
  exact tryDigits_eq h name (Nat.le_refl _)

theorem functionDigits_of_not_isDigit (h : At chars pos (c :: rest)) (hc : c.isDigit = false)
    (name : List Char) : functionDigits chars pos name = .ok (name, pos) := by
  rw [functionDigits_eq h, List.takeWhile_cons_of_neg (by simp [hc])]
  simp [digitsTaken]

theorem any_isNameChar (h : At chars pos (c :: rest)) :
    (chars[pos + 1]?).any isNameChar = startsName rest := by
  rw [h.next.peek]
  cases rest with
  | nil => rfl
  | cons d more => rfl

theorem readName_char (h : At chars pos (c :: rest))
    (hc : (isNameChar c || (c == '.' && startsName rest)) = true) (name : List Char) :
    readName chars pos name = readName chars (pos + 1) (name ++ [c]) := by
  rw [readName_of_some h.peek]
  by_cases hname : isNameChar c = true
  · rw [if_pos hname]
  · have hpoint : c = '.' ∧ startsName rest = true := by simpa [hname] using hc
    rw [if_neg hname, if_neg (by simp [hpoint.1]), any_isNameChar h, if_pos hpoint]

/-- An index is taken as a whole, and it has a bracket at least. -/
theorem readName_index {segment tail : List Char} (h : At chars pos (c :: rest))
    (hindex : index? (c :: rest) = some (segment, tail)) (name : List Char) :
    readName chars pos name = readName chars (pos + segment.length) (name ++ segment) := by
  have hbracket : c = '[' := by
    refine Decidable.byContradiction fun hne => ?_
    rw [index?_of_ne hne] at hindex
    cases hindex
  subst hbracket
  have happend := index?_append hindex
  have hat : At chars pos (segment ++ tail) := happend.symm ▸ h
  have hsome : 0 < segment.length := by
    have hshort := index?_length hindex
    rw [← happend, List.length_append] at hshort
    omega
  rw [readName_of_some h.peek, if_neg (by decide +kernel), if_pos rfl, indexLength?_eq h, hindex]
  change (do let taken ← slice chars pos (pos + segment.length); _) = _
  rw [hat.slice_eq]
  exact if_pos hsome

/-- Anything else ends the name, once it has the digits that complete it. -/
theorem readName_stop (h : At chars pos (c :: rest))
    (hc : ¬(isNameChar c || (c == '.' && startsName rest)) = true)
    (hindex : index? (c :: rest) = none) (name : List Char) :
    readName chars pos name = functionDigits chars pos name := by
  rw [Bool.or_eq_true, not_or] at hc
  have hpoint : ¬(c = '.' ∧ startsName rest = true) := by simpa using hc.2
  rw [readName_of_some h.peek, if_neg hc.1]
  by_cases hbracket : c = '['
  · subst hbracket
    rw [if_pos rfl, indexLength?_eq h, hindex,
      functionDigits_of_not_isDigit h (by decide)]
    rfl
  · rw [if_neg hbracket, any_isNameChar h, if_neg hpoint]
    cases hdigit : c.isDigit with
    | true => rfl
    | false => exact (functionDigits_of_not_isDigit h hdigit name).symm

/-- A name that is read by position, after the characters `name`, is the one that is read off
the list. -/
theorem readName_eq (h : At chars pos rest) (name : List Char) :
    let body := name ++ (nameBody rest).1
    let digits := (nameBody rest).2.takeWhile Char.isDigit
    let taken := digitsTaken body digits digits.length
    readName chars pos name =
      .ok (body ++ (nameBody rest).2.take taken, pos + (nameBody rest).1.length + taken) := by
  fun_induction nameBody rest generalizing pos name with
  | case1 =>
      rw [readName_of_none h.peek]
      simp [digitsTaken]
  | case2 c rest hc body after he ih =>
      have hnext := ih h.next (name ++ [c])
      rw [he] at hnext
      rw [readName_char h hc, hnext]
      simp [Nat.add_assoc, Nat.add_comm 1]
  | case3 c rest hc segment tail hindex _ body after he ih =>
      have hat : At chars pos (segment ++ tail) := (index?_append hindex).symm ▸ h
      have hnext := ih hat.skip (name ++ segment)
      rw [he] at hnext
      rw [readName_index h hindex, hnext]
      simp [Nat.add_assoc]
  | case4 c rest hc hindex =>
      rw [readName_stop h hc hindex, functionDigits_eq h]
      simp

theorem name_eq (h : At chars pos rest) :
    readName chars pos [] =
      .ok ((Lexeme.name rest).1, pos + (Lexeme.name rest).1.length) := by
  have hle := digitsTaken_le (nameBody rest).1 ((nameBody rest).2.takeWhile Char.isDigit)
    ((nameBody rest).2.takeWhile Char.isDigit).length
  have hdigits := (List.takeWhile_prefix Char.isDigit (l := (nameBody rest).2)).length_le
  rw [readName_eq h, Lexeme.name]
  dsimp only
  rw [List.nil_append, List.length_append, List.length_take, Nat.add_assoc,
    Nat.min_eq_left (Nat.le_trans hle hdigits)]

end Cursor
end RuleSheet
