import RuleSheet.Builtin
import RuleSheet.Text.Letter

/-!
# Numerals and names at the front of a text

A numeral is a run of digits with at most one point in it. A name is a run of
letters and underscores with indices in brackets and member dots inside it, such
as `element[0].left`; digits belong to a name only where they complete the name
of a built-in function. Each function answers the lexeme and what follows it,
and nothing of the text is lost.
-/
namespace RuleSheet.Lexeme
open Text

def isNameChar (c : Char) : Bool :=
  isLetter c || c == '_'

def startsNumeral (c : Char) : Bool :=
  c.isDigit || c == '.'

/-- Digits, and after a point more digits. -/
def numeral (cs : List Char) : List Char × List Char :=
  let whole := cs.takeWhile Char.isDigit
  match cs.dropWhile Char.isDigit with
  | '.' :: rest => (whole ++ '.' :: rest.takeWhile Char.isDigit, rest.dropWhile Char.isDigit)
  | rest => (whole, rest)

/-- A bracketed index with at least one digit. -/
def index? : List Char → Option (List Char × List Char)
  | '[' :: rest =>
      let digits := rest.takeWhile Char.isDigit
      match rest.dropWhile Char.isDigit with
      | ']' :: after => if digits.isEmpty then none else some ('[' :: digits ++ [']'], after)
      | _ => none
  | _ => none

theorem index?_append {cs segment after : List Char} (h : index? cs = some (segment, after)) :
    segment ++ after = cs := by
  unfold index? at h
  split at h
  · rename_i rest
    simp only at h
    split at h
    · rename_i tail hd
      split at h
      · simp at h
      · simp only [Option.some.injEq, Prod.mk.injEq] at h
        obtain ⟨rfl, rfl⟩ := h
        have hs := List.takeWhile_append_dropWhile (p := Char.isDigit) (l := rest)
        rw [hd] at hs
        simpa using hs
    · simp at h
  · simp at h

theorem index?_length {cs segment after : List Char} (h : index? cs = some (segment, after)) :
    after.length < cs.length := by
  have hs := index?_append h
  unfold index? at h
  split at h
  · rename_i rest
    simp only at h
    split at h
    · split at h
      · simp at h
      · simp only [Option.some.injEq, Prod.mk.injEq] at h
        rw [← hs, ← h.1]
        simp
        omega
    · simp at h
  · simp at h

/-- The next character could begin a name. -/
def startsName : List Char → Bool
  | [] => false
  | c :: _ => isNameChar c

/-- The longest run of name characters, member dots and indices. -/
def nameBody (cs : List Char) : List Char × List Char :=
  match cs with
  | [] => ([], [])
  | c :: rest =>
      if isNameChar c || (c == '.' && startsName rest) then
        let (body, after) := nameBody rest
        (c :: body, after)
      else
        match h : index? (c :: rest) with
        | some (segment, tail) =>
            have := index?_length h
            let (body, after) := nameBody tail
            (segment ++ body, after)
        | none => ([], c :: rest)
termination_by cs.length
decreasing_by
  · exact Nat.lt_succ_self rest.length
  · assumption

@[simp] theorem nameBody_append (cs : List Char) : (nameBody cs).1 ++ (nameBody cs).2 = cs := by
  fun_induction nameBody cs with
  | case1 => rfl
  | case2 c rest _ body after he ih =>
      rw [he] at ih
      simpa using ih
  | case3 c rest _ segment tail h _ body after he ih =>
      rw [he] at ih
      simp only [List.append_assoc, ← index?_append h]
      exact congrArg (segment ++ ·) ih
  | case4 => rfl

/-- How many of the digits complete the name of a built-in function, at most `count`. -/
def digitsTaken (body digits : List Char) : Nat → Nat
  | 0 => 0
  | count + 1 =>
      if Builtin.isName (String.ofList (body ++ digits.take (count + 1))) then count + 1
      else digitsTaken body digits count

/-- A name: its body, and as many of the digits after it as complete the name of a
built-in function. -/
def name (cs : List Char) : List Char × List Char :=
  let (body, rest) := nameBody cs
  let digits := rest.takeWhile Char.isDigit
  let taken := digitsTaken body digits digits.length
  (body ++ rest.take taken, rest.drop taken)

@[simp] theorem numeral_append (cs : List Char) : (numeral cs).1 ++ (numeral cs).2 = cs := by
  have hs := List.takeWhile_append_dropWhile (p := Char.isDigit) (l := cs)
  unfold numeral
  split
  · rename_i rest hd
    rw [hd] at hs
    simp [hs]
  · exact hs

theorem numeral_length_le (cs : List Char) : (numeral cs).2.length ≤ cs.length := by
  have hs := congrArg List.length (numeral_append cs)
  simp only [List.length_append] at hs
  omega

theorem numeral_length {c : Char} {rest : List Char} (h : startsNumeral c = true) :
    (numeral (c :: rest)).2.length ≤ rest.length := by
  have hs := congrArg List.length (numeral_append (c :: rest))
  have hpos : 0 < (numeral (c :: rest)).1.length := by
    unfold numeral
    by_cases hd : c.isDigit = true
    · split <;> simp [hd]
    · have hc : c = '.' := by simpa [startsNumeral, hd] using h
      subst hc
      simp [List.takeWhile, List.dropWhile, hd]
  simp only [List.length_append, List.length_cons] at hs
  omega

@[simp] theorem name_append (cs : List Char) : (name cs).1 ++ (name cs).2 = cs := by
  have hs := nameBody_append cs
  simp only [name, List.append_assoc, List.take_append_drop]
  exact hs

theorem name_length {c : Char} {rest : List Char} (h : isNameChar c = true) :
    (name (c :: rest)).2.length ≤ rest.length := by
  have hs := congrArg List.length (name_append (c :: rest))
  have hpos : 0 < (name (c :: rest)).1.length := by
    unfold name
    rw [nameBody]
    simp [h]
  simp only [List.length_append, List.length_cons] at hs
  omega

end RuleSheet.Lexeme
