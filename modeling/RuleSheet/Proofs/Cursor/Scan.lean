import RuleSheet.Proofs.Cursor.Lexeme
import RuleSheet.Token.Scan

/-!
# Scanning by position

The scanner with a cursor into the characters takes the turns that the scanner takes on the
list. No turn meets a fault, each of them moves the cursor on, and at the end the number of
parentheses to add is not negative.
-/
namespace RuleSheet
namespace Cursor
open Lexeme

/-- A numeral at `pos`, after the sign `sign`. -/
def numeralTurn (chars : List Char) (s : Scan) (pos : Nat) (sign : List Char) : Scan × Nat :=
  let (text, pos) := numeral chars pos false sign
  (((s.operandStart true).push (.number (String.ofList text))).operandEnd, pos)

/-- A name at `pos`. -/
def nameTurn (chars : List Char) (s : Scan) (pos : Nat) : Except Fault (Scan × Nat) := do
  let (name, pos) ← readName chars pos []
  let named := (s.operandStart false).push (.name (String.ofList name))
  if Builtin.isName (String.ofList name) then
    return (if chars[pos]? = some '(' then named else named.openGroup.owe, pos)
  else return (named.operandEnd, pos)

/-- A minus sign before `pos` where an operand is expected. -/
def minusTurn (chars : List Char) (s : Scan) (pos : Nat) : Scan × Nat :=
  let negating (s : Scan) := (s.push (.number "-1")).push (.operator .multiply)
  match chars[pos]? with
  | none => (negating s, pos)
  | some c =>
      if startsNumeral c then numeralTurn chars s pos ['-']
      else if c == '(' || isNameChar c then ((negating s.openGroup).owe, pos)
      else (negating s, pos)

/-- An operator sign before `pos`. -/
def operatorTurn (chars : List Char) (s : Scan) (pos : Nat) (op : Operator) : Scan × Nat :=
  if s.expectsOperand && op == .subtract then minusTurn chars s pos
  else if s.expectsOperand && op == .add then (s, pos)
  else (s.push (.operator op), pos)

/-- One lexeme, which begins with the character `c` at `pos`. -/
def turn (chars : List Char) (s : Scan) (pos : Nat) (c : Char) : Except Fault (Scan × Nat) :=
  if startsNumeral c then .ok (numeralTurn chars s pos [])
  else if isNameChar c then nameTurn chars s pos
  else if c == '(' then .ok ((s.operandStart false).openGroup, pos + 1)
  else if c == ')' then .ok (s.close, pos + 1)
  else match Operator.ofChar? c with
    | some op => .ok (operatorTurn chars s (pos + 1) op)
    | none => .ok (s.push (.stray c), pos + 1)

/-- Scans from `pos` to the end of the text. -/
def run (chars : List Char) (s : Scan) (pos : Nat) : Except Fault Scan :=
  match h : chars[pos]? with
  | none => .ok s
  | some c => do
      have : pos < chars.length := (List.getElem?_eq_some_iff.mp h).choose
      let (next, after) ← turn chars s pos c
      if pos < after then run chars next after else .error .noProgress
termination_by chars.length - pos

/-- How often something is repeated. -/
def count (n : Int) : Except Fault Nat :=
  if 0 ≤ n then .ok n.toNat else .error .negativeCount

/-- The tokens once the groups still owed their end are closed. With balancing, the
parentheses that are missing are added at the end that they are missing from. -/
def finish (autoBalance : Bool) (s : Scan) : Except Fault (List Token) :=
  let s := s.finish
  if !autoBalance then .ok s.inOrder
  else if 0 < s.depth then do
    let missing ← count s.depth
    return s.inOrder ++ List.replicate missing .closing
  else if s.depth < 0 then do
    let missing ← count (-s.depth)
    return List.replicate missing .opening ++ s.inOrder
  else .ok s.inOrder

/-- The tokens of an expression. -/
def scan (autoBalance : Bool) (cs : List Char) : Except Fault (List Token) := do
  let s ← run (Token.normalize cs) .start 0
  finish autoBalance s

variable {chars rest : List Char} {pos : Nat} {c : Char}

/-- The scanner has come to the position before `rest`, in the state `out.1`. -/
def Reaches (chars : List Char) (out : Scan × List Char) (found : Scan × Nat) : Prop :=
  found.1 = out.1 ∧ At chars found.2 out.2

theorem reaches_numeralTurn (h : At chars pos rest) (s : Scan) (sign : List Char) :
    Reaches chars (s.numeral sign rest) (numeralTurn chars s pos sign) := by
  have happend := numeral_append rest
  rw [numeralTurn, numeral_eq h, Scan.numeral]
  exact ⟨rfl, At.skip (happend.symm ▸ h)⟩

theorem exists_nameTurn (h : At chars pos rest) (s : Scan) :
    ∃ found, nameTurn chars s pos = .ok found ∧ Reaches chars (s.name rest) found := by
  have hafter : At chars (pos + (Lexeme.name rest).1.length) (Lexeme.name rest).2 :=
    At.skip ((name_append rest).symm ▸ h)
  rw [nameTurn, name_eq h, Scan.name]
  generalize Lexeme.name rest = lexeme at hafter ⊢
  obtain ⟨name, after⟩ := lexeme
  have hpeek := hafter.peek
  dsimp only at hafter hpeek ⊢
  rw [← hpeek]
  split
  · rename_i hname
    refine ⟨(_, pos + name.length), ?_, rfl, hafter⟩
    simp only [bind, Except.bind, hname, if_true]
    rfl
  · rename_i hname
    refine ⟨(_, pos + name.length), ?_, rfl, hafter⟩
    simp only [bind, Except.bind, hname]
    rfl

theorem reaches_minusTurn (h : At chars pos rest) (s : Scan) :
    Reaches chars (s.minus rest) (minusTurn chars s pos) := by
  unfold minusTurn Scan.minus
  rw [h.peek]
  cases rest with
  | nil => exact ⟨rfl, h⟩
  | cons c more =>
      dsimp only [List.head?_cons]
      split
      · exact reaches_numeralTurn h s ['-']
      · split
        · exact ⟨rfl, h⟩
        · exact ⟨rfl, h⟩

theorem reaches_operatorTurn (h : At chars pos rest) (s : Scan) (op : Operator) :
    Reaches chars (s.operator op rest) (operatorTurn chars s pos op) := by
  rw [operatorTurn, Scan.operator]
  split
  · exact reaches_minusTurn h s
  · split
    · exact ⟨rfl, h⟩
    · exact ⟨rfl, h⟩

/-- A turn by position meets no fault and does what a turn on the list does. -/
theorem exists_turn (h : At chars pos (c :: rest)) (s : Scan) :
    ∃ found, turn chars s pos c = .ok found ∧ Reaches chars (s.step c rest) found := by
  rw [turn, Scan.step]
  split
  · exact ⟨_, rfl, reaches_numeralTurn h s []⟩
  split
  · exact exists_nameTurn h s
  split
  · exact ⟨_, rfl, rfl, h.next⟩
  split
  · exact ⟨_, rfl, rfl, h.next⟩
  cases Operator.ofChar? c with
  | some op => exact ⟨_, rfl, reaches_operatorTurn h.next s op⟩
  | none => exact ⟨_, rfl, rfl, h.next⟩

theorem run_eq (h : At chars pos rest) (s : Scan) : run chars s pos = .ok (s.run rest) := by
  fun_induction Scan.run s rest generalizing pos with
  | case1 s =>
      rw [run]
      split
      · rfl
      · rename_i hc
        rw [h.peek] at hc
        cases hc
  | case2 s c rest hshort ih =>
      obtain ⟨⟨next, after⟩, hturn, hnext, hat⟩ := exists_turn h s
      dsimp only at hnext hat
      have hmoved : pos < after := by
        have hbefore := h.add_length
        have hafter := hat.add_length
        rw [List.length_cons] at hbefore
        omega
      rw [run]
      split
      · rename_i hn
        rw [h.peek] at hn
        cases hn
      · rename_i d hd
        obtain rfl := Option.some.inj (h.peek.symm.trans hd)
        rw [hturn]
        change (if pos < after then run chars next after else _) = _
        rw [if_pos hmoved, hnext]
        exact ih hat

theorem count_of_nonneg {n : Int} (h : 0 ≤ n) : count n = .ok n.toNat :=
  if_pos h

theorem finish_eq (autoBalance : Bool) (s : Scan) :
    finish autoBalance s =
      .ok (if autoBalance then s.finish.balanced else s.finish.inOrder) := by
  unfold finish
  generalize s.finish = s
  cases autoBalance with
  | false => rfl
  | true =>
      dsimp only
      rw [if_neg (by simp), if_pos rfl, Scan.balanced]
      rcases Int.lt_trichotomy s.depth 0 with hdepth | hdepth | hdepth
      · have hclosing : s.depth.toNat = 0 := Int.toNat_of_nonpos (Int.le_of_lt hdepth)
        rw [if_neg (by omega), if_pos hdepth, count_of_nonneg (by omega), hclosing]
        exact congrArg Except.ok (List.append_nil _).symm
      · rw [if_neg (by omega), if_neg (by omega), hdepth]
        exact congrArg Except.ok (List.append_nil _).symm
      · have hopening : (-s.depth).toNat = 0 := Int.toNat_of_nonpos (by omega)
        rw [if_pos hdepth, count_of_nonneg (by omega), hopening]
        rfl

theorem scan_eq (autoBalance : Bool) (cs : List Char) :
    scan autoBalance cs = .ok (Token.scan autoBalance cs) := by
  rw [scan, run_eq (at_zero _)]
  exact finish_eq autoBalance _

end Cursor
end RuleSheet
