import RuleSheet.Proofs.Formula
import RuleSheet.Proofs.Token.Separator

/-!
# Scanning what a formula is written with

Where an operand is expected, the characters of a formula are scanned to tokens of their
own, whatever stands before, and the scan goes on with what follows them. They leave the
depth and the owed groups as they found them, except that an owed group ends with them if
it is owed its end at the depth where they begin. Only the operand of a minus sign can
begin there, and it is always a single lexeme, a call or a group.
-/
namespace RuleSheet
variable {W : Type}

namespace Scan

/-- The groups that are owed their end were opened further out, or just before what is
written at the highest level. -/
def Room (s : Scan) (level : Nat) : Prop :=
  ∀ d ∈ s.closers, d < s.depth ∨ d = s.depth ∧ level = Formula.operandLevel

/-- The characters are scanned to the tokens, wherever what is written at this level may
stand. -/
def Scans (level : Nat) (cs : List Char) (tokens : List Token) : Prop :=
  ∀ (s : Scan) (rest : List Char), s.expectsOperand = true → Lexeme.EndsName rest →
    s.Room level →
    s.run (cs ++ rest) = (settle (tokens.reverse ++ s.tokens) s.depth s.closers).run rest

/-- After these tokens a sign is an operator. -/
def EndsOperand (tokens : List Token) : Prop :=
  ∀ before depth closers, expectsOperand ⟨tokens.reverse ++ before, depth, closers⟩ = false

/-- In parentheses the characters are scanned to the tokens, once the parenthesis has been read
that opens them. -/
def Encloses (cs : List Char) (tokens : List Token) : Prop :=
  ∀ (s : Scan) (rest : List Char), (∀ d ∈ s.closers, d ≤ s.depth) →
    s.openGroup.run (cs ++ ')' :: rest) =
      (settle (.closing :: (tokens.reverse ++ .opening :: s.tokens)) s.depth s.closers).run rest

theorem numeralBefore {cs : List Char} (h : Numeral cs) {rest : List Char}
    (hrest : Lexeme.EndsName rest) : Lexeme.NumeralBefore rest cs :=
  Lexeme.numeralBefore_of_numeral h fun c hc => Lexeme.startsNumeral_of_isNamePart (hrest c hc)

theorem scans_literal {digits : String} (h : Numeral digits.toList) (level : Nat) :
    Scans level digits.toList [.number digits] := by
  intro s rest he hrest _
  rw [run_numeral (numeralBefore h hrest), operandStart_of_expectsOperand he,
    String.ofList_toList]
  rfl

theorem scans_negative {digits : String} (h : Numeral digits.toList) (level : Nat) :
    Scans level ('-' :: digits.toList) [.number (String.ofList ('-' :: digits.toList))] := by
  intro s rest he hrest _
  rw [List.cons_append, run_negative (numeralBefore h hrest) he]
  rfl

theorem scans_name {n : String} (h : Token.Identifier n) (level : Nat) :
    Scans level n.toList [.name n] := by
  intro s rest he hrest _
  rw [h.run s hrest, operandStart_of_expectsOperand he]
  rfl

theorem scans_symbol {n : String} (hn : Builtin.isName n = false)
    (h : ∀ rest, Lexeme.EndsName rest → Lexeme.NameBefore rest n.toList) (level : Nat) :
    Scans level n.toList [.name n] := by
  intro s rest he hrest _
  rw [run_symbol hn (h rest hrest), operandStart_of_expectsOperand he]
  rfl

theorem Scans.encloses {level : Nat} {cs : List Char} {tokens : List Token}
    (h : Scans level cs tokens) : Encloses cs tokens := by
  intro s rest hs
  have hlt : ∀ d ∈ s.closers, d < s.depth + 1 := fun d hd => Int.lt_add_one_of_le (hs d hd)
  have hends : Lexeme.EndsName (')' :: rest) := Lexeme.endsName_cons (by decide +kernel) rest
  rw [h s.openGroup (')' :: rest) rfl hends fun d hd => .inl (hlt d hd)]
  change (settle (tokens.reverse ++ .opening :: s.tokens) (s.depth + 1) s.closers).run _ = _
  rw [settle_of_lt hlt, run_cons, step_closing, close_of_lt hlt]
  dsimp only
  rw [Int.add_sub_cancel]

/-- The operand of a group that is owed its end ends the group. -/
theorem Scans.run_owed {cs : List Char} {tokens : List Token}
    (h : Scans Formula.operandLevel cs tokens) {before : List Token} {depth : Int}
    {closers : List Int}
    (he : expectsOperand ⟨before, depth + 1, (depth + 1) :: closers⟩ = true)
    (hle : ∀ d ∈ closers, d ≤ depth) {rest : List Char} (hrest : Lexeme.EndsName rest) :
    run ⟨before, depth + 1, (depth + 1) :: closers⟩ (cs ++ rest) =
      (settle (.closing :: (tokens.reverse ++ before)) depth closers).run rest := by
  have hroom : Room ⟨before, depth + 1, (depth + 1) :: closers⟩ Formula.operandLevel := by
    intro d hd
    rcases List.mem_cons.mp hd with rfl | hd
    · exact .inr ⟨rfl, rfl⟩
    · exact .inl (Int.lt_add_one_of_le (hle d hd))
  rw [h _ rest he hrest hroom]
  dsimp only
  rw [settle, if_pos rfl, Int.add_sub_cancel]

theorem Room.le {s : Scan} {level : Nat} (h : s.Room level) : ∀ d ∈ s.closers, d ≤ s.depth := by
  intro d hd
  rcases h d hd with hlt | ⟨heq, _⟩
  · omega
  · omega

theorem scans_group {cs : List Char} {tokens : List Token} (h : Encloses cs tokens)
    (level : Nat) : Scans level ('(' :: (cs ++ [')'])) (.opening :: (tokens ++ [.closing])) := by
  intro s rest he _ hroom
  rw [List.cons_append, run_cons, step_opening, operandStart_of_expectsOperand he]
  dsimp only
  rw [List.append_assoc, List.singleton_append, h s rest hroom.le]
  simp

theorem exists_isNameChar {f : String} (hf : Builtin.isName f = true) :
    ∃ c tail, f.toList = c :: tail ∧ Lexeme.isNameChar c = true :=
  Lexeme.exists_cons_of_startsName (Lexeme.startsName_of_isName hf)

/-- The name of a function before a parenthesis opens no group of its own. -/
theorem run_function {f : String} (hf : Builtin.isName f = true) (s : Scan) (rest : List Char) :
    s.run (f.toList ++ '(' :: rest) =
      ((s.operandStart false).push (.name f)).openGroup.run rest := by
  have hcall (t : Scan) : (t.push (.name f)).operandStart false = t.push (.name f) := by
    unfold operandStart
    rw [if_neg]
    simp [push, multiplies, hf]
  have hends : Lexeme.EndsName ('(' :: rest) := Lexeme.endsName_cons (by decide +kernel) rest
  rw [run_call hf List.head?_cons (Lexeme.nameBefore_function hf hends), run_cons, step_opening,
    hcall]

theorem scans_call {f : String} (hf : Builtin.isName f = true) {cs : List Char}
    {tokens : List Token} (h : Encloses cs tokens) (level : Nat) :
    Scans level (f.toList ++ '(' :: (cs ++ [')']))
      (.name f :: .opening :: (tokens ++ [.closing])) := by
  intro s rest he _ hroom
  rw [List.append_assoc, List.cons_append, List.append_assoc, List.singleton_append,
    run_function hf, operandStart_of_expectsOperand he, h (s.push (.name f)) rest hroom.le]
  simp [push]

/-- The name of a function before its operand opens a group, which ends with the operand. -/
theorem scans_capture {f : String} (hf : Builtin.isName f = true) {cs : List Char}
    {tokens : List Token} (h : Scans Formula.operandLevel cs tokens)
    (hstart : ∃ c tail, cs = c :: tail ∧ c ≠ '(')
    (hl : ∀ rest, Lexeme.EndsName rest → Lexeme.NameBefore (cs ++ rest) f.toList) (level : Nat) :
    Scans level (f.toList ++ cs) (.name f :: .opening :: (tokens ++ [.closing])) := by
  intro s rest he hrest hroom
  have hhead : (cs ++ rest).head? ≠ some '(' := by
    obtain ⟨c, tail, rfl, hc⟩ := hstart
    simpa using hc
  rw [List.append_assoc, run_capture hf hhead (hl rest hrest), operandStart_of_expectsOperand he]
  change run ⟨.opening :: .name f :: s.tokens, s.depth + 1, (s.depth + 1) :: s.closers⟩ _ = _
  rw [h.run_owed rfl hroom.le hrest]
  simp

/-- A minus sign before a name or a group opens a group, which ends with its operand. -/
theorem scans_negate {cs : List Char} {tokens : List Token}
    (h : Scans Formula.operandLevel cs tokens)
    (hstart : ∃ c tail, cs = c :: tail ∧ (c = '(' ∨ Lexeme.isNameChar c = true)) (level : Nat) :
    Scans level ('-' :: cs)
      (.opening :: .number "-1" :: .operator .multiply :: (tokens ++ [.closing])) := by
  intro s rest he hrest hroom
  let group : Scan := ((s.openGroup.push (.number "-1")).push (.operator .multiply)).owe
  have hminus : s.minus (cs ++ rest) = (group, cs ++ rest) := by
    obtain ⟨c, tail, rfl, hc⟩ := hstart
    have hnumeral : Lexeme.startsNumeral c = false := by
      rcases hc with rfl | hc
      · decide
      · exact Lexeme.startsNumeral_of_isNameChar hc
    rw [List.cons_append, minus]
    dsimp only
    rw [if_neg (by simp [hnumeral]), if_pos (by simpa using hc)]
  rw [List.cons_append, run_cons, step_minus he, hminus]
  change run ⟨.operator .multiply :: .number "-1" :: .opening :: s.tokens, s.depth + 1,
    (s.depth + 1) :: s.closers⟩ _ = _
  rw [h.run_owed rfl hroom.le hrest]
  simp

theorem Scans.of_ne {inner level : Nat} {cs : List Char} {tokens : List Token}
    (h : Scans inner cs tokens) (hlevel : level ≠ Formula.operandLevel) :
    Scans level cs tokens := fun s rest he hrest hroom =>
  h s rest he hrest fun d hd => .inl ((hroom d hd).resolve_right fun h => hlevel h.2)

/-- A minus sign before another sign is a multiplication by minus one, without a group. -/
theorem scans_minus {cs : List Char} {tokens : List Token} {level : Nat}
    (h : Scans level cs tokens) (hstart : ∃ c tail, cs = c :: tail ∧ (c = '-' ∨ c = '+')) :
    Scans level ('-' :: cs) (.number "-1" :: .operator .multiply :: tokens) := by
  intro s rest he hrest hroom
  let product : Scan := (s.push (.number "-1")).push (.operator .multiply)
  have hminus : s.minus (cs ++ rest) = (product, cs ++ rest) := by
    obtain ⟨c, tail, rfl, hc⟩ := hstart
    rw [List.cons_append, minus]
    dsimp only
    rcases hc with rfl | rfl
    · rw [if_neg (by decide), if_neg (by decide +kernel)]
    · rw [if_neg (by decide), if_neg (by decide +kernel)]
  rw [List.cons_append, run_cons, step_minus he, hminus, h product rest rfl hrest hroom]
  simp [product, push]

theorem scans_minus_minus {cs : List Char} {tokens : List Token} {inner level : Nat}
    (h : Scans inner ('-' :: cs) tokens) (hlevel : level ≠ Formula.operandLevel) :
    Scans level ('-' :: '-' :: cs) (.number "-1" :: .operator .multiply :: tokens) :=
  scans_minus (h.of_ne hlevel) ⟨'-', cs, rfl, .inl rfl⟩

theorem scans_plus {cs : List Char} {tokens : List Token} {level : Nat}
    (h : Scans level cs tokens) : Scans level ('+' :: cs) tokens := by
  intro s rest he hrest hroom
  have hplus : s.step '+' (cs ++ rest) = (s, cs ++ rest) := by
    rw [step_ofChar? rfl, operator, he]
    rfl
  rw [List.cons_append, run_cons, hplus, h s rest he hrest hroom]

theorem scans_binary {op : Operator} {sign : Char} (hsign : Operator.ofChar? sign = some op)
    {left right level : Nat} {cs ds : List Char} {ls rs : List Token} (hl : Scans left cs ls)
    (hends : EndsOperand ls) (hr : Scans right ds rs) (hlevel : level ≠ Formula.operandLevel) :
    Scans level (cs ++ sign :: ds) (ls ++ .operator op :: rs) := by
  intro s rest he hrest hroom
  have hlt : ∀ d ∈ s.closers, d < s.depth := by
    intro d hd
    rcases hroom d hd with hd | ⟨_, heq⟩
    · exact hd
    · exact absurd heq hlevel
  have hnone := hends s.tokens s.depth s.closers
  have hsep : Lexeme.EndsName (sign :: (ds ++ rest)) :=
    Lexeme.endsName_cons (Lexeme.isNamePart_of_ofChar? hsign) _
  rw [List.append_assoc, List.cons_append, hl s _ he hsep fun d hd => .inl (hlt d hd),
    settle_of_lt hlt, run_cons, step_operator hsign (by simp [hnone])]
  dsimp only
  let after : Scan := ⟨.operator op :: (ls.reverse ++ s.tokens), s.depth, s.closers⟩
  change after.run (ds ++ rest) = _
  rw [hr after rest rfl hrest fun d hd => .inl (hlt d hd)]
  simp [after]

theorem endsOperand_closing (tokens : List Token) : EndsOperand (tokens ++ [.closing]) := by
  intro before depth closers
  rw [List.reverse_append]
  rfl

theorem EndsOperand.append_left {rs : List Token} (h : EndsOperand rs) (ls : List Token) :
    EndsOperand (ls ++ rs) := by
  intro before depth closers
  rw [List.reverse_append, List.append_assoc]
  exact h _ depth closers

end Scan
end RuleSheet
