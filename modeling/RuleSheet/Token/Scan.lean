import RuleSheet.Text.Blank
import RuleSheet.Text.Lower
import RuleSheet.Token
import RuleSheet.Token.Lexeme

/-!
# From text to tokens

Scanning never fails. The text is first rid of its blanks and lowered character
by character. Then the scanner takes one lexeme at a time and makes three
shorthands explicit: two operands side by side are multiplied, a minus sign
without a left operand negates, and a function name without a parenthesis takes
the next operand. The last two open groups of their own, and each group is
closed when its operand ends.

The state keeps the tokens so far, the latest first, the depth of open groups,
and the depths at which a closing parenthesis is owed, the innermost first.
Parentheses that the text leaves unmatched are completed at the two ends of the
tokens when balancing is asked for; otherwise they stay as they are, and it is
left to the later stages to refuse them.
-/
namespace RuleSheet
open Text

structure Scan where
  tokens : List Token
  depth : Int
  closers : List Int
  deriving DecidableEq, Repr

namespace Scan

def start : Scan :=
  ⟨[], 0, []⟩

def push (s : Scan) (t : Token) : Scan :=
  { s with tokens := t :: s.tokens }

def openGroup (s : Scan) : Scan :=
  { s with tokens := .opening :: s.tokens, depth := s.depth + 1 }

/-- The group at the present depth is to be closed when its operand ends. -/
def owe (s : Scan) : Scan :=
  { s with closers := s.depth :: s.closers }

/-- Closes the owed groups at the present depth, and those that this brings to the
present depth in turn. -/
def settle : List Token → Int → List Int → Scan
  | tokens, depth, [] => ⟨tokens, depth, []⟩
  | tokens, depth, d :: rest =>
      if d = depth then settle (.closing :: tokens) (depth - 1) rest
      else ⟨tokens, depth, d :: rest⟩

/-- An operand has ended at the present depth. -/
def operandEnd (s : Scan) : Scan :=
  settle s.tokens s.depth s.closers

/-- An operand that begins after the token `last` is multiplied by what stands
before. Two numerals side by side are not. -/
def multiplies (last : Option Token) (numeral : Bool) : Bool :=
  match last with
  | some (.number _) => !numeral
  | some .closing => true
  | some (.name n) => !Builtin.isName n
  | _ => false

/-- An operand begins here. -/
def operandStart (s : Scan) (numeral : Bool) : Scan :=
  if multiplies s.tokens.head? numeral then s.push (.operator .multiply) else s

/-- An operand has to come after these tokens, so that a sign is not an operator. -/
def expectsOperand (s : Scan) : Bool :=
  match s.tokens.head? with
  | none | some (.operator _) | some .opening => true
  | _ => false

/-- A written closing parenthesis. It may close a group that was owed one. -/
def close (s : Scan) : Scan :=
  let depth := s.depth - 1
  operandEnd ⟨.closing :: s.tokens, depth, s.closers.dropWhile fun d => depth < d⟩

/-- A numeral after the sign `sign`. -/
def numeral (s : Scan) (sign cs : List Char) : Scan × List Char :=
  let (digits, rest) := Lexeme.numeral cs
  (((s.operandStart true).push (.number (String.ofList (sign ++ digits)))).operandEnd, rest)

/-- A name. A function name before anything but an opening parenthesis opens a group. -/
def name (s : Scan) (cs : List Char) : Scan × List Char :=
  let (n, rest) := Lexeme.name cs
  let named := (s.operandStart false).push (.name (String.ofList n))
  if Builtin.isName (String.ofList n) then
    (if rest.head? = some '(' then named else named.openGroup.owe, rest)
  else (named.operandEnd, rest)

/-- A minus sign where an operand is expected: the sign of a numeral, and otherwise
a multiplication by minus one, in a group of its own if an operand follows. -/
def minus (s : Scan) (rest : List Char) : Scan × List Char :=
  let negating (s : Scan) := (s.push (.number "-1")).push (.operator .multiply)
  match rest with
  | [] => (negating s, rest)
  | c :: _ =>
      if Lexeme.startsNumeral c then s.numeral ['-'] rest
      else if c == '(' || Lexeme.isNameChar c then ((negating s.openGroup).owe, rest)
      else (negating s, rest)

/-- An operator sign. A plus sign where an operand is expected is dropped. -/
def operator (s : Scan) (op : Operator) (rest : List Char) : Scan × List Char :=
  if s.expectsOperand && op == .subtract then s.minus rest
  else if s.expectsOperand && op == .add then (s, rest)
  else (s.push (.operator op), rest)

/-- One lexeme, which begins with `c`, and what follows it. -/
def step (s : Scan) (c : Char) (rest : List Char) : Scan × List Char :=
  if Lexeme.startsNumeral c then s.numeral [] (c :: rest)
  else if Lexeme.isNameChar c then s.name (c :: rest)
  else if c == '(' then ((s.operandStart false).openGroup, rest)
  else if c == ')' then (s.close, rest)
  else match Operator.ofChar? c with
    | some op => s.operator op rest
    | none => (s.push (.stray c), rest)

theorem minus_length (s : Scan) (rest : List Char) : (s.minus rest).2.length ≤ rest.length := by
  unfold minus
  cases rest with
  | nil => simp
  | cons c tail =>
      simp only
      split
      · exact Lexeme.numeral_length_le _
      · split <;> simp

theorem operator_length (s : Scan) (op : Operator) (rest : List Char) :
    (s.operator op rest).2.length ≤ rest.length := by
  unfold operator
  split
  · exact minus_length s rest
  · split <;> simp

/-- Every lexeme takes at least one character. -/
theorem step_length (s : Scan) (c : Char) (rest : List Char) :
    (s.step c rest).2.length ≤ rest.length := by
  unfold step
  split
  · rename_i h
    exact Lexeme.numeral_length h
  · split
    · rename_i h
      have hn : (Lexeme.name (c :: rest)).2.length ≤ rest.length := Lexeme.name_length h
      unfold name
      dsimp only
      split
      · exact hn
      · exact hn
    · split
      · simp
      · split
        · simp
        · split
          · exact operator_length s _ rest
          · simp

/-- Scans a text to its end. -/
def run (s : Scan) (cs : List Char) : Scan :=
  match cs with
  | [] => s
  | c :: rest =>
      have := step_length s c rest
      run (s.step c rest).1 (s.step c rest).2
termination_by cs.length
decreasing_by simp only [List.length_cons]; omega

/-- Operands that never came: every group that is still owed its end is closed. -/
def finish (s : Scan) : Scan :=
  ⟨List.replicate s.closers.length .closing ++ s.tokens, s.depth - s.closers.length, []⟩

/-- The tokens in the order of the text. -/
def inOrder (s : Scan) : List Token :=
  s.tokens.reverse

/-- The tokens with the parentheses that are missing at either end. -/
def balanced (s : Scan) : List Token :=
  List.replicate (-s.depth).toNat .opening ++ s.inOrder ++ List.replicate s.depth.toNat .closing

end Scan

namespace Token

/-- The characters of an expression that the scanner sees. -/
def normalize (cs : List Char) : List Char :=
  lowerChars (dropBlanks cs)

/-- The tokens of a text of normalized characters. -/
def ofNormal (autoBalance : Bool) (cs : List Char) : List Token :=
  let s := (Scan.start.run cs).finish
  if autoBalance then s.balanced else s.inOrder

/-- The tokens of an expression. -/
def scan (autoBalance : Bool) (cs : List Char) : List Token :=
  ofNormal autoBalance (normalize cs)

/-- A text that reads back as one name token, which is the text itself. -/
def isIdentifier (name : String) : Bool :=
  scan false name.toList == [.name name]

end Token
end RuleSheet
