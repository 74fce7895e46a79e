import RuleSheet.Number.Literal
import RuleSheet.Postfix
import RuleSheet.Symbols
import RuleSheet.Token

/-!
# From infix to postfix

The tokens are taken from left to right. Operands go out at once; operators,
functions and opening parentheses are held back on a stack until what they wait
for has come. Names are resolved here, each once and in the order of the tokens,
so that the sequence no longer depends on the table. The conversion stops at the
first token that cannot be accepted.
-/
namespace RuleSheet

/-- What is held back: an operator waits for its right operand, a function for the
end of its argument, an opening parenthesis for the closing one. -/
inductive Held where
  | opening
  | operator (op : Operator)
  | function (f : Builtin)

/-- The items that have gone out, the latest first, and what is held back. -/
structure Yard where
  sent : List Item
  held : List Held

namespace Yard
variable {W : Type}

def empty : Yard :=
  ⟨[], []⟩

def send (y : Yard) (i : Item) : Yard :=
  { y with sent := i :: y.sent }

def hold (y : Yard) (p : Held) : Yard :=
  { y with held := p :: y.held }

/-- Sends the operators that have their right operand once `op` comes next. -/
def releaseBefore (op : Operator) : List Item → List Held → Yard
  | sent, .operator top :: rest =>
      if top.yieldsTo op then releaseBefore op (.operator top :: sent) rest
      else ⟨sent, .operator top :: rest⟩
  | sent, held => ⟨sent, held⟩

/-- Sends all that is held back since the last opening parenthesis, if there is one. -/
def releaseGroup : List Item → List Held → Option Yard
  | _, [] => none
  | sent, .opening :: rest => some ⟨sent, rest⟩
  | sent, .operator op :: rest => releaseGroup (.operator op :: sent) rest
  | sent, .function f :: rest => releaseGroup (.function f :: sent) rest

/-- A function right before a group takes the group as its argument. -/
def releaseCall (y : Yard) : Yard :=
  match y.held with
  | .function f :: rest => ⟨.function f :: y.sent, rest⟩
  | _ => y

/-- Sends all that is held back, unless a parenthesis is still open. -/
def releaseAll : List Item → List Held → Except StatementError (List Item)
  | sent, [] => .ok sent.reverse
  | _, .opening :: _ => .error .mismatchedParentheses
  | sent, .operator op :: rest => releaseAll (.operator op :: sent) rest
  | sent, .function f :: rest => releaseAll (.function f :: sent) rest

/-- Takes one token. A name means a symbol of the table before it means a function. -/
def take (t : Table W) (y : Yard) : Token → Attempt W Yard
  | .number text =>
      match Number.read? text.toList with
      | some x => pure (y.send (.value x))
      | none => throw (.invalidNumber text)
  | .name n => do
      match ← t.resolve n with
      | some x => pure (y.send (.value x))
      | none =>
          match Builtin.ofName? n with
          | some f => pure (y.hold (.function f))
          | none => throw (.unknownIdentifier n)
  | .operator op => pure ((releaseBefore op y.sent y.held).hold (.operator op))
  | .opening => pure (y.hold .opening)
  | .closing =>
      match releaseGroup y.sent y.held with
      | some z => pure z.releaseCall
      | none => throw .mismatchedParentheses
  | .stray c => throw (.unexpectedCharacter c)

end Yard

namespace Postfix
variable {W : Type}

/-- The postfix sequence of an expression, with the values of its names. -/
def ofTokens (t : Table W) (tokens : List Token) : Attempt W (List Item) := do
  let y ← tokens.foldlM (Yard.take t) Yard.empty
  liftExcept (Yard.releaseAll y.sent y.held)
where
  liftExcept : Except StatementError (List Item) → Attempt W (List Item)
    | .ok items => pure items
    | .error e => throw e

end Postfix
end RuleSheet
