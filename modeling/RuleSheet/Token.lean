import RuleSheet.Operator

/-!
# Tokens

The tokens of an expression. A number keeps its text, possibly with a minus
sign in front; whether the text is a number is decided when it is read. A stray
character is one that has no meaning in an expression.
-/
namespace RuleSheet

inductive Token where
  | number (text : String)
  | name (text : String)
  | operator (op : Operator)
  | opening
  | closing
  | stray (c : Char)
  deriving DecidableEq, Repr

namespace Token

/-- The token as it is written in an expression. -/
def text : Token → List Char
  | number t => t.toList
  | name n => n.toList
  | operator op => [op.symbol]
  | opening => ['(']
  | closing => [')']
  | stray c => [c]

end Token
end RuleSheet
