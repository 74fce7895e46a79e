import RuleSheet.Number.Remainder
import RuleSheet.Number.Truth

/-!
# The binary operators

Nine operators in six levels of binding strength: or, and, exclusive or, sums,
products, powers. Powers group to the right and all others to the left.
Arithmetic is that of 64-bit floating point, so no operator fails: a division
by zero is infinite or not a number. The logical operators read any number but
zero as true and answer one or zero.
-/
namespace RuleSheet
open Number

inductive Operator where
  | or | and | xor | add | subtract | multiply | divide | modulo | power
  deriving DecidableEq, Repr

namespace Operator

def symbol : Operator → Char
  | or => '|'
  | and => '&'
  | xor => '$'
  | add => '+'
  | subtract => '-'
  | multiply => '*'
  | divide => '/'
  | modulo => '%'
  | power => '^'

/-- Every operator is written with its symbol; products and quotients also with
the multiplication and division signs. -/
def ofChar? : Char → Option Operator
  | '|' => some or
  | '&' => some and
  | '$' => some xor
  | '+' => some add
  | '-' => some subtract
  | '*' | '×' => some multiply
  | '/' | '÷' => some divide
  | '%' => some modulo
  | '^' => some power
  | _ => none

@[simp] theorem ofChar?_symbol (o : Operator) : ofChar? o.symbol = some o := by
  cases o <;> rfl

/-- Binding strength; a larger number binds more tightly. -/
def precedence : Operator → Nat
  | or => 1
  | and => 2
  | xor => 3
  | add | subtract => 4
  | multiply | divide | modulo => 5
  | power => 6

def isRightAssociative : Operator → Bool
  | power => true
  | _ => false

/-- Between two operands of `upper` and then `next`, the first pair belongs together. -/
def yieldsTo (upper next : Operator) : Bool :=
  next.precedence < upper.precedence ||
    (upper.precedence == next.precedence && !next.isRightAssociative)

def apply : Operator → Float → Float → Float
  | or, x, y => flag (holds x || holds y)
  | and, x, y => flag (holds x && holds y)
  | xor, x, y => flag (holds x != holds y)
  | add, x, y => x + y
  | subtract, x, y => x - y
  | multiply, x, y => x * y
  | divide, x, y => x / y
  | modulo, x, y => remainder x y
  | power, x, y => x.pow y

end Operator
end RuleSheet
