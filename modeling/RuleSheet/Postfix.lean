import RuleSheet.Builtin
import RuleSheet.Number.Written
import RuleSheet.Operator
import RuleSheet.StatementError

/-!
# Postfix sequences and their values

A postfix sequence lists the operands before the operator or function that takes
them, so it needs no parentheses and has no names left in it. Its value is found
on a stack. A sequence has a value only if every operator and function finds its
operands and exactly one number is left at the end.
-/
namespace RuleSheet

inductive Item where
  | value (x : Float)
  | operator (op : Operator)
  | function (f : Builtin)

namespace Item

/-- The item as it is written: a number in its plain form. -/
def text : Item → String
  | value x => Number.plain x
  | operator op => op.symbol.toString
  | function f => f.name

end Item

namespace Postfix

/-- Runs a sequence on a stack, the last operand first. The second component holds
the numbers that were printed, in order; it is kept when the sequence fails. -/
def run : List Item → List Float → Except StatementError Float × List Float
  | [], [x] => (.ok x, [])
  | [], _ => (.error .malformedExpression, [])
  | .value x :: rest, stack => run rest (x :: stack)
  | .function f :: rest, x :: stack =>
      let (answer, printed) := run rest (f.apply x :: stack)
      (answer, if f = .print then x :: printed else printed)
  | .operator op :: rest, y :: x :: stack => run rest (op.apply x y :: stack)
  | _ :: _, _ => (.error .malformedExpression, [])

/-- The value of a sequence. -/
def value (items : List Item) : Except StatementError Float :=
  (run items []).1

/-- The numbers that the sequence prints. -/
def printed (items : List Item) : List Float :=
  (run items []).2

end Postfix
end RuleSheet
