/-!
# Numbers as truth values

Every number but zero is true, the values that are not numbers included. A truth
value is written back as one or zero.
-/
namespace RuleSheet.Number

def holds (x : Float) : Bool :=
  x != 0

def flag (b : Bool) : Float :=
  if b then 1 else 0

end RuleSheet.Number
