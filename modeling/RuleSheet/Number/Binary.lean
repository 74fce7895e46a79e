/-!
# A number as its significand and exponent

Values are 64-bit floating-point numbers. Printing them and taking remainders
needs the exact value, which is a natural number times a power of two. This
module takes the bits apart; it does no rounding.
-/
namespace RuleSheet.Number

/-- The value `significand * 2 ^ exponent`, with no sign. -/
structure Binary where
  significand : Nat
  exponent : Int
  deriving DecidableEq, Repr

inductive Reading where
  | nan
  | infinite (negative : Bool)
  | finite (negative : Bool) (magnitude : Binary)
  deriving DecidableEq, Repr

/-- A power of two. -/
def twoTo (n : Nat) : Nat :=
  Nat.pow 2 n

/-- The smallest significand of the normal range. -/
def leastNormal : Nat := 0x10000000000000

/-- The eleven exponent bits: all ones for the values that are not finite, and
zero for zero and the values below the normal range. -/
def reading (x : Float) : Reading :=
  let bits := x.toBits.toNat
  let negative : Bool := 0x8000000000000000 ≤ bits
  let biased : Nat := bits / leastNormal % 0x800
  let fraction : Nat := bits % leastNormal
  if biased == 0x7ff then
    if fraction == 0 then .infinite negative else .nan
  else if biased == 0 then .finite negative ⟨fraction, -1074⟩
  else .finite negative ⟨leastNormal + fraction, (biased : Int) - 1075⟩

namespace Binary

/-- Below a power of two the next value is half as far away as above it, except
at the bottom of the normal range. -/
def narrowBelow (b : Binary) : Bool :=
  b.significand == leastNormal && b.exponent > -1074

/-- The value as a quotient of natural numbers. -/
def quotient (b : Binary) : Nat × Nat :=
  (b.significand * twoTo b.exponent.toNat, twoTo (-b.exponent).toNat)

end Binary
end RuleSheet.Number
