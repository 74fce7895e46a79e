import RuleSheet.Number.Binary

/-!
# The shortest decimal that reads back

Every number stands for the interval of reals that round to it. The digits
written for a number are the fewest whose decimal lies in that interval, and of
the decimals with so many digits the one nearest to the number. When two are
equally near, the larger is taken.

The search is the rule itself: for one, two, three digits and so on, the two
decimals around the number with so many digits are tried. All arithmetic is on
natural numbers. Seventeen digits always suffice for a 64-bit number, and the
search ends there.
-/
namespace RuleSheet.Number

/-- The value `digits * 10 ^ exponent`. -/
structure Decimal where
  digits : Nat
  exponent : Int
  deriving DecidableEq, Repr

/-- A power of ten. -/
def tenTo (n : Nat) : Nat :=
  Nat.pow 10 n

def digitCount (n : Nat) : Nat :=
  (Nat.toDigits 10 n).length

/-- The number of digits before the point of `num / den`; zero or negative when
the quotient is less than one, counting the zeros after the point. -/
def magnitude (num den : Nat) : Int :=
  if num ≥ den then digitCount (num / den)
  else 1 - (digitCount (den / num) : Int)

/-- A decimal grid laid over a binary one: a count of quarter units of the last
binary place times `scale` is a count of `den`-ths of a decimal step. -/
structure Grid where
  scale : Nat
  den : Nat

/-- The grid of decimal steps `10 ^ step` over the quarter units of `b`. -/
def Grid.over (b : Binary) (step : Int) : Grid :=
  let q := b.exponent - 2
  { scale := twoTo q.toNat * tenTo (-step).toNat
    den := twoTo (-q).toNat * tenTo step.toNat }

/-- The point `n` of the grid lies in the interval of reals that round to `b`.
The ends belong to it when the significand is even. -/
def Grid.readsBack (g : Grid) (b : Binary) (n : Nat) : Bool :=
  let low := (if b.narrowBelow then 4 * b.significand - 1 else 4 * b.significand - 2) * g.scale
  let high := (4 * b.significand + 2) * g.scale
  let point := n * g.den
  if b.significand % 2 == 0 then low ≤ point && point ≤ high
  else low < point && point < high

/-- The better of the two points of the grid around `b`, if either reads back. -/
def Grid.nearest? (g : Grid) (b : Binary) : Option Nat :=
  let value := 4 * b.significand * g.scale
  let below := value / g.den
  let above := below + 1
  match g.readsBack b below, g.readsBack b above with
  | true, true => some (if value - below * g.den < above * g.den - value then below else above)
  | true, false => some below
  | false, true => some above
  | false, false => none

/-- The search from `count` digits on, with `left` more counts to try. A point that
has carried into one digit more is a power of ten. -/
def shortestFrom (b : Binary) (size : Int) (count : Nat) : Nat → Decimal
  | 0 =>
      let g := Grid.over b (size - count)
      ⟨4 * b.significand * g.scale / g.den, size - count⟩
  | left + 1 =>
      match (Grid.over b (size - count)).nearest? b with
      | some n => if n == tenTo count then ⟨1, size⟩ else ⟨n, size - count⟩
      | none => shortestFrom b size (count + 1) left

/-- The shortest decimal that reads back as `b`. -/
def shortest (b : Binary) : Decimal :=
  if b.significand == 0 then ⟨0, 0⟩
  else shortestFrom b (magnitude b.quotient.1 b.quotient.2) 1 17

end RuleSheet.Number
