import RuleSheet.Number.Shortest

/-!
# Reading a number

A number is an optional sign and then either one of the words `inf`, `infinity`
and `nan`, in any mix of cases, or decimal digits with at most one point and at
least one digit, followed by an optional exponent. Nothing may stand before,
between or after these parts. The value is the nearest representable one, with
ties to the even significand.
-/
namespace RuleSheet.Number

/-- The digits of a run, most significant first, read in base ten. -/
def ofDigits (cs : List Char) : Nat :=
  cs.foldl (fun n c => 10 * n + (c.toNat - '0'.toNat)) 0

def infinity : Float := Float.ofBits 0x7ff0000000000000
def notANumber : Float := Float.ofBits 0x7ff8000000000000

/-- The number nearest to a decimal. Sixteen is more than ten and eight is less, so the
binary length of the digits bounds their decimal length from both sides. A decimal that
these bounds put far outside the range is settled at once, and a long exponent costs
nothing. -/
def Decimal.nearest (d : Decimal) : Float :=
  let least : Int := (d.digits.log2 / 4 : Nat) + d.exponent
  let greatest : Int := (d.digits.log2 / 3 + 1 : Nat) + d.exponent
  if d.digits == 0 then 0
  else if 400 < least then infinity
  else if greatest < -400 then 0
  else Float.ofScientific d.digits (d.exponent < 0) d.exponent.natAbs

/-- A sign, if there is one: whether it is negative, and what follows it. -/
def takeSign : List Char → Bool × List Char
  | '+' :: rest => (false, rest)
  | '-' :: rest => (true, rest)
  | cs => (false, cs)

/-- What follows the digits and the point: nothing, or an exponent. -/
def readExponent : List Char → Option Int
  | [] => some 0
  | c :: rest =>
      let (negative, digits) := takeSign rest
      if (c == 'e' || c == 'E') && !digits.isEmpty && digits.all Char.isDigit then
        some (if negative then -(ofDigits digits : Int) else ofDigits digits)
      else none

/-- Digits with at most one point, and an exponent. -/
def readDecimal (cs : List Char) : Option Decimal :=
  let whole := cs.takeWhile Char.isDigit
  let afterWhole := cs.dropWhile Char.isDigit
  let (fraction, rest) := match afterWhole with
    | '.' :: tail => (tail.takeWhile Char.isDigit, tail.dropWhile Char.isDigit)
    | _ => ([], afterWhole)
  if whole.isEmpty && fraction.isEmpty then none
  else (readExponent rest).map fun e => ⟨ofDigits (whole ++ fraction), e - fraction.length⟩

/-- A number without its sign. -/
def readMagnitude (cs : List Char) : Option Float :=
  let word := cs.map Char.toLower
  if word = "inf".toList || word = "infinity".toList then some infinity
  else if word = "nan".toList then some notANumber
  else (readDecimal cs).map Decimal.nearest

/-- The number that the whole text stands for, if it is one. -/
def read? (text : List Char) : Option Float :=
  let (negative, cs) := takeSign text
  (readMagnitude cs).map fun x => if negative then -x else x

end RuleSheet.Number
