import RuleSheet.Number.Shortest

/-!
# The two written forms of a number

The plain form has the shortest digits that read back and is positional
throughout: there is no exponent, however many zeros that takes. The rounded
form has one digit, a point, nine digits and an exponent, and is rounded from
the exact value with ties to the even digit. Both write a negative zero with its
sign and write the values that are not finite as `inf`, `-inf` and `NaN`.
-/
namespace RuleSheet.Number

def zeros (n : Nat) : List Char :=
  List.replicate n '0'

/-- A decimal in positional notation, with no point when it is whole. -/
def Decimal.positional (d : Decimal) : List Char :=
  let digits := Nat.toDigits 10 d.digits
  let places := (-d.exponent).toNat
  if places == 0 then digits ++ zeros d.exponent.toNat
  else
    let padded := zeros (places + 1 - digits.length) ++ digits
    let whole := padded.length - places
    padded.take whole ++ '.' :: padded.drop whole

/-- The nearest natural number to `num / den`, and of two equally near the even one. -/
def roundToEven (num den : Nat) : Nat :=
  let q := num / den
  let r := num % den
  if 2 * r < den then q
  else if den < 2 * r then q + 1
  else if q % 2 == 0 then q else q + 1

/-- The ten leading digits of a value that is not zero, and the power of ten of
the first of them. -/
def tenDigits (b : Binary) : Nat × Int :=
  let num := b.quotient.1
  let den := b.quotient.2
  let size := magnitude num den
  let step := size - 10
  let n := roundToEven (num * tenTo (-step).toNat) (den * tenTo step.toNat)
  if n == tenTo 10 then (tenTo 9, size) else (n, size - 1)

def exponentText (e : Int) : List Char :=
  if e < 0 then '-' :: Nat.toDigits 10 e.natAbs else Nat.toDigits 10 e.natAbs

/-- One digit, a point, nine digits and the exponent. -/
def Binary.ninePlaces (b : Binary) : List Char :=
  let (n, e) := if b.significand == 0 then (0, 0) else tenDigits b
  let digits := Nat.toDigits 10 n
  let padded := zeros (10 - digits.length) ++ digits
  padded.take 1 ++ '.' :: padded.drop 1 ++ 'e' :: exponentText e

/-- A number written with `magnitude` for the finite values. -/
def writtenWith (magnitude : Binary → List Char) (x : Float) : String :=
  match reading x with
  | .nan => "NaN"
  | .infinite negative => if negative then "-inf" else "inf"
  | .finite negative b =>
      String.ofList (if negative then '-' :: magnitude b else magnitude b)

/-- The plain form. -/
def plain (x : Float) : String :=
  writtenWith (fun b => (shortest b).positional) x

/-- The rounded form. -/
def rounded (x : Float) : String :=
  writtenWith Binary.ninePlaces x

end RuleSheet.Number
