import RuleSheet.Number.Binary

/-!
# Remainder

The remainder of a division truncated toward zero. It has the sign of the
dividend and is exact: no rounding takes place, because a remainder never needs
more significant bits than the operand with the smaller exponent has.
-/
namespace RuleSheet.Number

/-- The remainder of two magnitudes on their common last binary place. -/
def Binary.modulo (a b : Binary) : Binary :=
  let e := if a.exponent ≤ b.exponent then a.exponent else b.exponent
  let steps (c : Binary) := c.significand * twoTo (c.exponent - e).toNat
  ⟨steps a % steps b, e⟩

def Binary.toFloat (b : Binary) : Float :=
  (Float.ofNat b.significand).scaleB b.exponent

/-- The remainder of `x` by `y`; not a number when `x` is infinite or `y` is zero. -/
def remainder (x y : Float) : Float :=
  match reading x, reading y with
  | .finite negative a, .finite _ b =>
      if b.significand == 0 then 0 / 0
      else
        let r := (a.modulo b).toFloat
        if negative then -r else r
  | .finite _ _, .infinite _ => x
  | _, _ => 0 / 0

end RuleSheet.Number
