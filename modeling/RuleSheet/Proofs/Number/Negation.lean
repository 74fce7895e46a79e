import Mathlib.Algebra.Group.Nat.Defs

/-!
# Multiplying by minus one

The product of minus one and a number is the number with its sign changed, for zeros,
infinities and numbers of every size. No rounding takes place: the significand of minus
one is a power of two, and the product is shifted back by as many places, since the
other factor is already as the format wants it.
-/
namespace RuleSheet.Number
open Float.Model Float.Model.UnpackedFloat

/-- The exponent is the one that the format has for a number of this size. -/
def IsCanonical (mantissa : Nat) (exponent : Int) : Prop :=
  Format.binary64.targetExponent (totalExponent mantissa exponent) = exponent

theorem targetExponent_eq (m : Nat) (e : Int) :
    Format.binary64.targetExponent (totalExponent m e) =
      max ((m.log2 : Int) + 1 + e - 53) (-1074) :=
  rfl

theorem isCanonical_of_unpack {b : BitVec Format.binary64.numBits} {s : Sign} {m : Nat}
    {e : Int} {hm : 0 < m} (h : UnpackedFloat.unpack Format.binary64 b = .finite s m e hm) :
    IsCanonical m e := by
  rw [IsCanonical, targetExponent_eq]
  unfold UnpackedFloat.unpack at h
  dsimp only at h
  have hlt := (unpackMantissa b).isLt
  by_cases hinfinite : unpackExponent b = -1#_
  · rw [if_pos hinfinite] at h
    by_cases hmantissa : unpackMantissa b = 0#_
    · rw [if_pos hmantissa] at h
      cases h
    · rw [if_neg hmantissa] at h
      cases h
  rw [if_neg hinfinite] at h
  by_cases hexponent : unpackExponent b = 0#_
  · rw [if_pos hexponent] at h
    by_cases hzero : unpackMantissa b = 0#_
    · rw [dif_pos hzero] at h
      cases h
    · -- A subnormal number has the least exponent and fewer bits than the format.
      rw [dif_neg hzero] at h
      injection h with _ hmantissa he
      have hlog : m.log2 < 52 := by
        rw [Nat.log2_lt (by omega), ← hmantissa]
        exact hlt
      have hleast : e = -1074 := by
        rw [← he, hexponent]
        rfl
      omega
  · -- A normal number has as many bits as the format.
    rw [if_neg hexponent] at h
    injection h with _ hmantissa he
    have hbits : m = 2 ^ 52 + (unpackMantissa b).toNat := by
      rw [← hmantissa, BitVec.toNat_append, ← Nat.shiftLeft_add_eq_or_of_lt hlt]
      rfl
    have hlog : m.log2 = 52 := by
      rw [Nat.log2_eq_iff (by omega)]
      change (unpackMantissa b).toNat < 2 ^ 52 at hlt
      omega
    have hpos : 0 < (unpackExponent b).toNat := by
      rw [Nat.pos_iff_ne_zero]
      intro hzero
      exact hexponent (BitVec.eq_of_toNat_eq hzero)
    have hbias : e = (unpackExponent b).toNat - 1075 := he.symm
    omega

@[simp] theorem repeat_shiftRightOne (places m : Nat) :
    places.repeat ExtendedMantissa.shiftRightOne ⟨2 ^ places * m, false, false⟩ =
      ⟨m, false, false⟩ := by
  induction places generalizing m with
  | zero => simp [Nat.repeat]
  | succ places ih =>
      have hdouble : 2 ^ (places + 1) * m = 2 ^ places * (2 * m) := by
        rw [Nat.pow_succ, Nat.mul_assoc]
      rw [Nat.repeat, hdouble, ih]
      simp [ExtendedMantissa.shiftRightOne]

/-- A shift by no places, or by as many as were added, to the exponent of the format. -/
theorem shiftToTargetExponent_eq {mantissa m places : Nat} {exponent e : Int}
    (hm : mantissa = 2 ^ places * m) (he : e = exponent + places)
    (ht : Format.binary64.targetExponent (totalExponent mantissa exponent) = e) :
    shiftToTargetExponent Format.binary64 mantissa exponent .exact =
      (⟨m, false, false⟩, e) := by
  unfold shiftToTargetExponent shiftToExponent
  have hamount : (e - exponent).toNat = places := by omega
  dsimp only
  rw [ht, hamount, ← he, hm]
  exact congrArg (·, e) (repeat_shiftRightOne places m)

theorem roundWithAccuracy_shifted {m : Nat} {e : Int} (hm : 0 < m) (hc : IsCanonical m e)
    (s : Sign) :
    roundWithAccuracy Format.binary64 s (2 ^ 52 * m) (-52 + e) .exact = .finite s m e hm := by
  have hlog : (2 ^ 52 * m).log2 = m.log2 + 52 := by
    have hle := (Nat.le_log2 (n := m) (k := m.log2) (by omega)).mp (Nat.le_refl _)
    have hlt := (Nat.log2_lt (n := m) (k := m.log2 + 1) (by omega)).mp (Nat.lt_succ_self _)
    rw [Nat.log2_eq_iff (by omega), Nat.mul_comm, Nat.pow_add,
      show m.log2 + 52 + 1 = (m.log2 + 1) + 52 from rfl, Nat.pow_add]
    exact ⟨Nat.mul_le_mul_right _ hle, Nat.mul_lt_mul_of_pos_right hlt (by decide)⟩
  have htarget : Format.binary64.targetExponent (totalExponent (2 ^ 52 * m) (-52 + e)) = e := by
    rw [IsCanonical, targetExponent_eq] at hc
    rw [targetExponent_eq, hlog]
    omega
  have hsecond : shiftToTargetExponent Format.binary64 m e .exact = (⟨m, false, false⟩, e) :=
    shiftToTargetExponent_eq (show m = 2 ^ 0 * m by simp) (by simp) hc
  unfold roundWithAccuracy
  rw [shiftToTargetExponent_eq rfl (by omega) htarget]
  dsimp only
  rw [show (ExtendedMantissa.mk m false false).roundedMantissa = m from rfl, hsecond]
  dsimp only
  rw [dif_neg (by omega)]

theorem unpack_minusOne :
    (-1 : Float).toModel.unpack = .finite .negative (2 ^ 52) (-52) (by decide) :=
  rfl

theorem neg_one_mul (x : Float) : (-1) * x = -x := by
  have hmul : UnpackedFloat.mul Format.binary64 (-1 : Float).toModel.unpack x.toModel.unpack =
      x.toModel.unpack.neg := by
    rw [unpack_minusOne]
    cases hx : x.toModel.unpack with
    | infinity s => cases s <;> rfl
    | notANumber => rfl
    | zero s => cases s <;> rfl
    | finite s m e hm =>
        have hc := isCanonical_of_unpack hx
        cases s
        · exact roundWithAccuracy_shifted hm hc .positive
        · exact roundWithAccuracy_shifted hm hc .negative
  exact congrArg (fun u => Float.ofModel (Float.Model.pack u)) hmul

end RuleSheet.Number
