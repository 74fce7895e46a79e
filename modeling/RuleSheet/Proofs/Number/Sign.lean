import RuleSheet.Proofs.Number.Negation

/-!
# Changing signs

A number is stored as its sign, its exponent and its mantissa, and changing its sign changes
nothing else. What is stored is read back as it was, so two changes of sign undo each
other, and the product of two numbers does not depend on whether both signs are changed.
-/
namespace RuleSheet.Number
open Float.Model Float.Model.UnpackedFloat

@[simp] theorem toBitVec_ofBitVec (v : BitVec 1) : (Sign.ofBitVec v).toBitVec = v := by
  rcases BitVec.eq_zero_or_eq_one v with rfl | rfl <;> rfl

@[simp] theorem ofBitVec_toBitVec (s : Sign) : Sign.ofBitVec s.toBitVec = s := by
  cases s <;> rfl

@[simp] theorem extractLsb'_append_append (b : BitVec 64) :
    b.extractLsb' 63 1 ++ b.extractLsb' 52 11 ++ b.extractLsb' 0 52 = b := by
  rw [BitVec.extractLsb'_append_extractLsb'_eq_extractLsb' (show 63 = 52 + 11 from rfl),
    BitVec.extractLsb'_append_extractLsb'_eq_extractLsb' (show 52 = 0 + 52 from rfl)]
  exact BitVec.extractLsb'_eq_self

@[simp] theorem packComponents_unpack (b : BitVec Format.binary64.numBits) :
    packComponents Format.binary64 (Sign.ofBitVec (unpackSign b)) (unpackExponent b)
      (unpackMantissa b) = b := by
  rw [packComponents, toBitVec_ofBitVec]
  exact extractLsb'_append_append b

@[simp] theorem unpackSign_packComponents (s : Sign) (e : BitVec 11) (m : BitVec 52) :
    unpackSign (packComponents Format.binary64 s e m) = s.toBitVec := by
  change (s.toBitVec ++ e ++ m).extractLsb' 63 1 = s.toBitVec
  rw [BitVec.extractLsb'_append_eq_of_le (by decide),
    BitVec.extractLsb'_append_eq_of_le (by decide)]
  exact BitVec.extractLsb'_eq_self

/-- A normal number has a leading bit, which is not stored. -/
theorem toNat_leading (m : BitVec 52) : (1#1 ++ m).toNat = 2 ^ 52 + m.toNat := by
  rw [BitVec.toNat_append, ← Nat.shiftLeft_add_eq_or_of_lt m.isLt]
  rfl

theorem leading_pos (m : BitVec 52) : 0 < (1#1 ++ m).toNat := by
  rw [toNat_leading]
  omega

theorem toNat_pos {m : BitVec 52} (h : m ≠ 0#52) : 0 < m.toNat :=
  Nat.pos_of_ne_zero fun hzero => h (BitVec.eq_of_toNat_eq hzero)

/-- What the bits are read as. The greatest exponent is that of infinities and of no number,
and the least one that of numbers without a leading bit. -/
theorem unpack_packComponents (s : Sign) (e : BitVec 11) (m : BitVec 52) :
    UnpackedFloat.unpack Format.binary64 (packComponents Format.binary64 s e m) =
      if e = -1#11 then if m = 0#52 then .infinity s else .notANumber
      else if e = 0#11 then
        if h : m = 0#52 then .zero s else .finite s m.toNat (-1074) (toNat_pos h)
      else .finite s (1#1 ++ m).toNat (e.toNat - 1075) (leading_pos m) := by
  have hsign : Sign.ofBitVec (unpackSign (packComponents Format.binary64 s e m)) = s := by
    simp
  have hexponent : unpackExponent (packComponents Format.binary64 s e m) = e :=
    unpackExponent_packComponents
  have hmantissa : unpackMantissa (packComponents Format.binary64 s e m) = m :=
    unpackMantissa_packComponents
  generalize packComponents Format.binary64 s e m = b at *
  subst hsign hexponent hmantissa
  unfold UnpackedFloat.unpack
  dsimp only
  by_cases hgreatest : unpackExponent b = -1#11
  · rw [if_pos hgreatest, if_pos hgreatest]
  rw [if_neg hgreatest, if_neg hgreatest]
  by_cases hleast : unpackExponent b = 0#11
  · rw [if_pos hleast, if_pos hleast, hleast]
    rfl
  · rw [if_neg hleast, if_neg hleast]
    rfl

theorem unpack_packComponents_neg (s : Sign) (e : BitVec 11) (m : BitVec 52) :
    UnpackedFloat.unpack Format.binary64 (packComponents Format.binary64 (-s) e m) =
      (UnpackedFloat.unpack Format.binary64 (packComponents Format.binary64 s e m)).neg := by
  rw [unpack_packComponents, unpack_packComponents]
  by_cases hgreatest : e = -1#11
  · rw [if_pos hgreatest, if_pos hgreatest]
    by_cases hm : m = 0#52
    · rw [if_pos hm, if_pos hm]
      rfl
    · rw [if_neg hm, if_neg hm]
      rfl
  rw [if_neg hgreatest, if_neg hgreatest]
  by_cases hleast : e = 0#11
  · rw [if_pos hleast, if_pos hleast]
    by_cases hm : m = 0#52
    · rw [dif_pos hm, dif_pos hm]
      rfl
    · rw [dif_neg hm, dif_neg hm]
      rfl
  · rw [if_neg hleast, if_neg hleast]
    rfl

/-- How a finite number is stored. A number whose mantissa is short of bits gets the least
exponent. -/
theorem pack_finite (s : Sign) (m : Nat) (e : Int) (hm : 0 < m) :
    UnpackedFloat.pack Format.binary64 (.finite s m e hm) =
      if 2048 ≤ (e + 1023 + 52).toNat + 1 then packedInfinity Format.binary64 s
      else if m.log2 + 1 = 53 then
        packComponents Format.binary64 s (BitVec.ofNat 11 (e + 1023 + 52).toNat)
          (BitVec.ofNat 52 m)
      else packComponents Format.binary64 s 0#11 (BitVec.ofNat 52 m) :=
  rfl

theorem pack_unpack_packComponents (s : Sign) {e : BitVec 11} {m : BitVec 52}
    (h : e = -1#11 → m = 0#52) :
    UnpackedFloat.pack Format.binary64
        (UnpackedFloat.unpack Format.binary64 (packComponents Format.binary64 s e m)) =
      packComponents Format.binary64 s e m := by
  rw [unpack_packComponents]
  by_cases hinfinite : e = -1#11
  · rw [if_pos hinfinite, if_pos (h hinfinite), hinfinite, h hinfinite]
    rfl
  rw [if_neg hinfinite]
  by_cases hleast : e = 0#11
  · rw [if_pos hleast, hleast]
    by_cases hm : m = 0#52
    · rw [dif_pos hm, hm]
      rfl
    · -- A subnormal number has fewer bits than the format.
      have hlt := m.isLt
      have hlog : m.toNat.log2 < 52 := by
        rw [Nat.log2_lt fun h' => hm (BitVec.eq_of_toNat_eq h')]
        exact hlt
      rw [dif_neg hm, pack_finite, if_neg (by decide), if_neg (by omega), BitVec.ofNat_toNat,
        BitVec.setWidth_eq]
  · have hlt := m.isLt
    have hlog : (1#1 ++ m).toNat.log2 = 52 := by
      rw [toNat_leading, Nat.log2_eq_iff (by omega)]
      omega
    have hexponent : ((e.toNat : Int) - 1075 + 1023 + 52).toNat = e.toNat := by omega
    have hgreatest : e.toNat ≠ 2047 := fun h' => hinfinite (BitVec.eq_of_toNat_eq h')
    have he := e.isLt
    rw [if_neg hleast, pack_finite, hexponent, if_neg (by omega), hlog, if_pos rfl,
      BitVec.ofNat_toNat, BitVec.setWidth_eq]
    congr 1
    apply BitVec.eq_of_toNat_eq
    rw [BitVec.toNat_ofNat, toNat_leading]
    omega

theorem unpack_pack_unpack (b : BitVec Format.binary64.numBits) :
    UnpackedFloat.unpack Format.binary64
        (UnpackedFloat.pack Format.binary64 (UnpackedFloat.unpack Format.binary64 b)) =
      UnpackedFloat.unpack Format.binary64 b := by
  rw [← packComponents_unpack b]
  generalize Sign.ofBitVec (unpackSign b) = s, unpackExponent b = e, unpackMantissa b = m
  by_cases h : e = -1#11 → m = 0#52
  · rw [pack_unpack_packComponents s h]
  · rw [Classical.not_imp] at h
    rw [unpack_packComponents, if_pos h.1, if_neg h.2]
    rfl

theorem pack_unpack_of_valid {b : BitVec Format.binary64.numBits}
    (h : Format.binary64.Valid b) :
    UnpackedFloat.pack Format.binary64 (UnpackedFloat.unpack Format.binary64 b) = b := by
  by_cases hnumber : unpackExponent b = -1#11 → unpackMantissa b = 0#52
  · rw [← packComponents_unpack b, pack_unpack_packComponents _ hnumber]
  · rw [Classical.not_imp] at hnumber
    rw [h.eq_packedNaN hnumber.1 hnumber.2]
    rfl

theorem pack_unpack (x : Float) : Float.Model.pack x.toModel.unpack = x.toModel := by
  obtain ⟨bits, hvalid⟩ := x.toModel
  have hbits : UInt64.ofBitVec (UnpackedFloat.pack Format.binary64
      (UnpackedFloat.unpack Format.binary64 bits.toBitVec)) = bits := by
    rw [pack_unpack_of_valid hvalid]
  unfold Float.Model.pack Float.Model.unpack
  congr 1

@[simp] theorem unpack_neg (x : Float) : (-x).toModel.unpack = x.toModel.unpack.neg := by
  let b : BitVec Format.binary64.numBits := x.toModel.toBits.toBitVec
  have hneg : (UnpackedFloat.unpack Format.binary64 b).neg =
      UnpackedFloat.unpack Format.binary64 (packComponents Format.binary64
        (-Sign.ofBitVec (unpackSign b)) (unpackExponent b) (unpackMantissa b)) := by
    rw [unpack_packComponents_neg, packComponents_unpack]
  change UnpackedFloat.unpack Format.binary64 (UnpackedFloat.pack Format.binary64
    (UnpackedFloat.unpack Format.binary64 b).neg) = (UnpackedFloat.unpack Format.binary64 b).neg
  rw [hneg, unpack_pack_unpack]

@[simp] theorem neg_neg_eq (x : Float) : - -x = x := by
  have hunpack : (-x).toModel.unpack.neg = x.toModel.unpack := by
    rw [unpack_neg]
    cases x.toModel.unpack with
    | notANumber => rfl
    | infinity s => cases s <;> rfl
    | zero s => cases s <;> rfl
    | finite s m e hm => cases s <;> rfl
  change Float.ofModel (Float.Model.pack (-x).toModel.unpack.neg) = x
  rw [hunpack, pack_unpack]

theorem mul_swap (x y : Float) : x * y = y * x := by
  have hsigns (s t : Sign) : s * t = t * s := by
    cases s <;> cases t <;> rfl
  have hmul (u v : UnpackedFloat) :
      UnpackedFloat.mul Format.binary64 u v = UnpackedFloat.mul Format.binary64 v u := by
    cases u <;> cases v <;> dsimp only [UnpackedFloat.mul] <;>
      simp only [hsigns, Nat.mul_comm, Int.add_comm]
  exact congrArg (fun u => Float.ofModel (Float.Model.pack u)) (hmul _ _)

theorem mul_neg_one (x : Float) : x * (-1) = -x := by
  rw [mul_swap, neg_one_mul]

theorem neg_mul_neg (x y : Float) : -x * -y = x * y := by
  have hsigns (s t : Sign) : -s * -t = s * t := by
    cases s <;> cases t <;> rfl
  have hmul (u v : UnpackedFloat) :
      UnpackedFloat.mul Format.binary64 u.neg v.neg = UnpackedFloat.mul Format.binary64 u v := by
    cases u <;> cases v <;> dsimp only [UnpackedFloat.mul, UnpackedFloat.neg] <;>
      simp only [hsigns]
  change Float.ofModel (Float.Model.pack
    (UnpackedFloat.mul Format.binary64 (-x).toModel.unpack (-y).toModel.unpack)) = _
  rw [unpack_neg, unpack_neg, hmul]
  rfl

theorem mul_neg_one_mul_neg (x y : Float) : x * (-1) * -y = x * y := by
  rw [mul_neg_one, neg_mul_neg]

end RuleSheet.Number
