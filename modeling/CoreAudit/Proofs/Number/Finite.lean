import CoreAudit.Number.Binary64

/-!
# Numbers that have a whole part

A number is taken apart by dividing its bits, and whether it is infinite or no number at all can be
read off the same bits. The two readings agree, so that a number has a whole part unless it is
infinite or no number. Where a number is multiplied by a thousand, what is no number stays so, and
a product that is no number was none before.

Headlines:
* **`truncate?_eq_none_iff`**: which numbers have no whole part.
* **`isNaN_mul_thousand`**: a thousand times a number is no number iff the number is none.
-/

namespace CoreAudit.Number

open Float.Model Float.Model.UnpackedFloat

/-! ## The fields of a number -/

section Fields

variable {spec : Format} {b : BitVec spec.numBits}

theorem unpack_of_last (h : unpackExponent b = -1#_) : ∃ sign, UnpackedFloat.unpack spec b =
    if unpackMantissa b = 0#_ then .infinity sign else .notANumber :=
  ⟨_, if_pos h⟩

theorem unpack_of_not_last (h : unpackExponent b ≠ -1#_) :
    (UnpackedFloat.unpack spec b).isNaN = false ∧ (UnpackedFloat.unpack spec b).isInf = false := by
  unfold UnpackedFloat.unpack
  dsimp only
  rw [if_neg h]
  by_cases hleast : unpackExponent b = 0#_
  · rw [if_pos hleast]
    by_cases hmantissa : unpackMantissa b = 0#_
    · rw [dif_pos hmantissa]
      exact ⟨rfl, rfl⟩
    · rw [dif_neg hmantissa]
      exact ⟨rfl, rfl⟩
  · rw [if_neg hleast]
    exact ⟨rfl, rfl⟩

theorem isNaN_unpack : (UnpackedFloat.unpack spec b).isNaN = true ↔
    unpackExponent b = -1#_ ∧ unpackMantissa b ≠ 0#_ := by
  by_cases hexponent : unpackExponent b = -1#_
  · obtain ⟨sign, hunpack⟩ := unpack_of_last hexponent
    rw [hunpack, and_iff_right hexponent]
    split
    · exact iff_of_false Bool.false_ne_true (not_not_intro ‹_›)
    · exact iff_of_true rfl ‹_›
  · rw [(unpack_of_not_last hexponent).1]
    exact iff_of_false Bool.false_ne_true fun h => hexponent h.1

theorem isInf_unpack : (UnpackedFloat.unpack spec b).isInf = true ↔
    unpackExponent b = -1#_ ∧ unpackMantissa b = 0#_ := by
  by_cases hexponent : unpackExponent b = -1#_
  · obtain ⟨sign, hunpack⟩ := unpack_of_last hexponent
    rw [hunpack, and_iff_right hexponent]
    split
    · exact iff_of_true rfl ‹_›
    · exact iff_of_false Bool.false_ne_true ‹_›
  · rw [(unpack_of_not_last hexponent).2]
    exact iff_of_false Bool.false_ne_true fun h => hexponent h.1

end Fields

variable {x : Float}

theorem toNat_unpackExponent (b : BitVec 64) :
    (@unpackExponent .binary64 b).toNat = b.toNat / leastNormal % 2048 := by
  simp [unpackExponent, leastNormal, Nat.shiftRight_eq_div_pow]

theorem toNat_unpackMantissa (b : BitVec 64) :
    (@unpackMantissa .binary64 b).toNat = b.toNat % leastNormal := by
  simp [unpackMantissa, leastNormal, Nat.shiftRight_eq_div_pow]

/-- The two fields of a number that is not finite, as it is taken apart. -/
theorem fields_iff (x : Float) :
    (@unpackExponent .binary64 x.toBits.toBitVec = -1#_ ↔
        x.toBits.toNat / leastNormal % 2048 = 2047) ∧
      (@unpackMantissa .binary64 x.toBits.toBitVec = 0#_ ↔
        x.toBits.toNat % leastNormal = 0) := by
  rw [← BitVec.toNat_inj, toNat_unpackExponent, ← BitVec.toNat_inj, toNat_unpackMantissa]
  exact ⟨Iff.rfl, Iff.rfl⟩

/-- **A number has no whole part iff it is infinite or no number.** -/
theorem truncate?_eq_none_iff : truncate? x = none ↔ x.isNaN = true ∨ x.isInf = true := by
  obtain ⟨hexponent, hmantissa⟩ := fields_iff x
  have hnan : x.isNaN = true ↔ x.toBits.toNat / leastNormal % 2048 = 2047 ∧
      x.toBits.toNat % leastNormal ≠ 0 := by
    rw [← hexponent, ne_eq, ← hmantissa]
    exact isNaN_unpack
  have hinf : x.isInf = true ↔ x.toBits.toNat / leastNormal % 2048 = 2047 ∧
      x.toBits.toNat % leastNormal = 0 := by
    rw [← hexponent, ← hmantissa]
    exact isInf_unpack
  rw [hnan, hinf]
  unfold truncate? Binary64.ofFloat
  dsimp only
  by_cases hfield : x.toBits.toNat / leastNormal % 2048 = 2047
  · rw [if_pos hfield]
    by_cases hfraction : x.toBits.toNat % leastNormal = 0
    · rw [if_pos hfraction]
      exact iff_of_true rfl (Or.inr ⟨hfield, hfraction⟩)
    · rw [if_neg hfraction]
      exact iff_of_true rfl (Or.inl ⟨hfield, hfraction⟩)
  · rw [if_neg hfield]
    refine iff_of_false ?_ (by rintro (h | h) <;> exact hfield h.1)
    by_cases hzero : x.toBits.toNat / leastNormal % 2048 = 0
    · rw [if_pos hzero]
      exact Option.some_ne_none _
    · rw [if_neg hzero]
      exact Option.some_ne_none _

theorem isNaN_of_isInf (h : x.isInf = true) : x.isNaN = false := by
  have hinf : x.toModel.unpack.isInf = true := h
  show x.toModel.unpack.isNaN = false
  cases hunpacked : x.toModel.unpack with
  | infinity s => rfl
  | notANumber | zero | finite => rw [hunpacked] at hinf; cases hinf

/-! ## A thousand times a number -/

/-- What is packed with an exponent other than the last is a number. -/
theorem isNaN_packComponents {sign : Sign} {exponent : BitVec 11} {mantissa : BitVec 52}
    (h : exponent ≠ -1#11) :
    ¬ (UnpackedFloat.unpack Format.binary64 (packComponents _ sign exponent mantissa)).isNaN =
      true := fun hnan => by
  obtain ⟨hexponent, _⟩ := isNaN_unpack.mp hnan
  rw [unpackExponent_packComponents] at hexponent
  exact h hexponent

theorem isInf_packedInfinity (s : Sign) :
    (UnpackedFloat.unpack Format.binary64 (packedInfinity _ s)).isInf = true :=
  isInf_unpack.mpr ⟨unpackExponent_packComponents, unpackMantissa_packComponents⟩

theorem isNaN_pack (u : UnpackedFloat) : (Float.Model.pack u).isNaN = u.isNaN := by
  have hinfinity : ∀ s, (UnpackedFloat.unpack Format.binary64 (packedInfinity _ s)).isNaN = false := by
    intro s
    refine Bool.eq_false_iff.mpr fun hnan => (isNaN_unpack.mp hnan).2 ?_
    exact (isInf_unpack.mp (isInf_packedInfinity s)).2
  show (UnpackedFloat.unpack Format.binary64 (UnpackedFloat.pack _ u)).isNaN = u.isNaN
  cases u with
  | notANumber =>
    have hmantissa : unpackMantissa (packedNaN Format.binary64) = 1#52 <<< 51 :=
      unpackMantissa_packComponents
    refine isNaN_unpack.mpr ⟨unpackExponent_packComponents, fun hzero => ?_⟩
    exact absurd (hmantissa.symm.trans hzero) (by decide)
  | infinity s => exact hinfinity s
  | zero s => exact Bool.eq_false_iff.mpr (isNaN_packComponents (by decide))
  | finite s m e h =>
    let exponent := (e + (Format.binary64.exponentBias : Nat) +
      (Format.binary64.mantissaBitsWithoutImplicit : Nat)).toNat
    show (UnpackedFloat.unpack Format.binary64 (if 2 ^ 11 ≤ exponent + 1 then packedInfinity _ s
      else if m.log2 + 1 = 53 then packComponents _ s (BitVec.ofNat 11 exponent) (BitVec.ofNat 52 m)
      else packComponents _ s 0#11 (BitVec.ofNat 52 m))).isNaN = false
    split
    · exact hinfinity s
    · rename_i hbounded
      split
      · refine Bool.eq_false_iff.mpr (isNaN_packComponents fun hlast => hbounded ?_)
        have hfield := congrArg BitVec.toNat hlast
        rw [BitVec.toNat_ofNat, (by decide : (-1#11).toNat = 2 ^ 11 - 1)] at hfield
        have := Nat.mod_le exponent (2 ^ 11)
        omega
      · exact Bool.eq_false_iff.mpr (isNaN_packComponents (by decide))

theorem unpack_thousand : ∃ m e h, (1000.0 : Float).toModel.unpack = .finite .positive m e h :=
  ⟨_, _, _, rfl⟩

theorem isNaN_roundWithAccuracy (spec : Format) (sign : Sign) (m : Nat) (e : Int) (a : Accuracy) :
    (roundWithAccuracy spec sign m e a).isNaN = false := by
  let rounded := shiftToTargetExponent spec m e a
  by_cases h : (shiftToTargetExponent spec rounded.1.roundedMantissa rounded.2 .exact).1.mantissa = 0
  · exact congrArg UnpackedFloat.isNaN (dif_pos h)
  · exact congrArg UnpackedFloat.isNaN (dif_neg h)

theorem isNaN_mul_thousand : (x * 1000.0).isNaN = x.isNaN := by
  obtain ⟨m, e, h, hthousand⟩ := unpack_thousand
  show (Float.Model.pack (UnpackedFloat.mul _ x.toModel.unpack (1000.0 : Float).toModel.unpack)).isNaN =
    x.toModel.unpack.isNaN
  rw [hthousand, isNaN_pack]
  cases x.toModel.unpack with
  | infinity | notANumber | zero => rfl
  | finite s n d hn => exact isNaN_roundWithAccuracy ..

end CoreAudit.Number
