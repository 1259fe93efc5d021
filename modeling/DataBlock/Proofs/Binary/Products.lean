import DataBlock.Binary.Number
/-!
# Products with whole numbers

The product of a finite number with a whole number keeps the sign, and it is zero
only if one of the two is: rounding takes it at most up to infinity.  So a product
is finite and not below zero only if the number is.
-/

namespace DataBlock.Binary

theorem roundHalfEven_one (n : Nat) : roundHalfEven n 1 = n := by
  simp [roundHalfEven, Nat.mod_one]

namespace Format

variable (f : Format)

theorem binade_pos : 0 < f.binade := Nat.two_pow_pos _

theorem infinity_lt_signBit : f.infinity < f.signBit := by
  have hwidth : 0 < 2 ^ f.exponentWidth := Nat.two_pow_pos _
  rw [infinity, signBit, Nat.pow_add, Nat.mul_comm (2 ^ f.fractionWidth)]
  exact Nat.mul_lt_mul_of_pos_right (by omega) f.binade_pos

theorem units_ne_zero {magnitude : Nat} (h : magnitude ≠ 0) : f.units magnitude ≠ 0 := by
  have hbinade := f.binade_pos
  have hsignificand : f.significand magnitude ≠ 0 := by
    unfold significand
    split <;> omega
  exact Nat.mul_ne_zero hsignificand (Nat.ne_of_gt (Nat.two_pow_pos _))

theorem roundUnits_le (num den : Nat) : f.roundUnits num den ≤ f.infinity :=
  Nat.min_le_left _ _

/-- Whole units are never rounded down to zero. -/
theorem roundUnits_ne_zero (hf : f.infinity ≠ 0) {num : Nat} (hnum : num ≠ 0) :
    f.roundUnits num 1 ≠ 0 := by
  unfold roundUnits
  dsimp only
  generalize (num / 1).log2 - f.fractionWidth = shift
  have hrounded : shift * f.binade + roundHalfEven num (1 * 2 ^ shift) ≠ 0 := by
    cases shift with
    | zero =>
        rw [Nat.pow_zero, Nat.mul_one, roundHalfEven_one]
        omega
    | succ shift =>
        have hproduct : 0 < (shift + 1) * f.binade :=
          Nat.mul_pos (Nat.succ_pos shift) f.binade_pos
        omega
  omega

/-- What a sign and a magnitude up to infinity stand for. -/
theorem datum_signed (negative : Bool) {magnitude : Nat} (h : magnitude ≤ f.infinity) :
    f.datum (f.signed negative magnitude) =
      if magnitude < f.infinity then .finite negative (f.units magnitude)
      else .infinite negative := by
  have hlt : magnitude < f.signBit := Nat.lt_of_le_of_lt h f.infinity_lt_signBit
  have hmod : f.signed negative magnitude % f.signBit = magnitude := by
    cases negative with
    | false => exact Nat.mod_eq_of_lt hlt
    | true => rw [signed, if_pos rfl, Nat.add_mod_left, Nat.mod_eq_of_lt hlt]
  have hsign : decide (f.signBit ≤ f.signed negative magnitude) = negative := by
    cases negative with
    | false => simpa [signed] using hlt
    | true => simp [signed]
  rw [datum, hmod, hsign]
  split
  · rfl
  · rw [if_pos (by omega)]

end Format

namespace Double

/-- A finite number that is not below zero; a zero may have a minus sign. -/
def IsAmount (x : Double) : Prop :=
  ∃ negative units, x.datum = .finite negative units ∧ (negative = true → units = 0)

theorem datum_scale {x : Double} {negative : Bool} {units : Nat}
    (h : x.datum = .finite negative units) (factor : Nat) :
    (x.scale factor).datum =
      Format.double.datum (Format.double.signed negative
        (Format.double.roundUnits (units * factor) 1)) := by
  have hle := Format.double.roundUnits_le (units * factor) 1
  have hsmall : Format.double.signed negative (Format.double.roundUnits (units * factor) 1) <
      UInt64.size := by
    have hinf : Format.double.infinity < 2 ^ 63 := by decide
    have hsign : Format.double.signBit = 2 ^ 63 := by decide
    have hsize : UInt64.size = 2 ^ 64 := rfl
    unfold Format.signed
    split <;> omega
  rw [scale, h]
  dsimp only
  rw [datum]
  dsimp only
  rw [UInt64.toNat_ofNat_of_lt' hsmall]

/-- A product below zero is one of a number below zero. -/
theorem isAmount_of_scale {x : Double} {factor : Nat} (hfactor : factor ≠ 0)
    (h : (x.scale factor).IsAmount) : x.IsAmount := by
  obtain ⟨sign, count, hdatum, hcount⟩ := h
  cases hx : x.datum with
  | nan | infinite =>
      rw [scale, hx] at hdatum
      dsimp only at hdatum
      rw [hx] at hdatum
      cases hdatum
  | finite negative units =>
      refine ⟨negative, units, hx, ?_⟩
      rintro rfl
      rcases Nat.eq_zero_or_pos units with hzero | hpos
      · exact hzero
      · have hmagnitude := Format.double.roundUnits_ne_zero (by decide)
          (Nat.mul_ne_zero (Nat.ne_of_gt hpos) hfactor)
        rw [datum_scale hx, Format.datum_signed _ _ (Format.roundUnits_le _ _ _)] at hdatum
        split at hdatum
        · obtain ⟨rfl, rfl⟩ := Datum.finite.inj hdatum
          exact absurd (hcount rfl) (Format.units_ne_zero _ hmagnitude)
        · cases hdatum

end Double

end DataBlock.Binary
