import Mathlib.Algebra.Ring.Nat
import TypeContracts.Json.Basic

/-!
# How large a rounded number is

If the numerator of a fraction has few bits then rounding gives a number that is
far below infinity, whatever the denominator. So counts, which have 64 bits, are
finite numbers.
-/

namespace TypeContracts

namespace Double

theorem bits_ofMagnitude {negative : Bool} {m : Nat} (hm : m ≤ infiniteMagnitude) :
    (ofMagnitude negative m).bits.toNat = if negative then signWeight + m else m := by
  have hweight : infiniteMagnitude < signWeight := by decide
  have hsize : (if negative then signWeight + m else m) < UInt64.size := by
    have h : signWeight + signWeight = UInt64.size := rfl
    split <;> omega
  exact UInt64.toNat_ofNat_of_lt hsize

theorem magnitude_ofMagnitude {negative : Bool} {m : Nat} (hm : m ≤ infiniteMagnitude) :
    (ofMagnitude negative m).magnitude = m := by
  have hweight : infiniteMagnitude < signWeight := by decide
  unfold magnitude
  rw [bits_ofMagnitude hm]
  cases negative with
  | false => exact Nat.mod_eq_of_lt (by simp; omega)
  | true =>
    rw [if_pos rfl, Nat.add_mod_left]
    exact Nat.mod_eq_of_lt (by omega)

theorem packMagnitude_le (significand : Nat) (q : Int) : packMagnitude significand q ≤ infiniteMagnitude := by
  have h : hiddenBit ≤ infiniteMagnitude := by decide
  unfold packMagnitude
  split
  · omega
  · exact Nat.min_le_left _ _

theorem roundHalfEven_le {num den m : Nat} (h : num < den * m) : roundHalfEven num den ≤ m := by
  have hquotient : num / den < m := Nat.div_lt_of_lt_mul h
  unfold roundHalfEven
  dsimp only
  repeat' split
  all_goals omega

/-- In units of the last place a fraction has at most 54 bits. -/
theorem scaleBinary_lt {num den : Nat} (hden : 0 < den) {k : Int}
    (hk : k ≤ (Nat.log2 den : Int) - Nat.log2 num + 53) :
    (scaleBinary num den k).1 < (scaleBinary num den k).2 * 2 ^ 54 := by
  have hnum : num < 2 ^ (Nat.log2 num + 1) := Nat.lt_log2_self
  have hden : 2 ^ Nat.log2 den ≤ den := Nat.log2_self_le (Nat.ne_of_gt hden)
  unfold scaleBinary
  split
  · calc num * 2 ^ k.toNat < 2 ^ (Nat.log2 num + 1) * 2 ^ k.toNat :=
          Nat.mul_lt_mul_of_pos_right hnum (Nat.two_pow_pos _)
      _ = 2 ^ (Nat.log2 num + 1 + k.toNat) := (Nat.pow_add ..).symm
      _ ≤ 2 ^ (Nat.log2 den + 54) := Nat.pow_le_pow_right (by decide) (by omega)
      _ = 2 ^ Nat.log2 den * 2 ^ 54 := Nat.pow_add ..
      _ ≤ den * 2 ^ 54 := Nat.mul_le_mul_right _ hden
  · calc num < 2 ^ (Nat.log2 num + 1) := hnum
      _ ≤ 2 ^ (Nat.log2 den + (-k).toNat + 54) := Nat.pow_le_pow_right (by decide) (by omega)
      _ = 2 ^ Nat.log2 den * 2 ^ (-k).toNat * 2 ^ 54 := by rw [Nat.pow_add, Nat.pow_add]
      _ ≤ den * 2 ^ (-k).toNat * 2 ^ 54 := Nat.mul_le_mul_right _ (Nat.mul_le_mul_right _ hden)

theorem lastPlace_bounds (num den : Nat) :
    -lastPlace num den ≤ (Nat.log2 den : Int) - Nat.log2 num + 53 ∧ lastPlace num den ≤ Nat.log2 num := by
  unfold lastPlace floorLog2
  dsimp only
  split <;> omega

theorem packMagnitude_le_of_le {significand : Nat} (h : significand ≤ 2 ^ 54) (q : Int) :
    packMagnitude significand q ≤ ((q + 1075).toNat + 3) * hiddenBit := by
  unfold packMagnitude
  split
  · rename_i hlt
    have : hiddenBit ≤ ((q + 1075).toNat + 3) * hiddenBit := Nat.le_mul_of_pos_left _ (by omega)
    omega
  · refine Nat.le_trans (Nat.min_le_right _ _) ?_
    rw [Nat.add_mul]
    unfold hiddenBit
    omega

section
variable {negative : Bool} {num den k : Nat}

theorem magnitude_ofRatio_le (hden : 0 < den) (hnum : num < 2 ^ (k + 1)) :
    (ofRatio negative num den).magnitude ≤ (k + 1078) * hiddenBit := by
  unfold ofRatio
  split
  · rw [magnitude_ofMagnitude (Nat.zero_le _)]
    exact Nat.zero_le _
  · obtain ⟨hscale, hplace⟩ := lastPlace_bounds num den
    have hlog : Nat.log2 num < k + 1 := (Nat.log2_lt (by assumption)).mpr hnum
    dsimp only
    rw [magnitude_ofMagnitude (packMagnitude_le _ _)]
    refine Nat.le_trans (packMagnitude_le_of_le (roundHalfEven_le (scaleBinary_lt hden hscale)) _) ?_
    exact Nat.mul_le_mul_right _ (by omega)

theorem storedExponent_ofRatio_le (hden : 0 < den) (hnum : num < 2 ^ (k + 1)) :
    (ofRatio negative num den).storedExponent ≤ k + 1078 :=
  Nat.div_le_of_le_mul (Nat.mul_comm .. ▸ magnitude_ofRatio_le hden hnum)

theorem isFinite_ofRatio (hden : 0 < den) (hnum : num < 2 ^ (k + 1)) (hk : k < 969) :
    (ofRatio negative num den).isFinite = true := by
  have h : (ofRatio negative num den).storedExponent ≤ k + 1078 := storedExponent_ofRatio_le hden hnum
  simp only [isFinite, bne_iff_ne]
  omega

end

theorem significand_lt (x : Double) : x.significand < 2 ^ 53 := by
  have h : x.fraction < hiddenBit := Nat.mod_lt _ (by decide)
  unfold significand hiddenBit at *
  split <;> omega

/-- The numerator of a number has no more bits than its significand and its exponent call for. -/
theorem ratio_lt {x : Double} {k : Nat} (h : x.storedExponent ≤ k + 1075) : x.ratio.1 < 2 ^ (53 + k) := by
  have hexponent : x.exponent.toNat ≤ k := by
    unfold exponent
    split <;> omega
  calc x.significand * 2 ^ x.exponent.toNat
      < 2 ^ 53 * 2 ^ x.exponent.toNat := Nat.mul_lt_mul_of_pos_right x.significand_lt (Nat.two_pow_pos _)
    _ ≤ 2 ^ 53 * 2 ^ k := Nat.mul_le_mul_left _ (Nat.pow_le_pow_right (by decide) hexponent)
    _ = 2 ^ (53 + k) := (Nat.pow_add ..).symm

theorem ratio_pos (x : Double) : 0 < x.ratio.2 := Nat.two_pow_pos _

end Double

/-- A count of 64 bits is a finite number. -/
theorem Numeral.isFinite_ofNat {n : Nat} (h : n < UInt64.size) : (Numeral.ofNat n).toDouble.isFinite = true := by
  have hone : (Double.powerOfTen 0).ratio = (2 ^ 52, 2 ^ 52) := by decide +kernel
  have hstored : (Double.ofRatio false n 1).storedExponent ≤ 63 + 1078 := Double.storedExponent_ofRatio_le (by decide) h
  have hnum : (Double.ofRatio false n 1).ratio.1 * 2 ^ 52 < 2 ^ (170 + 1) := by
    have := Double.ratio_lt (k := 66) hstored
    omega
  unfold Numeral.toDouble Double.ofScaled Double.scaleUp
  simp only [Numeral.ofNat, Int.le_refl, if_true, Int.toNat_zero, Nat.zero_le]
  split
  · exact Double.isFinite_ofRatio (k := 63) (by decide) h (by decide)
  · unfold Double.product
    rw [hone]
    exact Double.isFinite_ofRatio (Nat.mul_pos (Double.ratio_pos _) (by decide)) hnum (by decide)

end TypeContracts
