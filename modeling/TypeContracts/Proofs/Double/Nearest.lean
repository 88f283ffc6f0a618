import Mathlib.Algebra.Order.Field.Power
import Mathlib.Algebra.Order.Field.Rat
import Mathlib.Order.Monotone.Basic
import Mathlib.Tactic.Linarith
import Mathlib.Tactic.Positivity
import Mathlib.Tactic.Ring
import TypeContracts.Proofs.Double.Range

/-!
# The double nearest to a number

The magnitude bits of a double count the doubles from zero up: the next one is
larger by one unit in the last place (`valueAt_succ`). So the numbers that round to
a double are those up to the middle between it and its neighbours, and the middle
itself if the significand is even (`Near.rounds`, `Rounds.near`).
-/

namespace TypeContracts.Double

/-! ## Magnitudes -/

def significandAt (m : Nat) : Nat := if m / hiddenBit = 0 then m % hiddenBit else m % hiddenBit + hiddenBit

def exponentAt (m : Nat) : Int := if m / hiddenBit = 0 then -1074 else (m / hiddenBit : Nat) - 1075

def valueAt (m : Nat) : ℚ := significandAt m * 2 ^ exponentAt m

def sign (x : Double) : ℚ := if x.isNegative then -1 else 1

/-- The exact value of a finite number. Infinity stands at the power of two after the largest one. -/
def value (x : Double) : ℚ := x.sign * (x.significand * 2 ^ x.exponent)

theorem value_eq (x : Double) : x.value = x.sign * valueAt x.magnitude := rfl

theorem sign_mul_sign (x : Double) : x.sign * x.sign = 1 := by
  unfold sign
  split <;> norm_num

theorem abs_sign (x : Double) : |x.sign| = 1 := by
  unfold sign
  split <;> simp

theorem sign_mul_value (x : Double) : x.sign * x.value = valueAt x.magnitude := by
  rw [value_eq, ← mul_assoc, sign_mul_sign, one_mul]

theorem valueAt_zero : valueAt 0 = 0 := by
  simp [valueAt, significandAt]

/-- The fraction bits count up, and carry into the exponent bits. -/
theorem succ_bits (m : Nat) : (m + 1) / hiddenBit = m / hiddenBit ∧ (m + 1) % hiddenBit = m % hiddenBit + 1 ∨
    m % hiddenBit + 1 = hiddenBit ∧ (m + 1) / hiddenBit = m / hiddenBit + 1 ∧ (m + 1) % hiddenBit = 0 := by
  unfold hiddenBit
  omega

/-- The distance to the next double. -/
theorem valueAt_succ (m : Nat) : valueAt (m + 1) = valueAt m + 2 ^ exponentAt m := by
  obtain ⟨hdiv, hmod⟩ | ⟨hfull, hdiv, hmod⟩ := succ_bits m
  · have hsignificand : significandAt (m + 1) = significandAt m + 1 := by
      simp only [significandAt, hdiv, hmod]
      split <;> omega
    have hexponent : exponentAt (m + 1) = exponentAt m := by simp only [exponentAt, hdiv]
    rw [valueAt, valueAt, hexponent, hsignificand]
    push_cast
    ring
  · have hsignificand : significandAt (m + 1) = hiddenBit := by simp [significandAt, hdiv, hmod]
    by_cases hsub : m / hiddenBit = 0
    · have hexponent : exponentAt (m + 1) = exponentAt m := by simp [exponentAt, hdiv, hsub]
      have hlast : significandAt m + 1 = hiddenBit := by simpa [significandAt, hsub] using hfull
      rw [valueAt, valueAt, hexponent, hsignificand, ← hlast]
      push_cast
      ring
    · have hexponent : exponentAt (m + 1) = exponentAt m + 1 := by
        simp only [exponentAt, hdiv, hsub, if_false, Nat.succ_ne_zero]
        omega
      have hlast : significandAt m + 1 = 2 * hiddenBit := by
        simp only [significandAt, hsub, if_false]
        omega
      have hlast' : (significandAt m : ℚ) = 2 * hiddenBit - 1 := by
        rw [eq_sub_iff_add_eq]
        exact_mod_cast hlast
      rw [valueAt, valueAt, hexponent, hsignificand, hlast', zpow_add_one₀ two_ne_zero]
      ring

theorem valueAt_strictMono : StrictMono valueAt := by
  refine strictMono_nat_of_lt_succ fun m => ?_
  have hpow : (0 : ℚ) < 2 ^ exponentAt m := zpow_pos two_pos _
  rw [valueAt_succ]
  linarith

theorem valueAt_nonneg (m : Nat) : 0 ≤ valueAt m := by
  rw [← valueAt_zero]
  exact valueAt_strictMono.monotone (Nat.zero_le m)

theorem abs_value (x : Double) : |x.value| = valueAt x.magnitude := by
  rw [value_eq, abs_mul, abs_sign, one_mul, abs_of_nonneg (valueAt_nonneg _)]

theorem significandAt_mod_two (m : Nat) : significandAt m % 2 = m % 2 := by
  unfold significandAt hiddenBit
  split <;> omega

/-! ## Numbers around a magnitude -/

/-- The number is not beyond the middle between this magnitude and the next on either side, and on the middle only if
the magnitude is even. -/
structure Near (m : Nat) (r : ℚ) : Prop where
  lower : valueAt (m - 1) + valueAt m ≤ 2 * r
  upper : 2 * r ≤ valueAt m + valueAt (m + 1)
  even : valueAt (m - 1) + valueAt m = 2 * r ∨ 2 * r = valueAt m + valueAt (m + 1) → m % 2 = 0

section
variable {m m' : Nat} {r r' : ℚ}

theorem near_of_lt (hlower : valueAt (m - 1) + valueAt m < 2 * r) (hupper : 2 * r < valueAt m + valueAt (m + 1)) :
    Near m r := by
  refine ⟨hlower.le, hupper.le, ?_⟩
  rintro (h | h)
  · exact absurd h hlower.ne
  · exact absurd h hupper.ne

theorem near_self (hm : 0 < m) : Near m (valueAt m) := by
  have hbelow := valueAt_strictMono (Nat.sub_one_lt hm.ne')
  have habove := valueAt_strictMono (Nat.lt_succ_self m)
  exact near_of_lt (by linarith) (by linarith)

theorem Near.pos (hr : Near m r) (hm : 0 < m) : 0 < r := by
  have hbelow := valueAt_nonneg (m - 1)
  have hpos := valueAt_strictMono hm
  rw [valueAt_zero] at hpos
  linarith [hr.lower]

theorem Near.convex {s : ℚ} (hr : Near m r) (hr' : Near m r') (hle : r ≤ s) (hle' : s ≤ r') : Near m s := by
  refine ⟨by linarith [hr.lower], by linarith [hr'.upper], ?_⟩
  rintro (h | h)
  · exact hr.even (.inl (by linarith [hr.lower]))
  · exact hr'.even (.inr (by linarith [hr'.upper]))

/-- Larger numbers are near to larger magnitudes: neighbours do not share their middle. -/
theorem Near.mono (hr : Near m r) (hr' : Near m' r') (hle : r ≤ r') : m ≤ m' := by
  by_contra hlt
  rw [Nat.not_le] at hlt
  have hnext := valueAt_strictMono.monotone (Nat.succ_le_of_lt hlt)
  have hprev := valueAt_strictMono.monotone (Nat.le_sub_one_of_lt hlt)
  have hlower := hr.lower
  have hupper := hr'.upper
  rw [Nat.succ_eq_add_one] at hnext
  have hsame : valueAt (m - 1) = valueAt m' := by linarith
  have hneighbour : m - 1 = m' := valueAt_strictMono.injective hsame
  have heven := hr.even (.inl (by linarith))
  have heven' := hr'.even (.inr (by linarith))
  omega

end

/-! ## Rounding -/

/-- No double is nearer to the number, and one that is as near has an odd significand. -/
def Rounds (r : ℚ) (x : Double) : Prop :=
  ∀ y : Double, y.isNaN = false → y.value ≠ x.value →
    |r - x.value| < |r - y.value| ∨ |r - x.value| = |r - y.value| ∧ x.significand % 2 = 0

section
variable {x y : Double} {r : ℚ} {m : Nat}

theorem magnitude_lt_of_isFinite (hx : x.isFinite = true) : x.magnitude < infiniteMagnitude := by
  have hlt : x.magnitude < signWeight := Nat.mod_lt _ (by decide)
  simp only [isFinite, storedExponent, bne_iff_ne] at hx
  unfold infiniteMagnitude hiddenBit signWeight at *
  omega

theorem isNegative_ofMagnitude {negative : Bool} (hm : m ≤ infiniteMagnitude) :
    (ofMagnitude negative m).isNegative = negative := by
  have hweight : infiniteMagnitude < signWeight := by decide
  rw [isNegative, bits_ofMagnitude hm]
  cases negative with
  | true => simp
  | false => simpa using by omega

theorem isNaN_ofMagnitude {negative : Bool} (hm : m ≤ infiniteMagnitude) : (ofMagnitude negative m).isNaN = false := by
  simp only [isNaN, storedExponent, fraction, magnitude_ofMagnitude hm, Bool.and_eq_false_iff, beq_eq_false_iff_ne,
    bne_eq_false_iff_eq]
  unfold infiniteMagnitude hiddenBit at *
  omega

theorem value_ofMagnitude (x : Double) (hm : m ≤ infiniteMagnitude) :
    x.sign * (ofMagnitude x.isNegative m).value = valueAt m := by
  have hsign : (ofMagnitude x.isNegative m).sign = x.sign := by rw [sign, isNegative_ofMagnitude hm, sign]
  rw [value_eq, hsign, ← mul_assoc, sign_mul_sign, one_mul, magnitude_ofMagnitude hm]

/-- Towards the sign of a double, every other one is at one of its neighbours or beyond. -/
theorem value_apart (hne : y.value ≠ x.value) :
    x.sign * y.value ≤ valueAt (x.magnitude - 1) ∨ valueAt (x.magnitude + 1) ≤ x.sign * y.value := by
  by_cases hsign : y.isNegative = x.isNegative
  · have hvalue : x.sign * y.value = valueAt y.magnitude := by
      rw [sign, ← hsign]
      exact y.sign_mul_value
    rw [hvalue]
    have hmagnitude : y.magnitude ≠ x.magnitude := by
      intro hsame
      rw [value_eq, value_eq, hsame, sign, sign, hsign] at hne
      exact hne rfl
    obtain hlt | hgt := Nat.lt_or_gt_of_ne hmagnitude
    · exact .inl (valueAt_strictMono.monotone (Nat.le_sub_one_of_lt hlt))
    · exact .inr (valueAt_strictMono.monotone hgt)
  · have hvalue : x.sign * y.value = -valueAt y.magnitude := by
      have hopposite : x.sign = -y.sign := by
        unfold sign
        cases hx : x.isNegative <;> cases hy : y.isNegative <;> simp_all
      rw [hopposite, neg_mul, y.sign_mul_value]
    have hnonneg := valueAt_nonneg y.magnitude
    have hbelow := valueAt_nonneg (x.magnitude - 1)
    exact .inl (by linarith)

theorem abs_sub_sign (x : Double) (a b : ℚ) : |x.sign * a - x.sign * b| = |a - b| := by
  rw [← mul_sub, abs_mul, abs_sign, one_mul]

end

/-! ### Which of two numbers is nearer -/

section
variable (s a b : ℚ)

theorem nearer_iff : |s - a| < |s - b| ↔ 0 < (b - a) * (a + b - 2 * s) := by
  have hsquares : (s - b) ^ 2 - (s - a) ^ 2 = (b - a) * (a + b - 2 * s) := by ring
  rw [← sq_lt_sq, ← sub_pos, hsquares]

theorem as_near_iff : |s - a| = |s - b| ↔ (b - a) * (a + b - 2 * s) = 0 := by
  have hsquares : (s - b) ^ 2 - (s - a) ^ 2 = (b - a) * (a + b - 2 * s) := by ring
  rw [← sq_eq_sq_iff_abs_eq_abs, ← hsquares, sub_eq_zero, eq_comm]

end

section
variable {x y : Double} {r : ℚ} {m : Nat}

theorem Near.rounds (hm : 0 < x.magnitude) (hr : Near x.magnitude (x.sign * r)) : Rounds r x := by
  intro y _ hne
  have heven : x.significand % 2 = x.magnitude % 2 := significandAt_mod_two x.magnitude
  have hbelow := valueAt_strictMono (Nat.sub_one_lt hm.ne')
  have habove := valueAt_strictMono (Nat.lt_succ_self x.magnitude)
  have hlower := hr.lower
  have hupper := hr.upper
  rw [heven, ← abs_sub_sign x r, ← abs_sub_sign x r, sign_mul_value, nearer_iff, as_near_iff]
  obtain hy | hy := value_apart hne
  · obtain hlt | heq := (show valueAt x.magnitude + x.sign * y.value ≤ 2 * (x.sign * r) by linarith).lt_or_eq
    · exact .inl (mul_pos_of_neg_of_neg (by linarith) (by linarith))
    · exact .inr ⟨by rw [heq]; ring, hr.even (.inl (by linarith))⟩
  · obtain hlt | heq := (show 2 * (x.sign * r) ≤ valueAt x.magnitude + x.sign * y.value by linarith).lt_or_eq
    · exact .inl (mul_pos (by linarith) (by linarith))
    · exact .inr ⟨by rw [heq]; ring, hr.even (.inr (by linarith))⟩

/-- What rounding says of one other magnitude with the same sign. -/
theorem Rounds.at (hr : Rounds r x) (hm : m ≤ infiniteMagnitude) (hne : m ≠ x.magnitude) :
    0 ≤ (valueAt m - valueAt x.magnitude) * (valueAt x.magnitude + valueAt m - 2 * (x.sign * r)) ∧
      (valueAt x.magnitude + valueAt m = 2 * (x.sign * r) → x.magnitude % 2 = 0) := by
  have hvalue : (ofMagnitude x.isNegative m).value ≠ x.value := by
    intro hsame
    have hat := x.value_ofMagnitude hm
    rw [hsame, sign_mul_value] at hat
    exact hne (valueAt_strictMono.injective hat.symm)
  have hother := hr _ (isNaN_ofMagnitude hm) hvalue
  have heven : x.significand % 2 = x.magnitude % 2 := significandAt_mod_two x.magnitude
  rw [heven, ← abs_sub_sign x r, ← abs_sub_sign x r, sign_mul_value, value_ofMagnitude x hm, nearer_iff,
    as_near_iff] at hother
  refine ⟨hother.elim le_of_lt fun h => h.1.ge, fun hmiddle => ?_⟩
  rw [hmiddle, sub_self, mul_zero] at hother
  exact hother.elim (fun h => absurd h (lt_irrefl _)) And.right

theorem Rounds.near (hx : x.isFinite = true) (hm : 0 < x.magnitude) (hr : Rounds r x) :
    Near x.magnitude (x.sign * r) := by
  have hlt := magnitude_lt_of_isFinite hx
  have hbelow := valueAt_strictMono (Nat.sub_one_lt hm.ne')
  have habove := valueAt_strictMono (Nat.lt_succ_self x.magnitude)
  obtain ⟨hlower, hlowerEven⟩ := hr.at (m := x.magnitude - 1) (by omega) (by omega)
  obtain ⟨hupper, hupperEven⟩ := hr.at (m := x.magnitude + 1) (by omega) (by omega)
  have hlower' := nonpos_of_mul_nonneg_right hlower (by linarith)
  have hupper' := nonneg_of_mul_nonneg_right hupper (by linarith)
  refine ⟨by linarith, by linarith, ?_⟩
  rintro (h | h)
  · exact hlowerEven (by linarith)
  · exact hupperEven (by linarith)

theorem eq_of_magnitude (hsign : x.isNegative = y.isNegative) (hm : x.magnitude = y.magnitude) : x = y := by
  have hx := x.bits.toNat_lt
  have hy := y.bits.toNat_lt
  have hbits : x.bits.toNat = y.bits.toNat := by
    rw [isNegative, isNegative, decide_eq_decide] at hsign
    unfold magnitude signWeight at *
    omega
  exact congrArg Double.mk (UInt64.toNat_inj.1 hbits)

/-- A number rounds to one double only. -/
theorem Rounds.unique (hx : x.isFinite = true) (hxm : 0 < x.magnitude) (hy : y.isFinite = true) (hym : 0 < y.magnitude)
    (hxr : Rounds r x) (hyr : Rounds r y) : x = y := by
  have hxnear := hxr.near hx hxm
  have hynear := hyr.near hy hym
  have hsign : x.isNegative = y.isNegative := by
    have hxpos := hxnear.pos hxm
    have hypos := hynear.pos hym
    unfold sign at hxpos hypos
    cases hxn : x.isNegative <;> cases hyn : y.isNegative <;> simp [hxn, hyn] at hxpos hypos ⊢ <;> linarith
  have hsame : x.sign = y.sign := by rw [sign, sign, hsign]
  rw [hsame] at hxnear
  exact eq_of_magnitude hsign (le_antisymm (hxnear.mono hynear le_rfl) (hynear.mono hxnear le_rfl))

end

end TypeContracts.Double
