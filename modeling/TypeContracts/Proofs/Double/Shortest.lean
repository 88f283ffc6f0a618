import Mathlib.Algebra.Order.Floor.Semiring
import Mathlib.Data.Rat.Floor
import Mathlib.Tactic.FieldSimp
import TypeContracts.Double.Shortest
import TypeContracts.Proofs.Double.Nearest

/-!
# The shortest decimal is near, and no shorter one is

A grid is the multiples of a power of ten. The search takes the coarsest grid that
has a multiple near to the number (`shortest_spec`). It starts above every number
that is near and has enough steps to come to a grid that is finer than the numbers
are apart: `2 ^ 4096` is between `10 ^ 1233` and `10 ^ 1234`.
-/

namespace TypeContracts.Double

/-! ## Scales -/

theorem pow_eq_ratio {b : Nat} (hb : 0 < b) (q : Int) :
    ((if 0 ≤ q then Nat.pow b q.toNat else 1 : Nat) : ℚ) =
      (b : ℚ) ^ q * (if 0 ≤ q then 1 else Nat.pow b (-q).toNat : Nat) := by
  have hbase : (b : ℚ) ≠ 0 := by positivity
  split
  case isTrue hq =>
    obtain ⟨n, rfl⟩ := Int.eq_ofNat_of_zero_le hq
    simp
  case isFalse hq =>
    obtain ⟨n, hn⟩ := Int.eq_ofNat_of_zero_le (show 0 ≤ -q by omega)
    rw [hn, Int.toNat_natCast, show q = -(n : Int) by omega, zpow_neg]
    simp [hbase]

theorem gridScale_pos (q k : Int) : 0 < (gridScale q k).1 ∧ 0 < (gridScale q k).2 := by
  unfold gridScale
  constructor <;> split <;> split <;> simp

/-- The two factors of a scale stand for a power of two and a power of ten. -/
theorem exists_scale (q k : Int) :
    ∃ c : ℚ, 0 < c ∧ (gridScale q k).1 * c = 2 ^ q ∧ (gridScale q k).2 * c = 10 ^ k := by
  have hunit : (0 : ℚ) < (gridScale q k).1 := by exact_mod_cast (gridScale_pos q k).1
  have hscale : ((gridScale q k).1 : ℚ) * 10 ^ k = (gridScale q k).2 * 2 ^ q := by
    unfold gridScale
    rw [Nat.cast_mul, Nat.cast_mul, pow_eq_ratio two_pos, pow_eq_ratio (by decide : 0 < 10)]
    push_cast
    ring
  have hpow : (0 : ℚ) < 2 ^ q := zpow_pos two_pos q
  refine ⟨2 ^ q / (gridScale q k).1, div_pos hpow hunit, by field_simp, ?_⟩
  rw [← mul_div_assoc, ← hscale]
  field_simp

theorem scale_le_iff (q k : Int) (a n : Nat) :
    a * (gridScale q k).1 ≤ n * (gridScale q k).2 ↔ (a : ℚ) * 2 ^ q ≤ n * 10 ^ k := by
  obtain ⟨c, hc, hunit, hstep⟩ := exists_scale q k
  rw [← hunit, ← hstep, ← mul_assoc, ← mul_assoc, mul_le_mul_iff_of_pos_right hc]
  exact_mod_cast Iff.rfl

theorem le_scale_iff (q k : Int) (a n : Nat) :
    n * (gridScale q k).2 ≤ a * (gridScale q k).1 ↔ (n : ℚ) * 10 ^ k ≤ a * 2 ^ q := by
  obtain ⟨c, hc, hunit, hstep⟩ := exists_scale q k
  rw [← hunit, ← hstep, ← mul_assoc, ← mul_assoc, mul_le_mul_iff_of_pos_right hc]
  exact_mod_cast Iff.rfl

/-! ## The interval of a number -/

section
variable {x : Double}

theorem exponentAt_pred {m : Nat} (hm : 0 < m) :
    exponentAt (m - 1) = if m % hiddenBit = 0 ∧ 1 < m / hiddenBit then exponentAt m - 1 else exponentAt m := by
  unfold exponentAt hiddenBit
  split_ifs <;> omega

theorem significand_pos (hm : 0 < x.magnitude) : 0 < x.significand := by
  unfold significand storedExponent fraction hiddenBit
  split <;> omega

/-- The last place, in quarters of it. -/
theorem pow_exponent (x : Double) : (2 : ℚ) ^ x.exponent = 4 * 2 ^ (x.exponent - 2) := by
  rw [zpow_sub₀ two_ne_zero]
  ring

/-- The distance to the double below. At a power of two it is half of the distance to the double above. -/
theorem valueAt_below (hm : 0 < x.magnitude) : valueAt x.magnitude = valueAt (x.magnitude - 1) +
    (if x.fraction = 0 ∧ 1 < x.storedExponent then 2 else 4) * 2 ^ (x.exponent - 2) := by
  have hsucc := valueAt_succ (x.magnitude - 1)
  rw [Nat.sub_add_cancel hm, exponentAt_pred hm] at hsucc
  rw [hsucc, add_right_inj]
  change (2 : ℚ) ^ (if x.fraction = 0 ∧ 1 < x.storedExponent then x.exponent - 1 else x.exponent) = _
  split
  · rw [show x.exponent - 1 = x.exponent - 2 + 1 by ring, zpow_add_one₀ two_ne_zero, mul_comm]
  · exact x.pow_exponent

theorem cast_lower (hm : 0 < x.magnitude) : (x.interval.lower : ℚ) =
    4 * x.significand - (if x.fraction = 0 ∧ 1 < x.storedExponent then 1 else 2) := by
  have hpos := significand_pos hm
  unfold interval
  dsimp only
  split <;> rw [Nat.cast_sub (by omega)] <;> push_cast <;> rfl

/-- In quarters of the last place, the ends of the interval are the middles between the number and its neighbours. -/
theorem interval_values (hm : 0 < x.magnitude) :
    2 * (x.interval.lower * 2 ^ (x.exponent - 2)) = valueAt (x.magnitude - 1) + valueAt x.magnitude ∧
      x.interval.center * 2 ^ (x.exponent - 2) = valueAt x.magnitude ∧
      2 * (x.interval.upper * 2 ^ (x.exponent - 2)) = valueAt x.magnitude + valueAt (x.magnitude + 1) := by
  have hvalue : valueAt x.magnitude = x.significand * (4 * 2 ^ (x.exponent - 2)) := by
    rw [← x.pow_exponent]
    rfl
  have habove : valueAt (x.magnitude + 1) = valueAt x.magnitude + 4 * 2 ^ (x.exponent - 2) := by
    rw [← x.pow_exponent]
    exact valueAt_succ x.magnitude
  have hbelow := valueAt_below hm
  refine ⟨?_, ?_, ?_⟩
  · rw [cast_lower hm]
    split_ifs at hbelow ⊢ <;> linarith
  · rw [hvalue, interval]
    push_cast
    ring
  · rw [habove, hvalue, interval]
    push_cast
    ring

theorem holds_iff (hm : 0 < x.magnitude) (k : Int) (n : Nat) :
    x.interval.holds (gridScale (x.exponent - 2) k).1 (n * (gridScale (x.exponent - 2) k).2) = true ↔
      Near x.magnitude (n * 10 ^ k) := by
  obtain ⟨hlower, -, hupper⟩ := interval_values hm
  have heven : x.significand % 2 = x.magnitude % 2 := significandAt_mod_two x.magnitude
  unfold Interval.holds
  by_cases hclosed : x.magnitude % 2 = 0
  · have hclosed' : x.interval.closed = true := by simpa [interval, heven] using hclosed
    rw [if_pos hclosed', Bool.and_eq_true, decide_eq_true_iff, decide_eq_true_iff, scale_le_iff, le_scale_iff]
    constructor
    · rintro ⟨hle, hle'⟩
      exact ⟨by linarith, by linarith, fun _ => hclosed⟩
    · intro hr
      exact ⟨by linarith [hr.lower], by linarith [hr.upper]⟩
  · have hopen : ¬x.interval.closed = true := by simpa [interval, heven] using hclosed
    rw [if_neg hopen, Bool.and_eq_true, decide_eq_true_iff, decide_eq_true_iff, ← Nat.not_le, ← Nat.not_le,
      scale_le_iff, le_scale_iff, not_le, not_le]
    constructor
    · rintro ⟨hlt, hlt'⟩
      exact near_of_lt (by linarith) (by linarith)
    · intro hr
      have hlt := hr.lower.lt_of_ne fun h => hclosed (hr.even (.inl h))
      have hlt' := hr.upper.lt_of_ne fun h => hclosed (hr.even (.inr h))
      exact ⟨by linarith, by linarith⟩

/-! ## Grids -/

/-- A grid is passed over only if no multiple is near: the two around the number are nearest to it. -/
theorem nearestOnGrid_spec (hm : 0 < x.magnitude) (k : Int) :
    match x.nearestOnGrid k with
    | some n => Near x.magnitude (n * 10 ^ k)
    | none => ∀ n : Nat, ¬Near x.magnitude (n * 10 ^ k) := by
  obtain ⟨-, hcenter, -⟩ := interval_values hm
  have hbelow := (le_scale_iff _ _ _ _).1 (Nat.div_mul_le_self
    (x.interval.center * (gridScale (x.exponent - 2) k).1) (gridScale (x.exponent - 2) k).2)
  have habove := (scale_le_iff _ _ _ _).1 (Nat.lt_mul_of_div_lt (Nat.lt_succ_self
    (x.interval.center * (gridScale (x.exponent - 2) k).1 / (gridScale (x.exponent - 2) k).2))
      (gridScale_pos _ _).2).le
  rw [hcenter] at hbelow habove
  unfold nearestOnGrid
  dsimp only
  generalize x.interval.center * (gridScale (x.exponent - 2) k).1 / (gridScale (x.exponent - 2) k).2 = below at *
  split
  case h_1 n hn =>
    split_ifs at hn with hdown hup
    · cases hn
      rw [Bool.and_eq_true] at hdown
      exact (holds_iff hm k below).1 hdown.1
    · cases hn
      exact (holds_iff hm k (below + 1)).1 hup
  case h_2 hn =>
    split_ifs at hn with hdown hup
    intro n hnear
    obtain hlt | hle := Nat.lt_or_ge below n
    · have hle : ((below + 1 : Nat) : ℚ) * 10 ^ k ≤ n * 10 ^ k := by
        gcongr
        exact hlt
      exact hup ((holds_iff hm k (below + 1)).2 ((near_self hm).convex hnear habove hle))
    · have hle : (n : ℚ) * 10 ^ k ≤ below * 10 ^ k := by gcongr
      have hholds := (holds_iff hm k below).2 (hnear.convex (near_self hm) hle hbelow)
      simp_all

/-- No number that is near is zero. -/
theorem Near.digits_pos {m n : Nat} {p : Int} (hn : Near m (n * 10 ^ p)) (hm : 0 < m) : 0 < n := by
  have hpos := hn.pos hm
  have hcast : (0 : ℚ) < n := pos_of_mul_pos_left hpos (zpow_nonneg (by norm_num) p)
  exact_mod_cast hcast

/-- The search finds a number that is near on the coarsest grid that has one. -/
theorem searchGrid_spec (hm : 0 < x.magnitude) {steps : Nat} {k : Int}
    (hcoarse : ∀ p > k, ∀ n : Nat, ¬Near x.magnitude (n * 10 ^ p))
    (hfine : ∃ n : Nat, Near x.magnitude (n * 10 ^ (k + 1 - steps))) :
    Near x.magnitude ((x.searchGrid steps k).digits * 10 ^ (x.searchGrid steps k).power) ∧
      ∀ p > (x.searchGrid steps k).power, ∀ n : Nat, ¬Near x.magnitude (n * 10 ^ p) := by
  induction steps generalizing k with
  | zero =>
    obtain ⟨n, hn⟩ := hfine
    exact absurd hn (hcoarse _ (by simp) n)
  | succ steps ih =>
    have hgrid := nearestOnGrid_spec hm k
    unfold searchGrid
    cases hfound : x.nearestOnGrid k with
    | some digits =>
      rw [hfound] at hgrid
      exact ⟨hgrid, hcoarse⟩
    | none =>
      rw [hfound] at hgrid
      refine ih (fun p hp => ?_) ?_
      · obtain rfl | hlt := (show k ≤ p by omega).eq_or_lt
        · exact hgrid
        · exact hcoarse p hlt
      · rwa [show k - 1 + 1 - (steps : Int) = k + 1 - (steps + 1 : Nat) by push_cast; ring]

end

/-! ## Where the search starts and ends -/

theorem zpow_two_le {n c c' : Nat} {a b : Int} (hn : n ≠ 0) (hlow : (10 : ℚ) ^ c ≤ 2 ^ n) (hhigh : (2 : ℚ) ^ n ≤ 10 ^ c')
    (h : c * a ≤ n * b) (h' : c' * a ≤ n * b) : (2 : ℚ) ^ a ≤ 10 ^ b := by
  have hswap : ∀ (r : ℚ) (j : Nat) (i : Int), (r ^ j) ^ i = r ^ (j * i) := fun r j i => by
    rw [zpow_mul, zpow_natCast]
  have hneg : ∀ r : ℚ, r ^ a = (r ^ (-a))⁻¹ := fun r => by rw [zpow_neg, inv_inv]
  have hexponent : (2 : ℚ) ^ (n * a) ≤ 10 ^ (n * b) := by
    obtain ha | ha := le_total 0 a
    · calc (2 : ℚ) ^ (n * a) = (2 ^ n) ^ a := (hswap 2 n a).symm
        _ ≤ (10 ^ c') ^ a := zpow_le_zpow_left₀ ha (by positivity) hhigh
        _ = 10 ^ (c' * a) := hswap 10 c' a
        _ ≤ 10 ^ (n * b) := zpow_le_zpow_right₀ (by norm_num) h'
    · calc (2 : ℚ) ^ (n * a) = (2 ^ n) ^ a := (hswap 2 n a).symm
        _ ≤ (10 ^ c) ^ a := by
          rw [hneg (2 ^ n), hneg (10 ^ c)]
          exact inv_anti₀ (by positivity) (zpow_le_zpow_left₀ (Int.neg_nonneg.2 ha) (by positivity) hlow)
        _ = 10 ^ (c * a) := hswap 10 c a
        _ ≤ 10 ^ (n * b) := zpow_le_zpow_right₀ (by norm_num) h
  rw [mul_comm, zpow_mul, mul_comm, zpow_mul, zpow_natCast, zpow_natCast] at hexponent
  exact (pow_le_pow_iff_left₀ (by positivity) (by positivity) hn).1 hexponent

/-- The logarithm of two, to the precision that the search needs. -/
theorem pow_two_le_pow_ten {a b : Int} (h : 1233 * a ≤ 4096 * b) (h' : 1234 * a ≤ 4096 * b) :
    (2 : ℚ) ^ a ≤ 10 ^ b := by
  have hlow : (10 : ℚ) ^ 1233 ≤ 2 ^ 4096 := by exact_mod_cast (by decide +kernel : 10 ^ 1233 ≤ 2 ^ 4096)
  have hhigh : (2 : ℚ) ^ 4096 ≤ 10 ^ 1234 := by exact_mod_cast (by decide +kernel : 2 ^ 4096 ≤ 10 ^ 1234)
  exact zpow_two_le (by decide) hlow hhigh h h'

theorem pow_ten_le_pow_two {a b : Int} (h : 4096 * b ≤ 1233 * a) (h' : 4096 * b ≤ 1234 * a) :
    (10 : ℚ) ^ b ≤ 2 ^ a := by
  have hinv : (2 : ℚ) ^ (-a) ≤ 10 ^ (-b) := pow_two_le_pow_ten (by linarith) (by linarith)
  rw [zpow_neg, zpow_neg] at hinv
  exact (inv_le_inv₀ (zpow_pos two_pos a) (zpow_pos (by norm_num) b)).1 hinv

section
variable {x : Double}

theorem floorLog2_one {n : Nat} (hn : 0 < n) : floorLog2 n 1 = Nat.log2 n := by
  have hle := Nat.log2_self_le hn.ne'
  unfold floorLog2 scaleBinary
  dsimp only
  rw [show Nat.log2 1 = 0 by decide]
  split_ifs with hlog hlt hlt
  · simp at hlt
    omega
  · simp
  · simp at hlt
    omega
  · simp

theorem log2_significand_lt (x : Double) : Nat.log2 x.significand < 53 := by
  by_cases hzero : x.significand = 0
  · rw [hzero]
    decide
  · exact (Nat.log2_lt hzero).2 x.significand_lt

theorem exponent_bounds (x : Double) : -1074 ≤ x.exponent ∧ x.exponent ≤ 972 := by
  have hlt : x.magnitude < signWeight := Nat.mod_lt _ (by decide)
  unfold exponent storedExponent hiddenBit signWeight at *
  split <;> omega

theorem valueAt_succ_le (x : Double) :
    valueAt (x.magnitude + 1) ≤ 2 ^ (Nat.log2 x.significand + x.exponent + 1) := by
  have hlt : x.significand + 1 ≤ 2 ^ (Nat.log2 x.significand + 1) := Nat.lt_log2_self
  have hvalue : valueAt (x.magnitude + 1) = (x.significand + 1) * 2 ^ x.exponent := by
    rw [valueAt_succ, add_mul, one_mul]
    rfl
  have hpow : (2 : ℚ) ^ (Nat.log2 x.significand + x.exponent + 1) =
      2 ^ (Nat.log2 x.significand + 1) * 2 ^ x.exponent := by
    rw [add_right_comm, zpow_add₀ two_ne_zero]
    norm_cast
  rw [hvalue, hpow]
  gcongr
  exact_mod_cast hlt

/-- The search starts above every number that is near. -/
theorem not_near_of_powerAbove_lt (hm : 0 < x.magnitude) {p : Int} (hp : x.powerAbove < p) (n : Nat) :
    ¬Near x.magnitude (n * 10 ^ p) := by
  intro hnear
  obtain ⟨hlow, hhigh⟩ := x.exponent_bounds
  have hlog := x.log2_significand_lt
  rw [powerAbove, floorLog2_one (significand_pos hm)] at hp
  have hten : (0 : ℚ) < 10 ^ p := zpow_pos (by norm_num) p
  have hone : (1 : ℚ) ≤ n := by exact_mod_cast hnear.digits_pos hm
  have hle : (10 : ℚ) ^ p ≤ n * 10 ^ p := le_mul_of_one_le_left hten.le hone
  have hlt : (n : ℚ) * 10 ^ p < valueAt (x.magnitude + 1) := by
    have habove := valueAt_strictMono (Nat.lt_succ_self x.magnitude)
    linarith [hnear.upper]
  have hpow : (2 : ℚ) ^ (Nat.log2 x.significand + x.exponent + 1) ≤ 10 ^ p :=
    pow_two_le_pow_ten (by omega) (by omega)
  linarith [x.valueAt_succ_le]

/-- A grid that is finer than an open interval is wide has a multiple in it. -/
theorem exists_multiple_between {a b g : ℚ} (ha : 0 ≤ a) (hg : 0 < g) (hwide : a + g < b) :
    ∃ n : Nat, a < n * g ∧ n * g < b := by
  refine ⟨⌊a / g⌋₊ + 1, ?_, ?_⟩
  · have hlt := Nat.lt_floor_add_one (a / g)
    rw [div_lt_iff₀ hg] at hlt
    exact_mod_cast hlt
  · have hle := Nat.floor_le (div_nonneg ha hg.le)
    rw [le_div_iff₀ hg] at hle
    push_cast
    linarith

/-- The search ends on a grid that is finer than the numbers are apart. -/
theorem exists_near (hm : 0 < x.magnitude) : ∃ n : Nat, Near x.magnitude (n * 10 ^ (x.powerAbove + 1 - 24)) := by
  obtain ⟨hlow, hhigh⟩ := x.exponent_bounds
  have hlog := x.log2_significand_lt
  have hfine : (10 : ℚ) ^ (x.powerAbove + 1 - 24) ≤ 2 ^ (x.exponent - 1) := by
    rw [powerAbove, floorLog2_one (significand_pos hm)]
    exact pow_ten_le_pow_two (by omega) (by omega)
  have hbelow := valueAt_strictMono (Nat.sub_one_lt hm.ne')
  have habove : valueAt (x.magnitude + 1) = valueAt x.magnitude + 2 * 2 ^ (x.exponent - 1) := by
    rw [valueAt_succ, ← zpow_one_add₀ two_ne_zero, add_sub_cancel]
    rfl
  have hnonneg := valueAt_nonneg (x.magnitude - 1)
  obtain ⟨n, hlt, hlt'⟩ := exists_multiple_between
    (show 0 ≤ (valueAt (x.magnitude - 1) + valueAt x.magnitude) / 2 by linarith) (zpow_pos (by norm_num) _)
    (show _ + (10 : ℚ) ^ (x.powerAbove + 1 - 24) < (valueAt x.magnitude + valueAt (x.magnitude + 1)) / 2 by linarith)
  exact ⟨n, near_of_lt (by linarith) (by linarith)⟩

theorem shortest_spec (hm : 0 < x.magnitude) :
    Near x.magnitude (x.shortest.digits * 10 ^ x.shortest.power) ∧
      ∀ p > x.shortest.power, ∀ n : Nat, ¬Near x.magnitude (n * 10 ^ p) :=
  searchGrid_spec hm (fun _ hp => not_near_of_powerAbove_lt hm hp) (exists_near hm)

theorem shortest_digits_mod_ten (hm : 0 < x.magnitude) : x.shortest.digits % 10 ≠ 0 := by
  intro hmod
  obtain ⟨hnear, hcoarse⟩ := shortest_spec hm
  refine hcoarse (x.shortest.power + 1) (by omega) (x.shortest.digits / 10) ?_
  rw [zpow_add_one₀ (by norm_num), mul_comm (10 ^ _), ← mul_assoc]
  have hdigits : x.shortest.digits / 10 * 10 = x.shortest.digits := Nat.div_mul_cancel (Nat.dvd_of_mod_eq_zero hmod)
  have hcast : ((x.shortest.digits / 10 : Nat) : ℚ) * 10 = x.shortest.digits := by exact_mod_cast hdigits
  rwa [hcast]

/-- A number that is near has as many digits: otherwise a power of ten between them is near, on a coarser grid. -/
theorem shortest_digits_lt (hm : 0 < x.magnitude) {n s : Nat} {p : Int} (hn : Near x.magnitude (n * 10 ^ p))
    (hlt : n < 10 ^ s) : x.shortest.digits < 10 ^ s := by
  obtain ⟨hnear, hcoarse⟩ := shortest_spec hm
  by_contra hge
  have hle : p ≤ x.shortest.power := le_of_not_gt fun hgt => hcoarse p hgt n hn
  have hpos : 0 < n := hn.digits_pos hm
  have hs : s ≠ 0 := by
    rintro rfl
    omega
  have hup : (n : ℚ) * 10 ^ p ≤ 10 ^ s * 10 ^ x.shortest.power := by
    have hcast : (n : ℚ) ≤ 10 ^ s := by exact_mod_cast hlt.le
    have hpow : (10 : ℚ) ^ p ≤ 10 ^ x.shortest.power := zpow_le_zpow_right₀ (by norm_num) hle
    gcongr
  have hdown : (10 : ℚ) ^ s * 10 ^ x.shortest.power ≤ x.shortest.digits * 10 ^ x.shortest.power := by
    have hcast : (10 : ℚ) ^ s ≤ x.shortest.digits := by exact_mod_cast not_lt.1 hge
    gcongr
  refine hcoarse (x.shortest.power + 1) (by omega) (10 ^ (s - 1)) ?_
  have hsplit : ((10 ^ (s - 1) : Nat) : ℚ) * 10 ^ (x.shortest.power + 1) = 10 ^ s * 10 ^ x.shortest.power := by
    rw [zpow_add_one₀ (by norm_num), ← pow_sub_one_mul hs]
    push_cast
    ring
  rw [hsplit]
  exact hn.convex hnear hup hdown

end

end TypeContracts.Double
