import Mathlib.Data.List.DropRight
import TypeContracts.Double.Text
import TypeContracts.Proofs.Double.Shortest
import TypeContracts.Proofs.Json.RoundTrip

/-!
# The text of a number is the shortest numeral that rounds to it

A decimal numeral has a text and a value, and the text says which numeral it is
(`text_injective`). The layouts place the shortest digits so that the numeral has
the value of the shortest decimal (`exists_numeral`). So nothing is lost in the text
of a number (`text_lossless`).
-/

namespace TypeContracts

/-! ## Digits and the zeros around them -/

def trimZeros (digits : List Char) : List Char := (digits.dropWhile (· == '0')).rdropWhile (· == '0')

section
variable {digits : List Char}

theorem exists_zeros (digits : List Char) :
    ∃ i j, digits = List.replicate i '0' ++ trimZeros digits ++ List.replicate j '0' := by
  have hleft : ∀ c ∈ digits.takeWhile (· == '0'), c = '0' := by
    intro c hc
    simpa using List.mem_takeWhile_imp hc
  have hright : ∀ c ∈ (digits.dropWhile (· == '0')).rtakeWhile (· == '0'), c = '0' := by
    intro c hc
    simpa using List.mem_rtakeWhile_imp hc
  refine ⟨(digits.takeWhile (· == '0')).length, ((digits.dropWhile (· == '0')).rtakeWhile (· == '0')).length, ?_⟩
  rw [← List.eq_replicate_of_mem hleft, ← List.eq_replicate_of_mem hright, trimZeros, List.append_assoc,
    List.rdropWhile_append_rtakeWhile, List.takeWhile_append_dropWhile]

theorem dropWhile_zeros (hhead : digits.head? ≠ some '0') (i : Nat) :
    (List.replicate i '0' ++ digits).dropWhile (· == '0') = digits := by
  rw [List.dropWhile_append_of_pos (by simp)]
  cases digits with
  | nil => rfl
  | cons c digits =>
    have hc : c ≠ '0' := by simpa using hhead
    simp [hc]

/-- Digits that neither begin nor end with a zero. -/
structure Bare (digits : List Char) : Prop where
  isDigit : ∀ c ∈ digits, c.isDigit = true
  ne_nil : digits ≠ []
  head : digits.head? ≠ some '0'
  last : digits.getLast? ≠ some '0'

theorem Bare.trimZeros_eq (h : Bare digits) (i j : Nat) :
    trimZeros (List.replicate i '0' ++ digits ++ List.replicate j '0') = digits := by
  have hhead : (digits ++ List.replicate j '0').head? ≠ some '0' := by
    rw [List.head?_append_of_ne_nil _ h.ne_nil]
    exact h.head
  have hlast : digits.reverse.head? ≠ some '0' := by
    rw [List.head?_reverse]
    exact h.last
  rw [trimZeros, List.append_assoc, dropWhile_zeros hhead, List.rdropWhile, List.reverse_append,
    List.reverse_replicate, dropWhile_zeros hlast, List.reverse_reverse]

theorem ofDigitChars_zeros (i j : Nat) (digits : List Char) :
    Nat.ofDigitChars 10 (List.replicate i '0' ++ digits ++ List.replicate j '0') 0 =
      Nat.ofDigitChars 10 digits 0 * 10 ^ j := by
  rw [Nat.ofDigitChars_append, Nat.ofDigitChars_append, Nat.ofDigitChars_replicate_zero,
    Nat.ofDigitChars_replicate_zero, Nat.mul_zero, Nat.mul_comm]

theorem ofDigitChars_lt (hdigits : ∀ c ∈ digits, c.isDigit = true) :
    Nat.ofDigitChars 10 digits 0 < 10 ^ digits.length := by
  induction digits with
  | nil => simp
  | cons c digits ih =>
    have hc : c.toNat - '0'.toNat ≤ 9 := by
      have hdigit := hdigits c List.mem_cons_self
      simp [Char.isDigit, UInt32.le_iff_toNat_le] at hdigit
      change c.toNat - 48 ≤ 9
      have : c.toNat = c.val.toNat := rfl
      omega
    have hrest := ih fun d hd => hdigits d (List.mem_cons_of_mem c hd)
    rw [Nat.ofDigitChars_cons, Nat.ofDigitChars_eq_ofDigitChars_zero, List.length_cons, Nat.pow_succ, Nat.mul_zero,
      Nat.zero_add]
    have hfirst := Nat.mul_le_mul_left (10 ^ digits.length) hc
    omega

theorem bare_toDigits {n : Nat} (hn : n % 10 ≠ 0) : Bare (Nat.toDigits 10 n) := by
  refine ⟨fun c hc => Nat.isDigit_of_mem_toDigits (by decide) (by decide) hc, Nat.toDigits_ne_nil, ?_, ?_⟩
  · intro hhead
    obtain ⟨tail, htail⟩ := List.head?_eq_some_iff.1 hhead
    obtain rfl := Json.head_toDigits htail
    exact hn rfl
  · have hchar : ∀ k < 10, k ≠ 0 → k.digitChar ≠ '0' := by decide
    have hlast := hchar (n % 10) (Nat.mod_lt n (by decide)) hn
    rw [Nat.toDigits_eq_if (by decide)]
    split
    case isTrue hlt =>
      rw [Nat.mod_eq_of_lt hlt] at hlast
      simpa using hlast
    case isFalse => simpa using hlast

end

/-! ## Numerals -/

/-- A decimal numeral: digits before and after the point, and an exponent of ten if it is written with one. -/
structure DecimalNumeral where
  negative : Bool
  whole : List Char
  fraction : List Char
  exponent : Option Int
  whole_ne_nil : whole ≠ []
  isDigit : ∀ c ∈ whole ++ fraction, c.isDigit = true

namespace DecimalNumeral

def fractionChars (n : DecimalNumeral) : List Char := if n.fraction = [] then [] else '.' :: n.fraction

def exponentChars (n : DecimalNumeral) : List Char :=
  match n.exponent with
  | none => []
  | some e => 'e' :: (if e < 0 then '-' else '+') :: Nat.toDigits 10 e.natAbs

def unsigned (n : DecimalNumeral) : List Char := n.whole ++ (n.fractionChars ++ n.exponentChars)

def text (n : DecimalNumeral) : String := (if n.negative then "-" else "") ++ String.ofList n.unsigned

def value (n : DecimalNumeral) : ℚ :=
  (if n.negative then -1 else 1) *
    (Nat.ofDigitChars 10 (n.whole ++ n.fraction) 0 * 10 ^ (n.exponent.getD 0 - n.fraction.length))

def significant (n : DecimalNumeral) : List Char := trimZeros (n.whole ++ n.fraction)

/-- There is no leading zero but before the point, and no zero at the end of a fraction. With an exponent, one digit that
is not zero stands before the point. -/
structure Trimmed (n : DecimalNumeral) : Prop where
  whole : n.whole.head? = some '0' → n.whole = ['0']
  fraction : n.fraction.getLast? ≠ some '0'
  exponent : n.exponent.isSome = true → n.whole.length = 1 ∧ n.whole ≠ ['0']

/-- The numeral shows these digits, between zeros, and the last of them has the weight `10 ^ power`. -/
def Shows (n : DecimalNumeral) (digits : List Char) (power : Int) : Prop :=
  ∃ i j, n.whole ++ n.fraction = List.replicate i '0' ++ digits ++ List.replicate j '0' ∧
    n.exponent.getD 0 - n.fraction.length + j = power

section
variable {n n' : DecimalNumeral} {digits : List Char} {power : Int}

theorem Shows.value_eq (h : n.Shows digits power) :
    n.value = (if n.negative then -1 else 1) * (Nat.ofDigitChars 10 digits 0 * 10 ^ power) := by
  obtain ⟨i, j, hdigits, rfl⟩ := h
  rw [value, hdigits, ofDigitChars_zeros, zpow_add₀ (by norm_num), zpow_natCast]
  push_cast
  ring

theorem exists_shows (n : DecimalNumeral) : ∃ power, n.Shows n.significant power := by
  obtain ⟨i, j, hdigits⟩ := exists_zeros (n.whole ++ n.fraction)
  exact ⟨_, i, j, hdigits, rfl⟩

theorem Shows.significant_eq (h : n.Shows digits power) (hdigits : Bare digits) : n.significant = digits := by
  obtain ⟨i, j, hshown, -⟩ := h
  rw [significant, hshown, hdigits.trimZeros_eq]

theorem isDigit_significant (n : DecimalNumeral) : ∀ c ∈ n.significant, c.isDigit = true := by
  intro c hc
  have hmem := (List.rdropWhile_prefix _ _).subset hc
  exact n.isDigit c ((List.dropWhile_suffix _).subset hmem)

end

/-! ### One text, one numeral -/

theorem head?_exponentChars (n : DecimalNumeral) : ∀ c ∈ n.exponentChars.head?, c = 'e' := by
  unfold exponentChars
  split <;> simp

theorem head?_fractionChars (n : DecimalNumeral) :
    ∀ c ∈ (n.fractionChars ++ n.exponentChars).head?, c = '.' ∨ c = 'e' := by
  unfold fractionChars
  split
  · intro c hc
    exact .inr (n.head?_exponentChars c hc)
  · simp

section
variable {n n' : DecimalNumeral}

theorem unsigned_ne (n : DecimalNumeral) (tail : List Char) : n.unsigned ≠ '-' :: tail := by
  obtain ⟨c, whole, hwhole⟩ := List.exists_cons_of_ne_nil n.whole_ne_nil
  have hdigit := n.isDigit c (by simp [hwhole])
  rw [unsigned, hwhole, List.cons_append]
  intro h
  obtain rfl := (List.cons.inj h).1
  cases hdigit

theorem sign_of_text (h : n.text = n'.text) : n.negative = n'.negative ∧ n.unsigned = n'.unsigned := by
  rw [← String.toList_inj] at h
  cases hn : n.negative with
  | false =>
    cases hn' : n'.negative with
    | false => exact ⟨rfl, by simpa [text, hn, hn'] using h⟩
    | true => exact absurd (by simpa [text, hn, hn'] using h) (n.unsigned_ne n'.unsigned)
  | true =>
    cases hn' : n'.negative with
    | false => exact absurd (by simpa [text, hn, hn'] using h.symm) (n'.unsigned_ne n.unsigned)
    | true => exact ⟨rfl, by simpa [text, hn, hn'] using h⟩

theorem whole_of_unsigned (h : n.unsigned = n'.unsigned) :
    n.whole = n'.whole ∧ n.fractionChars ++ n.exponentChars = n'.fractionChars ++ n'.exponentChars := by
  have hrun : ∀ l : DecimalNumeral, Json.digitRun l.unsigned = some (l.whole, l.fractionChars ++ l.exponentChars) := by
    intro l
    refine Json.digitRun_append l.whole_ne_nil (fun c hc => l.isDigit c (List.mem_append_left _ hc)) fun c hc => ?_
    obtain rfl | rfl := l.head?_fractionChars c hc <;> rfl
  have hsame := hrun n
  rw [h, hrun n', Option.some.injEq, Prod.mk.injEq] at hsame
  exact ⟨hsame.1.symm, hsame.2.symm⟩

theorem exponentChars_ne (n : DecimalNumeral) (tail : List Char) : n.exponentChars ≠ '.' :: tail := by
  intro h
  have hhead := n.head?_exponentChars '.' (by simp [h])
  cases hhead

theorem fraction_of_chars (h : n.fractionChars ++ n.exponentChars = n'.fractionChars ++ n'.exponentChars) :
    n.fraction = n'.fraction ∧ n.exponentChars = n'.exponentChars := by
  have hrun : ∀ l : DecimalNumeral, l.fraction ≠ [] →
      Json.digitRun (l.fraction ++ l.exponentChars) = some (l.fraction, l.exponentChars) := by
    intro l hl
    refine Json.digitRun_append hl (fun c hc => l.isDigit c (List.mem_append_right _ hc)) fun c hc => ?_
    obtain rfl := l.head?_exponentChars c hc
    rfl
  unfold fractionChars at h
  split at h <;> split at h
  case isTrue.isTrue hn hn' => exact ⟨hn.trans hn'.symm, h⟩
  case isTrue.isFalse => exact absurd h (n.exponentChars_ne _)
  case isFalse.isTrue => exact absurd h.symm (n'.exponentChars_ne _)
  case isFalse.isFalse hn hn' =>
    have hsame := hrun n hn
    rw [List.cons_append, List.cons_append] at h
    rw [(List.cons.inj h).2, hrun n' hn', Option.some.injEq, Prod.mk.injEq] at hsame
    exact ⟨hsame.1.symm, hsame.2.symm⟩

theorem exponent_of_chars (h : n.exponentChars = n'.exponentChars) : n.exponent = n'.exponent := by
  unfold exponentChars at h
  cases hn : n.exponent with
  | none =>
    cases hn' : n'.exponent with
    | none => rfl
    | some e' => simp [hn, hn'] at h
  | some e =>
    cases hn' : n'.exponent with
    | none => simp [hn, hn'] at h
    | some e' =>
      simp only [hn, hn', List.cons.injEq, true_and] at h
      have habs : e.natAbs = e'.natAbs := by
        rw [← Nat.ofDigitChars_ten_toDigits (n := e.natAbs), h.2, Nat.ofDigitChars_ten_toDigits]
      have hsign : e < 0 ↔ e' < 0 := by
        have hchars := h.1
        split_ifs at hchars with he he' he'
        · exact iff_of_true he he'
        · cases hchars
        · cases hchars
        · exact iff_of_false he he'
      exact congrArg some (by omega)

theorem text_injective (h : n.text = n'.text) : n = n' := by
  obtain ⟨hnegative, hunsigned⟩ := sign_of_text h
  obtain ⟨hwhole, hrest⟩ := whole_of_unsigned hunsigned
  obtain ⟨hfraction, hexponent⟩ := fraction_of_chars hrest
  have hexponent := exponent_of_chars hexponent
  cases n
  cases n'
  cases hnegative
  cases hwhole
  cases hfraction
  cases hexponent
  rfl

end

/-! ### Numerals in the layout of messages -/

section
variable {digits : List Char}

theorem isDigit_of_zeros {cs : List Char} {i j : Nat} (h : Bare digits)
    (hcs : cs = List.replicate i '0' ++ digits ++ List.replicate j '0') : ∀ c ∈ cs, c.isDigit = true := by
  intro c hc
  rw [hcs, List.mem_append, List.mem_append, List.mem_replicate, List.mem_replicate] at hc
  obtain (⟨-, rfl⟩ | hc) | ⟨-, rfl⟩ := hc
  · rfl
  · exact h.isDigit c hc
  · rfl

theorem exists_positional (h : Bare digits) (negative : Bool) (point : Int) : ∃ n : DecimalNumeral,
    String.ofList n.unsigned = Double.positional "" digits point ∧ n.negative = negative ∧ n.exponent = none ∧
      n.Shows digits (point - digits.length) ∧ n.Trimmed := by
  have hne := h.ne_nil
  have hpos := List.length_pos_iff.2 hne
  unfold Double.positional
  split_ifs with hpoint hlong
  · have hshown : ['0'] ++ (List.replicate (-point).toNat '0' ++ digits) =
        List.replicate ((-point).toNat + 1) '0' ++ digits ++ List.replicate 0 '0' := by
      simp [List.replicate_succ]
    refine ⟨⟨negative, _, _, none, by simp, isDigit_of_zeros h hshown⟩, ?_, rfl, rfl, ⟨_, _, hshown, ?_⟩, ?_⟩
    · rw [← String.toList_inj]
      simp [unsigned, fractionChars, exponentChars, Double.zeros, hne]
    · simp
      omega
    · refine ⟨fun _ => rfl, ?_, by simp⟩
      rw [List.getLast?_append_of_ne_nil _ hne]
      exact h.last
  · have hshown : digits ++ List.replicate (point.toNat - digits.length) '0' ++ [] =
        List.replicate 0 '0' ++ digits ++ List.replicate (point.toNat - digits.length) '0' := by simp
    refine ⟨⟨negative, _, _, none, by simp [hne], isDigit_of_zeros h hshown⟩, ?_, rfl, rfl, ⟨_, _, hshown, ?_⟩, ?_⟩
    · rw [← String.toList_inj]
      simp [unsigned, fractionChars, exponentChars, Double.zeros]
    · simp
      omega
    · refine ⟨?_, by simp, by simp⟩
      rw [List.head?_append_of_ne_nil _ hne]
      exact fun hzero => absurd hzero h.head
  · have hshown : digits.take point.toNat ++ digits.drop point.toNat =
        List.replicate 0 '0' ++ digits ++ List.replicate 0 '0' := by simp
    refine ⟨⟨negative, _, _, none, ?_, isDigit_of_zeros h hshown⟩, ?_, rfl, rfl, ⟨_, _, hshown, ?_⟩, ?_⟩
    · simp [hne]
      omega
    · rw [← String.toList_inj]
      simp [unsigned, fractionChars, exponentChars]
      omega
    · simp
      omega
    · refine ⟨?_, ?_, by simp⟩
      · rw [List.head?_take, if_neg (by omega)]
        exact fun hzero => absurd hzero h.head
      · rw [List.getLast?_drop, if_neg (by omega)]
        exact h.last

theorem exists_exponential (h : Bare digits) (negative : Bool) (e : Int) : ∃ n : DecimalNumeral,
    String.ofList n.unsigned = Double.exponential "+" digits e ∧ n.negative = negative ∧ n.exponent = some e ∧
      n.Shows digits (e + 1 - digits.length) ∧ n.Trimmed := by
  obtain ⟨c, tail, rfl⟩ := List.exists_cons_of_ne_nil h.ne_nil
  have hc : c ≠ '0' := by simpa using h.head
  refine ⟨⟨negative, [c], tail, some e, by simp, h.isDigit⟩, ?_, rfl, rfl, ⟨0, 0, by simp, by simp⟩, ?_⟩
  · rw [← String.toList_inj]
    by_cases htail : tail = [] <;> by_cases he : e < 0 <;>
      simp [unsigned, fractionChars, exponentChars, Double.exponential, htail, he]
  · refine ⟨by simp [hc], ?_, by simp [hc]⟩
    cases tail with
    | nil => simp
    | cons d tail => exact h.last

end

end DecimalNumeral

/-! ## The leading digit -/

def Decimal.leading (d : Decimal) : Int := (Nat.toDigits 10 d.digits).length - 1 + d.power

theorem Decimal.pow_le_iff {d : Decimal} (hd : 0 < d.digits) {p : Int} :
    (10 : ℚ) ^ p ≤ d.digits * 10 ^ d.power ↔ p ≤ d.leading := by
  have hscale : (10 : ℚ) ^ p ≤ d.digits * 10 ^ d.power ↔ (10 : ℚ) ^ (p - d.power) ≤ d.digits := by
    rw [zpow_sub₀ (by norm_num), div_le_iff₀ (zpow_pos (by norm_num) _)]
  have hlength : 0 < (Nat.toDigits 10 d.digits).length := Nat.length_toDigits_pos
  rw [hscale, leading]
  obtain hle | hlt := le_or_gt p d.power
  · have hone : (1 : ℚ) ≤ d.digits := by exact_mod_cast hd
    have hpow : (10 : ℚ) ^ (p - d.power) ≤ 1 := zpow_le_one_of_nonpos₀ (by norm_num) (by omega)
    exact iff_of_true (hpow.trans hone) (by omega)
  · obtain ⟨k, hk⟩ := Int.eq_ofNat_of_zero_le (show 0 ≤ p - d.power by omega)
    have hcount := Nat.length_toDigits_le_iff (by decide) (show 0 < k by omega) (b := 10) (n := d.digits)
    rw [hk, zpow_natCast]
    have hnat : (10 : ℚ) ^ k ≤ d.digits ↔ 10 ^ k ≤ d.digits := by exact_mod_cast Iff.rfl
    rw [hnat]
    omega

namespace Double

section
variable {x y : Double}

/-- A power of ten separates the shortest decimals where the double that it rounds to separates the doubles. -/
theorem le_leading_iff (hm : 0 < x.magnitude) {m : Nat} {p : Int} (hp : Near m (10 ^ p)) :
    p ≤ x.shortest.leading ↔ valueAt m ≤ |x.value| := by
  obtain ⟨hnear, hcoarse⟩ := shortest_spec hm
  have hpos := hnear.digits_pos hm
  rw [← Decimal.pow_le_iff hpos, abs_value, valueAt_strictMono.le_iff_le]
  refine ⟨hp.mono hnear, fun hle => ?_⟩
  by_contra hlt
  -- The number would be the one that the power of ten rounds to, and the search would not have passed over that power.
  obtain rfl : m = x.magnitude := le_antisymm hle (hnear.mono hp (not_le.1 hlt).le)
  have hpower : p ≤ x.shortest.power := by
    by_contra hgt
    exact hcoarse p (not_le.1 hgt) 1 (by rwa [Nat.cast_one, one_mul])
  rw [Decimal.pow_le_iff hpos, Decimal.leading] at hlt
  have hlength : 0 < (Nat.toDigits 10 x.shortest.digits).length := Nat.length_toDigits_pos
  omega

/-! ## The numeral that is written -/

theorem message_decimal (d : Decimal) : Layout.message.decimal d =
    if -6 ≤ d.leading ∧ d.leading < 21 then positional "" (Nat.toDigits 10 d.digits) (d.leading + 1)
    else exponential "+" (Nat.toDigits 10 d.digits) d.leading := rfl

theorem text_eq (hx : x.isFinite = true) (hm : 0 < x.magnitude) :
    x.text = (if x.isNegative then "-" else "") ++ Layout.message.decimal x.shortest := by
  have hfinite : x.storedExponent ≠ 2047 := by simpa [isFinite] using hx
  simp [text, Layout.text, isNaN, isZero, isInfinite, hfinite, hm.ne']

theorem exists_numeral (hx : x.isFinite = true) (hm : 0 < x.magnitude) :
    ∃ n : DecimalNumeral, n.text = x.text ∧ n.negative = x.isNegative ∧
      n.Shows (Nat.toDigits 10 x.shortest.digits) x.shortest.power ∧ n.Trimmed ∧
      (n.exponent.isSome = true ↔ x.shortest.leading < -6 ∨ 21 ≤ x.shortest.leading) := by
  have hbare := bare_toDigits (shortest_digits_mod_ten hm)
  have hpower : x.shortest.leading + 1 - (Nat.toDigits 10 x.shortest.digits).length = x.shortest.power := by
    unfold Decimal.leading
    omega
  rw [text_eq hx hm, message_decimal]
  by_cases hwithin : -6 ≤ x.shortest.leading ∧ x.shortest.leading < 21
  · obtain ⟨n, htext, hnegative, hexponent, hshows, htrimmed⟩ :=
      DecimalNumeral.exists_positional hbare x.isNegative (x.shortest.leading + 1)
    rw [hpower] at hshows
    refine ⟨n, by rw [DecimalNumeral.text, htext, hnegative, if_pos hwithin], hnegative, hshows, htrimmed, ?_⟩
    simp [hexponent]
    omega
  · obtain ⟨n, htext, hnegative, hexponent, hshows, htrimmed⟩ :=
      DecimalNumeral.exists_exponential hbare x.isNegative x.shortest.leading
    rw [hpower] at hshows
    refine ⟨n, by rw [DecimalNumeral.text, htext, hnegative, if_neg hwithin], hnegative, hshows, htrimmed, ?_⟩
    simp [hexponent]
    omega

/-- The number `1e-6` as a double: the one nearest to `10 ^ (-6)`, which is between two doubles. -/
def millionth : Double := ⟨0x3EB0C6F7A0B5ED8D⟩

theorem sign_millionth : millionth.sign = 1 := if_neg (by decide)

theorem value_millionth : millionth.value = valueAt millionth.magnitude := by
  rw [value_eq, sign_millionth, one_mul]

theorem near_millionth : Near millionth.magnitude (10 ^ (-6 : Int)) := by
  have hgrid := nearestOnGrid_spec (show 0 < millionth.magnitude by decide) (-6)
  rw [show millionth.nearestOnGrid (-6) = some 1 by decide +kernel] at hgrid
  simpa using hgrid

theorem valueAt_ten_pow : valueAt 0x444B1AE4D6E2EF50 = 10 ^ (21 : Int) := by
  norm_num [valueAt, significandAt, exponentAt, hiddenBit]

theorem exponent_iff (hm : 0 < x.magnitude) : x.shortest.leading < -6 ∨ 21 ≤ x.shortest.leading ↔
    |x.value| < millionth.value ∨ 10 ^ 21 ≤ |x.value| := by
  have hpow : Near 0x444B1AE4D6E2EF50 (10 ^ (21 : Int)) := by
    rw [← valueAt_ten_pow]
    exact near_self (by decide)
  rw [← not_le, le_leading_iff hm near_millionth, le_leading_iff hm hpow, valueAt_ten_pow, value_millionth,
    not_le]
  norm_cast

theorem rounds_of_shows {n : DecimalNumeral} (hm : 0 < x.magnitude) (hnegative : n.negative = x.isNegative)
    (hshows : n.Shows (Nat.toDigits 10 x.shortest.digits) x.shortest.power) : Rounds n.value x := by
  have hvalue : x.sign * n.value = x.shortest.digits * 10 ^ x.shortest.power := by
    rw [hshows.value_eq, hnegative, Nat.ofDigitChars_ten_toDigits, ← mul_assoc]
    change x.sign * x.sign * _ = _
    rw [sign_mul_sign, one_mul]
  refine Near.rounds hm ?_
  rw [hvalue]
  exact (shortest_spec hm).1

/-- A numeral that rounds to the number has as many significant digits as the shortest decimal. -/
theorem length_toDigits_le {n : DecimalNumeral} (hx : x.isFinite = true) (hm : 0 < x.magnitude)
    (hn : Rounds n.value x) : (Nat.toDigits 10 x.shortest.digits).length ≤ n.significant.length := by
  obtain ⟨power, hshows⟩ := n.exists_shows
  have hnear := hn.near hx hm
  have hvalue : x.sign * n.value = Nat.ofDigitChars 10 n.significant 0 * 10 ^ power := by
    have hsign : |(if n.negative then -1 else 1 : ℚ)| = 1 := by split <;> simp
    rw [← abs_of_pos (hnear.pos hm), abs_mul, abs_sign, hshows.value_eq, abs_mul, hsign, one_mul, one_mul]
    exact abs_of_nonneg (by positivity)
  rw [hvalue] at hnear
  have hlt := shortest_digits_lt hm hnear (ofDigitChars_lt n.isDigit_significant)
  have hpos := (shortest_spec hm).1.digits_pos hm
  refine (Nat.length_toDigits_le_iff (by decide) ?_).2 hlt
  rw [Nat.pos_iff_ne_zero]
  intro hnone
  rw [hnone] at hlt
  omega

theorem magnitude_pos (hzero : x.isZero = false) : 0 < x.magnitude :=
  Nat.pos_of_ne_zero (by simpa [isZero] using hzero)

theorem value_neg_iff (hm : 0 < x.magnitude) : x.value < 0 ↔ x.isNegative = true := by
  have hpos := valueAt_strictMono hm
  rw [valueAt_zero] at hpos
  rw [value_eq, sign]
  split
  case isTrue h => exact iff_of_true (by linarith) h
  case isFalse h => exact iff_of_false (by linarith) h

/-- The text of a finite number other than zero is a numeral that rounds to it, and no numeral with fewer significant
digits does. An exponent is written below the double nearest to `10 ^ (-6)` and from `10 ^ 21` on. -/
theorem text_lossless (hx : x.isFinite = true) (hzero : x.isZero = false) :
    ∃ n : DecimalNumeral, n.text = x.text ∧ (∀ n' : DecimalNumeral, n'.text = x.text → n' = n) ∧
      Rounds n.value x ∧ (n.negative = true ↔ x.value < 0) ∧
      (∀ n' : DecimalNumeral, Rounds n'.value x → n.significant.length ≤ n'.significant.length) ∧ n.Trimmed ∧
      Rounds (10 ^ (-6 : Int)) millionth ∧
      (n.exponent.isSome = true ↔ |x.value| < millionth.value ∨ 10 ^ 21 ≤ |x.value|) ∧
      ∀ y : Double, y.isFinite = true → y.isZero = false → y.text = x.text → y = x := by
  have hm := magnitude_pos hzero
  obtain ⟨n, htext, hnegative, hshows, htrimmed, hexponent⟩ := exists_numeral hx hm
  have hrounds := rounds_of_shows hm hnegative hshows
  refine ⟨n, htext, fun n' hn' => DecimalNumeral.text_injective (hn'.trans htext.symm), hrounds, ?_, fun n' hn' => ?_,
    htrimmed, ?_, hexponent.trans (exponent_iff hm), fun y hy hyzero hsame => ?_⟩
  · rw [hnegative, value_neg_iff hm]
  · rw [hshows.significant_eq (bare_toDigits (shortest_digits_mod_ten hm))]
    exact length_toDigits_le hx hm hn'
  · refine Near.rounds (by decide) ?_
    rw [sign_millionth, one_mul]
    exact near_millionth
  · have hym := magnitude_pos hyzero
    obtain ⟨n', htext', hnegative', hshows', -⟩ := exists_numeral hy hym
    obtain rfl : n' = n := DecimalNumeral.text_injective (htext'.trans (hsame.trans htext.symm))
    exact (rounds_of_shows hym hnegative' hshows').unique hy hym hx hm hrounds

/-- The least number below zero. -/
theorem text_lossless_leastNegative : (⟨0x8000000000000001⟩ : Double).isFinite = true ∧
    (⟨0x8000000000000001⟩ : Double).isZero = false ∧ ∃ n : DecimalNumeral, n.text = "-5e-324" ∧
      Rounds n.value ⟨0x8000000000000001⟩ ∧ n.negative = true ∧ n.exponent.isSome = true ∧ ∀ n' : DecimalNumeral,
        Rounds n'.value ⟨0x8000000000000001⟩ → n.significant.length ≤ n'.significant.length := by
  have hfinite : (⟨0x8000000000000001⟩ : Double).isFinite = true := by decide
  have hzero : (⟨0x8000000000000001⟩ : Double).isZero = false := by decide
  have hnegative : (⟨0x8000000000000001⟩ : Double).value < 0 := by
    rw [value_neg_iff (by decide)]
    decide
  obtain ⟨n, htext, -, hrounds, hsign, hshortest, -, -, hexponent, -⟩ := text_lossless hfinite hzero
  refine ⟨hfinite, hzero, n, htext.trans (by decide +kernel), hrounds, hsign.2 hnegative, hexponent.2 (.inl ?_),
    hshortest⟩
  rw [abs_value, value_millionth]
  exact valueAt_strictMono (by decide)

end

end Double

end TypeContracts
