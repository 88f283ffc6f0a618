import Mathlib.Data.List.Induction
import Std.Data.String.ToNat
import TypeContracts.Proofs.Json.RoundTrip
import TypeContracts.Value.Heap

/-!
# The keys of arrays and buffers

Elements are found under the decimal numeral of their index and under no other
text (`index_keys_canonical`). A key is read as a number and taken only if that
number is printed as the key, so whatever else can be read as a number is no
key: a numeral with a sign, with zeros in front or with digits of another
script. What such a numeral looks like is said by `Spells`, without reading or
printing.
-/

namespace TypeContracts

/-! ## Numerals -/

/-- The text is the decimal numeral of the number: it has only digits, which have this value, and no zero in front of
another digit. -/
structure Spells (text : String) (n : Nat) : Prop where
  digits : ∀ c ∈ text.toList, c.isDigit = true
  nonempty : text ≠ ""
  leading : ∀ rest, text.toList = '0' :: rest → rest = []
  value : Nat.ofDigitChars 10 text.toList 0 = n

section
variable {text : String} {n : Nat}

theorem toDigits_digit {c : Char} (hc : c.isDigit = true) :
    c.toNat - '0'.toNat < 10 ∧ Nat.toDigits 10 (c.toNat - '0'.toNat) = [c] := by
  obtain ⟨hlow, hhigh⟩ := Char.isDigit_iff_toNat.mp hc
  simp only [show '0'.toNat = 48 from rfl, show '9'.toNat = 57 from rfl] at hlow hhigh ⊢
  have hlt : c.toNat - 48 < 10 := by omega
  refine ⟨hlt, ?_⟩
  rw [Nat.toDigits_of_lt_base hlt, List.cons.injEq, ← Char.toNat_inj, Nat.toNat_digitChar_of_lt_ten hlt]
  exact ⟨by omega, rfl⟩

/-- Digits without a zero in front are printed again as they were. -/
theorem toDigits_ofDigitChars {digits : List Char} (hdigits : ∀ c ∈ digits, c.isDigit = true) (hne : digits ≠ [])
    (hleading : ∀ rest, digits = '0' :: rest → rest = []) :
    Nat.toDigits 10 (Nat.ofDigitChars 10 digits 0) = digits := by
  induction digits using List.reverseRecOn with
  | nil => exact absurd rfl hne
  | append_singleton first c ih =>
    obtain ⟨hlt, hlast⟩ := toDigits_digit (hdigits c (by simp))
    rw [Nat.ofDigitChars_append, Nat.ofDigitChars_cons, Nat.ofDigitChars_nil]
    by_cases hfirst : first = []
    · subst hfirst
      simpa using hlast
    · have hnozero : ∀ rest, first ≠ '0' :: rest := by
        rintro rest rfl
        simpa using hleading (rest ++ [c]) rfl
      have hprinted := ih (fun d hd => hdigits d (by simp [hd])) hfirst fun rest h => absurd h (hnozero rest)
      have hpos : 0 < Nat.ofDigitChars 10 first 0 := by
        rw [Nat.pos_iff_ne_zero]
        intro hzero
        rw [hzero, Nat.toDigits_zero] at hprinted
        exact hnozero [] hprinted.symm
      rw [← Nat.toDigits_append_toDigits (by decide) hpos hlt, hprinted, hlast]

theorem spells_iff : Spells text n ↔ text = toString n := by
  have htext : text = toString n ↔ text.toList = Nat.toDigits 10 n := by
    rw [← String.toList_inj, Nat.toString_eq_repr, Nat.toList_repr]
  rw [htext]
  constructor
  · rintro ⟨hdigits, hne, hleading, rfl⟩
    exact (toDigits_ofDigitChars hdigits (by simpa using hne) hleading).symm
  · intro h
    refine ⟨?_, ?_, ?_, ?_⟩
    · rw [h]
      exact fun c hc => Nat.isDigit_of_mem_toDigits (by decide) (by decide) hc
    · rintro rfl
      exact Nat.toDigits_ne_nil h.symm
    · intro rest hrest
      rw [h] at hrest
      obtain rfl := Json.head_toDigits hrest
      rw [Nat.toDigits_zero] at hrest
      exact (List.cons.inj hrest).2.symm
    · rw [h]
      exact Nat.ofDigitChars_ten_toDigits

theorem Spells.ne_length (h : Spells text n) : text ≠ "length" := by
  rintro rfl
  exact absurd (h.digits 'l' (by decide)) (by decide)

end

/-! ## Keys -/

namespace Heap

variable {key : String} {i : Nat}

theorem canonicalIndex_eq_some_iff : canonicalIndex key = some i ↔ Spells key i ∧ i < UInt64.size := by
  rw [spells_iff, canonicalIndex, Option.filter_eq_some_iff, Bool.and_eq_true, decide_eq_true_iff, beq_iff_eq]
  constructor
  · rintro ⟨-, hlt, hprinted⟩
    exact ⟨hprinted.symm, hlt⟩
  · rintro ⟨rfl, hlt⟩
    exact ⟨Nat.toNat?_repr i, hlt, rfl⟩

def sequence? (h : Heap) : Value → Option (Array Value)
  | .array r => some (h.elements r)
  | .buffer r => some ((h.buffer r).elements.map Value.number)
  | _ => none

section
variable {h : Heap} {v : Value} {elements : Array Value} (hv : h.sequence? v = some elements)
include hv

theorem properties_of_sequence : h.properties v = .indexed elements := by
  cases v with
  | array r | buffer r =>
    cases hv
    rfl
  | _ => cases hv

theorem get?_length : (h.properties v).get? "length" = some (.number (.ofNat elements.size)) := by
  rw [properties_of_sequence hv, Properties.get?, if_pos rfl]

theorem get?_of_spells (hkey : Spells key i) (hi : i < UInt64.size) : (h.properties v).get? key = elements[i]? := by
  have hindex := canonicalIndex_eq_some_iff.mpr ⟨hkey, hi⟩
  rw [properties_of_sequence hv, Properties.get?, if_neg hkey.ne_length, hindex, Option.bind_some]

/-- What is found is the length, or an element under its numeral. -/
theorem get?_eq_some {x : Value} (hfound : (h.properties v).get? key = some x) :
    key = "length" ∨ ∃ i < elements.size, Spells key i := by
  rw [properties_of_sequence hv, Properties.get?] at hfound
  split at hfound
  case isTrue hlength => exact .inl hlength
  case isFalse =>
    obtain ⟨i, hindex, helement⟩ := Option.bind_eq_some_iff.mp hfound
    obtain ⟨hi, -⟩ := Array.getElem?_eq_some_iff.mp helement
    exact .inr ⟨i, hi, (canonicalIndex_eq_some_iff.mp hindex).1⟩

end

/-- A key is an index exactly if it is the decimal numeral of a number of 64 bits. An array or a buffer, which is no
longer than indices reach, has its length and one property for each element, under the numeral of its index. -/
theorem index_keys_canonical (key : String) :
    (∀ i, canonicalIndex key = some i ↔ Spells key i ∧ i < UInt64.size) ∧
    (∀ i, Spells key i ↔ key = toString i) ∧
    ∀ (h : Heap) (v : Value) (elements : Array Value), h.sequence? v = some elements →
      elements.size ≤ UInt64.size →
        (h.has v key = true ↔ key = "length" ∨ ∃ i < elements.size, Spells key i) ∧
        (key = "length" → h.get v key = .number (.ofNat elements.size)) ∧
        ∀ i (hi : i < elements.size), Spells key i → h.get v key = elements[i] := by
  refine ⟨fun i => canonicalIndex_eq_some_iff, fun i => spells_iff, fun h v elements hv hsize => ?_⟩
  have helement : ∀ i (hi : i < elements.size), Spells key i → (h.properties v).get? key = some elements[i] := by
    intro i hi hkey
    rw [get?_of_spells hv hkey (Nat.lt_of_lt_of_le hi hsize), Array.getElem?_eq_getElem hi]
  refine ⟨⟨fun hhas => ?_, ?_⟩, ?_, fun i hi hkey => ?_⟩
  · obtain ⟨x, hfound⟩ := Option.isSome_iff_exists.mp hhas
    exact get?_eq_some hv hfound
  · rintro (rfl | ⟨i, hi, hkey⟩)
    · rw [has, get?_length hv, Option.isSome_some]
    · rw [has, helement i hi hkey, Option.isSome_some]
  · rintro rfl
    rw [get, get?_length hv, Option.getD_some]
  · rw [get, helement i hi hkey, Option.getD_some]

def threeAndTwo : Heap where
  arrays := #[#[.null, .string "second", .boolean true]]
  buffers := #[⟨.float64, #[.ofNat 5, .ofNat 7]⟩]

theorem index_keys_canonical_threeAndTwo :
    threeAndTwo.get (.array ⟨0⟩) "length" = .number (.ofNat 3) ∧
      threeAndTwo.get (.array ⟨0⟩) "2" = .boolean true ∧ threeAndTwo.has (.array ⟨0⟩) "02" = false ∧
      threeAndTwo.has (.array ⟨0⟩) "3" = false ∧ threeAndTwo.get (.buffer ⟨0⟩) "1" = .number (.ofNat 7) ∧
      threeAndTwo.has (.buffer ⟨0⟩) "+1" = false ∧
      canonicalIndex "18446744073709551615" = some 18446744073709551615 ∧
      canonicalIndex "18446744073709551616" = none := by
  have harray (key : String) := (index_keys_canonical key).2.2 threeAndTwo (.array ⟨0⟩) _ rfl (by decide)
  have helements : threeAndTwo.sequence? (.buffer ⟨0⟩) = some #[.number (.ofNat 5), .number (.ofNat 7)] := by
    simp [sequence?, buffer, threeAndTwo]
  have hbuffer (key : String) := (index_keys_canonical key).2.2 threeAndTwo (.buffer ⟨0⟩) _ helements (by decide)
  refine ⟨(harray "length").2.1 rfl, (harray "2").2.2 2 (by decide) (spells_iff.mpr rfl), ?_, ?_, ?_, ?_, ?_, ?_⟩
  · rw [← Bool.not_eq_true, (harray "02").1]
    rintro (h | ⟨i, -, hkey⟩)
    · exact absurd h (by decide)
    · exact absurd (hkey.leading ['2'] rfl) (by decide)
  · rw [← Bool.not_eq_true, (harray "3").1]
    rintro (h | ⟨i, hi, hkey⟩)
    · exact absurd h (by decide)
    · obtain rfl : 3 = i := hkey.value
      exact absurd hi (by decide)
  · exact (hbuffer "1").2.2 1 (by decide) (spells_iff.mpr rfl)
  · rw [← Bool.not_eq_true, (hbuffer "+1").1]
    rintro (h | ⟨i, -, hkey⟩)
    · exact absurd h (by decide)
    · exact absurd (hkey.digits '+' (by decide)) (by decide)
  · exact ((index_keys_canonical _).1 _).mpr ⟨spells_iff.mpr rfl, by decide⟩
  · refine Option.eq_none_iff_forall_ne_some.mpr fun i hi => ?_
    obtain ⟨hkey, hlt⟩ := ((index_keys_canonical _).1 i).mp hi
    obtain rfl : 18446744073709551616 = i := hkey.value
    exact absurd hlt (by decide)

end Heap

end TypeContracts
