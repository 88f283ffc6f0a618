import TypeContracts.Json.Printer
import TypeContracts.Proofs.Json.Numerals

/-!
# Reading back what is written

The text of a value, followed by something that ends a value, is read as that
value and no further (`reads_value`). This is for values that are `Legible`: a
numeral may be read as another one, since digits that do not fit are dropped,
and brackets may nest too deep.
-/

namespace TypeContracts

/-! ## The text as a list of characters -/

namespace Numeral

/-- What the text of a number is made of: the digits before the point, those after it, and the exponent. -/
structure Parts where
  whole : List Char
  fraction : Option (List Char)
  exponent : Option Int

def Parts.fractionChars (p : Parts) : List Char := p.fraction.elim [] ('.' :: ·)

def Parts.exponentChars (p : Parts) : List Char :=
  p.exponent.elim [] fun e => 'e' :: (if e < 0 then ['-'] else []) ++ Nat.toDigits 10 e.natAbs

def Parts.chars (p : Parts) : List Char := p.whole ++ p.fractionChars ++ p.exponentChars

/-- Parts that can be told apart: a zero stands alone before the point, and there are digits after it. -/
structure Parts.Plain (p : Parts) : Prop where
  whole : p.whole = ['0'] ∨ ∃ d tail, p.whole = d :: tail ∧ d ≠ '0'
  isDigit : ∀ c ∈ p.whole, c.isDigit = true
  fraction : ∀ digits ∈ p.fraction, digits ≠ [] ∧ ∀ c ∈ digits, c.isDigit = true

def positionalParts (digits : List Char) (point : Int) : Parts :=
  if point ≤ 0 then ⟨['0'], some (List.replicate (-point).toNat '0' ++ digits), none⟩
  else if digits.length ≤ point.toNat then
    ⟨digits ++ List.replicate (point.toNat - digits.length) '0', some ['0'], none⟩
  else ⟨digits.take point.toNat, some (digits.drop point.toNat), none⟩

def exponentialParts (digits : List Char) (e : Int) : Parts :=
  ⟨digits.take 1, if (digits.drop 1).isEmpty then none else some (digits.drop 1), some e⟩

def decimalParts (digits : List Char) (power : Int) : Parts :=
  let e : Int := digits.length - 1 + power
  if -5 ≤ e ∧ e < 16 then positionalParts digits (e + 1) else exponentialParts digits e

def parts (n : Numeral) : Parts :=
  let digits := Nat.toDigits 10 n.significand
  if n.integral then ⟨digits, none, none⟩
  else if n.significand = 0 then ⟨['0'], some ['0'], none⟩
  else decimalParts digits n.power

def chars (n : Numeral) : List Char := (if n.negative then ['-'] else []) ++ n.parts.chars

end Numeral

namespace Json

def quoted (s : String) : List Char := '"' :: s.toList.flatMap escaped ++ ['"']

mutual

def chars : Json → List Char
  | .null => ['n', 'u', 'l', 'l']
  | .bool true => ['t', 'r', 'u', 'e']
  | .bool false => ['f', 'a', 'l', 's', 'e']
  | .number n => n.chars
  | .string s => quoted s
  | .array elements => '[' :: (charsOfElements elements).tail ++ [']']
  | .object members => '\x7b' :: (charsOfMembers members).tail ++ ['\x7d']

def charsOfElements : List Json → List Char
  | [] => []
  | x :: rest => ',' :: x.chars ++ charsOfElements rest

def charsOfMembers : List (String × Json) → List Char
  | [] => []
  | (name, x) :: rest => ',' :: (quoted name ++ ':' :: x.chars) ++ charsOfMembers rest

end

theorem toList_foldl_push (out : String) (cs : List Char) : (cs.foldl String.push out).toList = out.toList ++ cs := by
  induction cs generalizing out with
  | nil => simp
  | cons c cs ih => simp [ih]

theorem toList_foldl_escaped (out : String) (cs : List Char) :
    (cs.foldl (fun out c => (escaped c).foldl String.push out) out).toList = out.toList ++ cs.flatMap escaped := by
  induction cs generalizing out with
  | nil => simp
  | cons c cs ih => simp [ih, toList_foldl_push]

theorem toList_writeString (out s : String) : (writeString out s).toList = out.toList ++ quoted s := by
  simp [writeString, quoted, toList_foldl_escaped]

section
open Numeral

theorem toList_positional (digits : List Char) (point : Int) :
    (Double.positional ".0" digits point).toList = (positionalParts digits point).chars := by
  unfold Double.positional positionalParts
  by_cases hpoint : point ≤ 0
  · simp [hpoint, Parts.chars, Parts.fractionChars, Parts.exponentChars, Double.zeros]
  · by_cases hlong : digits.length ≤ point.toNat <;>
      simp [hpoint, hlong, Parts.chars, Parts.fractionChars, Parts.exponentChars, Double.zeros]

theorem toList_exponential (digits : List Char) (e : Int) :
    (Double.exponential "" digits e).toList = (exponentialParts digits e).chars := by
  unfold Double.exponential exponentialParts
  by_cases hfraction : digits.tail = [] <;> by_cases he : e < 0 <;>
    simp [Parts.chars, Parts.fractionChars, Parts.exponentChars, hfraction, he]

theorem toList_decimal (d : Decimal) :
    (Double.Layout.json.decimal d).toList = (decimalParts (Nat.toDigits 10 d.digits) d.power).chars := by
  let digits := Nat.toDigits 10 d.digits
  let e : Int := digits.length - 1 + d.power
  have hdecimal : Double.Layout.json.decimal d =
      if -5 ≤ e ∧ e < 16 then Double.positional ".0" digits (e + 1) else Double.exponential "" digits e := rfl
  have hparts : decimalParts digits d.power =
      if -5 ≤ e ∧ e < 16 then positionalParts digits (e + 1) else exponentialParts digits e := rfl
  rw [hdecimal, hparts]
  by_cases h : -5 ≤ e ∧ e < 16
  · rw [if_pos h, if_pos h, toList_positional]
  · rw [if_neg h, if_neg h, toList_exponential]

theorem toList_writeNumeral (out : String) (n : Numeral) : (writeNumeral out n).toList = out.toList ++ n.chars := by
  have hsign : (if n.negative then out.push '-' else out).toList =
      out.toList ++ if n.negative then ['-'] else [] := by
    cases n.negative <;> simp
  unfold writeNumeral Numeral.chars parts
  dsimp only
  by_cases hintegral : n.integral = true
  · simp [hintegral, hsign, Parts.chars, Parts.fractionChars, Parts.exponentChars]
  · by_cases hzero : n.significand = 0
    · simp [hintegral, hzero, hsign, Parts.chars, Parts.fractionChars, Parts.exponentChars, Double.Layout.json,
        Double.Layout.debug]
    · simp [hintegral, hzero, hsign, toList_decimal]

end

mutual

theorem toList_write (out : String) : (x : Json) → (write out x).toList = out.toList ++ x.chars
  | .null => by simp [write, chars]
  | .bool true => by simp [write, chars]
  | .bool false => by simp [write, chars]
  | .number n => toList_writeNumeral out n
  | .string s => toList_writeString out s
  | .array elements => by simp [write, chars, toList_writeElements]
  | .object members => by simp [write, chars, toList_writeMembers]

theorem toList_writeElements (out : String) (first : Bool) : (elements : List Json) →
    (writeElements out first elements).toList =
      out.toList ++ if first then (charsOfElements elements).tail else charsOfElements elements
  | [] => by cases first <;> simp [writeElements, charsOfElements]
  | x :: rest => by
    cases first <;> simp [writeElements, charsOfElements, toList_writeElements _ _ rest, toList_write _ x]

theorem toList_writeMembers (out : String) (first : Bool) : (members : List (String × Json)) →
    (writeMembers out first members).toList =
      out.toList ++ if first then (charsOfMembers members).tail else charsOfMembers members
  | [] => by cases first <;> simp [writeMembers, charsOfMembers]
  | (name, x) :: rest => by
    cases first <;>
      simp [writeMembers, charsOfMembers, toList_writeMembers _ _ rest, toList_write _ x, toList_writeString]

end

theorem toList_render (x : Json) : (render x).toList = x.chars := by
  simp [render, toList_write]

theorem charsOfElements_eq (elements : List Json) :
    charsOfElements elements = elements.flatMap fun x => ',' :: x.chars := by
  induction elements with
  | nil => rfl
  | cons x rest ih => simp [charsOfElements, ih]

theorem charsOfMembers_eq (members : List (String × Json)) :
    charsOfMembers members = members.flatMap fun m => ',' :: (quoted m.1 ++ ':' :: m.2.chars) := by
  induction members with
  | nil => rfl
  | cons m rest ih => simp [charsOfMembers, ih]

/-! ## Numbers -/

def Ends (rest : List Char) : Prop := ∀ c ∈ rest.head?, c = ',' ∨ c = ']' ∨ c = '\x7d'

theorem Ends.nil : Ends [] := by
  intro c hc
  cases hc

theorem Ends.not_digit {rest : List Char} (h : Ends rest) : ∀ c ∈ rest.head?, c.isDigit = false := by
  intro c hc
  obtain rfl | rfl | rfl := h c hc <;> decide

theorem digitRun_append {digits rest : List Char} (hne : digits ≠ []) (hdigits : ∀ c ∈ digits, c.isDigit = true)
    (hrest : ∀ c ∈ rest.head?, c.isDigit = false) : digitRun (digits ++ rest) = some (digits, rest) := by
  have hstop : rest.takeWhile Char.isDigit = [] ∧ rest.dropWhile Char.isDigit = rest := by
    cases rest with
    | nil => simp
    | cons c rest => simp [hrest c rfl]
  unfold digitRun
  rw [List.takeWhile_append_of_pos hdigits, List.dropWhile_append_of_pos hdigits, hstop.1, hstop.2, List.append_nil]
  cases digits with
  | nil => exact absurd rfl hne
  | cons c digits => rfl

theorem isDigit_toDigits {n : Nat} : ∀ c ∈ Nat.toDigits 10 n, c.isDigit = true := fun _ hc =>
  Nat.isDigit_of_mem_toDigits (by decide) (by decide) hc

theorem isDigit_zeros (k : Nat) : ∀ c ∈ List.replicate k '0', c.isDigit = true := by
  intro c hc
  rw [List.eq_of_mem_replicate hc]
  rfl

theorem digitRun_toDigits (n : Nat) {rest : List Char} (hrest : ∀ c ∈ rest.head?, c.isDigit = false) :
    digitRun (Nat.toDigits 10 n ++ rest) = some (Nat.toDigits 10 n, rest) :=
  digitRun_append Nat.toDigits_ne_nil isDigit_toDigits hrest

theorem toDigits_eq_cons (n : Nat) : ∃ d digits, Nat.toDigits 10 n = d :: digits ∧ d.isDigit = true := by
  cases hd : Nat.toDigits 10 n with
  | nil => exact absurd hd Nat.toDigits_ne_nil
  | cons d digits =>
    exact ⟨d, digits, rfl, isDigit_toDigits (n := n) d (by simp [hd])⟩

/-- The digits of a number start with a zero only if there is no other. -/
theorem head_toDigits {n : Nat} {tail : List Char} (h : Nat.toDigits 10 n = '0' :: tail) : n = 0 := by
  induction n using Nat.strongRecOn generalizing tail with
  | ind n ih =>
    rw [Nat.toDigits_eq_if (by decide)] at h
    split at h
    · rename_i hlt
      have hall : ∀ k < 10, k.digitChar = '0' → k = 0 := by decide
      exact hall n hlt (List.cons.inj h).1
    · obtain ⟨d, digits, hd, -⟩ := toDigits_eq_cons (n / 10)
      rw [hd, List.cons_append] at h
      obtain ⟨rfl, -⟩ := List.cons.inj h
      have := ih (n / 10) (by omega) hd
      omega

theorem toDigits_append_ne {n : Nat} {c : Char} {rest tail : List Char} (hc : c.isDigit = false) :
    Nat.toDigits 10 n ++ rest ≠ c :: tail := by
  obtain ⟨d, digits, hd, hdigit⟩ := toDigits_eq_cons n
  intro h
  rw [hd, List.cons_append] at h
  obtain rfl := (List.cons.inj h).1
  rw [hdigit] at hc
  cases hc

/-- The exponent of a number, if it has one, with nothing after it that could belong to it. -/
theorem exponentPart_chars (p : Numeral.Parts) {rest : List Char} (hrest : Ends rest) :
    exponentPart (p.exponentChars ++ rest) = some (p.exponent, rest) := by
  unfold Numeral.Parts.exponentChars
  cases p.exponent with
  | none =>
    cases rest with
    | nil => rfl
    | cons c rest => obtain rfl | rfl | rfl := hrest c rfl <;> rfl
  | some e =>
    have hvalue : digitsValue (Nat.toDigits 10 e.natAbs) = e.natAbs := Nat.ofDigitChars_ten_toDigits
    have hrun := digitRun_toDigits e.natAbs hrest.not_digit
    by_cases hneg : e < 0
    · simp only [Option.elim_some, exponentPart, hneg, if_true, List.cons_append, List.nil_append, decide_true,
        Bool.true_or, hrun, Option.map_some, hvalue]
      simp only [Option.some.injEq, Prod.mk.injEq, and_true]
      omega
    · simp only [Option.elim_some, exponentPart, hneg, if_false, List.cons_append, List.nil_append, decide_true,
        Bool.true_or, if_true]
      split
      · rename_i h
        exact absurd h (toDigits_append_ne (by decide))
      · rename_i h
        exact absurd h (toDigits_append_ne (by decide))
      · simp only [hrun, Option.map_some, hvalue, Option.some.injEq, Prod.mk.injEq, and_true]
        omega

theorem head?_exponentChars (p : Numeral.Parts) {rest : List Char} (hrest : Ends rest) :
    ∀ c ∈ (p.exponentChars ++ rest).head?, c.isDigit = false ∧ c ≠ '.' := by
  unfold Numeral.Parts.exponentChars
  cases p.exponent with
  | none =>
    intro c hc
    obtain rfl | rfl | rfl := hrest c hc <;> decide
  | some e => simp

section
variable {p : Numeral.Parts} (hp : p.Plain) {rest : List Char} (hrest : Ends rest)
include hp hrest

theorem fractionPart_chars :
    fractionPart (p.fractionChars ++ (p.exponentChars ++ rest)) = some (p.fraction, p.exponentChars ++ rest) := by
  have hhead := head?_exponentChars p hrest
  unfold Numeral.Parts.fractionChars
  cases hfraction : p.fraction with
  | some digits =>
    obtain ⟨hne, hdigits⟩ := hp.fraction digits hfraction
    simp [fractionPart, digitRun_append hne hdigits fun c hc => (hhead c hc).1]
  | none =>
    cases htail : p.exponentChars ++ rest with
    | nil => rfl
    | cons c tail =>
      have hc : c ≠ '.' := (hhead c (by simp [htail])).2
      simp [fractionPart, hc]

omit hp in
theorem head?_fractionChars : ∀ c ∈ (p.fractionChars ++ (p.exponentChars ++ rest)).head?, c.isDigit = false := by
  unfold Numeral.Parts.fractionChars
  cases p.fraction with
  | some digits => simp
  | none => exact fun c hc => (head?_exponentChars p hrest c hc).1

omit hrest in
theorem integerPart_whole {tail : List Char} (htail : ∀ c ∈ tail.head?, c.isDigit = false) :
    integerPart (p.whole ++ tail) = some (p.whole, tail) := by
  obtain hzero | ⟨d, digits, hwhole, hd⟩ := hp.whole
  · rw [hzero]
    rfl
  · have hrun := digitRun_append (by simp [hwhole]) hp.isDigit htail
    rw [hwhole, List.cons_append] at hrun ⊢
    simp [integerPart, hd, hrun]

omit hrest in
/-- A number does not start with a sign of its own. -/
theorem chars_eq_cons : ∃ d tail, p.chars = d :: tail ∧ d.isDigit = true := by
  obtain hzero | ⟨d, digits, hwhole, -⟩ := hp.whole
  · exact ⟨'0', _, by rw [Numeral.Parts.chars, hzero]; rfl, rfl⟩
  · exact ⟨d, _, by rw [Numeral.Parts.chars, hwhole]; rfl, hp.isDigit d (by simp [hwhole])⟩

theorem unsignedNumeral_chars (negative : Bool) :
    unsignedNumeral negative (p.chars ++ rest) = some (numeralOf negative p.whole p.fraction p.exponent, rest) := by
  have hhead := head?_fractionChars hrest (p := p)
  have hnext : ((p.fractionChars ++ (p.exponentChars ++ rest)).head?.map Char.isDigit).getD false = false := by
    cases hc : (p.fractionChars ++ (p.exponentChars ++ rest)).head? with
    | none => rfl
    | some c => exact hhead c hc
  have hwhole := integerPart_whole hp hhead
  have hfraction := fractionPart_chars hp hrest
  rw [Numeral.Parts.chars, List.append_assoc, List.append_assoc]
  generalize p.fractionChars ++ (p.exponentChars ++ rest) = text at hnext hwhole hfraction ⊢
  simp [unsignedNumeral, hwhole, hnext, hfraction, exponentPart_chars p hrest]

end

section
open Numeral

section
variable {d : Char} {tail : List Char} (hd : d ≠ '0') (hdigits : ∀ c ∈ d :: tail, c.isDigit = true)
include hd hdigits

theorem plain_positional (point : Int) : (positionalParts (d :: tail) point).Plain := by
  unfold positionalParts
  by_cases hpoint : point ≤ 0
  · rw [if_pos hpoint]
    refine ⟨.inl rfl, by simp, ?_⟩
    rintro digits ⟨⟩
    exact ⟨by simp, List.forall_mem_append.mpr ⟨isDigit_zeros _, hdigits⟩⟩
  rw [if_neg hpoint]
  by_cases hlong : (d :: tail).length ≤ point.toNat
  · rw [if_pos hlong]
    refine ⟨.inr ⟨d, _, rfl, hd⟩, List.forall_mem_append.mpr ⟨hdigits, isDigit_zeros _⟩, ?_⟩
    rintro digits ⟨⟩
    exact ⟨by simp, isDigit_zeros 1⟩
  · rw [if_neg hlong]
    obtain ⟨k, hk⟩ : ∃ k, point.toNat = k + 1 := ⟨point.toNat - 1, by omega⟩
    refine ⟨.inr ⟨d, tail.take k, by simp [hk], hd⟩, fun c hc => hdigits c (List.mem_of_mem_take hc), ?_⟩
    rintro digits ⟨⟩
    refine ⟨?_, fun c hc => hdigits c (List.mem_of_mem_drop hc)⟩
    rw [ne_eq, List.drop_eq_nil_iff]
    exact hlong

theorem plain_exponential (e : Int) : (exponentialParts (d :: tail) e).Plain := by
  refine ⟨.inr ⟨d, [], rfl, hd⟩, fun c hc => hdigits c (List.mem_of_mem_take hc), fun digits hfraction => ?_⟩
  have htail : tail ≠ [] ∧ tail = digits := by simpa [exponentialParts] using hfraction
  obtain ⟨hne, rfl⟩ := htail
  exact ⟨hne, fun c hc => hdigits c (List.mem_cons_of_mem d hc)⟩

end

theorem plain_parts (n : Numeral) : n.parts.Plain := by
  obtain ⟨d, tail, hcons, -⟩ := toDigits_eq_cons n.significand
  have hdigits := isDigit_toDigits (n := n.significand)
  rw [hcons] at hdigits
  have hhead : n.significand ≠ 0 → d ≠ '0' := fun hne hd => hne (head_toDigits (hd ▸ hcons))
  unfold parts
  dsimp only
  split
  · refine ⟨?_, isDigit_toDigits, by simp⟩
    by_cases hzero : n.significand = 0
    · exact .inl (by rw [hzero]; rfl)
    · exact .inr ⟨d, tail, hcons, hhead hzero⟩
  · split
    · exact ⟨.inl rfl, isDigit_zeros 1, by simp⟩
    · rename_i hne
      rw [hcons]
      unfold decimalParts
      dsimp only
      split
      · exact plain_positional (hhead hne) hdigits _
      · exact plain_exponential (hhead hne) hdigits _

end

def reread (n : Numeral) : Numeral := numeralOf n.negative n.parts.whole n.parts.fraction n.parts.exponent

theorem numeral_chars (n : Numeral) {rest : List Char} (hrest : Ends rest) :
    numeral (n.chars ++ rest) = some (reread n, rest) := by
  have hunsigned := unsignedNumeral_chars (plain_parts n) hrest n.negative
  unfold Numeral.chars
  cases hneg : n.negative with
  | true =>
    rw [hneg] at hunsigned
    simpa [numeral, reread, hneg] using hunsigned
  | false =>
    rw [hneg] at hunsigned
    obtain ⟨d, tail, htail, hd⟩ := chars_eq_cons (plain_parts n)
    simp only [Bool.false_eq_true, if_false, List.nil_append, reread, hneg]
    rw [htail, List.cons_append] at hunsigned ⊢
    unfold numeral
    split
    · rename_i h
      obtain rfl := (List.cons.inj h).1
      cases hd
    · exact hunsigned

theorem absorb_eq {digits : List Char} {n : Nat} (h : Nat.ofDigitChars 10 digits n < UInt64.size) :
    absorb n digits = (Nat.ofDigitChars 10 digits n, []) := by
  induction digits generalizing n with
  | nil => rfl
  | cons c digits ih =>
    rw [Nat.ofDigitChars_cons] at h ⊢
    have hle : 10 * n + (c.toNat - '0'.toNat) ≤ Nat.ofDigitChars 10 digits (10 * n + (c.toNat - '0'.toNat)) := by
      rw [Nat.ofDigitChars_eq_ofDigitChars_zero]
      have := Nat.le_mul_of_pos_left (10 * n + (c.toNat - '0'.toNat)) (Nat.pow_pos (n := digits.length) (by decide : 0 < 10))
      omega
    rw [absorb, if_pos (by omega), ih h]

/-- Counts of 64 bits are read as they are. -/
theorem reread_ofNat {n : Nat} (h : n < UInt64.size) : reread (.ofNat n) = .ofNat n := by
  have hdigits : Nat.ofDigitChars 10 (Nat.toDigits 10 n) 0 = n := Nat.ofDigitChars_ten_toDigits
  have habsorb : absorb 0 (Nat.toDigits 10 n) = (n, []) := by
    rw [absorb_eq (by rwa [hdigits]), hdigits]
  simp [reread, numeralOf, Numeral.parts, Numeral.ofNat, habsorb, absorb]

/-! ## Strings -/

theorem hexValue_hexDigit (n : Nat) : hexValue (hexDigit n) = some (n % 16) := by
  have hall : ∀ k < 16, hexValue ((Nat.toDigits 16 k).headD '0') = some k := by decide
  exact hall (n % 16) (Nat.mod_lt n (by decide))

theorem unicodeEscape_control {c : Char} (hc : c.toNat < 0x20) (rest : List Char) :
    unicodeEscape ('0' :: '0' :: hexDigit (c.toNat / 16) :: hexDigit c.toNat :: rest) = some (c, rest) := by
  have hzero : hexValue '0' = some 0 := rfl
  have hunit : 16 * (c.toNat / 16 % 16) + c.toNat % 16 = c.toNat := by omega
  have hhigh : isHighSurrogate c.toNat = false := by simp [isHighSurrogate]; omega
  have hlow : isLowSurrogate c.toNat = false := by simp [isLowSurrogate]; omega
  simp [unicodeEscape, codeUnit, hzero, hexValue_hexDigit, hunit, hhigh, hlow]

/-- A character is read back from the way it stands in a string. -/
theorem stringBody_escaped (c : Char) (budget : Nat) (done rest : List Char) :
    stringBody false (budget + 1) done (escaped c ++ rest) = stringBody false budget (c :: done) rest := by
  unfold escaped
  -- the escapes of one letter
  iterate 7
    split
    · subst c; rfl
  split
  · rename_i hcontrol
    simp [stringBody, escape, unicodeEscape_control hcontrol]
  · rename_i hquote hbackslash _ _ _ _ _ hprintable
    simp [stringBody, hquote, hbackslash, hprintable]

theorem stringBody_flatMap {s : List Char} {budget : Nat} (hbudget : s.length < budget) (done rest : List Char) :
    stringBody false budget done (s.flatMap escaped ++ '"' :: rest) = some (done.reverse ++ s, rest) := by
  induction s generalizing budget done with
  | nil =>
    obtain ⟨budget, rfl⟩ := Nat.exists_eq_add_of_lt hbudget
    simp [stringBody]
  | cons c s ih =>
    obtain ⟨budget, rfl⟩ : ∃ k, budget = k + 1 := ⟨budget - 1, by simp at hbudget; omega⟩
    rw [List.flatMap_cons, List.append_assoc, stringBody_escaped, ih (by simpa using hbudget)]
    simp

theorem length_le_flatMap_escaped (s : List Char) : s.length ≤ (s.flatMap escaped).length := by
  induction s with
  | nil => simp
  | cons c s ih =>
    have hc : 0 < (escaped c).length := by
      unfold escaped
      repeat' split
      all_goals simp
    simp only [List.flatMap_cons, List.length_cons, List.length_append]
    omega

theorem stringRest_quoted {s : String} {budget : Nat} (hbudget : (quoted s).length < budget) (rest : List Char) :
    stringRest false budget ((quoted s).tail ++ rest) = some (s, rest) := by
  have hlength : s.toList.length < budget := by
    have := length_le_flatMap_escaped s.toList
    simp only [quoted, List.length_cons, List.length_append] at hbudget
    omega
  simp [stringRest, quoted, stringBody_flatMap hlength]

/-! ## Sequences -/

/-- The text starts like a value and, with what ends a value after it, is read as `x`. -/
structure Reads {α : Type} (r : Reader α) (text : List Char) (x : α) : Prop where
  starts : ∃ c ∈ text.head?, isBlank c = false ∧ c ≠ ']' ∧ c ≠ '\x7d'
  read : ∀ rest, Ends rest → r (text ++ rest) = some (x, rest)

section
variable {ι α : Type} {item : Reader α} {text : ι → List Char} {f : ι → α} {close : Char} {i : ι} {is : List ι}
  {budget : Nat}

theorem Reads.skipBlanks {text : List Char} {x : α} (h : Reads item text x) (rest : List Char) :
    skipBlanks (text ++ rest) = text ++ rest := by
  obtain ⟨c, hc, hblank, -⟩ := h.starts
  cases text with
  | nil => cases hc
  | cons d text =>
    cases hc
    simp [Json.skipBlanks, hblank]

theorem items_of_reads (hclose : close = ']' ∨ close = '\x7d') (hreads : ∀ j ∈ i :: is, Reads item (text j) (f j))
    (hbudget : is.length < budget) (done : List α) (rest : List Char) :
    -- the comma before an item belongs to the item, so what is left of the list is a list again
    items item close budget done (text i ++ (is.flatMap (fun j => ',' :: text j) ++ close :: rest)) =
      some (done.reverse ++ (i :: is).map f, rest) := by
  induction is generalizing i budget done with
  | nil =>
    obtain ⟨budget, rfl⟩ : ∃ k, budget = k + 1 := ⟨budget - 1, by simp at hbudget; omega⟩
    have hi := hreads i (by simp)
    have hread := hi.read (close :: rest) (by intro c hc; cases hc; exact .inr hclose)
    have hskip : skipBlanks (close :: rest) = close :: rest := by
      obtain rfl | rfl := hclose <;> rfl
    obtain rfl | rfl := hclose <;> simp [items, hi.skipBlanks, hread, hskip]
  | cons j is ih =>
    obtain ⟨budget, rfl⟩ : ∃ k, budget = k + 1 := ⟨budget - 1, by simp at hbudget; omega⟩
    have hi := hreads i (by simp)
    have hread := hi.read (',' :: (text j ++ (is.flatMap (fun j => ',' :: text j) ++ close :: rest)))
      (by intro c hc; cases hc; exact .inl rfl)
    have hskip : ∀ tail, skipBlanks (',' :: tail) = ',' :: tail := fun _ => rfl
    have hrest := ih (i := j) (fun k hk => hreads k (List.mem_cons_of_mem i hk)) (by simpa using hbudget) (f i :: done)
    simp [items, hi.skipBlanks, hread, hskip, hrest]

theorem bracketed_of_reads (hclose : close = ']' ∨ close = '\x7d') (hreads : ∀ i ∈ is, Reads item (text i) (f i))
    (hbudget : is.length < budget) (rest : List Char) :
    bracketed item close budget ((is.flatMap fun i => ',' :: text i).tail ++ close :: rest) =
      some (is.map f, rest) := by
  cases is with
  | nil =>
    have hskip : skipBlanks (close :: rest) = close :: rest := by
      obtain rfl | rfl := hclose <;> rfl
    simp [bracketed, hskip]
  | cons i is =>
    have hi := hreads i (by simp)
    have hitems := items_of_reads hclose hreads (Nat.lt_of_succ_lt hbudget) [] rest
    obtain ⟨c, hc, -, hstart⟩ := hi.starts
    obtain ⟨tail, htail⟩ := List.head?_eq_some_iff.mp hc
    have hne : c ≠ close := by
      obtain rfl | rfl := hclose
      · exact hstart.1
      · exact hstart.2
    simp only [bracketed, List.flatMap_cons, List.cons_append, List.tail_cons, List.append_assoc, hi.skipBlanks]
    rw [htail, List.cons_append] at hitems ⊢
    simpa [hne] using hitems

/-- The text of a bracketed sequence is longer than the sequence and than the text of each item. -/
theorem length_lt_bracketed {first last : Char}
    (h : (first :: (is.flatMap fun i => ',' :: text i).tail ++ [last]).length < budget) :
    is.length < budget ∧ ∀ i ∈ is, (text i).length < budget := by
  simp only [List.length_cons, List.length_append, List.length_tail, List.length_nil] at h
  suffices hle : is.length ≤ (is.flatMap fun i => ',' :: text i).length ∧
      ∀ i ∈ is, (text i).length < (is.flatMap fun i => ',' :: text i).length from
    ⟨by omega, fun i hi => by have := hle.2 i hi; omega⟩
  clear h
  induction is with
  | nil => simp
  | cons i is ih =>
    simp only [List.flatMap_cons, List.length_append, List.length_cons, List.mem_cons]
    refine ⟨by omega, ?_⟩
    rintro j (rfl | hj)
    · omega
    · have := ih.2 j hj
      omega

end

theorem reads_memberOf {α : Type} {value : String → Reader α} {budget : Nat} {name : String} {text : List Char} {x : α}
    (hbudget : (quoted name).length < budget) (hvalue : Reads (value name) text x) :
    Reads (memberOf false budget value) (quoted name ++ ':' :: text) (name, x) := by
  refine ⟨⟨'"', rfl, by decide⟩, fun rest hrest => ?_⟩
  have hname : stringRest false budget ((quoted name).tail ++ ':' :: (text ++ rest)) = _ := stringRest_quoted hbudget _
  have hskip : ∀ tail, skipBlanks (':' :: tail) = ':' :: tail := fun _ => rfl
  have hquoted : quoted name ++ ':' :: text ++ rest = '"' :: ((quoted name).tail ++ ':' :: (text ++ rest)) := by
    simp [quoted]
  rw [hquoted, memberOf, hname]
  simp [hskip, hvalue.skipBlanks, hvalue.read rest hrest]

/-- Members are read if their values are, by a reader that may depend on the name. -/
theorem bracketed_members {α : Type} (r : String → Reader α) {f : Json → α} {budget : Nat}
    {members : List (String × Json)} (hbudget : (Json.object members).chars.length < budget)
    (hvalue : ∀ m ∈ members, m.2.chars.length < budget → Reads (r m.1) m.2.chars (f m.2)) (rest : List Char) :
    bracketed (memberOf false budget r) '\x7d' budget ((charsOfMembers members).tail ++ '\x7d' :: rest) =
      some (members.map fun m => (m.1, f m.2), rest) := by
  rw [chars, charsOfMembers_eq] at hbudget
  obtain ⟨hcount, hlength⟩ := length_lt_bracketed hbudget
  rw [charsOfMembers_eq]
  refine bracketed_of_reads (.inr rfl) (fun m hm => ?_) hcount rest
  have hsize := hlength m hm
  simp only [List.length_append, List.length_cons] at hsize
  exact reads_memberOf (by omega) (hvalue m hm (by omega))

/-! ## Values -/

/-- The text of the numeral is read as the numeral itself, which is not too large. -/
def Stable (n : Numeral) : Prop := reread n = n ∧ n.toDouble.isFinite = true

/-- What is read as it was written, where brackets may nest at most `depth` deep. -/
structure Legible (depth : Nat) (x : Json) : Prop where
  depth_le : x.depth ≤ depth
  stable : ∀ n ∈ x.numerals, Stable n

theorem Legible.depth_pos {depth : Nat} {x : Json} (h : Legible depth x) (hpos : 0 < x.depth) : ∃ k, depth = k + 1 :=
  Nat.exists_eq_succ_of_ne_zero (Nat.ne_of_gt (Nat.lt_of_lt_of_le hpos h.depth_le))

theorem legible_iff {depth : Nat} {x : Json} :
    Legible depth x ↔ x.depth ≤ depth ∧ ∀ n ∈ x.numerals, Stable n := ⟨fun h => ⟨h.1, h.2⟩, fun h => ⟨h.1, h.2⟩⟩

theorem legible_number {n : Numeral} {depth : Nat} : Legible depth (.number n) ↔ Stable n := by
  simp [legible_iff, Json.depth, numerals]

theorem legible_bool (b : Bool) (depth : Nat) : Legible depth (.bool b) := by
  simp [legible_iff, Json.depth, numerals]

theorem legible_string (s : String) (depth : Nat) : Legible depth (.string s) := by
  simp [legible_iff, Json.depth, numerals]

theorem legible_array {elements : List Json} {depth : Nat} :
    Legible (depth + 1) (.array elements) ↔ ∀ x ∈ elements, Legible depth x := by
  simp only [legible_iff, Json.depth, Nat.add_le_add_iff_right, depthOfElements_le, numerals_array,
    List.forall_mem_flatMap, imp_and, forall_and]

theorem legible_object {members : List (String × Json)} {depth : Nat} :
    Legible (depth + 1) (.object members) ↔ ∀ m ∈ members, Legible depth m.2 := by
  simp only [legible_iff, Json.depth, Nat.add_le_add_iff_right, depthOfMembers_le, numerals_object,
    List.forall_mem_flatMap, imp_and, forall_and]

section
variable {budget : Nat}

theorem chars_head (n : Numeral) : ∃ c ∈ n.chars.head?, c = '-' ∨ c.isDigit = true := by
  obtain ⟨d, tail, htail, hdigit⟩ := chars_eq_cons (plain_parts n)
  unfold Numeral.chars
  cases n.negative with
  | true => exact ⟨'-', by simp, .inl rfl⟩
  | false => exact ⟨d, by simp [htail], .inr hdigit⟩

theorem starts_of_head {c : Char} (hc : c = '-' ∨ c.isDigit = true) : isBlank c = false ∧ c ≠ ']' ∧ c ≠ '\x7d' := by
  have hne : ∀ d, ¬ (d = '-' ∨ d.isDigit = true) → c ≠ d := by
    rintro d hd rfl
    exact hd hc
  refine ⟨?_, hne _ (by decide), hne _ (by decide)⟩
  simp [isBlank, hne ' ' (by decide), hne '\t' (by decide), hne '\n' (by decide), hne '\r' (by decide)]

/-- Text that starts like a number is read as one. -/
theorem value_of_head {c : Char} {text : List Char} (hc : c = '-' ∨ c.isDigit = true) (skipping : Bool) (depth : Nat) :
    value skipping budget depth (c :: text) = (numeral (c :: text)).bind fun (n, rest) =>
      if skipping || n.toDouble.isFinite then some (.number n, rest) else none := by
  unfold value
  split
  case h_9 => cases numeral (c :: text) <;> rfl
  all_goals
    rename_i heq
    cases heq
    exact absurd hc (by decide)

theorem reads_numeral {n : Numeral} (h : Stable n) (depth : Nat) :
    Reads (value false budget depth) n.chars (.number n) := by
  obtain ⟨c, hc, hstart⟩ := chars_head n
  refine ⟨⟨c, hc, ?_⟩, fun rest hrest => ?_⟩
  · exact starts_of_head hstart
  · obtain ⟨tail, htail⟩ := List.head?_eq_some_iff.mp hc
    have hread := numeral_chars n hrest
    rw [htail, List.cons_append] at hread ⊢
    rw [value_of_head hstart, hread, h.1]
    simp [h.2]

theorem reads_value {x : Json} {depth : Nat} (h : Legible depth x) (hbudget : x.chars.length < budget) :
    Reads (value false budget depth) x.chars x := by
  -- what is in brackets is read with one level less
  induction depth using Nat.strongRecOn generalizing x with
  | ind depth ih =>
    cases x with
    | null => exact ⟨⟨'n', rfl, by decide⟩, fun rest _ => by simp [chars, value, expect?]⟩
    | bool b =>
      cases b with
      | true => exact ⟨⟨'t', rfl, by decide⟩, fun rest _ => by simp [chars, value, expect?]⟩
      | false => exact ⟨⟨'f', rfl, by decide⟩, fun rest _ => by simp [chars, value, expect?]⟩
    | number n => exact reads_numeral (legible_number.mp h) depth
    | string s =>
      refine ⟨⟨'"', rfl, by decide⟩, fun rest _ => ?_⟩
      have hread := stringRest_quoted hbudget rest
      simp only [chars, quoted, List.cons_append, List.tail_cons] at hread ⊢
      simp only [value, hread, Option.map_some]
    | array elements =>
      obtain ⟨k, rfl⟩ := h.depth_pos (by simp [Json.depth])
      rw [legible_array] at h
      rw [chars, charsOfElements_eq] at hbudget ⊢
      obtain ⟨hcount, hlength⟩ := length_lt_bracketed hbudget
      have hreads : ∀ x ∈ elements, Reads (value false budget k) x.chars (id x) := fun x hx =>
        ih k (Nat.lt_succ_self k) (h x hx) (hlength x hx)
      refine ⟨⟨'[', rfl, by decide⟩, fun rest _ => ?_⟩
      simp [value, bracketed_of_reads (.inl rfl) hreads hcount]
    | object members =>
      obtain ⟨k, rfl⟩ := h.depth_pos (by simp [Json.depth])
      rw [legible_object] at h
      have hread := bracketed_members (fun _ => value false budget k) (f := id) hbudget fun m hm hsize =>
        ih k (Nat.lt_succ_self k) (h m hm) hsize
      refine ⟨⟨'\x7b', rfl, by decide⟩, fun rest _ => ?_⟩
      simp [value, chars, hread]

/-- A record of which every member is asked for is read like any other value. -/
theorem reads_record {fields : List String} {members : List (String × Json)} {depth : Nat}
    (hknown : ∀ m ∈ members, m.1 ∈ fields) (h : Legible depth (.object members))
    (hbudget : (Json.object members).chars.length < budget) :
    Reads (record fields budget depth) (Json.object members).chars (.object members) := by
  obtain ⟨k, rfl⟩ := h.depth_pos (by simp [Json.depth])
  rw [legible_object] at h
  refine ⟨⟨'\x7b', rfl, by decide⟩, fun rest _ => ?_⟩
  simp only [chars, List.cons_append, List.append_assoc, List.nil_append, record]
  rw [bracketed_members _ (f := some) hbudget fun m hm hsize => ?_]
  · rw [Option.map_some, List.filterMap_map]
    exact congrArg (fun members => some (Json.object members, rest)) List.filterMap_some
  · have hread : Reads (value false budget k) m.2.chars m.2 := reads_value (h m hm) hsize
    refine ⟨hread.starts, fun rest hrest => ?_⟩
    simp [hknown m hm, hread.read rest hrest]

end

/-! ## Texts -/

theorem alone_of_reads {α : Type} {reader : Nat → Reader α} {text : String} {x : α}
    (h : Reads (reader (text.toList.length + 1)) text.toList x) : alone reader text = some x := by
  have hread := h.read [] .nil
  have hskip := h.skipBlanks []
  rw [List.append_nil] at hread hskip
  have hend : skipBlanks [] = [] := rfl
  simp [alone, hskip, hread, hend]

/-- The text of a value is read as the value. -/
theorem parse?_render {x : Json} {depth : Nat} (h : Legible depth x) : parse? depth (render x) = some x := by
  refine alone_of_reads ?_
  rw [toList_render]
  exact reads_value h (Nat.lt_succ_self _)

example : [(10835358936124939, -14), (1, -5), (1, 3), (15, -7), (1, 16)].map (fun (n, power) =>
    render (.number (.ofDouble (.ofDecimal false n power)))) =
      ["108.35358936124939", "0.00001", "1000.0", "1.5e-6", "1e16"] := by decide +kernel

theorem parseRecord?_render {fields : List String} {members : List (String × Json)} {depth : Nat}
    (hknown : ∀ m ∈ members, m.1 ∈ fields) (h : Legible depth (.object members)) :
    parseRecord? fields depth (render (.object members)) = some (.object members) := by
  refine alone_of_reads ?_
  rw [toList_render]
  exact reads_record hknown h (Nat.lt_succ_self _)

/-- The text of the numeral, by itself, is read as the numeral, and this denotes the number. -/
def Spells (n : Numeral) (x : Double) : Prop := parse? 0 (render (.number n)) = some (.number n) ∧ n.toDouble = x

theorem spells_iff {n : Numeral} {x : Double} : Spells n x ↔ Stable n ∧ n.toDouble = x := by
  refine and_congr_left fun _ => ⟨fun h => ?_, fun h => parse?_render (legible_number.mpr h)⟩
  obtain ⟨c, hc, hstart⟩ := chars_head n
  obtain ⟨tail, htail⟩ := List.head?_eq_some_iff.mp hc
  have hread := numeral_chars n Ends.nil
  have hskip : skipBlanks (c :: tail) = c :: tail := by simp [skipBlanks, (starts_of_head hstart).1]
  rw [List.append_nil, htail] at hread
  simp only [parse?, alone, toList_render, chars, htail, hskip, value_of_head hstart, hread, Option.bind_some,
    Bool.false_or] at h
  cases hfinite : (reread n).toDouble.isFinite with
  | false => simp [hfinite] at h
  | true =>
    have hsame : reread n = n := by simpa [hfinite, skipBlanks] using h
    exact ⟨hsame, by rwa [hsame] at hfinite⟩

end Json

end TypeContracts
