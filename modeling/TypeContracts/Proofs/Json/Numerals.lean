import TypeContracts.Json.Record
import TypeContracts.Proofs.Json.Depth

/-!
# The numerals in a value

Every numeral in a value that has been read denotes a finite number
(`isFinite_of_parseRecord`).
-/

namespace TypeContracts.Json

mutual

def numerals : Json → List Numeral
  | .number n => [n]
  | .array elements => numeralsOfElements elements
  | .object members => numeralsOfMembers members
  | _ => []

def numeralsOfElements : List Json → List Numeral
  | [] => []
  | x :: rest => x.numerals ++ numeralsOfElements rest

def numeralsOfMembers : List (String × Json) → List Numeral
  | [] => []
  | (_, x) :: rest => x.numerals ++ numeralsOfMembers rest

end

theorem numerals_array (elements : List Json) : (Json.array elements).numerals = elements.flatMap numerals := by
  rw [numerals]
  induction elements with
  | nil => rfl
  | cons x rest ih => simp [numeralsOfElements, ih]

theorem numerals_object (members : List (String × Json)) :
    (Json.object members).numerals = members.flatMap fun m => m.2.numerals := by
  rw [numerals]
  induction members with
  | nil => rfl
  | cons m rest ih => simp [numeralsOfMembers, ih]

theorem mem_numerals_of_mem_array {elements : List Json} {x : Json} (hx : x ∈ elements) {n : Numeral}
    (hn : n ∈ x.numerals) : n ∈ (Json.array elements).numerals := by
  rw [numerals_array]
  exact List.mem_flatMap.mpr ⟨x, hx, hn⟩

theorem mem_numerals_of_mem_object {members : List (String × Json)} {m : String × Json} (hm : m ∈ members) {n : Numeral}
    (hn : n ∈ m.2.numerals) : n ∈ (Json.object members).numerals := by
  rw [numerals_object]
  exact List.mem_flatMap.mpr ⟨m, hm, hn⟩

/-- The fields of a record are parts of it. -/
theorem mem_numerals_of_fields {names : List String} {x : Json} {fields : Fields} (h : x.fields? names = some fields)
    {m : String × Json} (hm : m ∈ fields) {n : Numeral} (hn : n ∈ m.2.numerals) : n ∈ x.numerals := by
  unfold fields? at h
  split at h
  · unfold knownMembers at h
    dsimp only at h
    split at h
    · cases h
      exact mem_numerals_of_mem_object (List.mem_filter.mp hm).1 hn
    · cases h
  · split at h
    · cases h
      exact mem_numerals_of_mem_array (List.of_mem_zip hm).2 hn
    · cases h
  · cases h

/-! ## Reading -/

theorem isFinite_of_number {budget depth : Nat} {text rest : List Char} {n : Numeral}
    (h : value false budget depth text = some (.number n, rest)) : n.toDouble.isFinite = true := by
  unfold value at h
  split at h
  case h_9 =>
    split at h
    · split at h
      · rename_i hfinite
        cases h
        simpa using hfinite
      · cases h
    · cases h
  all_goals simp at h

/-- Too large a number is not read, except where it is skipped. -/
theorem isFinite_of_value {budget depth : Nat} {text rest : List Char} {x : Json}
    (h : value false budget depth text = some (x, rest)) : ∀ n ∈ x.numerals, n.toDouble.isFinite = true := by
  induction depth using Nat.strongRecOn generalizing x text rest with
  | ind depth ih =>
    obtain hscalar | ⟨k, rfl, ⟨elements, rfl, hread⟩ | ⟨members, rfl, hread⟩⟩ := value_cases h
    · cases x with
      | number n => simpa [numerals] using isFinite_of_number h
      | array elements => simp [Json.depth] at hscalar
      | object members => simp [Json.depth] at hscalar
      | _ => simp [numerals]
    · intro n hn
      rw [numerals_array] at hn
      obtain ⟨x, hx, hn⟩ := List.mem_flatMap.mp hn
      obtain ⟨u, v, hvalue⟩ := hread x hx
      exact ih k (Nat.lt_succ_self k) hvalue n hn
    · intro n hn
      rw [numerals_object] at hn
      obtain ⟨m, hm, hn⟩ := List.mem_flatMap.mp hn
      obtain ⟨u, v, hvalue⟩ := hread m hm
      exact ih k (Nat.lt_succ_self k) hvalue n hn

theorem isFinite_of_record {fields : List String} {budget depth : Nat} {text rest : List Char} {x : Json}
    (h : record fields budget depth text = some (x, rest)) : ∀ n ∈ x.numerals, n.toDouble.isFinite = true := by
  unfold record at h
  split at h
  · obtain ⟨⟨members, after⟩, hread, h⟩ := Option.map_eq_some_iff.mp h
    cases h
    intro n hn
    rw [numerals_object] at hn
    obtain ⟨m, hm, hn⟩ := List.mem_flatMap.mp hn
    obtain ⟨⟨name, y⟩, hy, hm⟩ := List.mem_filterMap.mp hm
    obtain ⟨x, rfl, rfl⟩ := Option.map_eq_some_iff.mp hm
    obtain ⟨u, v, hmember⟩ := read_of_mem_bracketed hread hy
    obtain ⟨u', hfield⟩ := read_of_memberOf hmember
    dsimp only at hfield
    split at hfield
    · obtain ⟨⟨x', after⟩, hvalue, h⟩ := Option.map_eq_some_iff.mp hfield
      cases h
      exact isFinite_of_value hvalue n hn
    · obtain ⟨skipped, -, hnone⟩ := Option.map_eq_some_iff.mp hfield
      cases hnone
  · exact isFinite_of_value h

theorem isFinite_of_parseRecord {fields : List String} {depth : Nat} {text : String} {x : Json}
    (h : parseRecord? fields depth text = some x) : ∀ n ∈ x.numerals, n.toDouble.isFinite = true := by
  simp only [parseRecord?, alone] at h
  split at h
  · rename_i y rest hread
    split at h
    · cases h
      exact isFinite_of_record hread
    · cases h
  · cases h

end TypeContracts.Json
