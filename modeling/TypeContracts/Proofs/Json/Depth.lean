import TypeContracts.Json.Parser

/-!
# How deep JSON values nest

A value that has been read nests no deeper than the reader was allowed to go
(`depth_le_of_parse`).
-/

namespace TypeContracts.Json

mutual

def depth : Json → Nat
  | .array elements => depthOfElements elements + 1
  | .object members => depthOfMembers members + 1
  | _ => 0

def depthOfElements : List Json → Nat
  | [] => 0
  | x :: rest => max x.depth (depthOfElements rest)

def depthOfMembers : List (String × Json) → Nat
  | [] => 0
  | (_, x) :: rest => max x.depth (depthOfMembers rest)

end

theorem depthOfElements_le {elements : List Json} {n : Nat} :
    depthOfElements elements ≤ n ↔ ∀ x ∈ elements, x.depth ≤ n := by
  induction elements with
  | nil => simp [depthOfElements]
  | cons x rest ih => rw [depthOfElements, Nat.max_le, ih, List.forall_mem_cons]

theorem depthOfMembers_le {members : List (String × Json)} {n : Nat} :
    depthOfMembers members ≤ n ↔ ∀ m ∈ members, m.2.depth ≤ n := by
  induction members with
  | nil => simp [depthOfMembers]
  | cons m rest ih =>
    obtain ⟨name, x⟩ := m
    rw [depthOfMembers, Nat.max_le, ih, List.forall_mem_cons]

theorem depth_lt_array {elements : List Json} {x : Json} (hx : x ∈ elements) : x.depth < (Json.array elements).depth :=
  Nat.lt_succ_of_le (depthOfElements_le.mp (Nat.le_refl _) x hx)

theorem depth_lt_object {members : List (String × Json)} {m : String × Json} (hm : m ∈ members) :
    m.2.depth < (Json.object members).depth :=
  Nat.lt_succ_of_le (depthOfMembers_le.mp (Nat.le_refl _) m hm)

/-! ## Reading -/

section
variable {α : Type} {item : Reader α} {close : Char} {budget : Nat} {xs : List α} {text rest : List Char} {x : α}

theorem read_of_mem_items {done : List α} (h : items item close budget done text = some (xs, rest)) (hx : x ∈ xs) :
    x ∈ done ∨ ∃ u v, item u = some (x, v) := by
  induction budget generalizing done text with
  | zero => simp [items] at h
  | succ budget ih =>
    unfold items at h
    split at h
    · cases h
    · rename_i y after hitem
      have hnew : x ∈ y :: done → x ∈ done ∨ ∃ u v, item u = some (x, v) := by
        intro hx
        obtain rfl | hx := List.mem_cons.mp hx
        · exact .inr ⟨_, _, hitem⟩
        · exact .inl hx
      split at h
      · obtain hx | hread := ih h
        · exact hnew hx
        · exact .inr hread
      · split at h
        · cases h
          exact hnew (List.mem_reverse.mp hx)
        · cases h
      · cases h

theorem read_of_mem_bracketed (h : bracketed item close budget text = some (xs, rest)) (hx : x ∈ xs) :
    ∃ u v, item u = some (x, v) := by
  unfold bracketed at h
  split at h
  · cases h
  · split at h
    · cases h
      cases hx
    · obtain hnil | hread := read_of_mem_items h hx
      · cases hnil
      · exact hread

end

theorem read_of_memberOf {α : Type} {skipping : Bool} {budget : Nat} {value : String → Reader α}
    {text rest : List Char} {m : String × α} (h : memberOf skipping budget value text = some (m, rest)) :
    ∃ u, value m.1 u = some (m.2, rest) := by
  unfold memberOf at h
  split at h
  · obtain ⟨⟨name, after⟩, -, h⟩ := Option.bind_eq_some_iff.mp h
    dsimp only at h
    split at h
    · obtain ⟨⟨x, after⟩, hx, h⟩ := Option.bind_eq_some_iff.mp h
      cases h
      exact ⟨_, hx⟩
    · cases h
  · cases h

/-- Brackets are read only where one more level is allowed, and what is in them with one level less. -/
theorem value_cases {skipping : Bool} {budget n : Nat} {text rest : List Char} {j : Json}
    (h : value skipping budget n text = some (j, rest)) :
    j.depth = 0 ∨ ∃ k, n = k + 1 ∧
      ((∃ elements, j = .array elements ∧ ∀ x ∈ elements, ∃ u v, value skipping budget k u = some (x, v)) ∨
        ∃ members, j = .object members ∧ ∀ m ∈ members, ∃ u v, value skipping budget k u = some (m.2, v)) := by
  unfold value at h
  split at h
  case h_1 | h_2 | h_3 =>
    obtain ⟨after, -, h⟩ := Option.map_eq_some_iff.mp h
    cases h
    exact .inl rfl
  case h_4 =>
    obtain ⟨⟨s, after⟩, -, h⟩ := Option.map_eq_some_iff.mp h
    cases h
    exact .inl rfl
  case h_5 | h_6 => cases h
  case h_7 k text =>
    obtain ⟨⟨elements, after⟩, hread, h⟩ := Option.map_eq_some_iff.mp h
    cases h
    exact .inr ⟨k, rfl, .inl ⟨elements, rfl, fun x hx => read_of_mem_bracketed hread hx⟩⟩
  case h_8 k text =>
    obtain ⟨⟨members, after⟩, hread, h⟩ := Option.map_eq_some_iff.mp h
    cases h
    refine .inr ⟨k, rfl, .inr ⟨members, rfl, fun m hm => ?_⟩⟩
    obtain ⟨u, v, hmember⟩ := read_of_mem_bracketed hread hm
    obtain ⟨u', hvalue⟩ := read_of_memberOf hmember
    exact ⟨u', v, hvalue⟩
  case h_9 =>
    split at h
    · split at h
      · cases h
        exact .inl rfl
      · cases h
    · cases h

theorem depth_le_of_value {skipping : Bool} {budget n : Nat} {text rest : List Char} {j : Json}
    (h : value skipping budget n text = some (j, rest)) : j.depth ≤ n := by
  induction n generalizing text rest j with
  | zero =>
    obtain hscalar | ⟨k, hk, -⟩ := value_cases h
    · exact Nat.le_of_eq hscalar
    · cases hk
  | succ n ih =>
    obtain hscalar | ⟨k, hk, hparts⟩ := value_cases h
    · simp [hscalar]
    · cases hk
      obtain ⟨elements, rfl, hread⟩ | ⟨members, rfl, hread⟩ := hparts
      · refine Nat.succ_le_succ (depthOfElements_le.mpr fun x hx => ?_)
        obtain ⟨u, v, hvalue⟩ := hread x hx
        exact ih hvalue
      · refine Nat.succ_le_succ (depthOfMembers_le.mpr fun m hm => ?_)
        obtain ⟨u, v, hvalue⟩ := hread m hm
        exact ih hvalue

theorem depth_le_of_parse {n : Nat} {text : String} {j : Json} (h : parse? n text = some j) : j.depth ≤ n := by
  simp only [parse?, alone] at h
  split at h
  · rename_i x rest hread
    split at h
    · cases h
      exact depth_le_of_value hread
    · cases h
  · cases h

end TypeContracts.Json
