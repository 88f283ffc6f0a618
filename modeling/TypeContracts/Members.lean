/-!
# Named members in insertion order

`Members α` is a finite map from names to `α` that remembers the order in which names were first
written. Writing to a name that is already there replaces its value and keeps its place.
-/

namespace TypeContracts

/-- Named members, each name once, in the order of first insertion. -/
structure Members (α : Type u) where
  toList : List (String × α)
  nodup : (toList.map Prod.fst).Nodup

namespace Members

variable {α : Type u} {β : Type v}

theorem ext {m n : Members α} (h : m.toList = n.toList) : m = n := by
  cases m
  cases n
  cases h
  rfl

def empty : Members α := ⟨[], by simp⟩

instance : EmptyCollection (Members α) := ⟨empty⟩

instance : Inhabited (Members α) := ⟨empty⟩

def names (m : Members α) : List String := m.toList.map Prod.fst

def isEmpty (m : Members α) : Bool := m.toList.isEmpty

def size (m : Members α) : Nat := m.toList.length

def find? (m : Members α) (name : String) : Option α := m.toList.lookup name

def contains (m : Members α) (name : String) : Bool := (m.find? name).isSome

theorem lookup_cons_of_ne {key name : String} (h : key ≠ name) (value : α) (l : List (String × α)) :
    ((name, value) :: l).lookup key = l.lookup key := by
  have hb : (key == name) = false := beq_eq_false_iff_ne.mpr h
  simp [List.lookup_cons, hb]

theorem lookup_eq_some_iff {l : List (String × α)} (nodup : (l.map Prod.fst).Nodup) {name : String} {value : α} :
    l.lookup name = some value ↔ (name, value) ∈ l := by
  induction l with
  | nil => simp
  | cons entry rest ih =>
    obtain ⟨k, old⟩ := entry
    simp only [List.map_cons, List.nodup_cons] at nodup
    by_cases h : name = k
    · subst h
      have hv : (name, value) ∉ rest := fun hm => nodup.1 (List.mem_map_of_mem hm)
      simp [hv, eq_comm]
    · rw [lookup_cons_of_ne h, ih nodup.2]
      simp [h]

/-- Names are found exactly where they are listed. -/
theorem find?_eq_some_iff {m : Members α} {name : String} {value : α} :
    m.find? name = some value ↔ (name, value) ∈ m.toList := lookup_eq_some_iff m.nodup

theorem contains_iff {m : Members α} {name : String} : m.contains name = true ↔ name ∈ m.names := by
  simp only [contains, Option.isSome_iff_exists, find?_eq_some_iff, names, List.mem_map]
  exact ⟨fun ⟨v, h⟩ => ⟨_, h, rfl⟩, fun ⟨⟨_, v⟩, h, e⟩ => ⟨v, e ▸ h⟩⟩

theorem find?_eq_none_iff {m : Members α} {name : String} : m.find? name = none ↔ name ∉ m.names := by
  rw [← contains_iff, contains, Option.not_isSome_iff_eq_none]

/-! ## Writing -/

/-- Replaces the value at `name` in place, or appends it. -/
def put (name : String) (value : α) : List (String × α) → List (String × α)
  | [] => [(name, value)]
  | (key, old) :: rest => if key = name then (name, value) :: rest else (key, old) :: put name value rest

theorem mem_names_put {name key : String} {value : α} {l : List (String × α)} :
    key ∈ (put name value l).map Prod.fst ↔ key = name ∨ key ∈ l.map Prod.fst := by
  induction l with
  | nil => simp [put]
  | cons entry rest ih =>
    obtain ⟨k, old⟩ := entry
    by_cases h : k = name
    · subst h; simp [put]
    · simp only [put, if_neg h, List.map_cons, List.mem_cons, ih]
      exact or_left_comm

theorem nodup_put {name : String} {value : α} {l : List (String × α)} (h : (l.map Prod.fst).Nodup) :
    ((put name value l).map Prod.fst).Nodup := by
  induction l with
  | nil => simp [put]
  | cons entry rest ih =>
    obtain ⟨k, old⟩ := entry
    by_cases hk : k = name
    · subst hk; simpa [put] using h
    · simp only [List.map_cons, List.nodup_cons] at h
      simp only [put, if_neg hk, List.map_cons, List.nodup_cons, mem_names_put, not_or]
      exact ⟨⟨hk, h.1⟩, ih h.2⟩

def insert (m : Members α) (name : String) (value : α) : Members α :=
  ⟨put name value m.toList, nodup_put m.nodup⟩

@[simp]
theorem find?_empty (name : String) : (∅ : Members α).find? name = none := rfl

theorem lookup_put (name key : String) (value : α) (l : List (String × α)) :
    (put name value l).lookup key = if key = name then some value else l.lookup key := by
  induction l with
  | nil =>
    by_cases h : key = name
    · simp [put, h]
    · rw [put, lookup_cons_of_ne h, if_neg h]
  | cons entry rest ih =>
    obtain ⟨k, old⟩ := entry
    by_cases hk : k = name
    · subst hk
      by_cases h : key = k
      · simp [put, h]
      · rw [put, if_pos rfl, lookup_cons_of_ne h, lookup_cons_of_ne h, if_neg h]
    · by_cases h : key = k
      · subst h
        simp [put, hk]
      · rw [put, if_neg hk, lookup_cons_of_ne h, lookup_cons_of_ne h, ih]

@[simp]
theorem find?_insert (m : Members α) (name key : String) (value : α) :
    (m.insert name value).find? key = if key = name then some value else m.find? key :=
  lookup_put name key value m.toList

theorem names_put (name : String) (value : α) (l : List (String × α)) :
    (put name value l).map Prod.fst =
      if name ∈ l.map Prod.fst then l.map Prod.fst else l.map Prod.fst ++ [name] := by
  induction l with
  | nil => simp [put]
  | cons entry rest ih =>
    obtain ⟨k, old⟩ := entry
    by_cases hk : k = name
    · simp [put, hk]
    · have hn : name ≠ k := fun h => hk h.symm
      simp only [put, if_neg hk, List.map_cons, ih, List.mem_cons, hn, false_or]
      split <;> simp_all

/-- A new name stands at the end, and no other name moves. -/
theorem names_insert (m : Members α) (name : String) (value : α) :
    (m.insert name value).names = if name ∈ m.names then m.names else m.names ++ [name] :=
  names_put name value m.toList

def insertIfNew (m : Members α) (name : String) (value : α) : Members α :=
  if m.contains name then m else m.insert name value

theorem find?_insertIfNew (m : Members α) (name key : String) (value : α) :
    (m.insertIfNew name value).find? key = (m.find? key).or (if key = name then some value else none) := by
  unfold insertIfNew contains
  cases hname : m.find? name with
  | none => by_cases h : key = name <;> simp [h, hname]
  | some old => by_cases h : key = name <;> simp [h, hname]

def ofList (entries : List (String × α)) : Members α :=
  entries.foldl (fun m entry => m.insert entry.1 entry.2) empty

theorem put_of_not_mem {name : String} {value : α} {l : List (String × α)} (h : name ∉ l.map Prod.fst) :
    put name value l = l ++ [(name, value)] := by
  induction l with
  | nil => rfl
  | cons entry rest ih =>
    obtain ⟨k, old⟩ := entry
    simp only [List.map_cons, List.mem_cons, not_or] at h
    rw [put, if_neg (Ne.symm h.1), ih h.2, List.cons_append]

theorem toList_foldl_insert {m : Members α} {l : List (String × α)} (h : ((m.toList ++ l).map Prod.fst).Nodup) :
    (l.foldl (fun m entry => m.insert entry.1 entry.2) m).toList = m.toList ++ l := by
  induction l generalizing m with
  | nil => simp
  | cons entry rest ih =>
    have hnew : entry.1 ∉ m.toList.map Prod.fst := by
      rw [List.map_append, List.map_cons] at h
      intro hm
      exact (List.nodup_append.mp h).2.2 _ hm _ (by simp) rfl
    have hm : (m.insert entry.1 entry.2).toList = m.toList ++ [entry] := put_of_not_mem hnew
    rw [List.foldl_cons, ih (by simpa [hm] using h), hm, List.append_assoc, List.singleton_append]

/-- Entries with names of their own stay as they are. -/
theorem toList_ofList {l : List (String × α)} (h : (l.map Prod.fst).Nodup) : (ofList l).toList = l :=
  toList_foldl_insert (m := empty) h

/-- The members of `m` followed by those of `other` under names that `m` does not have. -/
def union (m other : Members α) : Members α :=
  other.toList.foldl (fun acc entry => acc.insertIfNew entry.1 entry.2) m

theorem find?_foldl_insertIfNew (m : Members α) (l : List (String × α)) (key : String) :
    (l.foldl (fun acc entry => acc.insertIfNew entry.1 entry.2) m).find? key = (m.find? key).or (l.lookup key) := by
  induction l generalizing m with
  | nil => simp
  | cons entry rest ih =>
    obtain ⟨name, value⟩ := entry
    rw [List.foldl_cons, ih, find?_insertIfNew, Option.or_assoc]
    by_cases h : key = name
    · simp [h]
    · rw [if_neg h, lookup_cons_of_ne h, Option.none_or]

/-- A member that both have is that of the first. -/
theorem find?_union (m other : Members α) (key : String) :
    (m.union other).find? key = (m.find? key).or (other.find? key) := find?_foldl_insertIfNew m other.toList key

def map (f : α → β) (m : Members α) : Members β :=
  ⟨m.toList.map fun entry => (entry.1, f entry.2), by
    have h : (fun entry : String × α => (entry.1, f entry.2).1) = Prod.fst := rfl
    simpa [List.map_map, Function.comp_def, h] using m.nodup⟩

end Members

end TypeContracts
