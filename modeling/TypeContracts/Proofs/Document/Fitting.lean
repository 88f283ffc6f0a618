import Mathlib.Data.Set.Card
import TypeContracts.Proofs.Document.Meaning
import TypeContracts.Value.Heap

/-!
# JSON values and the entries that they fit

What a document says of a JSON value, without a catalog, a heap or an engine:
`fits` goes through the value by structural recursion and asks each part about
the entries it meets. Unions and intersections are about the same part of the
value, and nest to a finite depth (`nesting`).
-/

namespace TypeContracts.Document

open Relation (TransGen ReflTransGen)

/-! ## Unions and intersections -/

def Member (d : Document) (i j : Nat) : Prop := d.Composite i ∧ d.Refers i j

/-- How deep unions and intersections nest in an entry, at most. -/
noncomputable def nesting (d : Document) (i : Nat) : Nat := { k | ReflTransGen d.Member i k ∧ d.Composite k }.ncard

section
variable {d : Document} {i j : Nat}

theorem nested_subset (d : Document) (i : Nat) :
    { k | ReflTransGen d.Member i k ∧ d.Composite k } ⊆ (Finset.range d.types.size : Set Nat) := by
  intro k ⟨_, e, he, _⟩
  simpa using (Array.getElem?_eq_some_iff.mp he).1

theorem nesting_le (d : Document) (i : Nat) : d.nesting i ≤ d.types.size := by
  have hle := Set.ncard_le_ncard (d.nested_subset i) (Finset.finite_toSet _)
  rwa [Set.ncard_coe_finset, Finset.card_range] at hle

/-- A way through members from one union or intersection to another. -/
theorem holds_of_member (h : TransGen d.Member i j) (hj : d.Composite j) : TransGen d.Holds i j := by
  induction h with
  | single h => exact .single ⟨h.1, hj, h.2⟩
  | tail _ h ih => exact (ih h.1).tail ⟨h.1, hj, h.2⟩

theorem WellFormed.nesting_lt (hd : d.WellFormed) (h : d.Member i j) : d.nesting j < d.nesting i := by
  refine Set.ncard_lt_ncard ⟨?_, ?_⟩ ((Finset.finite_toSet _).subset (d.nested_subset i))
  · intro k ⟨hk, hcomposite⟩
    exact ⟨.head h hk, hcomposite⟩
  · intro hsub
    obtain ⟨hback, -⟩ := hsub ⟨.refl, h.1⟩
    exact hd.acyclic i (holds_of_member (.head' h hback) h.1)

theorem member_of_union {rs : List EntryIndex} {name : Option String} {r : EntryIndex}
    (hi : d.types[i]? = some (.union rs name)) (hr : r ∈ rs) : d.Member i r.toNat :=
  ⟨⟨_, hi, rfl⟩, _, hi, r, hr, rfl⟩

theorem member_of_intersection {rs : List EntryIndex} {name : Option String} {r : EntryIndex}
    (hi : d.types[i]? = some (.intersection rs name)) (hr : r ∈ rs) : d.Member i r.toNat :=
  ⟨⟨_, hi, rfl⟩, _, hi, r, hr, rfl⟩

end

/-- What something fits, given which of the entries that are neither unions nor intersections: a union if a member,
the first one counting, and an intersection if every member. -/
def sift {d : Document} (hd : d.WellFormed) (leaf : Entry → Except Failure Bool) (i : Nat) : Except Failure Bool :=
  match hi : d.types[i]? with
  | none => .ok false
  | some (.union rs _) => rs.attach.anyM fun ⟨r, hr⟩ =>
    have := hd.nesting_lt (member_of_union hi hr)
    sift hd leaf r.toNat
  | some (.intersection rs _) => rs.attach.allM fun ⟨r, hr⟩ =>
    have := hd.nesting_lt (member_of_intersection hi hr)
    sift hd leaf r.toNat
  | some e => leaf e
termination_by d.nesting i

section
variable {α : Type} (l : List α) (f : α → Except Failure Bool)

theorem anyM_attach : (l.attach.anyM fun x => f x.1) = l.anyM f := by
  have hval : ∀ m : List { x // x ∈ l }, (m.anyM fun x => f x.1) = (m.map Subtype.val).anyM f := by
    intro m
    induction m with
    | nil => rfl
    | cons x m ih => simp only [List.anyM, List.map_cons, ih]
  rw [hval, List.attach_map_subtype_val]

theorem allM_attach : (l.attach.allM fun x => f x.1) = l.allM f := by
  have hval : ∀ m : List { x // x ∈ l }, (m.allM fun x => f x.1) = (m.map Subtype.val).allM f := by
    intro m
    induction m with
    | nil => rfl
    | cons x m ih => simp only [List.allM, List.map_cons, ih]
  rw [hval, List.attach_map_subtype_val]

end

section
variable {d : Document} (hd : d.WellFormed) (leaf : Entry → Except Failure Bool)

theorem sift_eq (i : Nat) : sift hd leaf i = match d.types[i]? with
    | none => .ok false
    | some (.union rs _) => rs.anyM fun r => sift hd leaf r.toNat
    | some (.intersection rs _) => rs.allM fun r => sift hd leaf r.toNat
    | some e => leaf e := by
  conv_lhs => rw [sift]
  split
  · simp_all only
  · simp_all only
    exact anyM_attach _ fun r : EntryIndex => sift hd leaf r.toNat
  · simp_all only
    exact allM_attach _ fun r : EntryIndex => sift hd leaf r.toNat
  · simp_all only

theorem sift_of_leaf {i : Nat} {e : Entry} (hi : d.types[i]? = some e) (he : e.isComposite = false) :
    sift hd leaf i = leaf e := by
  rw [sift_eq, hi]
  cases e with
  | union | intersection => cases he
  | _ => rfl

end

section
variable {d : Document} (hd : d.WellFormed)

def Entry.admits : Entry → Value → Except Failure Bool
  | any, _ => .ok true
  | boolean, .boolean _ | numeric, .number _ | string, .string _ => .ok true
  | booleanLiteral expected, .boolean actual => .ok (actual == expected)
  | numericLiteral expected, .number actual => .ok (actual.equals expected)
  | stringLiteral expected, .string actual => .ok (actual == expected)
  | typeParameter _, _ => .error .unsupportedTypeParameter
  | _, _ => .ok false

/-- What an object or an array fits, given what its parts fit. No JSON value is a function, so an object type with
signatures fits none. -/
def Entry.admitsParts (part? : String → Option (Nat → Except Failure Bool))
    (elements : List (Nat → Except Failure Bool)) : Entry → Except Failure Bool
  | any => .ok true
  | objectType o =>
    if o.signatures.isEmpty then do
      let all ← o.properties.toList.allM fun (name, wanted) =>
        match part? name with
        | some part => part wanted.type.toNat
        | none => .ok wanted.optional
      if all then
        match o.numericIndexType with
        | some index => elements.allM fun element => element index.toNat
        | none => .ok true
      else .ok false
    else .ok false
  | typeParameter _ => .error .unsupportedTypeParameter
  | _ => .ok false

/-- An array has its length and, under the decimal text of their indices, its elements. -/
def elementPart? (elements : List (Nat → Except Failure Bool)) (name : String) : Option (Nat → Except Failure Bool) :=
  if name = "length" then some (sift hd (·.admits (.number (.ofNat elements.length))))
  else (Heap.canonicalIndex name).bind (elements[·]?)

mutual

/-- Which entries a JSON value fits. `null` fits them all, and of members with one name the last one counts. -/
def fits : Json → Nat → Except Failure Bool
  | .null => fun _ => .ok true
  | .bool b => sift hd (·.admits (.boolean b))
  | .number n => sift hd (·.admits (.number n.toDouble))
  | .string s => sift hd (·.admits (.string s))
  | .array elements => sift hd (Entry.admitsParts (elementPart? hd (fitsEach elements)) (fitsEach elements))
  | .object members => sift hd (Entry.admitsParts (fun name => (fitsMembers members).reverse.lookup name) [])

def fitsEach : List Json → List (Nat → Except Failure Bool)
  | [] => []
  | x :: rest => fits x :: fitsEach rest

def fitsMembers : List (String × Json) → List (String × (Nat → Except Failure Bool))
  | [] => []
  | (name, x) :: rest => (name, fits x) :: fitsMembers rest

end

theorem fitsEach_eq (elements : List Json) : fitsEach hd elements = elements.map (fits hd) := by
  induction elements with
  | nil => rfl
  | cons x rest ih => rw [fitsEach, ih, List.map_cons]

theorem fitsMembers_eq (members : List (String × Json)) :
    fitsMembers hd members = members.map fun m => (m.1, fits hd m.2) := by
  induction members with
  | nil => rfl
  | cons m rest ih => rw [fitsMembers, ih, List.map_cons]

end

/-! ## Failures -/

/-- A type parameter is the only reason to fail. -/
def Supported (r : Except Failure Bool) : Prop := ∀ e, r = .error e → e = .unsupportedTypeParameter

theorem supported_ok (b : Bool) : Supported (.ok b) := fun _ h => by cases h

theorem Supported.bind {r : Except Failure Bool} {f : Bool → Except Failure Bool} (hr : Supported r)
    (hf : ∀ b, Supported (f b)) : Supported (r >>= f) := by
  cases r with
  | ok b => exact hf b
  | error e => exact hr

section
variable {α : Type} {l : List α} {f : α → Except Failure Bool} (hf : ∀ x ∈ l, Supported (f x))
include hf

theorem supported_anyM : Supported (l.anyM f) := by
  induction l with
  | nil => exact supported_ok false
  | cons x l ih =>
    rw [List.anyM_cons]
    refine (hf x List.mem_cons_self).bind fun b => ?_
    cases b with
    | true => exact supported_ok true
    | false => exact ih fun y hy => hf y (List.mem_cons_of_mem x hy)

theorem supported_allM : Supported (l.allM f) := by
  induction l with
  | nil => exact supported_ok true
  | cons x l ih =>
    rw [List.allM_cons]
    refine (hf x List.mem_cons_self).bind fun b => ?_
    cases b with
    | true => exact ih fun y hy => hf y (List.mem_cons_of_mem x hy)
    | false => exact supported_ok false

end

section
variable {d : Document} (hd : d.WellFormed)

theorem supported_sift {leaf : Entry → Except Failure Bool} (hleaf : ∀ e, Supported (leaf e)) (i : Nat) :
    Supported (sift hd leaf i) := by
  induction hn : d.nesting i using Nat.strong_induction_on generalizing i with
  | _ n ih =>
    subst hn
    rw [sift_eq]
    split
    · exact supported_ok false
    · rename_i hi
      exact supported_anyM fun r hr => ih _ (hd.nesting_lt (member_of_union hi hr)) _ rfl
    · rename_i hi
      exact supported_allM fun r hr => ih _ (hd.nesting_lt (member_of_intersection hi hr)) _ rfl
    · exact hleaf _

theorem supported_admits (v : Value) (e : Entry) : Supported (e.admits v) := by
  cases e with
  | typeParameter name =>
    intro e h
    cases v <;> exact (Except.error.inj h).symm
  | _ => cases v <;> exact supported_ok _

theorem supported_admitsParts {part? : String → Option (Nat → Except Failure Bool)}
    {elements : List (Nat → Except Failure Bool)} (hparts : ∀ name, ∀ part ∈ part? name, ∀ i, Supported (part i))
    (helements : ∀ element ∈ elements, ∀ i, Supported (element i)) (e : Entry) :
    Supported (e.admitsParts part? elements) := by
  unfold Entry.admitsParts
  split
  · exact supported_ok true
  · split
    · refine (supported_allM fun p _ => ?_).bind fun all => ?_
      · dsimp only
        split
        · exact hparts _ _ ‹_› _
        · exact supported_ok _
      · split
        · split
          · exact supported_allM fun element he => helements element he _
          · exact supported_ok true
        · exact supported_ok false
    · exact supported_ok false
  · exact fun e h => (Except.error.inj h).symm
  · exact supported_ok false

theorem supported_elementPart {elements : List (Nat → Except Failure Bool)}
    (helements : ∀ element ∈ elements, ∀ i, Supported (element i)) (name : String) :
    ∀ part ∈ elementPart? hd elements name, ∀ i, Supported (part i) := by
  intro part hpart i
  unfold elementPart? at hpart
  split at hpart
  · cases hpart
    exact supported_sift hd (supported_admits _) i
  · obtain ⟨k, -, hk⟩ := Option.bind_eq_some_iff.mp hpart
    exact helements part (List.mem_of_getElem? hk) i

mutual

theorem supported_fits : ∀ (j : Json) (i : Nat), Supported (fits hd j i)
  | .null, _ => supported_ok true
  | .bool _, i | .number _, i | .string _, i => supported_sift hd (supported_admits _) i
  | .array elements, i => by
    refine supported_sift hd (supported_admitsParts ?_ (supported_fitsEach elements)) i
    exact supported_elementPart hd (supported_fitsEach elements)
  | .object members, i => by
    refine supported_sift hd (supported_admitsParts (fun name part hpart => ?_) (by simp)) i
    obtain ⟨before, after, hlist, -⟩ := List.lookup_eq_some_iff.mp hpart
    have hmem : (name, part) ∈ (fitsMembers hd members).reverse := by simp [hlist]
    exact supported_fitsMembers members _ (List.mem_reverse.mp hmem)

theorem supported_fitsEach : ∀ (elements : List Json), ∀ element ∈ fitsEach hd elements, ∀ i, Supported (element i)
  | [], _, h => by cases h
  | x :: rest, element, h => by
    obtain rfl | h := List.mem_cons.mp h
    · exact supported_fits x
    · exact supported_fitsEach rest element h

theorem supported_fitsMembers : ∀ (members : List (String × Json)), ∀ m ∈ fitsMembers hd members, ∀ i, Supported (m.2 i)
  | [], _, h => by cases h
  | (_, x) :: rest, m, h => by
    obtain rfl | h := List.mem_cons.mp h
    · exact supported_fits x
    · exact supported_fitsMembers rest m h

end

end

end TypeContracts.Document
