import Mathlib.Data.List.Forall2
import Mathlib.Logic.Relation
import TypeContracts.Document.Decode
import TypeContracts.Proofs.Descriptor.Graph

/-!
# What a document says

Which documents are well-formed, what can be wrong with the others (`Fault`),
and when the descriptors of a catalog are those that the entries of a document
state (`Represents`). Nothing here depends on how documents are decoded.
-/

namespace TypeContracts

/-! ## Types that descriptors mention -/

def Signature.mentioned (x : Signature) : List TypeRef := x.parameters ++ x.rest.toList ++ [x.result]

def Shape.mentioned (c : Catalog) (s : Shape) : List TypeRef :=
  s.properties.toList.map (fun p => p.2.type) ++
    (s.callSignatures ++ s.constructSignatures).flatMap (fun x => (c.signature x).mentioned) ++
      s.numericIndex.toList ++ s.stringIndex.toList

/-- The types that a descriptor refers to, by itself or in a signature, in order. -/
def Catalog.mentioned (c : Catalog) (t : TypeRef) : List TypeRef :=
  match c.get t with
  | .union members _ | .intersection members _ => members
  | .object _ (some shape) => shape.mentioned c
  | _ => []

namespace Document

open Relation (TransGen)

/-! ## References -/

def SignatureEntry.refs (s : SignatureEntry) : List EntryIndex := s.args ++ s.varargs.toList ++ [s.result]

def ObjectEntry.signatures (o : ObjectEntry) : List SignatureEntry := o.callSignatures ++ o.constructSignatures

def ObjectEntry.refs (o : ObjectEntry) : List EntryIndex :=
  o.properties.toList.map (fun p => p.2.type) ++ o.signatures.flatMap SignatureEntry.refs ++
    o.numericIndexType.toList ++ o.stringIndexType.toList

def Entry.refs : Entry → List EntryIndex
  | union members _ | intersection members _ => members
  | objectType o => o.refs
  | _ => []

def Entry.isComposite : Entry → Bool
  | union .. | intersection .. => true
  | _ => false

section
variable (d : Document)

def Refers (i j : Nat) : Prop := ∃ e, d.types[i]? = some e ∧ ∃ r ∈ e.refs, r.toNat = j

def Composite (i : Nat) : Prop := ∃ e, d.types[i]? = some e ∧ e.isComposite = true

/-- One union or intersection is a member of the other. -/
def Holds (i j : Nat) : Prop := d.Composite i ∧ d.Composite j ∧ d.Refers i j

structure WellFormed : Prop where
  root : d.root.toNat < d.types.size
  refs : ∀ i j, d.Refers i j → j < d.types.size
  acyclic : ∀ i, ¬ TransGen d.Holds i i
  arity : ∀ o, .objectType o ∈ d.types → ∀ s ∈ o.signatures, ∀ k ∈ s.mandatoryArgs, k.toNat ≤ s.args.length

/-- What is wrong with a document, and how it is reported. -/
inductive Fault : Malformation → Prop
  | root : d.types.size ≤ d.root.toNat → Fault (.outOfRange d.root.toNat d.types.size)
  | reference {i j} : d.Refers i j → d.types.size ≤ j → Fault (.outOfRange j d.types.size)
  | cycle {i} : TransGen d.Holds i i → Fault (.selfReference i)
  | arity {o s k} : .objectType o ∈ d.types → s ∈ o.signatures → k ∈ s.mandatoryArgs → s.args.length < k.toNat →
      Fault (.tooManyMandatory k.toNat s.args.length)

end

theorem Fault.not_wellFormed {d : Document} {m : Malformation} (h : d.Fault m) : ¬ d.WellFormed := by
  intro hd
  cases h with
  | root h => exact Nat.not_lt.mpr h hd.root
  | reference hr h => exact Nat.not_lt.mpr h (hd.refs _ _ hr)
  | cycle h => exact hd.acyclic _ h
  | arity ho hs hk h => exact Nat.not_lt.mpr (hd.arity _ ho _ hs _ hk) h

/-! ## Descriptors that represent entries -/

section
variable (c : Catalog) (table : Nat → Option TypeRef)

def Names (r : EntryIndex) (t : TypeRef) : Prop := table r.toNat = some t

structure PropertyRepresented (p : String × PropertyEntry) (q : String × Property) : Prop where
  name : q.1 = p.1
  type : Names table p.2.type q.2.type
  optional : q.2.optional = p.2.optional

structure SignatureRepresented (s : SignatureEntry) (x : SignatureRef) : Prop where
  known : x.index < c.signatures.size
  parameters : List.Forall₂ (Names table) s.args (c.signature x).parameters
  mandatory : (c.signature x).mandatory =
    match s.mandatoryArgs with
    | some k => k.toNat
    | none => s.args.length
  arity : ∀ k ∈ s.mandatoryArgs, k.toNat ≤ s.args.length
  rest : Option.Rel (Names table) s.varargs (c.signature x).rest
  result : Names table s.result (c.signature x).result

structure ShapeRepresented (o : ObjectEntry) (shape : Shape) : Prop where
  properties : List.Forall₂ (PropertyRepresented table) o.properties.toList shape.properties.toList
  callSignatures : List.Forall₂ (SignatureRepresented c table) o.callSignatures shape.callSignatures
  constructSignatures : List.Forall₂ (SignatureRepresented c table) o.constructSignatures shape.constructSignatures
  numericIndex : Option.Rel (Names table) o.numericIndexType shape.numericIndex
  stringIndex : Option.Rel (Names table) o.stringIndexType shape.stringIndex

/-- The descriptor is what the entry states, as far as `S` says for the shapes of object types. -/
inductive Represents (S : ObjectEntry → Option Shape → Prop) : Entry → Descriptor → Prop
  | any : Represents S .any .any
  | never : Represents S .never .never
  | void : Represents S .void .void
  | null : Represents S .null .null
  | boolean : Represents S .boolean .boolean
  | numeric : Represents S .numeric .numeric
  | string : Represents S .string .string
  | booleanLiteral (value) : Represents S (.booleanLiteral value) (.booleanLiteral value)
  | numericLiteral (value) : Represents S (.numericLiteral value) (.numericLiteral value)
  | stringLiteral (value) : Represents S (.stringLiteral value) (.stringLiteral value)
  | union {rs ts name} : List.Forall₂ (Names table) rs ts → Represents S (.union rs name) (.union ts name)
  | intersection {rs ts name} : List.Forall₂ (Names table) rs ts →
      Represents S (.intersection rs name) (.intersection ts name)
  | typeParameter (name) : Represents S (.typeParameter name) (.typeParameter name)
  | object {o shape} : S o shape → Represents S (.objectType o) (.object o.name shape)

def Declared (_ : ObjectEntry) (shape : Option Shape) : Prop := shape = none

def Defined (o : ObjectEntry) (shape : Option Shape) : Prop := ∃ s, shape = some s ∧ ShapeRepresented c table o s

end

section
variable {c c' : Catalog} {table table' : Nat → Option TypeRef} (h : ∀ {i t}, table i = some t → table' i = some t)
include h

theorem Represents.mono {S : ObjectEntry → Option Shape → Prop} {e : Entry} {x : Descriptor}
    (hx : Represents table S e x) : Represents table' S e x := by
  cases hx with
  | union hts => exact .union (hts.imp fun _ _ hr => h hr)
  | intersection hts => exact .intersection (hts.imp fun _ _ hr => h hr)
  | object hs => exact .object hs
  | _ => constructor

end

/-! ## References of entries and of descriptors -/

theorem exists_of_forall₂ {α β : Type} {R : α → β → Prop} {as : List α} {bs : List β} (h : List.Forall₂ R as bs)
    {a : α} (ha : a ∈ as) : ∃ b ∈ bs, R a b := by
  induction h with
  | nil => cases ha
  | @cons a' b as bs hab _ ih =>
    rcases List.mem_cons.mp ha with rfl | ha
    · exact ⟨b, by simp, hab⟩
    · obtain ⟨b', hb', hab'⟩ := ih ha
      exact ⟨b', by simp [hb'], hab'⟩

section
variable {c : Catalog} {table : Nat → Option TypeRef}

theorem names_option {r : Option EntryIndex} {t : Option TypeRef} (h : Option.Rel (Names table) r t) :
    List.Forall₂ (Names table) r.toList t.toList := by
  cases h with
  | none => exact .nil
  | some hr => exact .cons hr .nil

theorem SignatureRepresented.names {s : SignatureEntry} {x : SignatureRef} (h : SignatureRepresented c table s x) :
    List.Forall₂ (Names table) s.refs (c.signature x).mentioned :=
  List.rel_append (List.rel_append h.parameters (names_option h.rest)) (.cons h.result .nil)

theorem names_signatures {ss : List SignatureEntry} {xs : List SignatureRef}
    (h : List.Forall₂ (SignatureRepresented c table) ss xs) :
    List.Forall₂ (Names table) (ss.flatMap SignatureEntry.refs) (xs.flatMap fun x => (c.signature x).mentioned) := by
  induction h with
  | nil => exact .nil
  | cons hx _ ih => exact List.rel_append hx.names ih

theorem names_properties {ps : List (String × PropertyEntry)} {qs : List (String × Property)}
    (h : List.Forall₂ (PropertyRepresented table) ps qs) :
    List.Forall₂ (Names table) (ps.map fun p => p.2.type) (qs.map fun q => q.2.type) := by
  induction h with
  | nil => exact .nil
  | cons hq _ ih => exact .cons hq.type ih

theorem ShapeRepresented.signature {o : ObjectEntry} {shape : Shape} (h : ShapeRepresented c table o shape)
    {s : SignatureEntry} (hs : s ∈ o.signatures) : ∃ x, SignatureRepresented c table s x := by
  rcases List.mem_append.mp hs with hs | hs
  · obtain ⟨x, -, hx⟩ := exists_of_forall₂ h.callSignatures hs
    exact ⟨x, hx⟩
  · obtain ⟨x, -, hx⟩ := exists_of_forall₂ h.constructSignatures hs
    exact ⟨x, hx⟩

theorem ShapeRepresented.names {o : ObjectEntry} {shape : Shape} (h : ShapeRepresented c table o shape) :
    List.Forall₂ (Names table) o.refs (shape.mentioned c) := by
  unfold ObjectEntry.refs Shape.mentioned ObjectEntry.signatures
  refine List.rel_append (List.rel_append (List.rel_append (names_properties h.properties) ?_) ?_) ?_
  · exact names_signatures (List.rel_append h.callSignatures h.constructSignatures)
  · exact names_option h.numericIndex
  · exact names_option h.stringIndex

/-- The references of an entry and the types that its descriptor mentions correspond one by one. -/
theorem Represents.names {e : Entry} {t : TypeRef} (h : Represents table (Defined c table) e (c.get t)) :
    List.Forall₂ (Names table) e.refs (c.mentioned t) := by
  unfold Catalog.mentioned
  generalize c.get t = x at h ⊢
  cases h with
  | union hts => exact hts
  | intersection hts => exact hts
  | object hs => obtain ⟨shape, rfl, hshape⟩ := hs; exact hshape.names
  | _ => exact .nil

theorem mem_iff_of_names {rs : List EntryIndex} {ts : List TypeRef} (h : List.Forall₂ (Names table) rs ts)
    {t : TypeRef} : t ∈ ts ↔ ∃ r ∈ rs, table r.toNat = some t := by
  induction h with
  | nil => simp
  | @cons r u rs ts hr _ ih =>
    have hu : t = u ↔ table r.toNat = some t := by
      rw [show table r.toNat = some u from hr, Option.some.injEq]
      exact eq_comm
    simp [ih, hu]

end

end Document

end TypeContracts
