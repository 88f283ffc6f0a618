import TypeContracts.Proofs.Document.Building
import TypeContracts.Proofs.Inquiry

/-!
# Giving object types their shapes

Once all entries are built, references are only looked up. Shapes add
signatures to the catalog (`Signing`) and are given to the object types one
after the other (`Defining`), each of which has been declared and not defined.
-/

namespace TypeContracts

theorem Catalog.signature_addSignature (c : Catalog) (x : Signature) :
    (c.addSignature x).2.signature (c.addSignature x).1 = x := by
  simp [addSignature, signature]

def Catalog.withShape (c : Catalog) (t : TypeRef) (name : Option String) (shape : Shape) : Catalog :=
  { c with types := c.types.setIfInBounds t.index (.object name (some shape)) }

section
variable {c : Catalog} {t : TypeRef} {name : Option String}

theorem Catalog.defineObject_of_declared (h : c.get t = .object name none) (shape : Shape) :
    c.defineObject t shape = .ok (c.withShape t name shape) := by
  simp only [defineObject, h, withShape]

theorem Catalog.get_withShape (ht : t.index < c.types.size) (shape : Shape) (u : TypeRef) :
    (c.withShape t name shape).get u = if u = t then .object name (some shape) else c.get u := by
  by_cases h : u = t
  · rw [if_pos h, h]
    simp [withShape, get, Array.getD_eq_getD_getElem?, Array.getElem?_setIfInBounds_self_of_lt ht]
  · have hne : t.index ≠ u.index := by
      intro hindex
      exact h (by cases t; cases u; exact congrArg TypeRef.mk hindex.symm)
    rw [if_neg h]
    simp only [withShape, get, Array.getD_eq_getD_getElem?, Array.getElem?_setIfInBounds_ne hne]

end

namespace Document

/-! ## Looking up references -/

def Complete (d : Document) (s : Decoder) : Prop := ∀ i < d.types.size, ∃ t, s.type? i = some t

structure Signing (s s' : Decoder) : Prop where
  slots : s'.slots = s.slots
  types : s'.catalog.types = s.catalog.types
  signatures : ∀ {i : Nat} {x : Signature}, s.catalog.signatures[i]? = some x → s'.catalog.signatures[i]? = some x

namespace Signing

variable {s s₁ s₂ : Decoder}

theorem refl (s : Decoder) : Signing s s := ⟨rfl, rfl, id⟩

theorem trans (h₁ : Signing s s₁) (h₂ : Signing s₁ s₂) : Signing s s₂ :=
  ⟨h₂.slots.trans h₁.slots, h₂.types.trans h₁.types, fun hx => h₂.signatures (h₁.signatures hx)⟩

theorem type? (h : Signing s s₁) : s₁.type? = s.type? := by
  unfold Decoder.type?
  rw [h.slots]

end Signing

section
variable {c c' : Catalog} {table : Nat → Option TypeRef}
  (h : ∀ {i : Nat} {x : Signature}, c.signatures[i]? = some x → c'.signatures[i]? = some x)
include h

theorem SignatureRepresented.mono {s : SignatureEntry} {x : SignatureRef} (hx : SignatureRepresented c table s x) :
    SignatureRepresented c' table s x := by
  have hget := h (Array.getElem?_eq_getElem hx.known)
  have heq : c'.signature x = c.signature x := by
    simp only [Catalog.signature, Array.getD_eq_getD_getElem?, hget, Array.getElem?_eq_getElem hx.known]
  refine ⟨(Array.getElem?_eq_some_iff.mp hget).1, ?_, ?_, hx.arity, ?_, ?_⟩
  · rw [heq]; exact hx.parameters
  · rw [heq]; exact hx.mandatory
  · rw [heq]; exact hx.rest
  · rw [heq]; exact hx.result

theorem ShapeRepresented.mono {o : ObjectEntry} {shape : Shape} (hs : ShapeRepresented c table o shape) :
    ShapeRepresented c' table o shape where
  properties := hs.properties
  callSignatures := hs.callSignatures.imp fun _ _ hx => hx.mono h
  constructSignatures := hs.constructSignatures.imp fun _ _ hx => hx.mono h
  numericIndex := hs.numericIndex
  stringIndex := hs.stringIndex

end

theorem map_fst_of_represented {table : Nat → Option TypeRef} {ps : List (String × PropertyEntry)}
    {qs : List (String × Property)} (h : List.Forall₂ (PropertyRepresented table) ps qs) :
    qs.map Prod.fst = ps.map Prod.fst := by
  induction h with
  | nil => rfl
  | cons hq _ ih => rw [List.map_cons, List.map_cons, hq.name, ih]

theorem SignatureEntry.mandatory_eq (s : SignatureEntry) :
    s.mandatory =
      match s.mandatoryArgs with
      | some k => k.toNat
      | none => s.args.length := by
  unfold mandatory
  cases s.mandatoryArgs <;> rfl

/-- Too many arguments can be mandatory only where their number is given. -/
theorem SignatureEntry.exists_of_lt_mandatory {s : SignatureEntry} (h : s.args.length < s.mandatory) :
    ∃ k ∈ s.mandatoryArgs, s.mandatory = k.toNat := by
  rw [s.mandatory_eq] at h ⊢
  cases hgiven : s.mandatoryArgs with
  | some k => exact ⟨k, rfl, rfl⟩
  | none =>
    rw [hgiven] at h
    exact absurd h (Nat.lt_irrefl _)

theorem signatureRepresented_addSignature {c : Catalog} {table : Nat → Option TypeRef} {s : SignatureEntry}
    (y : Signature) (hparameters : List.Forall₂ (Names table) s.args y.parameters)
    (hmandatory : y.mandatory = s.mandatory) (harity : ¬ s.args.length < s.mandatory)
    (hrest : Option.Rel (Names table) s.varargs y.rest) (hresult : Names table s.result y.result) :
    SignatureRepresented (c.addSignature y).2 table s (c.addSignature y).1 := by
  have hget := c.signature_addSignature y
  have hgiven : ∀ k ∈ s.mandatoryArgs, k.toNat ≤ s.args.length := by
    intro k hk
    rw [s.mandatory_eq, Option.mem_def.mp hk] at harity
    exact Nat.not_lt.mp harity
  refine ⟨by simp [Catalog.addSignature], ?_, ?_, hgiven, ?_, ?_⟩ <;> rw [hget]
  · exact hparameters
  · exact hmandatory.trans s.mandatory_eq
  · exact hrest
  · exact hresult

section
variable {d : Document} {budget i : Nat} {s : Decoder} (hbudget : 0 < budget) (hs : Complete d s)
include hbudget hs

theorem resolve_leads {r : EntryIndex} (hr : d.Refers i r.toNat) :
    Leads (resolve d.types budget r) s (fun t s' => s' = s ∧ Names s.type? r t) d.Blames := by
  refine (inRange_leads (.reference hr) s).bind ?_
  rintro _ _ ⟨rfl, rfl, hlt⟩
  obtain ⟨t, ht⟩ := hs _ hlt
  obtain ⟨budget, rfl⟩ := Nat.exists_eq_succ_of_ne_zero (Nat.ne_of_gt hbudget)
  unfold Leads
  rw [build_of_built ht]
  exact ⟨rfl, ht⟩

theorem resolveAll_leads {rs : List EntryIndex} (hrs : ∀ r ∈ rs, d.Refers i r.toNat) :
    Leads (rs.mapM (resolve d.types budget)) s (fun ts s' => s' = s ∧ List.Forall₂ (Names s.type?) rs ts) d.Blames := by
  exact Leads.mapM_same fun r hr => resolve_leads hbudget hs (hrs r hr)

theorem resolveOption_leads {r : Option EntryIndex} (hr : ∀ x ∈ r, d.Refers i x.toNat) :
    Leads (r.mapM (resolve d.types budget)) s (fun t s' => s' = s ∧ Option.Rel (Names s.type?) r t) d.Blames := by
  exact Leads.optionMapM_same fun x hx => resolve_leads hbudget hs (hr x hx)

/-! ## Shapes -/

variable {o : ObjectEntry} (ho : d.types[i]? = some (.objectType o))
include ho

theorem signatureOf_leads {x : SignatureEntry} (hx : x ∈ o.signatures) :
    Leads (signatureOf d.types budget x) s
      (fun y s' => Complete d s' ∧ Signing s s' ∧ SignatureRepresented s'.catalog s'.type? x y) d.Blames := by
  have hrefers : ∀ r ∈ x.refs, d.Refers i r.toNat := by
    intro r hr
    refine ⟨_, ho, r, ?_, rfl⟩
    simp only [Entry.refs, ObjectEntry.refs, List.mem_append, List.mem_flatMap]
    exact .inl (.inl (.inr ⟨x, hx, hr⟩))
  unfold signatureOf
  refine (resolveAll_leads hbudget hs fun r hr => hrefers r (by simp [SignatureEntry.refs, hr])).bind ?_
  rintro parameters s ⟨rfl, hparameters⟩
  have hlength : parameters.length = x.args.length := hparameters.length_eq.symm
  rw [hlength]
  by_cases harity : x.args.length < x.mandatory
  · rw [if_pos harity]
    obtain ⟨k, hk, hmandatory⟩ := SignatureEntry.exists_of_lt_mandatory harity
    rw [hmandatory] at harity ⊢
    exact ⟨_, rfl, .arity (Array.mem_of_getElem? ho) hx hk harity⟩
  · rw [if_neg harity]
    refine (resolveOption_leads hbudget hs fun r hr => hrefers r (by simp_all [SignatureEntry.refs])).bind ?_
    rintro rest s ⟨rfl, hrest⟩
    refine (resolve_leads hbudget hs (hrefers x.result (by simp [SignatureEntry.refs]))).bind ?_
    rintro result s ⟨rfl, hresult⟩
    refine ⟨hs, ⟨rfl, rfl, (Catalog.Grows.addSignature s.catalog _).signatures⟩, ?_⟩
    exact signatureRepresented_addSignature { parameters, mandatory := x.mandatory, rest, result } hparameters rfl
      harity hrest hresult

theorem propertiesOf_leads :
    Leads (o.properties.toList.mapM (propertyOf d.types budget)) s
      (fun qs s' => s' = s ∧ List.Forall₂ (PropertyRepresented s.type?) o.properties.toList qs) d.Blames := by
  refine Leads.mapM_same fun p hp => ?_
  have hrefers : d.Refers i p.2.type.toNat := by
    refine ⟨_, ho, p.2.type, ?_, rfl⟩
    simp only [Entry.refs, ObjectEntry.refs, List.mem_append, List.mem_map]
    exact .inl (.inl (.inl ⟨p, hp, rfl⟩))
  refine (resolve_leads hbudget hs hrefers).bind ?_
  rintro t s ⟨rfl, ht⟩
  exact ⟨rfl, rfl, ht, rfl⟩

theorem signaturesOf_leads (xs : List SignatureEntry) (hxs : ∀ x ∈ xs, x ∈ o.signatures) :
    Leads (xs.mapM (signatureOf d.types budget)) s
      (fun ys s' => Complete d s' ∧ Signing s s' ∧ List.Forall₂ (SignatureRepresented s'.catalog s'.type?) xs ys)
      d.Blames := by
  refine Leads.mapM (I := Complete d) (Q := fun x y s' => SignatureRepresented s'.catalog s'.type? x y) Signing.refl
    Signing.trans ?_ (fun x hx s hs => signatureOf_leads hbudget hs ho (hxs x hx)) hs
  intro x y s s' h hy
  rw [h.type?]
  exact hy.mono h.signatures

theorem shapeOf_leads :
    Leads (shapeOf d.types budget o) s
      (fun shape s' => Signing s s' ∧ ShapeRepresented s'.catalog s.type? o shape) d.Blames := by
  unfold shapeOf
  refine (propertiesOf_leads hbudget hs ho).bind ?_
  rintro properties s ⟨rfl, hproperties⟩
  refine (signaturesOf_leads hbudget hs ho o.callSignatures fun x hx => by simp [ObjectEntry.signatures, hx]).bind ?_
  rintro call s₁ ⟨hs₁, h₁, hcall⟩
  refine (signaturesOf_leads hbudget hs₁ ho o.constructSignatures fun x hx => by
    simp [ObjectEntry.signatures, hx]).bind ?_
  rintro construct s₂ ⟨hs₂, h₂, hconstruct⟩
  refine (resolveOption_leads hbudget hs₂ (r := o.numericIndexType) fun x hx =>
    ⟨_, ho, x, by simp_all [Entry.refs, ObjectEntry.refs], rfl⟩).bind ?_
  rintro numeric s₂ ⟨rfl, hnumeric⟩
  refine (resolveOption_leads hbudget hs₂ (r := o.stringIndexType) fun x hx =>
    ⟨_, ho, x, by simp_all [Entry.refs, ObjectEntry.refs], rfl⟩).bind ?_
  rintro string s₂ ⟨rfl, hstring⟩
  rw [h₁.type?] at hcall
  rw [h₂.type?, h₁.type?] at hconstruct hnumeric hstring
  have hnodup : (properties.map Prod.fst).Nodup := by
    rw [map_fst_of_represented hproperties]
    exact o.properties.nodup
  refine ⟨h₁.trans h₂, ?_, hcall.imp fun _ _ hx => hx.mono h₂.signatures, hconstruct, hnumeric, hstring⟩
  rw [Members.toList_ofList hnodup]
  exact hproperties

end

/-! ## One object type after the other -/

structure Defining (d : Document) (c : Catalog) (s₀ : Decoder) (k : Nat) (s : Decoder) : Prop where
  slots : s.slots = s₀.slots
  grows : c.Grows s.catalog
  size : s.catalog.types.size = s₀.catalog.types.size
  defined : ∀ {i t e}, i < k → s₀.type? i = some t → d.types[i]? = some e →
    Represents s₀.type? (Defined s.catalog s₀.type?) e (s.catalog.get t)
  declared : ∀ {i t e}, k ≤ i → s₀.type? i = some t → d.types[i]? = some e →
    Represents s₀.type? Declared e (s.catalog.get t)

theorem Represents.imp {table : Nat → Option TypeRef} {S S' : ObjectEntry → Option Shape → Prop} {e : Entry}
    {x : Descriptor} (h : Represents table S e x) (hS : ∀ o shape, e = .objectType o → S o shape → S' o shape) :
    Represents table S' e x := by
  cases h with
  | union hts => exact .union hts
  | intersection hts => exact .intersection hts
  | object hs => exact .object (hS _ _ rfl hs)
  | _ => constructor

theorem builtType_of_type? {s : Decoder} {i : Nat} {t : TypeRef} (h : s.type? i = some t) :
    builtType i s = .ok t s := by
  rw [Decoder.type?_eq_some_iff] at h
  rw [builtType, get_bind_run]
  simp only [h]
  rfl

section
variable {d : Document} {c : Catalog} {s₀ s : Decoder} {k budget : Nat}

theorem Defining.skip (h : Defining d c s₀ k s) {e : Entry} (he : d.types[k]? = some e)
    (hobject : ∀ o, e ≠ .objectType o) : Defining d c s₀ (k + 1) s := by
  refine ⟨h.slots, h.grows, h.size, ?_, fun hi => h.declared (by omega)⟩
  intro i t e' hi ht he'
  by_cases hne : i = k
  · subst hne
    rw [he] at he'
    cases he'
    exact (h.declared (Nat.le_refl i) ht he).imp fun o _ ho => absurd ho (hobject o)
  · exact h.defined (by omega) ht he'

/-- What has been said of the other entries stays, because each object type is the descriptor of one entry. -/
theorem Defining.define {s₁ : Decoder} {o : ObjectEntry} {t : TypeRef} {shape : Shape} (hs₀ : Sound d c s₀)
    (h : Defining d c s₀ k s) (he : d.types[k]? = some (.objectType o)) (ht : s₀.type? k = some t)
    (hsigning : Signing s s₁) (hdeclared : s₁.catalog.get t = .object o.name none)
    (hshape : ShapeRepresented s₁.catalog s₀.type? o shape) :
    Defining d c s₀ (k + 1) { s₁ with catalog := s₁.catalog.withShape t o.name shape } := by
  have hsize : s₁.catalog.types.size = s₀.catalog.types.size := by rw [hsigning.types, h.size]
  have hget : ∀ u, (s₁.catalog.withShape t o.name shape).get u =
      if u = t then .object o.name (some shape) else s.catalog.get u := by
    intro u
    rw [Catalog.get_withShape (hsize ▸ (hs₀.own ht).2)]
    simp only [Catalog.get, hsigning.types]
  have hkept : ∀ {i : Nat} {x : Signature}, s₁.catalog.signatures[i]? = some x →
      (s₁.catalog.withShape t o.name shape).signatures[i]? = some x := id
  have hother : ∀ {i u}, i ≠ k → s₀.type? i = some u → u ≠ t := by
    rintro i _ hne hu rfl
    exact hne (hs₀.inj hu ht)
  refine ⟨hsigning.slots.trans h.slots, ?_, ?_, ?_, ?_⟩
  · have hkeeps : s.catalog.Keeps s₁.catalog := ⟨fun hx => by rw [hsigning.types, hx], hsigning.signatures⟩
    exact (h.grows.trans hkeeps.grows).trans (.defineObject (Catalog.defineObject_of_declared hdeclared shape))
  · simp only [Catalog.withShape, Array.size_setIfInBounds]
    exact hsize
  · intro i u e hi hu he'
    by_cases hne : i = k
    · -- the object type at hand
      subst hne
      rw [he] at he'
      rw [ht] at hu
      cases he'
      cases hu
      rw [hget, if_pos rfl]
      exact .object ⟨shape, rfl, hshape.mono hkept⟩
    · -- one of those before it, whose signatures are still there
      rw [hget, if_neg (hother hne hu)]
      refine (h.defined (by omega) hu he').imp ?_
      rintro o' _ - ⟨shape', rfl, hshape'⟩
      exact ⟨shape', rfl, hshape'.mono fun hx => hkept (hsigning.signatures hx)⟩
  · intro i u e hi hu he'
    rw [hget, if_neg (hother (by omega) hu)]
    exact h.declared (by omega) hu he'

theorem define_leads (hbudget : 0 < budget) (hs₀ : Idle d c (· < d.types.size) s₀) (hk : k < d.types.size)
    (h : Defining d c s₀ k s) :
    Leads (define d.types budget k) s (fun _ s' => Defining d c s₀ (k + 1) s') d.Blames := by
  obtain ⟨e, he⟩ : ∃ e, d.types[k]? = some e := ⟨_, Array.getElem?_eq_getElem hk⟩
  have htype : s.type? = s₀.type? := by
    unfold Decoder.type?
    rw [h.slots]
  by_cases hobject : ∃ o, e = .objectType o
  · obtain ⟨o, rfl⟩ := hobject
    obtain ⟨t, ht⟩ := hs₀.built k hk
    have hcomplete : Complete d s := fun i hi => htype ▸ hs₀.built i hi
    simp only [define, he]
    refine (shapeOf_leads hbudget hcomplete he).bind ?_
    rintro shape s₁ ⟨hsigning, hshape⟩
    rw [htype] at hshape
    have ht₁ : s₁.type? k = some t := by rw [hsigning.type?, htype, ht]
    have hdeclared : s₁.catalog.get t = .object o.name none := by
      have hx := h.declared (Nat.le_refl k) ht he
      have heq : s₁.catalog.get t = s.catalog.get t := by simp only [Catalog.get, hsigning.types]
      rw [← heq] at hx
      generalize s₁.catalog.get t = x at hx ⊢
      cases hx with
      | object hnone => rw [hnone]
    have hrun : (builtType k >>= fun t => defineType t shape) s₁ =
        .ok () { s₁ with catalog := s₁.catalog.withShape t o.name shape } := by
      rw [bind_of_ok (builtType_of_type? ht₁), defineType, Catalog.defineObject_of_declared hdeclared]
    unfold Leads
    rw [hrun]
    exact h.define hs₀.toSound he ht hsigning hdeclared hshape
  · have hrun : define d.types budget k = pure () := by
      simp only [define, he]
      split
      · rename_i o ho
        exact absurd ⟨o, Option.some.inj ho⟩ hobject
      · rfl
    rw [hrun]
    exact h.skip he fun o ho => hobject ⟨o, ho⟩

theorem defineAll_leads (hbudget : 0 < budget) (hs₀ : Idle d c (· < d.types.size) s₀) :
    Leads ((List.range d.types.size).forM (define d.types budget)) s₀
      (fun _ s => Defining d c s₀ d.types.size s) d.Blames := by
  refine Leads.forM_range (fun k hk s hs => define_leads hbudget hs₀ hk hs) ?_
  exact ⟨rfl, hs₀.grows, rfl, fun hi => absurd hi (Nat.not_lt_zero _), fun _ ht he => hs₀.represented ht he⟩

end

end Document

end TypeContracts
