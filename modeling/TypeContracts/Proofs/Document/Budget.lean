import TypeContracts.Proofs.Document.Building

/-!
# The budget of decoding

An entry that is put in progress is pending no more. So entries cannot wait for
each other deeper than there are entries, and a larger budget changes nothing:
what the budget bounds is a recursion that ends by itself.
-/

namespace TypeContracts.Document

structure Ample (types : Array Entry) (budget : Nat) (s : Decoder) : Prop where
  size : s.slots.size = types.size
  pending : s.pending.card < budget

section
variable {types : Array Entry} {budget more index : Nat} {s s' : Decoder}

theorem Ample.recorded (h : Ample types budget s) (index : Nat) (x : Descriptor) :
    Ample types budget (s.recorded index x) := by
  have hsize : (s.recorded index x).slots.size = s.slots.size := by simp [Decoder.recorded]
  refine ⟨hsize.trans h.size, Nat.lt_of_le_of_lt (Finset.card_le_card fun i hi => ?_) h.pending⟩
  rw [Decoder.mem_pending] at *
  by_cases hne : i = index
  · subst hne
    have hlt : i < s.slots.size := hsize ▸ (Array.getElem?_eq_some_iff.mp hi).1
    rw [Decoder.slots_recorded_self hlt] at hi
    cases hi
  · rwa [Decoder.slots_recorded_ne hne] at hi

theorem Ample.started (h : Ample types (budget + 1) s) (hslot : s.slots[index]? = some .pending) :
    Ample types budget (s.started index) := by
  have hcard := Decoder.card_pending_started hslot
  have hpending := h.pending
  refine ⟨?_, by omega⟩
  simpa [Decoder.started] using h.size

/-! ## Building -/

theorem record_agrees (index : Nat) (x : Descriptor) :
    Agrees (Ample types budget) (record index x) (record index x) :=
  .same fun _ hs => hs.recorded index x

theorem resolve_agrees (h : ∀ i < types.size, Agrees (Ample types budget) (build types budget i) (build types more i))
    (r : EntryIndex) : Agrees (Ample types budget) (resolve types budget r) (resolve types more r) := by
  unfold resolve inRange
  by_cases hr : r.toNat < types.size
  · rw [if_pos hr]
    simp only [pure_bind]
    exact h r.toNat hr
  · rw [if_neg hr]
    exact .throw_bind _ _ _

theorem descriptorOf_agrees {resolve resolve' : EntryIndex → Building TypeRef} {I : Decoder → Prop}
    (h : ∀ r, Agrees I (resolve r) (resolve' r)) (index : Nat) (e : Entry) :
    Agrees I (descriptorOf resolve index e) (descriptorOf resolve' index e) := by
  cases e with
  | union rs name => exact (Agrees.mapM h rs).bind fun ts => .pure _
  | intersection rs name => exact (Agrees.mapM h rs).bind fun ts => .pure _
  | objectType o => exact .throw _
  | _ => exact .pure _

/-- Either the slot of the entry settles the matter, or there is one entry less to wait for. -/
theorem build_agrees (hmore : budget ≤ more) (hindex : index < types.size) :
    Agrees (Ample types budget) (build types budget index) (build types more index) := by
  induction budget generalizing more index with
  | zero => exact fun s hs => absurd hs.pending (Nat.not_lt_zero _)
  | succ budget ih =>
    obtain ⟨more, rfl⟩ : ∃ n, more = n + 1 := ⟨more - 1, by omega⟩
    intro s hs
    obtain ⟨e, he⟩ : ∃ e, types[index]? = some e := ⟨_, Array.getElem?_eq_getElem hindex⟩
    obtain ⟨slot, hslot⟩ : ∃ slot, s.slots[index]? = some slot := ⟨_, Array.getElem?_eq_getElem (hs.size ▸ hindex)⟩
    unfold Leads
    cases slot with
    | built t =>
      have ht := Decoder.type?_eq_some_iff.mpr hslot
      rw [build_of_built ht, build_of_built ht]
      exact ⟨rfl, hs⟩
    | inProgress =>
      rw [build_of_inProgress hslot, build_of_inProgress hslot]
      exact ⟨rfl, trivial⟩
    | pending =>
      rw [build_of_pending he hslot, build_of_pending he hslot]
      have hmembers := descriptorOf_agrees (resolve_agrees fun i hi => ih (Nat.le_of_succ_le_succ hmore) hi) index e
      obtain ⟨heq, hled⟩ := (hmembers.bind fun x => record_agrees index x) (s.started index) (hs.started hslot)
      exact ⟨heq, hled.imp fun _ s' hs' => ⟨hs'.size, Nat.lt_succ_of_lt hs'.pending⟩⟩

theorem declare_agrees (index : Nat) : Agrees (Ample types budget) (declare types index) (declare types index) := by
  unfold declare
  split
  · exact (record_agrees index _).discard
  · exact .pure _

/-! ## Shapes -/

section
variable (h : ∀ r, Agrees (Ample types budget) (resolve types budget r) (resolve types more r))
include h

theorem signatureOf_agrees (x : SignatureEntry) :
    Agrees (Ample types budget) (signatureOf types budget x) (signatureOf types more x) := by
  unfold signatureOf
  refine (Agrees.mapM h x.args).bind fun parameters => ?_
  by_cases harity : parameters.length < x.mandatory
  · rw [if_pos harity, if_pos harity]
    exact .throw_bind _ _ _
  · rw [if_neg harity, if_neg harity]
    refine (Agrees.optionMapM h x.varargs).bind fun rest => (h x.result).bind fun result => ?_
    exact .same fun _ hs => ⟨hs.size, hs.pending⟩

theorem shapeOf_agrees (o : ObjectEntry) :
    Agrees (Ample types budget) (shapeOf types budget o) (shapeOf types more o) := by
  have hproperty : ∀ p, Agrees (Ample types budget) (propertyOf types budget p) (propertyOf types more p) :=
    fun p => (h p.2.type).bind fun _ => .pure _
  unfold shapeOf
  refine (Agrees.mapM hproperty _).bind fun properties => ?_
  refine (Agrees.mapM (signatureOf_agrees h) _).bind fun call => ?_
  refine (Agrees.mapM (signatureOf_agrees h) _).bind fun construct => ?_
  refine (Agrees.optionMapM h _).bind fun numeric => ?_
  exact (Agrees.optionMapM h _).bind fun string => .pure _

end

theorem builtType_agrees (index : Nat) : Agrees (Ample types budget) (builtType index) (builtType index) := by
  refine Agrees.get.bind fun s => ?_
  split
  · exact .pure _
  · exact .throw _

theorem defineType_agrees (t : TypeRef) (shape : Shape) :
    Agrees (Ample types budget) (defineType t shape) (defineType t shape) := by
  refine .same fun s hs => ?_
  unfold Leads defineType
  cases s.catalog.defineObject t shape with
  | ok catalog => exact ⟨hs.size, hs.pending⟩
  | error e => exact trivial

theorem define_agrees (hmore : budget ≤ more) (index : Nat) :
    Agrees (Ample types budget) (define types budget index) (define types more index) := by
  have hresolve : ∀ r, Agrees (Ample types budget) (resolve types budget r) (resolve types more r) :=
    resolve_agrees fun i hi => build_agrees hmore hi
  unfold define
  split
  · refine (shapeOf_agrees hresolve _).bind fun shape => ?_
    exact (builtType_agrees index).bind fun t => defineType_agrees t shape
  · exact .pure _

theorem collect_agrees : Agrees (Ample types budget) collect collect := by
  refine Agrees.get.bind fun s => (Agrees.mapM (fun slot => ?_) _).bind fun types => .pure _
  split
  · exact .pure _
  · exact .throw _

end

/-! ## Documents -/

theorem ample_initial {d : Document} {budget : Nat} (h : d.types.size < budget) (c : Catalog) :
    Ample d.types budget (initial d c) := by
  refine ⟨by simp [initial], Nat.lt_of_le_of_lt (Finset.card_filter_le _ _) ?_⟩
  simpa [initial] using h

/-- Any budget above the number of entries serves as well as the least. -/
theorem decodeWithin_budget {d : Document} {budget : Nat} (h : d.types.size < budget) (c : Catalog) :
    d.decodeWithin (d.types.size + 1) (initial d c) = d.decodeWithin budget (initial d c) := by
  have hroot : Agrees (Ample d.types (d.types.size + 1)) (inRange d.types.size d.root)
      (inRange d.types.size d.root) := by
    unfold inRange
    split
    · exact .pure _
    · exact .throw _
  have hbuild : Agrees (Ample d.types (d.types.size + 1))
      ((List.range d.types.size).forM fun i => discard (build d.types (d.types.size + 1) i))
      ((List.range d.types.size).forM fun i => discard (build d.types budget i)) :=
    .forM fun i hi => (build_agrees h (List.mem_range.mp hi)).discard
  have hagrees : Agrees (Ample d.types (d.types.size + 1)) (d.decodeWithin (d.types.size + 1))
      (d.decodeWithin budget) :=
    hroot.bind fun root => (Agrees.forM fun i _ => declare_agrees i).bind fun _ => hbuild.bind fun _ =>
      (Agrees.forM fun i _ => define_agrees h i).bind fun _ => collect_agrees.bind fun types => .pure _
  exact (hagrees _ (ample_initial (Nat.lt_succ_self _) c)).1

end TypeContracts.Document
