import Mathlib.Data.Finset.Card
import Mathlib.Data.Finset.Range
import TypeContracts.Proofs.Document.Meaning
import TypeContracts.Proofs.Leads

/-!
# Building the entries of a document

The table of slots is memory and cycle detector at once. What is built
represents its entry and comes after everything it holds (`Sound`), and the
entries in progress are those that wait for the one at hand (`Waiting`). So
meeting one of them again shows a cycle, and every other failure a reference
out of range (`build_leads`).
-/

namespace TypeContracts

structure Catalog.Keeps (c d : Catalog) : Prop where
  types : ∀ {i : Nat} {x : Descriptor}, c.types[i]? = some x → d.types[i]? = some x
  signatures : ∀ {i : Nat} {x : Signature}, c.signatures[i]? = some x → d.signatures[i]? = some x

namespace Catalog.Keeps

variable {c d : Catalog}

theorem refl (c : Catalog) : Keeps c c := ⟨id, id⟩

theorem trans {e : Catalog} (h₁ : Keeps c d) (h₂ : Keeps d e) : Keeps c e :=
  ⟨fun hx => h₂.types (h₁.types hx), fun hx => h₂.signatures (h₁.signatures hx)⟩

theorem grows (h : Keeps c d) : c.Grows d := ⟨fun hx => .inl (h.types hx), h.signatures⟩

theorem add (c : Catalog) (x : Descriptor) : Keeps c (c.add x).2 := by
  refine ⟨fun {i y} hy => ?_, id⟩
  have hi : i < c.types.size := (Array.getElem?_eq_some_iff.mp hy).1
  simp only [Catalog.add, Array.getElem?_push, Nat.ne_of_lt hi, if_false, hy]

theorem get_eq (h : Keeps c d) {t : TypeRef} (ht : t.index < c.types.size) : d.get t = c.get t := by
  have hx := h.types (Array.getElem?_eq_getElem ht)
  simp only [Catalog.get, Array.getD_eq_getD_getElem?, hx, Array.getElem?_eq_getElem ht]

theorem size_le (h : Keeps c d) : c.types.size ≤ d.types.size := by
  by_contra hlt
  have hd := h.types (Array.getElem?_eq_getElem (Nat.not_le.mp hlt))
  rw [Array.getElem?_eq_none (Nat.le_refl _)] at hd
  cases hd

end Catalog.Keeps

theorem Catalog.Grows.size_le {c d : Catalog} (h : c.Grows d) : c.types.size ≤ d.types.size := by
  by_contra hlt
  have hd := h.types (Array.getElem?_eq_getElem (Nat.not_le.mp hlt))
  rw [Array.getElem?_eq_none (Nat.le_refl _)] at hd
  rcases hd with hd | ⟨_, _, _, hd⟩ <;> cases hd

namespace Document

open Relation (TransGen)

def Blames (d : Document) (e : Failure) : Prop := ∃ m, e = .malformed m ∧ d.Fault m

/-! ## Slots -/

namespace Decoder

def type? (s : Decoder) (i : Nat) : Option TypeRef :=
  match s.slots[i]? with
  | some (.built t) => some t
  | _ => none

def recorded (s : Decoder) (index : Nat) (x : Descriptor) : Decoder where
  catalog := (s.catalog.add x).2
  slots := s.slots.setIfInBounds index (.built (s.catalog.add x).1)

def started (s : Decoder) (index : Nat) : Decoder :=
  { s with slots := s.slots.setIfInBounds index .inProgress }

def pending (s : Decoder) : Finset Nat := (Finset.range s.slots.size).filter fun i => s.slots[i]? = some .pending

variable {s : Decoder} {i index : Nat} {t : TypeRef}

theorem type?_eq_some_iff : s.type? i = some t ↔ s.slots[i]? = some (.built t) := by
  unfold type?
  split
  · rename_i h; simp [h]
  · rename_i h
    constructor
    · intro h'; cases h'
    · intro h'; exact absurd h' (h t)

theorem mem_pending : i ∈ s.pending ↔ s.slots[i]? = some .pending := by
  simp only [pending, Finset.mem_filter, Finset.mem_range, and_iff_right_iff_imp]
  intro h
  exact (Array.getElem?_eq_some_iff.mp h).1

theorem slots_recorded_self (hi : index < s.slots.size) (x : Descriptor) :
    (s.recorded index x).slots[index]? = some (.built (s.catalog.add x).1) := by
  simp [recorded, Array.getElem?_setIfInBounds_self_of_lt hi]

theorem slots_recorded_ne (hi : i ≠ index) (x : Descriptor) : (s.recorded index x).slots[i]? = s.slots[i]? := by
  simp [recorded, Array.getElem?_setIfInBounds_ne (Ne.symm hi)]

theorem slots_started_self (hi : index < s.slots.size) : (s.started index).slots[index]? = some .inProgress := by
  simp [started, Array.getElem?_setIfInBounds_self_of_lt hi]

theorem slots_started_ne (hi : i ≠ index) : (s.started index).slots[i]? = s.slots[i]? := by
  simp [started, Array.getElem?_setIfInBounds_ne (Ne.symm hi)]

theorem type?_recorded (hi : index < s.slots.size) (x : Descriptor) :
    (s.recorded index x).type? i = if i = index then some (s.catalog.add x).1 else s.type? i := by
  unfold type?
  by_cases hne : i = index
  · rw [if_pos hne, hne, slots_recorded_self hi x]
  · rw [if_neg hne, slots_recorded_ne hne x]

/-- An entry that is put in progress had no descriptor, so none is lost. -/
theorem type?_started (hnew : s.type? index = none) : (s.started index).type? i = s.type? i := by
  by_cases hi : i = index
  · subst hi
    rw [hnew]
    unfold type?
    by_cases hlt : i < s.slots.size
    · rw [slots_started_self hlt]
    · rw [Array.getElem?_eq_none (by simpa [started] using hlt)]
  · unfold type?
    rw [slots_started_ne hi]

end Decoder

/-! ## The state between two entries -/

structure Sound (d : Document) (c : Catalog) (s : Decoder) : Prop where
  size : s.slots.size = d.types.size
  grows : c.Grows s.catalog
  own : ∀ {i t}, s.type? i = some t → c.types.size ≤ t.index ∧ t.index < s.catalog.types.size
  inj : ∀ {i j t}, s.type? i = some t → s.type? j = some t → i = j
  represented : ∀ {i t e}, s.type? i = some t → d.types[i]? = some e →
    Represents s.type? Declared e (s.catalog.get t)
  ordered : ∀ {i j t u}, d.Holds i j → s.type? i = some t → s.type? j = some u → u.index < t.index

/-- Entries have been built since, and nothing else has changed. -/
structure Further (s s' : Decoder) : Prop where
  keeps : s.catalog.Keeps s'.catalog
  slots : ∀ i : Nat, s'.slots[i]? = s.slots[i]? ∨ s.slots[i]? = some .pending ∧ ∃ t, s'.slots[i]? = some (.built t)

namespace Further

variable {s s₁ s₂ : Decoder} {i : Nat} {t : TypeRef}

theorem refl (s : Decoder) : Further s s := ⟨.refl _, fun _ => .inl rfl⟩

theorem trans (h₁ : Further s s₁) (h₂ : Further s₁ s₂) : Further s s₂ where
  keeps := h₁.keeps.trans h₂.keeps
  slots i := by
    rcases h₁.slots i with h | ⟨hp, t, ht⟩
    · rcases h₂.slots i with h' | ⟨hp, t, ht⟩
      · exact .inl (h'.trans h)
      · exact .inr ⟨h ▸ hp, t, ht⟩
    · rcases h₂.slots i with h' | ⟨hp', -⟩
      · exact .inr ⟨hp, t, h'.trans ht⟩
      · rw [ht] at hp'
        cases hp'

theorem type? (h : Further s s₁) (ht : s.type? i = some t) : s₁.type? i = some t := by
  rw [Decoder.type?_eq_some_iff] at *
  rcases h.slots i with h | ⟨hp, -⟩
  · rw [h, ht]
  · rw [ht] at hp
    cases hp

theorem names (h : Further s s₁) {r : EntryIndex} (hr : Names s.type? r t) : Names s₁.type? r t := h.type? hr

theorem inProgress_iff (h : Further s s₁) : s₁.slots[i]? = some .inProgress ↔ s.slots[i]? = some .inProgress := by
  rcases h.slots i with h | ⟨hp, t, ht⟩
  · rw [h]
  · simp [hp, ht]

theorem pending_subset (h : Further s s₁) : s₁.pending ⊆ s.pending := by
  intro i hi
  rw [Decoder.mem_pending] at *
  rcases h.slots i with h | ⟨-, t, ht⟩
  · rw [← h, hi]
  · rw [hi] at ht
    cases ht

/-- An entry is built once the entries that it holds are. -/
theorem recorded {index : Nat} (hp : s.slots[index]? = some .pending) (h : Further (s.started index) s₁)
    (hi : index < s₁.slots.size) (x : Descriptor) : Further s (s₁.recorded index x) where
  keeps := h.keeps.trans (.add s₁.catalog x)
  slots i := by
    by_cases hne : i = index
    · subst hne
      exact .inr ⟨hp, _, Decoder.slots_recorded_self hi x⟩
    · rw [Decoder.slots_recorded_ne hne x, ← Decoder.slots_started_ne (s := s) hne]
      exact h.slots i

end Further

theorem Decoder.card_pending_started {s : Decoder} {index : Nat} (hp : s.slots[index]? = some .pending) :
    (s.started index).pending.card < s.pending.card := by
  refine Finset.card_lt_card ⟨?_, ?_⟩
  · intro i hi
    rw [mem_pending] at *
    by_cases hne : i = index
    · rw [hne, hp]
    · rwa [slots_started_ne hne] at hi
  · intro hsub
    have hmem := hsub (mem_pending.mpr hp)
    rw [mem_pending, slots_started_self (Array.getElem?_eq_some_iff.mp hp).1] at hmem
    cases hmem

theorem Entry.isComposite_of_mem_refs {e : Entry} (he : ∀ o, e ≠ .objectType o) {r : EntryIndex} (hr : r ∈ e.refs) :
    e.isComposite = true := by
  cases e with
  | union | intersection => rfl
  | objectType o => exact absurd rfl (he o)
  | _ => cases hr

theorem Represents.ref_named {table : Nat → Option TypeRef} {S : ObjectEntry → Option Shape → Prop} {e : Entry}
    {x : Descriptor} (h : Represents table S e x) (he : e.isComposite = true) {r : EntryIndex} (hr : r ∈ e.refs) :
    ∃ t, table r.toNat = some t := by
  cases h with
  | union hts | intersection hts =>
    obtain ⟨t, -, ht⟩ := exists_of_forall₂ hts hr
    exact ⟨t, ht⟩
  | _ => cases he

section
variable {d : Document} {c : Catalog} {s : Decoder} {index : Nat} {e : Entry}

theorem Sound.started (hs : Sound d c s) (hnew : s.type? index = none) : Sound d c (s.started index) := by
  have htype : (s.started index).type? = s.type? := funext fun i => Decoder.type?_started hnew
  refine ⟨?_, hs.grows, ?_, ?_, ?_, ?_⟩
  · simpa [Decoder.started] using hs.size
  · rw [htype]; exact hs.own
  · rw [htype]; exact hs.inj
  · rw [htype]; exact hs.represented
  · rw [htype]; exact hs.ordered

theorem Sound.recorded {x : Descriptor} (hs : Sound d c s) (he : d.types[index]? = some e)
    (hnew : s.type? index = none) (hx : Represents s.type? Declared e x) : Sound d c (s.recorded index x) := by
  have hi : index < s.slots.size := by
    rw [hs.size]
    exact (Array.getElem?_eq_some_iff.mp he).1
  have hcases : ∀ {i t}, (s.recorded index x).type? i = some t →
      i = index ∧ t = (s.catalog.add x).1 ∨ i ≠ index ∧ s.type? i = some t := by
    intro i t ht
    rw [Decoder.type?_recorded hi x] at ht
    split at ht
    · rename_i hii; exact .inl ⟨hii, (Option.some.inj ht).symm⟩
    · rename_i hii; exact .inr ⟨hii, ht⟩
  have hold : ∀ {i t}, s.type? i = some t → (s.recorded index x).type? i = some t := by
    intro i t ht
    rw [Decoder.type?_recorded hi x, if_neg, ht]
    rintro rfl
    rw [hnew] at ht
    cases ht
  have hkeeps : s.catalog.Keeps (s.recorded index x).catalog := .add s.catalog x
  refine ⟨?_, hs.grows.trans hkeeps.grows, ?_, ?_, ?_, ?_⟩
  · simpa [Decoder.recorded] using hs.size
  · intro i t ht
    rcases hcases ht with ⟨-, rfl⟩ | ⟨-, ht⟩
    · exact ⟨hs.grows.size_le, by simp [Decoder.recorded, Catalog.add]⟩
    · exact ⟨(hs.own ht).1, Nat.lt_of_lt_of_le (hs.own ht).2 hkeeps.size_le⟩
  · intro i j t hti htj
    -- the new descriptor is none of those before
    have hfresh : ∀ {k}, s.type? k ≠ some (s.catalog.add x).1 := fun hk => Nat.lt_irrefl _ (hs.own hk).2
    rcases hcases hti with ⟨rfl, rfl⟩ | ⟨-, hti⟩
    · rcases hcases htj with ⟨rfl, -⟩ | ⟨-, htj⟩
      · rfl
      · exact absurd htj hfresh
    · rcases hcases htj with ⟨-, rfl⟩ | ⟨-, htj⟩
      · exact absurd hti hfresh
      · exact hs.inj hti htj
  · intro i t e' ht he'
    rcases hcases ht with ⟨rfl, rfl⟩ | ⟨-, ht⟩
    · rw [he] at he'
      cases he'
      have hget : (s.recorded i x).catalog.get (s.catalog.add x).1 = x := Catalog.get_add s.catalog x
      rw [hget]
      exact hx.mono hold
    · rw [hkeeps.get_eq (hs.own ht).2]
      exact (hs.represented ht he').mono hold
  · intro i j t u hij hti htj
    obtain ⟨⟨e', he', hcomp⟩, -, e'', he'', r, hr, rfl⟩ := id hij
    obtain rfl : e' = e'' := Option.some.inj (he'.symm.trans he'')
    rcases hcases hti with ⟨rfl, rfl⟩ | ⟨-, hti⟩
    · rcases hcases htj with ⟨hj, -⟩ | ⟨-, htj⟩
      · -- the entry would hold itself, and be built already
        rw [he] at he'
        cases he'
        obtain ⟨t, ht⟩ := hx.ref_named hcomp hr
        rw [hj, hnew] at ht
        cases ht
      · exact (hs.own htj).2
    · rcases hcases htj with ⟨hj, -⟩ | ⟨-, htj⟩
      · obtain ⟨t, ht⟩ := (hs.represented hti he').ref_named hcomp hr
        rw [hj, hnew] at ht
        cases ht
      · exact hs.ordered hij hti htj

end

/-! ## Building an entry -/

/-- The entries in progress are unions and intersections that wait for the entry at hand. -/
def Waiting (d : Document) (s : Decoder) (index : Nat) : Prop :=
  ∀ p : Nat, s.slots[p]? = some .inProgress → d.Composite p ∧ (d.Composite index → TransGen d.Holds p index)

def ObjectsDeclared (d : Document) (s : Decoder) : Prop :=
  ∀ (i : Nat) o, d.types[i]? = some (.objectType o) → ∃ t, s.type? i = some t

theorem ObjectsDeclared.further {d : Document} {s s' : Decoder} (h : ObjectsDeclared d s) (hs : Further s s') :
    ObjectsDeclared d s' := by
  intro i o ho
  obtain ⟨t, ht⟩ := h i o ho
  exact ⟨t, hs.type? ht⟩

section
variable {types : Array Entry} {budget index : Nat} {s : Decoder}

theorem build_of_built {t : TypeRef} (h : s.type? index = some t) : build types (budget + 1) index s = .ok t s := by
  rw [Decoder.type?_eq_some_iff] at h
  rw [build, get_bind_run]
  simp only [h]
  rfl

theorem build_of_inProgress (h : s.slots[index]? = some .inProgress) :
    build types (budget + 1) index s = .error (.malformed (.selfReference index)) s := by
  rw [build, get_bind_run]
  simp only [h]
  rfl

theorem build_of_pending {e : Entry} (he : types[index]? = some e) (h : s.slots[index]? = some .pending) :
    build types (budget + 1) index s =
      (descriptorOf (resolve types budget) index e >>= record index) (s.started index) := by
  rw [build, get_bind_run]
  simp only [h, Array.getD_eq_getD_getElem?, he]
  rfl

end

section
variable {F : Failure → Prop} {I : Decoder → Prop} {resolve : EntryIndex → Building TypeRef} {s : Decoder}

theorem descriptorOf_leads {e : Entry} (he : ∀ o, e ≠ .objectType o) (index : Nat)
    (h : ∀ r ∈ e.refs, ∀ s, I s → Leads (resolve r) s (fun t s' => I s' ∧ Further s s' ∧ Names s'.type? r t) F)
    (hs : I s) :
    Leads (descriptorOf resolve index e) s (fun x s' => I s' ∧ Further s s' ∧ Represents s'.type? Declared e x) F := by
  have hmembers : ∀ rs : List EntryIndex, (∀ r ∈ rs, r ∈ e.refs) → Leads (rs.mapM resolve) s
      (fun ts s' => I s' ∧ Further s s' ∧ List.Forall₂ (Names s'.type?) rs ts) F := fun rs hrs =>
    Leads.mapM (Q := fun r t s' => Names s'.type? r t) Further.refl Further.trans (fun hf hn => hf.names hn)
      (fun r hr => h r (hrs r hr)) hs
  cases e with
  | union rs name =>
    exact (hmembers rs fun _ hr => hr).bind fun ts s' ⟨hs', hf, hts⟩ => ⟨hs', hf, .union hts⟩
  | intersection rs name =>
    exact (hmembers rs fun _ hr => hr).bind fun ts s' ⟨hs', hf, hts⟩ => ⟨hs', hf, .intersection hts⟩
  | objectType o => exact absurd rfl (he o)
  | _ => exact ⟨hs, .refl s, by constructor⟩

end

section
variable {d : Document} {c : Catalog}

theorem inRange_leads {r : EntryIndex}
    (hr : d.types.size ≤ r.toNat → d.Fault (.outOfRange r.toNat d.types.size)) (s : Decoder) :
    Leads (inRange d.types.size r) s (fun j s' => j = r.toNat ∧ s' = s ∧ r.toNat < d.types.size) d.Blames := by
  unfold inRange
  by_cases h : r.toNat < d.types.size
  · rw [if_pos h]
    exact ⟨rfl, rfl, h⟩
  · rw [if_neg h]
    exact ⟨_, rfl, hr (Nat.not_lt.mp h)⟩

/-- A member that has just been put in progress waits for its own members, and so does whatever waits for it. -/
theorem Waiting.started {s : Decoder} {index j : Nat} (h : Waiting d s index) (hindex : d.Composite index)
    (hj : d.Refers index j) : Waiting d (s.started index) j := by
  intro p hp
  by_cases hne : p = index
  · subst hne
    exact ⟨hindex, fun hcomp => .single ⟨hindex, hcomp, hj⟩⟩
  · rw [Decoder.slots_started_ne hne] at hp
    obtain ⟨hcomp, hcycle⟩ := h p hp
    exact ⟨hcomp, fun hcomp => (hcycle hindex).tail ⟨hindex, hcomp, hj⟩⟩

theorem build_leads {budget index : Nat} {s : Decoder} (hs : Sound d c s) (hobjects : ObjectsDeclared d s)
    (hindex : index < d.types.size) (hwait : Waiting d s index) (hbudget : s.pending.card < budget) :
    Leads (build d.types budget index) s
      (fun t s' => Sound d c s' ∧ Further s s' ∧ s'.type? index = some t) d.Blames := by
  induction budget generalizing index s with
  | zero => exact absurd hbudget (Nat.not_lt_zero _)
  | succ budget ih =>
    obtain ⟨e, he⟩ : ∃ e, d.types[index]? = some e := ⟨_, Array.getElem?_eq_getElem hindex⟩
    obtain ⟨slot, hslot⟩ : ∃ slot, s.slots[index]? = some slot := ⟨_, Array.getElem?_eq_getElem (hs.size ▸ hindex)⟩
    unfold Leads
    cases slot with
    | built t =>
      have ht : s.type? index = some t := Decoder.type?_eq_some_iff.mpr hslot
      rw [build_of_built ht]
      exact ⟨hs, .refl s, ht⟩
    | inProgress =>
      -- whatever is in progress waits for this entry, so it waits for itself
      rw [build_of_inProgress hslot]
      obtain ⟨hcomp, hcycle⟩ := hwait index hslot
      exact ⟨_, rfl, .cycle (hcycle hcomp)⟩
    | pending =>
      rw [build_of_pending he hslot]
      have hnew : s.type? index = none := by simp only [Decoder.type?, hslot]
      have hobject : ∀ o, e ≠ .objectType o := by
        rintro o rfl
        obtain ⟨t, ht⟩ := hobjects index o he
        rw [hnew] at ht
        cases ht
      -- the entries that this one holds are built from here on, with the invariant kept
      have hmember : ∀ r ∈ e.refs, ∀ s', Sound d c s' ∧ Further (s.started index) s' →
          Leads (resolve d.types budget r) s' (fun t s'' => (Sound d c s'' ∧ Further (s.started index) s'') ∧
            Further s' s'' ∧ Names s''.type? r t) d.Blames := by
        intro r hr s' ⟨hs', hf⟩
        have hrefers : d.Refers index r.toNat := ⟨e, he, r, hr, rfl⟩
        refine (inRange_leads (.reference hrefers) s').bind ?_
        rintro _ _ ⟨rfl, rfl, hlt⟩
        have hwait' := hwait.started ⟨e, he, Entry.isComposite_of_mem_refs hobject hr⟩ hrefers
        refine (ih hs' ?_ hlt (fun p hp => hwait' p (hf.inProgress_iff.mp hp)) ?_).imp ?_
        · refine ObjectsDeclared.further (fun i o ho => ?_) hf
          rw [Decoder.type?_started hnew]
          exact hobjects i o ho
        · have h₁ := Finset.card_le_card hf.pending_subset
          have h₂ := Decoder.card_pending_started hslot
          omega
        · intro t s'' ⟨hs'', hf', ht⟩
          exact ⟨⟨hs'', hf.trans hf'⟩, hf', ht⟩
      refine (descriptorOf_leads hobject index hmember ⟨hs.started hnew, .refl _⟩).bind ?_
      rintro x s' ⟨⟨hs', hf⟩, -, hx⟩
      have hlt : index < s'.slots.size := hs'.size ▸ hindex
      have hnew' : s'.type? index = none := by
        simp only [Decoder.type?, hf.inProgress_iff.mpr (Decoder.slots_started_self (hs.size ▸ hindex))]
      have hself : (s'.recorded index x).type? index = some (s'.catalog.add x).1 := by
        rw [Decoder.type?_recorded hlt, if_pos rfl]
      exact ⟨hs'.recorded he hnew' hx, .recorded hslot hf hlt x, hself⟩

/-! ## The two passes -/

def initial (d : Document) (c : Catalog) : Decoder := { catalog := c, slots := Array.replicate d.types.size .pending }

theorem type?_initial (i : Nat) : (initial d c).type? i = none := by
  unfold Decoder.type? initial
  by_cases hi : i < d.types.size <;> simp [hi]

theorem sound_initial (d : Document) (c : Catalog) : Sound d c (initial d c) := by
  have hnone : ∀ {i t}, (initial d c).type? i ≠ some t := fun {i t} h => by
    rw [type?_initial] at h
    cases h
  refine ⟨by simp [initial], .refl c, ?_, ?_, ?_, ?_⟩
  · intro i t h; exact absurd h hnone
  · intro i j t h; exact absurd h hnone
  · intro i t e h; exact absurd h hnone
  · intro i j t u _ h; exact absurd h hnone

/-- No entry is in progress, and those that satisfy `p` are built. -/
structure Idle (d : Document) (c : Catalog) (p : Nat → Prop) (s : Decoder) : Prop extends Sound d c s where
  idle : ∀ i : Nat, s.slots[i]? ≠ some .inProgress
  built : ∀ i, p i → ∃ t, s.type? i = some t

theorem record_leads {index : Nat} {x : Descriptor} {s : Decoder} {P : TypeRef → Decoder → Prop} {F : Failure → Prop}
    (h : P (s.catalog.add x).1 (s.recorded index x)) : Leads (record index x) s P F := h

/-- The object types of the first `k` entries are declared, and nothing else is built. -/
structure Declaring (d : Document) (c : Catalog) (k : Nat) (s : Decoder) : Prop extends
    Idle d c (fun i => i < k ∧ ∃ o, d.types[i]? = some (.objectType o)) s where
  later : ∀ i, k ≤ i → s.type? i = none

theorem declaring_initial (d : Document) (c : Catalog) : Declaring d c 0 (initial d c) where
  toSound := sound_initial d c
  idle i h := by
    simp only [initial, Array.getElem?_replicate] at h
    split at h <;> cases h
  built i h := absurd h.1 (Nat.not_lt_zero i)
  later i _ := type?_initial i

section
variable {s : Decoder} {k : Nat}

theorem Declaring.record (h : Declaring d c k s) {o : ObjectEntry} (he : d.types[k]? = some (.objectType o)) :
    Declaring d c (k + 1) (s.recorded k (.object o.name none)) := by
  have hlt : k < s.slots.size := h.size ▸ (Array.getElem?_eq_some_iff.mp he).1
  refine ⟨⟨h.toSound.recorded he (h.later k (Nat.le_refl k)) (.object rfl), ?_, ?_⟩, ?_⟩
  · intro i hi
    by_cases hne : i = k
    · rw [hne, Decoder.slots_recorded_self hlt] at hi
      cases hi
    · rw [Decoder.slots_recorded_ne hne] at hi
      exact h.idle i hi
  · rintro i ⟨hi, ho⟩
    rw [Decoder.type?_recorded hlt]
    by_cases hne : i = k
    · rw [if_pos hne]
      exact ⟨_, rfl⟩
    · rw [if_neg hne]
      exact h.built i ⟨by omega, ho⟩
  · intro i hi
    rw [Decoder.type?_recorded hlt, if_neg (by omega)]
    exact h.later i (by omega)

theorem Declaring.skip (h : Declaring d c k s) (hobject : ∀ o, d.types[k]? ≠ some (.objectType o)) :
    Declaring d c (k + 1) s := by
  refine ⟨⟨h.toSound, h.idle, ?_⟩, fun i hi => h.later i (by omega)⟩
  rintro i ⟨hi, o, ho⟩
  have hne : i ≠ k := by
    rintro rfl
    exact hobject o ho
  exact h.built i ⟨by omega, o, ho⟩

theorem declare_leads (h : Declaring d c k s) :
    Leads (declare d.types k) s (fun _ s' => Declaring d c (k + 1) s') d.Blames := by
  unfold declare
  split
  · rename_i o he
    exact (record_leads (P := fun _ s' => Declaring d c (k + 1) s') (h.record he)).discard.imp fun _ _ ⟨_, h⟩ => h
  · rename_i hobject
    exact h.skip hobject

theorem declareAll_leads : Leads ((List.range d.types.size).forM (declare d.types)) (initial d c)
    (fun _ s => Idle d c (fun i => ∃ o, d.types[i]? = some (.objectType o)) s) d.Blames := by
  refine (Leads.forM_range (fun k _ s hs => declare_leads hs) (declaring_initial d c)).imp ?_
  intro _ s hs
  refine ⟨hs.toSound, hs.idle, ?_⟩
  rintro i ⟨o, ho⟩
  exact hs.built i ⟨(Array.getElem?_eq_some_iff.mp ho).1, o, ho⟩

theorem buildNext_leads {budget : Nat} (hbudget : d.types.size < budget) (hk : k < d.types.size)
    (hs : Idle d c (fun i => i < k ∨ ∃ o, d.types[i]? = some (.objectType o)) s) :
    Leads (discard (build d.types budget k)) s
      (fun _ s' => Idle d c (fun i => i < k + 1 ∨ ∃ o, d.types[i]? = some (.objectType o)) s') d.Blames := by
  have hcard : s.pending.card ≤ d.types.size := by
    refine (Finset.card_filter_le _ _).trans ?_
    rw [Finset.card_range, hs.size]
  refine (build_leads hs.toSound (fun i o ho => hs.built i (.inr ⟨o, ho⟩)) hk
    (fun p hp => absurd hp (hs.idle p)) (by omega)).discard.imp ?_
  rintro _ s' ⟨t, hs', hf, ht⟩
  refine ⟨hs', fun i hi => hs.idle i (hf.inProgress_iff.mp hi), fun i hi => ?_⟩
  by_cases hne : i = k
  · exact ⟨t, hne ▸ ht⟩
  · obtain ⟨u, hu⟩ := hs.built i (hi.imp_left fun hi => by omega)
    exact ⟨u, hf.type? hu⟩

theorem buildAll_leads {budget : Nat} (hbudget : d.types.size < budget)
    (hs : Idle d c (fun i => ∃ o, d.types[i]? = some (.objectType o)) s) :
    Leads ((List.range d.types.size).forM fun index => discard (build d.types budget index)) s
      (fun _ s' => Idle d c (· < d.types.size) s') d.Blames := by
  refine (Leads.forM_range
    (I := fun k s => Idle d c (fun i => i < k ∨ ∃ o, d.types[i]? = some (.objectType o)) s)
    (fun k hk s hs => buildNext_leads hbudget hk hs) ?_).imp ?_
  · exact ⟨hs.toSound, hs.idle, fun i hi => hs.built i (hi.resolve_left (Nat.not_lt_zero i))⟩
  · intro _ s' hs'
    exact ⟨hs'.toSound, hs'.idle, fun i hi => hs'.built i (.inl hi)⟩

end

end

end Document

end TypeContracts
