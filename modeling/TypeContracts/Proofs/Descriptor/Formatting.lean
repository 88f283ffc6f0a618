import TypeContracts.Descriptor.Text
import TypeContracts.Proofs.Descriptor.Reach

/-!
# What a type formatter writes

A formatter has an unnamed object type open while it writes its members, and
closes it before it goes on, so it is left as it has been found (`Leaves`). Where
every cycle passes through an object type, each step down opens one more of
finitely many or goes on inside a union or an intersection, and the budget for the
nesting is never used up (`exists_writes`).
-/

namespace TypeContracts

open Relation (ReflTransGen TransGen)

/-! ## Formatters that are left as they are found -/

/-- A formatter in this state writes that, and is in the same state afterwards. -/
def Leaves {α : Type} (visiting : Visiting) (write : StateM Visiting α) (a : Id α) : Prop :=
  write.run visiting = (a.run, visiting)

namespace Leaves

variable {α β : Type} {visiting : Visiting} {write : StateM Visiting α} {a : Id α}

theorem pure (a : α) : Leaves visiting (Pure.pure a) (Pure.pure a) := rfl

theorem bind {f : α → StateM Visiting β} {g : α → Id β} (ha : Leaves visiting write a)
    (hf : Leaves visiting (f a.run) (g a.run)) : Leaves visiting (write >>= f) (a >>= g) := by
  unfold Leaves at *
  rw [StateT.run_bind, ha]
  exact hf

theorem mapM {f : α → StateM Visiting β} {g : α → Id β} {as : List α} (h : ∀ x ∈ as, Leaves visiting (f x) (g x)) :
    Leaves visiting (as.mapM f) (as.mapM g) := by
  induction as with
  | nil => exact .pure []
  | cons x as ih =>
    rw [List.mapM_cons, List.mapM_cons]
    refine (h x List.mem_cons_self).bind (Leaves.bind (ih fun y hy => ?_) (.pure _))
    exact h y (List.mem_cons_of_mem x hy)

/-- Something is written around each of the texts. -/
theorem mapM_around {f : α → StateM Visiting β} {g : α → Id β} {as : List α} (around : α → β → String)
    (h : ∀ x ∈ as, Leaves visiting (f x) (g x)) :
    Leaves visiting (as.mapM fun x => return around x (← f x)) (as.mapM fun x => return around x (← g x)) :=
  .mapM fun x hx => (h x hx).bind (.pure _)

end Leaves

def Signature.types (s : Signature) : List TypeRef := s.parameters ++ s.rest.toList ++ [s.result]

namespace Catalog

variable (c : Catalog)

def written : Descriptor → List TypeRef
  | .union members none | .intersection members none => members
  | .object none (some shape) =>
    shape.numericIndex.toList ++ shape.stringIndex.toList ++
      (shape.callSignatures ++ shape.constructSignatures).flatMap (fun s => (c.signature s).types) ++
      shape.properties.toList.map fun p => p.2.type
  | _ => []

def writtenLevel (level : Nat) (d : Descriptor) : Nat := if d.isBlock then level + 1 else level

section
variable {c} {visiting : Visiting} {text : TypeRef → Id String}

theorem leaves_signature {f : TypeRef → StateM Visiting String} {s : SignatureRef}
    (h : ∀ t ∈ (c.signature s).types, Leaves visiting (f t) (text t)) :
    Leaves visiting (c.signatureTextWith f s) (c.signatureTextWith text s) := by
  have hrest : ∀ t ∈ (c.signature s).rest.toList, Leaves visiting (f t) (text t) := by
    intro t ht
    exact h t (List.mem_append_left _ (List.mem_append_right _ ht))
  refine (Leaves.mapM fun t ht => h t ?_).bind ((Leaves.mapM_around _ hrest).bind ((h _ ?_).bind (.pure _)))
  · simp [Signature.types, ht]
  · simp [Signature.types]

theorem leaves_descriptor {f : Nat → TypeRef → StateM Visiting String} {level : Nat} {d : Descriptor}
    (h : ∀ t ∈ c.written d, Leaves visiting (f (writtenLevel level d) t) (text t)) :
    Leaves visiting (c.descriptorTextWith f level d) (c.descriptorTextWith (fun _ => text) level d) := by
  cases d with
  | union members name | intersection members name =>
    cases name with
    | some name => exact .pure name
    | none => exact (Leaves.mapM h).bind (.pure _)
  | object name shape =>
    cases name with
    | some name => exact .pure name
    | none =>
      cases shape with
      | none => exact .pure _
      | some shape =>
        have hcalls : ∀ s ∈ shape.callSignatures ++ shape.constructSignatures,
            Leaves visiting (c.signatureTextWith (f (level + 1)) s) (c.signatureTextWith text s) := by
          intro s hs
          refine leaves_signature fun t ht => h t ?_
          simp only [written, List.mem_append, List.mem_flatMap] at hs ⊢
          exact .inl (.inr ⟨s, hs, ht⟩)
        refine (Leaves.mapM_around _ fun t ht => h t ?_).bind ((Leaves.mapM_around _ fun t ht => h t ?_).bind
          ((Leaves.mapM_around _ fun s hs => hcalls s ?_).bind ((Leaves.mapM_around _ fun s hs => hcalls s ?_).bind
            ((Leaves.mapM_around _ fun p hp => h p.2.type ?_).bind (.pure _)))))
        · simp [written, ht]
        · simp [written, ht]
        · exact List.mem_append_left _ hs
        · exact List.mem_append_right _ hs
        · simp only [written, List.mem_append, List.mem_map]
          exact .inr ⟨p, hp, rfl⟩
  | _ => exact .pure _

end
section
variable {visiting : Visiting} {t : TypeRef} {write : StateM Visiting String}

theorem leaves_whileOpen {text : String} (ht : t ∉ visiting) (hwrite : Leaves (t :: visiting) write text) :
    Leaves visiting (whileOpen t write) text := by
  have hopen : (openType t).run visiting = (false, t :: visiting) := if_neg ht
  have hclose : (closeType t).run (t :: visiting) = ((), visiting) := by
    change ((), (t :: visiting).erase t) = _
    rw [List.erase_cons_head]
  unfold Leaves whileOpen at *
  rw [StateT.run_bind, hopen]
  change (do let text ← write; closeType t; return text : StateM Visiting String).run (t :: visiting) = _
  rw [StateT.run_bind, hwrite]
  change (do closeType t; return text : StateM Visiting String).run (t :: visiting) = _
  rw [StateT.run_bind, hclose]
  rfl

theorem leaves_marker (ht : t ∈ visiting) : Leaves visiting (whileOpen t write) circularTypeMarker := by
  have hopen : (openType t).run visiting = (true, visiting) := if_pos ht
  unfold Leaves whileOpen
  simp only [StateT.run_bind, hopen]
  rfl

end

/-! ## What can be opened still -/

def unopened (visiting : Visiting) : Nat := ((Finset.range c.types.size).filter fun i => ⟨i⟩ ∉ visiting).card

def within (visiting : Visiting) (t : TypeRef) : Visiting := if (c.get t).isBlock then t :: visiting else visiting

variable {c} {visiting : Visiting} {t u : TypeRef} {level : Nat}

theorem unopened_cons_lt (hblock : (c.get t).isBlock = true) (ht : t ∉ visiting) :
    c.unopened (t :: visiting) < c.unopened visiting := by
  have hlt : t.index < c.types.size := by
    by_contra hout
    simp [Catalog.get, Array.getD, hout, Descriptor.isBlock] at hblock
  refine Finset.card_lt_card (Finset.ssubset_iff_of_subset ?_ |>.mpr ⟨t.index, by simp [hlt, ht], by simp⟩)
  refine Finset.monotone_filter_right _ fun i _ hi hold => ?_
  exact hi (List.mem_cons_of_mem t hold)

theorem part_of_written (hu : u ∈ c.written (c.get t)) (hblock : (c.get t).isBlock = false) : c.Part t u := by
  cases hd : c.get t with
  | union members name =>
    rw [hd] at hu
    cases name with
    | some name => cases hu
    | none => exact ⟨by simp [Catalog.tag, hd, Descriptor.tag], union_mem_refs hu hd⟩
  | intersection members name =>
    rw [hd] at hu
    cases name with
    | some name => cases hu
    | none => exact ⟨by simp [Catalog.tag, hd, Descriptor.tag], intersection_mem_refs hu hd⟩
  | object name shape =>
    rw [hd] at hu hblock
    cases name with
    | some name => cases hu
    | none =>
      cases shape with
      | none => cases hu
      | some shape => cases hblock
  | _ => rw [hd] at hu; cases hu

/-- What is left to open counts for more than all unions and intersections around each other. -/
theorem Contractive.depth_lt (hc : c.Contractive) (hu : u ∈ c.written (c.get t))
    (hopen : (c.get t).isBlock = true → t ∉ visiting) :
    c.unopened (c.within visiting t) * (c.types.size + 1) + c.rank u <
      c.unopened visiting * (c.types.size + 1) + c.rank t := by
  cases hblock : (c.get t).isBlock with
  | false =>
    rw [within, hblock, if_neg Bool.false_ne_true]
    exact Nat.add_lt_add_left (hc.rank_lt (part_of_written hu hblock)) _
  | true =>
    have hfewer := Nat.mul_le_mul_right (c.types.size + 1) (unopened_cons_lt hblock (hopen hblock))
    have hrank := c.rank_le u
    rw [within, hblock, if_pos rfl]
    rw [Nat.succ_mul] at hfewer
    omega

theorem depth_lt_textBudget (visiting : Visiting) (t : TypeRef) :
    c.unopened visiting * (c.types.size + 1) + c.rank t < c.textBudget := by
  have hunopened : c.unopened visiting ≤ c.types.size := by
    have hle := Finset.card_filter_le (Finset.range c.types.size) fun i => (⟨i⟩ : TypeRef) ∉ visiting
    rwa [Finset.card_range] at hle
  have hmul := Nat.mul_le_mul_right (c.types.size + 1) hunopened
  have hrank := c.rank_le t
  have hbudget : c.textBudget = c.types.size * (c.types.size + 1) + (c.types.size + 1) + (c.types.size + 1) := by
    rw [textBudget, Nat.mul_succ, Nat.succ_mul]
  omega

/-! ## Texts and what a reader comes to in them -/

/-- A type that a reader comes to, inside of others of which the nearest is the first, and whether there is a marker in
its place. -/
structure Visit where
  path : List TypeRef
  type : TypeRef
  marked : Bool

def fullText (c : Catalog) (level : Nat) (text : TypeRef → String) (t : TypeRef) : String :=
  (c.descriptorTextWith (m := Id) (fun _ => text) level (c.get t)).run

/-- The text of a type inside of others, and the types that a reader comes to in it. -/
inductive Writes (c : Catalog) : List TypeRef → Nat → TypeRef → String → List Visit → Prop
  | marker {path level t} : Writes c path level t circularTypeMarker [⟨path, t, true⟩]
  | full {path level t} {text : TypeRef → String} {visits : TypeRef → List Visit} :
    (∀ u ∈ c.written (c.get t), Writes c (t :: path) (writtenLevel level (c.get t)) u (text u) (visits u)) →
    Writes c path level t (c.fullText level text t) (⟨path, t, false⟩ :: (c.written (c.get t)).flatMap visits)

/-- There is a marker exactly where the type is an unnamed object type that is open, in the formatter from before or
around this place. -/
def Visit.Right (c : Catalog) (visiting : Visiting) (x : Visit) : Prop :=
  x.marked = true ↔ (c.get x.type).isBlock = true ∧ (x.type ∈ visiting ∨ x.type ∈ x.path)

theorem typeTextWithin_leaves {budget : Nat} {text : TypeRef → String}
    (hopen : (c.get t).isBlock = true → t ∉ visiting)
    (h : ∀ u ∈ c.written (c.get t),
      Leaves (c.within visiting t) (c.typeTextWithin budget (writtenLevel level (c.get t)) u) (text u)) :
    Leaves visiting (c.typeTextWithin (budget + 1) level t) (c.fullText level text t) := by
  have hwrite : Leaves _ (c.descriptorTextWith (c.typeTextWithin budget) level (c.get t)) _ := leaves_descriptor h
  unfold typeTextWithin
  cases hblock : (c.get t).isBlock with
  | false =>
    rw [within, hblock, if_neg Bool.false_ne_true] at hwrite
    rw [if_neg Bool.false_ne_true]
    exact hwrite
  | true =>
    rw [within, hblock, if_pos rfl] at hwrite
    rw [if_pos rfl]
    exact leaves_whileOpen (hopen hblock) hwrite

/-- The induction is on what is left to open and the nesting of unions and intersections. `before` was open when the
formatter started. -/
theorem exists_writes (hc : c.Contractive) (before : Visiting) {n : Nat} {path : List TypeRef}
    (hn : c.unopened visiting * (c.types.size + 1) + c.rank t ≤ n)
    (hvisiting : ∀ u, (c.get u).isBlock = true → (u ∈ visiting ↔ u ∈ before ∨ u ∈ path)) :
    ∃ text visits, Writes c path level t text visits ∧ (∀ x ∈ visits, x.Right c before) ∧
      ∀ budget, n < budget → Leaves visiting (c.typeTextWithin budget level t) text := by
  induction n using Nat.strongRecOn generalizing visiting t level path with
  | ind n ih =>
    by_cases hmarked : (c.get t).isBlock = true ∧ t ∈ visiting
    · obtain ⟨hblock, ht⟩ := hmarked
      refine ⟨_, _, .marker, ?_, fun budget hbudget => ?_⟩
      · intro x hx
        rw [List.mem_singleton] at hx
        subst hx
        exact iff_of_true rfl ⟨hblock, (hvisiting t hblock).mp ht⟩
      · obtain ⟨budget, rfl⟩ : ∃ b, budget = b + 1 := ⟨budget - 1, by omega⟩
        unfold typeTextWithin
        rw [if_pos hblock]
        exact leaves_marker ht
    · have hopen : (c.get t).isBlock = true → t ∉ visiting := fun hblock ht => hmarked ⟨hblock, ht⟩
      have hinside : ∀ u, (c.get u).isBlock = true → (u ∈ c.within visiting t ↔ u ∈ before ∨ u ∈ t :: path) := by
        intro u hu
        rw [List.mem_cons, or_left_comm, ← hvisiting u hu, within]
        split
        · rw [List.mem_cons]
        · rename_i hblock
          have hne : u ≠ t := fun heq => hblock (heq ▸ hu)
          simp [hne]
      have hparts : ∀ u ∈ c.written (c.get t), ∃ text visits,
          Writes c (t :: path) (writtenLevel level (c.get t)) u text visits ∧ (∀ x ∈ visits, x.Right c before) ∧
            ∀ budget, n ≤ budget →
              Leaves (c.within visiting t) (c.typeTextWithin budget (writtenLevel level (c.get t)) u) text := by
        intro u hu
        have hlt := Nat.lt_of_lt_of_le (hc.depth_lt hu hopen) hn
        obtain ⟨text, visits, hw, hright, hrun⟩ := ih _ hlt (Nat.le_refl _) hinside
        exact ⟨text, visits, hw, hright, fun budget hbudget => hrun budget (Nat.lt_of_lt_of_le hlt hbudget)⟩
      choose! text visits hw hright hrun using hparts
      refine ⟨_, _, .full hw, ?_, fun budget hbudget => ?_⟩
      · intro x hx
        obtain rfl | hx := List.mem_cons.mp hx
        · refine iff_of_false Bool.false_ne_true ?_
          rintro ⟨hblock, ht⟩
          exact hopen hblock ((hvisiting t hblock).mpr ht)
        · obtain ⟨u, hu, hx⟩ := List.mem_flatMap.mp hx
          exact hright u hu x hx
      · obtain ⟨budget, rfl⟩ : ∃ b, budget = b + 1 := ⟨budget - 1, by omega⟩
        exact typeTextWithin_leaves hopen fun u hu => hrun u hu budget (by omega)

/-! ## Markers and cycles -/

/-- The first type is unnamed, and the text of the second is part of its text. -/
def Shows (c : Catalog) (t u : TypeRef) : Prop := u ∈ c.written (c.get t)

section
variable {path : List TypeRef} {text : String} {visits : List Visit} (hw : Writes c path level t text visits)
include hw

theorem Writes.visits_root : ∃ marked, ⟨path, t, marked⟩ ∈ visits := by
  cases hw with
  | marker => exact ⟨true, List.mem_singleton_self _⟩
  | full => exact ⟨false, List.mem_cons_self⟩

theorem Writes.visits_inside {x : Visit} (hx : x ∈ visits) (hfull : x.marked ≠ true) (hu : c.Shows x.type u) :
    ∃ marked, ⟨x.type :: x.path, u, marked⟩ ∈ visits := by
  induction hw with
  | marker =>
    rw [List.mem_singleton] at hx
    subst hx
    exact absurd rfl hfull
  | full hparts ih =>
    obtain rfl | hx := List.mem_cons.mp hx
    · obtain ⟨marked, hmem⟩ := (hparts u hu).visits_root
      exact ⟨marked, List.mem_cons_of_mem _ (List.mem_flatMap_of_mem hu hmem)⟩
    · obtain ⟨v, hv, hx⟩ := List.mem_flatMap.mp hx
      obtain ⟨marked, hmem⟩ := ih v hv hx
      exact ⟨marked, List.mem_cons_of_mem _ (List.mem_flatMap_of_mem hv hmem)⟩

theorem Writes.shown (hpath : ∀ a ∈ path, TransGen c.Shows a t) {x : Visit} (hx : x ∈ visits) :
    ReflTransGen c.Shows t x.type ∧ ∀ a ∈ x.path, TransGen c.Shows a x.type := by
  induction hw with
  | marker =>
    rw [List.mem_singleton] at hx
    subst hx
    exact ⟨.refl, hpath⟩
  | @full path level t _ _ hparts ih =>
    obtain rfl | hx := List.mem_cons.mp hx
    · exact ⟨.refl, hpath⟩
    · obtain ⟨u, hu, hx⟩ := List.mem_flatMap.mp hx
      have hinside : ∀ a ∈ t :: path, TransGen c.Shows a u := by
        intro a ha
        obtain rfl | ha := List.mem_cons.mp ha
        · exact .single hu
        · exact (hpath a ha).tail hu
      obtain ⟨hreach, habove⟩ := ih u hu hinside hx
      exact ⟨.head hu hreach, habove⟩

/-- A reader who follows what is shown comes to a marker or to the end of the way. -/
theorem Writes.follow {x : Visit} (hx : x ∈ visits) {o : TypeRef} (ho : ReflTransGen c.Shows x.type o) :
    (∃ y ∈ visits, y.marked = true) ∨ ∃ y ∈ visits, y.type = o ∧ x.path ⊆ y.path := by
  induction ho with
  | refl => exact .inr ⟨x, hx, rfl, fun _ ha => ha⟩
  | tail _ hstep ih =>
    obtain hmarked | ⟨y, hy, rfl, hsub⟩ := ih
    · exact .inl hmarked
    by_cases hfull : y.marked = true
    · exact .inl ⟨y, hy, hfull⟩
    · obtain ⟨marked, hmem⟩ := hw.visits_inside hy hfull hstep
      exact .inr ⟨_, hmem, rfl, fun a ha => List.mem_cons_of_mem _ (hsub ha)⟩

end

/-- A fresh formatter writes a marker exactly if an unnamed object type that is shown shows itself. -/
theorem Writes.marked_iff {text : String} {visits : List Visit} (hw : Writes c [] level t text visits)
    (hright : ∀ x ∈ visits, x.Right c []) : (∃ x ∈ visits, x.marked = true) ↔
      ∃ o shape, c.get o = .object none shape ∧ ReflTransGen c.Shows t o ∧ TransGen c.Shows o o := by
  constructor
  · rintro ⟨x, hx, hmarked⟩
    obtain ⟨hblock, hnone | hopen⟩ := (hright x hx).mp hmarked
    · cases hnone
    obtain ⟨hreach, habove⟩ := hw.shown nofun hx
    have hshape : ∃ shape, c.get x.type = .object none shape := by
      unfold Descriptor.isBlock at hblock
      split at hblock
      · exact ⟨_, ‹_›⟩
      · cases hblock
    obtain ⟨shape, hshape⟩ := hshape
    exact ⟨x.type, shape, hshape, hreach, habove _ hopen⟩
  · rintro ⟨o, shape, hshape, hreach, hcycle⟩
    obtain ⟨marked, hroot⟩ := hw.visits_root
    obtain hmarked | ⟨x, hx, rfl, -⟩ := hw.follow hroot hreach
    · exact hmarked
    by_cases hfull : x.marked = true
    · exact ⟨x, hx, hfull⟩
    -- once around the cycle, and the type is found inside itself
    obtain ⟨u, hu, hback⟩ := TransGen.head'_iff.mp hcycle
    obtain ⟨marked, hmem⟩ := hw.visits_inside hx hfull hu
    obtain hmarked | ⟨y, hy, hsame, hsub⟩ := hw.follow hmem hback
    · exact hmarked
    have hblock : (c.get y.type).isBlock = true := by
      rw [hsame, hshape]
      cases shape with
      | some shape => rfl
      | none =>
        rw [Shows, hshape] at hu
        cases hu
    refine ⟨y, hy, (hright y hy).mpr ⟨hblock, .inr (hsub ?_)⟩⟩
    rw [hsame]
    exact List.mem_cons_self

/-! ## Types and signatures -/

section
variable (c)

def format : Handle → StateM Visiting String
  | .type t => c.formatType t
  | .signature s => c.formatSignature s

def text : Handle → String
  | .type t => c.typeText t
  | .signature s => c.signatureText s

/-- The types that stand in the text, next to each other. -/
def roots : Handle → List TypeRef
  | .type t => [t]
  | .signature s => (c.signature s).types

def frame (text : TypeRef → String) : Handle → String
  | .type t => text t
  | .signature s => (c.signatureTextWith (m := Id) text s).run

end

theorem leaves_format {text : TypeRef → String} {g : Handle}
    (h : ∀ t ∈ c.roots g, Leaves visiting (c.formatType t) (text t)) : Leaves visiting (c.format g) (c.frame text g) := by
  cases g with
  | type t => exact h t (List.mem_singleton_self t)
  | signature s => exact leaves_signature h

/-- A formatter in any state writes a text in which the markers are right, with every budget from `textBudget` on. -/
theorem Contractive.writes (hc : c.Contractive) (visiting : Visiting) (t : TypeRef) :
    ∃ text visits, Writes c [] 0 t text visits ∧ (∀ x ∈ visits, x.Right c visiting) ∧
      ∀ budget, c.textBudget ≤ budget → Leaves visiting (c.typeTextWithin budget 0 t) text := by
  have hsame : ∀ u, (c.get u).isBlock = true → (u ∈ visiting ↔ u ∈ visiting ∨ u ∈ []) := by simp
  obtain ⟨text, visits, hw, hright, hrun⟩ : ∃ text visits, Writes c [] 0 t text visits ∧ _ ∧ _ :=
    exists_writes hc visiting (Nat.le_refl _) hsame
  refine ⟨text, visits, hw, hright, fun budget hbudget => hrun budget ?_⟩
  exact Nat.lt_of_lt_of_le (depth_lt_textBudget visiting t) hbudget

/-- A formatter is left as it was, and a fresh one is fresh again. -/
theorem Contractive.format_again (hc : c.Contractive) (items : List Handle) :
    (items.mapM c.format).run [] = (items.map c.text, []) := by
  choose text visits hw hright hrun using hc.writes []
  have hitem : ∀ g ∈ items, Leaves [] (c.format g) (pure (c.text g)) := by
    intro g _
    have hleaves := leaves_format (g := g) fun t _ => hrun t c.textBudget (Nat.le_refl _)
    have htext : c.text g = c.frame text g := by
      cases g with
      | type t => exact congrArg Prod.fst hleaves
      | signature s => exact congrArg Prod.fst hleaves
    rw [htext]
    exact hleaves
  have hall := Leaves.mapM hitem
  rw [List.mapM_pure] at hall
  exact hall

end Catalog

end TypeContracts
