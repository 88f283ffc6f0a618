import TypeContracts.Proofs.Call.History
import TypeContracts.Proofs.Conformance.Denials

/-!
# Worlds in which a judgment is never denied

An engine may be in use while descriptors are still being made. A history of
this kind is a sequence of steps, each about descriptors that are there when it
is taken (`World.Step`). None of them leads to a no to a judgment that supports
itself once all is there, and neither does anything that is done afterwards.
-/

namespace TypeContracts

open Compatibility (Spares resolve_spared)
open Relation (ReflTransGen)

/-! ## Histories with descriptors in the making -/

namespace Catalog

def Holds (c : Catalog) : Handle → Prop
  | .type t => t.index < c.types.size
  | .signature x => x.index < c.signatures.size

instance (c : Catalog) (g : Handle) : Decidable (c.Holds g) :=
  match g with
  | .type t => inferInstanceAs (Decidable (t.index < c.types.size))
  | .signature x => inferInstanceAs (Decidable (x.index < c.signatures.size))

def Closed (c : Catalog) : Prop := ∀ g, c.Holds g → ∀ g' ∈ c.refs g, c.Holds g'

theorem closed_of_indices {c : Catalog} (htypes : ∀ i < c.types.size, ∀ g ∈ c.refs (.type ⟨i⟩), c.Holds g)
    (hsignatures : ∀ i < c.signatures.size, ∀ g ∈ c.refs (.signature ⟨i⟩), c.Holds g) : c.Closed := by
  intro g hg
  cases g with
  | type t => exact htypes t.index hg
  | signature x => exact hsignatures x.index hg

theorem Grows.refines {c₀ c : Catalog} (h : c₀.Grows c) {g : Handle} (hg : c₀.Holds g) : c₀.Refines c g := by
  cases g with
  | type t => exact h.get hg
  | signature x => exact h.signature hg

end Catalog

/-- One thing that happens to an engine and its surroundings. Questions are about descriptors that are there. -/
inductive World.Step : World → World → Prop
  | judge (w j) : w.catalog.Closed → w.catalog.Holds (Judgment.source j) → w.catalog.Holds j.target →
      Step w { w with context := stateAfter (Compatibility.resolve w.catalog j w.context) }
  | check (w v t) : w.catalog.Closed → w.catalog.Holds (.type t) →
      (∀ f, ∀ tag ∈ (w.heap.function f).tag, w.catalog.Holds (.type tag)) →
      Step w { w with context := stateAfter (Conformance.isType w.catalog w.heap v t w.context) }
  | draw (w g) : Step w { w with context.identities := (w.context.identities.assign g).2 }
  | reset (w) : Step w { w with context.engine := w.context.engine.reset }
  | note (w journal notifies) :
      Step w { w with context := { w.context with engine := { w.context.engine with notifies }, journal } }
  | build {w c} : w.catalog.Grows c → Step w { w with catalog := c }
  | write (w heap) : Step w { w with heap }

def World.Attained (options : Options) (w : World) : Prop :=
  ∃ filter c h, ReflTransGen World.Step (World.fresh options filter c h) w

theorem World.Step.move {w w' : World} (h : w.Step w') : w.Move w' := by
  cases h with
  | judge j => exact .inside (.judge w.context j)
  | check v t => exact .inside (.check w.context v t)
  | draw g => exact .inside (.draw w.context g)
  | reset => exact .inside (.reset w.context)
  | note journal notifies => exact .inside (.note w.context journal notifies)
  | build hgrows => exact .build hgrows
  | write heap => exact .write w heap

theorem World.Move.grows {w w' : World} (h : w.Move w') :
    w.catalog.Grows w'.catalog ∧ w.context.identities.Grows w'.context.identities := by
  cases h with
  | inside hm => exact ⟨.refl _, hm.grows⟩
  | build hgrows => exact ⟨hgrows, .refl _⟩
  | write heap => exact ⟨.refl _, .refl _⟩

section
variable {T : Set Judgment} {strict : Bool} {s : Context} (hs : Spares T strict s)
include hs

theorem Compatibility.Spares.draw (g : Handle) (hroom : (s.identities.assign g).2.HasRoom) :
    Spares T strict { s with identities := (s.identities.assign g).2 } :=
  hs.of_cache rfl (s.identities.grows_assign g) (hs.identities.assign hroom) fun _ => rfl

theorem Compatibility.Spares.reset : Spares T strict { s with engine := s.engine.reset } :=
  ⟨hs.options, hs.identities, fun hp => by simp [Engine.reset, Cache.peek] at hp⟩

theorem Compatibility.Spares.note (journal : Log.Journal) (notifies : Bool) :
    Spares T strict { s with engine := { s.engine with notifies }, journal } :=
  hs.of_cache rfl (.refl _) hs.identities fun _ => rfl

end

section
variable {T : Set Judgment} {options : Options} {c : Catalog}
  (hT : T ⊆ Compatibility.rules c options.strictNullableSources T)
include hT

theorem World.Step.spares {w w' : World} (h : w.Step w') (hgrows : w.catalog.Grows c)
    (hroom : w'.context.identities.HasRoom) (hs : Spares T options.strictNullableSources w.context) :
    Spares T options.strictNullableSources w'.context := by
  have hrefines : ∀ g, w.catalog.Holds g → w.catalog.Refines c g := fun g hg => hgrows.refines hg
  cases h with
  | judge j hclosed hsource htarget =>
    exact (resolve_spared hT hclosed hrefines hsource htarget).keeps hs hroom
  | check v t hclosed ht htags => exact (Conformance.keeps_isType hT hclosed hrefines htags v ht).keeps hs hroom
  | draw g => exact hs.draw g hroom
  | reset => exact hs.reset
  | note journal notifies => exact hs.note journal notifies
  | build => exact hs
  | write heap => exact hs

theorem World.Attained.spares {w : World} (hw : w.Attained options) (hgrows : w.catalog.Grows c)
    (hroom : w.context.identities.HasRoom) : Spares T options.strictNullableSources w.context := by
  obtain ⟨filter, c₀, h, hsteps⟩ := hw
  induction hsteps with
  | refl =>
    refine ⟨rfl, Identities.sound_empty, fun hp => ?_⟩
    simp [World.fresh, World.create, Engine.create, Cache.peek] at hp
  | tail _ hstep ih =>
    obtain ⟨hcatalog, hids⟩ := hstep.move.grows
    exact hstep.spares hT (hcatalog.trans hgrows) hroom (ih (hcatalog.trans hgrows) (hids.hasRoom hroom))

/-- Once the catalog is complete, questions may be about anything. -/
theorem Context.Move.spares {h : Heap} {s s' : Context} (hm : Context.Move c h s s')
    (hroom : s'.identities.HasRoom) (hs : Spares T options.strictNullableSources s) :
    Spares T options.strictNullableSources s' := by
  cases hm with
  | judge j => exact (Compatibility.resolve_spared_complete hT j).keeps hs hroom
  | check v t =>
    have hkeeps := Conformance.keeps_isType (S := Set.univ) (h := h) hT (by simp) (fun g _ => .refl c g) (by simp) v
      (Set.mem_univ (Handle.type t))
    exact hkeeps.keeps hs hroom
  | draw g => exact hs.draw g hroom
  | reset => exact hs.reset
  | note journal notifies => exact hs.note journal notifies

theorem World.Reachable.spares {w₀ w : World} (hw : w₀.Reachable w) (h₀ : w₀.catalog = c) (hcatalog : w.catalog = c)
    (hstart : w₀.context.identities.HasRoom → Spares T options.strictNullableSources w₀.context)
    (hroom : w.context.identities.HasRoom) : Spares T options.strictNullableSources w.context := by
  subst h₀
  exact hw.keeps hcatalog hroom hstart fun hm hroom hs => hm.spares hT hroom hs

end

end TypeContracts
