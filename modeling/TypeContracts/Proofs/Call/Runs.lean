import Mathlib.Logic.Relation
import TypeContracts.Proofs.Call.Parts
import TypeContracts.Proofs.Conformance.Verdicts

/-!
# Runs

Whatever is asked of a world, calls of functions with any body included, is a
sequence of a few elementary moves (`World.Move.parts`). So what each move keeps
holds in every world that can be reached, also in the middle of a call.
-/

namespace TypeContracts

open Relation (ReflTransGen)

/-! ## Computations made of moves -/

/-- Every run of `m`, a failed one included, is made of steps of `R`. -/
def Makes {ε σ α : Type} (R : σ → σ → Prop) (m : EStateM ε σ α) : Prop := ∀ s, ReflTransGen R s (stateAfter (m s))

namespace Makes

variable {ε σ α β : Type} {R : σ → σ → Prop} {m : EStateM ε σ α}

theorem pure (a : α) : Makes R (Pure.pure a : EStateM ε σ α) := fun _ => .refl

theorem throw (e : ε) : Makes R (MonadExcept.throw e : EStateM ε σ α) := fun _ => .refl

theorem single (h : ∀ s, R s (stateAfter (m s))) : Makes R m := fun s => .single (h s)

theorem bind {f : α → EStateM ε σ β} (hm : Makes R m) (hf : ∀ a, Makes R (f a)) : Makes R (m >>= f) := by
  intro s
  have hs := hm s
  simp only [Bind.bind, EStateM.bind]
  cases h : m s with
  | ok a s' => rw [h] at hs; exact hs.trans (hf a s')
  | error e s' => rw [h] at hs; exact hs

theorem sequential : Sequential fun (α : Type) (m : EStateM ε σ α) => Makes R m := ⟨pure, throw, bind⟩

end Makes

/-- What a check may do to a context. Identities are drawn by other engines too, and others may write to the
journal. -/
inductive Context.Move (c : Catalog) (h : Heap) : Context → Context → Prop
  | judge (s j) : Move c h s (stateAfter (Compatibility.resolve c j s))
  | check (s v t) : Move c h s (stateAfter (Conformance.isType c h v t s))
  | draw (s g) : Move c h s { s with identities := (s.identities.assign g).2 }
  | reset (s) : Move c h s { s with engine := s.engine.reset }
  | note (s journal notifies) : Move c h s { s with engine := { s.engine with notifies }, journal }

inductive World.Move : World → World → Prop
  | inside {w s} : Context.Move w.catalog w.heap w.context s → Move w { w with context := s }
  | build {w c} : w.catalog.Grows c → Move w { w with catalog := c }
  | write (w heap) : Move w { w with heap }

theorem Context.Move.parts (c : Catalog) (h : Heap) :
    Check.Parts c h fun _ m => Makes (Context.Move c h) m where
  toSequential := Makes.sequential
  resolve j := .single fun s => .judge s j
  isType v t := .single fun s => .check s v t
  identity g := .single fun s => .draw s g
  emit e := .single fun s => .note s _ s.engine.notifies
  notify message location := by
    intro s
    simp only [modify, modifyGet, MonadStateOf.modifyGet, EStateM.modifyGet, stateAfter_ok]
    split
    · exact .single (.note s _ s.engine.notifies)
    · exact .refl

section
variable {M : World → World → Prop}
  (hinside : ∀ {w s}, Context.Move w.catalog w.heap w.context s → M w { w with context := s })
include hinside

theorem Makes.check {α : Type} {f : Catalog → Heap → Check α} (hf : ∀ c h, Makes (Context.Move c h) (f c h)) :
    Makes M (Action.check f) := by
  intro w
  have hlift : ∀ s, ReflTransGen (Context.Move w.catalog w.heap) w.context s →
      ReflTransGen M w { w with context := s } := fun s hs => by
    induction hs with
    | refl => exact .refl
    | tail _ hstep ih => exact ih.tail (hinside (w := { w with context := _ }) hstep)
  have hw := hf w.catalog w.heap w.context
  unfold Action.check
  cases hr : f w.catalog w.heap w.context with
  | ok a s => rw [hr] at hw; exact hlift s hw
  | error e s => rw [hr] at hw; exact hlift s hw

theorem Makes.reset : Makes M Action.reset := .check hinside fun _ _ => .single fun s => .reset s

theorem Makes.frame (hbuild : ∀ {w : World} {c}, w.catalog.Grows c → M w { w with catalog := c }) :
    Action.Frame (fun c h _ m => Makes (Context.Move c h) m) fun _ m => Makes M m where
  toSequential := Makes.sequential
  checks := Context.Move.parts
  check := Makes.check hinside
  addType d := .single fun w => hbuild (.add w.catalog d)
  addSignature s := .single fun w => hbuild (.addSignature w.catalog s)
  defineObject t shape := by
    intro w
    unfold Action.defineObject
    split
    · exact .single (hbuild (.defineObject ‹_›))
    · exact .refl
  attempt hm hf w := (hm w).trans (hf _ _)

end

theorem World.Move.parts : Action.Parts (fun c h _ m => Makes (Context.Move c h) m) fun _ m => Makes World.Move m where
  toFrame := Makes.frame .inside .build
  modifyHeap _ := .single fun w => .write w _

theorem World.Move.reset : Makes World.Move Action.reset := .reset .inside

/-! ## Reachable worlds -/

def World.fresh (options : Options) (filter : Log.Filter) (c : Catalog) (h : Heap) : World :=
  { World.create options filter with catalog := c, heap := h }

/-- Worlds to which requests lead, whether they succeed or fail. Moves alone lead to the middle of a request. -/
inductive World.Reachable (start : World) : World → Prop
  | start : Reachable start start
  | performed {w} (budget : Nat) (r : Request) : Reachable start w →
      Reachable start (stateAfter (Action.performWithin budget r w))
  | moved {w w'} : Reachable start w → World.Move w w' → Reachable start w'

theorem World.Reachable.moves {start w : World} (hw : start.Reachable w) : ReflTransGen World.Move start w := by
  induction hw with
  | start => exact .refl
  | performed budget r _ ih => exact ih.trans (World.Move.parts.performWithin World.Move.reset budget r _)
  | moved _ hm ih => exact ih.tail hm

structure AtRest (c : Catalog) (options : Options) (s : Context) : Prop where
  ready : Conformance.Ready c options.strictNullableSources s
  options : s.engine.options = options
  idle : s.engine.valueGuard.isActive = false

section
variable {c : Catalog} {h : Heap} {options : Options} {s s' : Context}

theorem AtRest.of_follows (hr : AtRest c options s) (hf : s.Follows s')
    (hc : Compatibility.Consistent c options.strictNullableSources s') : AtRest c options s' where
  ready := hr.ready.of_follows hf hc
  options := hf.options.trans hr.options
  idle := by
    rw [← hr.idle]
    simp only [Guard.isActive, hf.valueGuard.depth hr.ready.synced]

theorem atRest_create (c : Catalog) (options : Options) (journal : Log.Journal) :
    AtRest c options ⟨.create options, {}, journal⟩ where
  ready := {
    consistent := Compatibility.consistent_create Identities.sound_empty options journal
    options := rfl
    idle := rfl
    synced := rfl
    visiting := fun hv => by simp [Engine.create, Guard.ofProfile, Guard.isVisiting] at hv }
  options := rfl
  idle := rfl

theorem AtRest.reset (hr : AtRest c options s) : AtRest c options { s with engine := s.engine.reset } where
  ready := {
    consistent := {
      identities := hr.ready.consistent.identities
      synced := rfl
      cached := fun hp => by simp [Engine.reset, Cache.peek] at hp
      visiting := fun hv => by simp [Engine.reset, Guard.reset, Guard.isVisiting] at hv }
    options := hr.ready.options
    idle := rfl
    synced := rfl
    visiting := fun hv => by simp [Engine.reset, Guard.reset, Guard.isVisiting] at hv }
  options := hr.options
  idle := rfl

theorem Context.Move.grows (hm : Context.Move c h s s') : s.identities.Grows s'.identities := by
  cases hm with
  | judge j => exact (Compatibility.resolve_follows c j s).identities
  | check v t => exact (Conformance.isType_follows c h v t s).identities
  | draw g => exact s.identities.grows_assign g
  | reset => exact .refl _
  | note journal notifies => exact .refl _

/-- What every move in a context keeps holds at the end of a run. -/
theorem World.Reachable.invariant {P : Context → Prop} {w₀ w : World} (hw : w₀.Reachable w) (hstart : P w₀.context)
    (hmove : ∀ {c h s s'}, Context.Move c h s s' → P s → P s') : P w.context := by
  have hmoves := hw.moves
  clear hw
  induction hmoves with
  | refl => exact hstart
  | tail _ hm ih =>
    cases hm with
    | inside hm => exact hmove hm ih
    | build => exact ih
    | write heap => exact ih

/-- The same where the descriptors are at the end as they were at the start: only moves with these matter. -/
theorem World.Reachable.keeps {P : Context → Prop} {w₀ w : World} (hw : w₀.Reachable w)
    (hcatalog : w.catalog = w₀.catalog) (hroom : w.context.identities.HasRoom)
    (hstart : w₀.context.identities.HasRoom → P w₀.context)
    (hmove : ∀ {h s s'}, Context.Move w₀.catalog h s s' → s'.identities.HasRoom → P s → P s') : P w.context := by
  suffices hall : w₀.catalog.Grows w.catalog ∧
      (w.catalog = w₀.catalog → w.context.identities.HasRoom → P w.context) from hall.2 hcatalog hroom
  have hmoves := hw.moves
  clear hw hcatalog hroom
  induction hmoves with
  | refl => exact ⟨.refl _, fun _ => hstart⟩
  | tail _ hm ih =>
    obtain ⟨hgrows, hkept⟩ := ih
    cases hm with
    | inside hm =>
      refine ⟨hgrows, fun hcatalog hroom => ?_⟩
      rw [hcatalog] at hm
      exact hmove hm hroom (hkept hcatalog (hm.grows.hasRoom hroom))
    | build hbuild =>
      -- what has grown back into the catalog of the start was that catalog before this step too
      refine ⟨hgrows.trans hbuild, fun hcatalog hroom => ?_⟩
      subst hcatalog
      exact hkept (hbuild.antisymm hgrows) hroom
    | write heap => exact ⟨hgrows, hkept⟩

theorem AtRest.move (hr : AtRest c options s) (hm : Context.Move c h s s') (hroom : s'.identities.HasRoom) :
    AtRest c options s' := by
  cases hm with
  | judge j =>
    exact hr.of_follows (Compatibility.resolve_follows c j s)
      ((Conformance.checks_resolve j).consistent hr.ready hroom)
  | check v t =>
    exact hr.of_follows (Conformance.isType_follows c h v t s) (Conformance.isType_consistent hr.ready hroom)
  | draw g =>
    have hc := hr.ready.consistent
    have hg := s.identities.grows_assign g
    have hf : s.Follows { s with identities := (s.identities.assign g).2 } :=
      ⟨rfl, hg, .refl _, .refl _, Nat.le_refl _⟩
    exact hr.of_follows hf (hc.of_restored (hc.identities.assign hroom) hg (.refl _) fun _ => rfl)
  | reset => exact hr.reset
  | note journal notifies =>
    have hc := hr.ready.consistent
    exact ⟨⟨⟨hc.identities, hc.synced, hc.cached, hc.visiting⟩, hr.ready.options, hr.ready.idle, hr.ready.synced,
      hr.ready.visiting⟩, hr.options, hr.idle⟩

/-- As long as the descriptors stay as they are and there is room for identities, every world that can be
reached has its engine at rest. -/
theorem World.Reachable.atRest {filter : Log.Filter} {w : World}
    (hw : (World.fresh options filter c h).Reachable w) (hcatalog : w.catalog = c)
    (hroom : w.context.identities.HasRoom) : AtRest c options w.context :=
  hw.keeps hcatalog hroom (fun _ => atRest_create c options _) fun hm hroom hr => hr.move hm hroom

end

end TypeContracts
