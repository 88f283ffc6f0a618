import TypeContracts.Proofs.Call.Boundary
import TypeContracts.Proofs.Call.Course
import TypeContracts.Proofs.Call.Unread
import TypeContracts.Proofs.Conformance.Ending
import TypeContracts.Proofs.Conformance.Likeness

/-!
# Tags can be used

A registration first asks for the shape of its type, then draws the identity, and
writes the tag last. Nothing else writes a tag, shapes stay as they are once they
are there, and identities are kept. So a tag that is found anywhere in a run is a
defined object type that has its identity (`World.Visited.tagged`), and a check
that starts from a tag has to go on from it to fail for a descriptor.
-/

namespace TypeContracts

open Relation (ReflTransGen)

/-! ## Registration -/

theorem Catalog.Grows.shape {c d : Catalog} (hgrows : c.Grows d) {t : TypeRef} {shape : Shape}
    (hshape : c.shape t = .ok shape) : d.shape t = .ok shape := by
  have hlt : t.index < c.types.size := by
    obtain ⟨name, hget⟩ := Catalog.shape_eq_ok.mp hshape
    by_contra hout
    simp [Catalog.get, Array.getD, hout] at hget
  have hrefines : c.Refines d (.type t) := hgrows.refines hlt
  exact hrefines.shape hshape

theorem Heap.tag_setTag {h : Heap} {r f : FunctionRef} {t tag : TypeRef}
    (hf : ((h.setTag r t).function f).tag = some tag) : tag = t ∨ (h.function f).tag = some tag := by
  by_cases hlt : f.index < h.functions.size
  · rw [setTag, function_modifyFunction h r f _ hlt] at hf
    split at hf
    · exact .inl (Option.some.inj hf).symm
    · exact .inr hf
  · simp [setTag, modifyFunction, function, Array.getD, hlt, default] at hf

theorem Heap.tag_setTag_self {h : Heap} {r : FunctionRef} (hr : r.index < h.functions.size) (t : TypeRef) :
    ((h.setTag r t).function r).tag = some t := by
  rw [setTag, function_modifyFunction h r r _ hr, if_pos rfl]

def World.registered (w : World) (t : TypeRef) (f : FunctionRef) : World :=
  let (identity, identities) := w.context.identities.assign (.type t)
  { w with
    heap := w.heap.setTag f t
    context := { w.context with
      identities
      journal := w.context.journal.record (.registering identity (w.heap.function f).name) } }

section
variable {w : World} {t : TypeRef}

theorem Action.registerType_of_shape {shape : Shape} (hshape : w.catalog.shape t = .ok shape) (f : FunctionRef) :
    registerType t f w = .ok f (w.registered t f) := by
  simp only [registerType, check, hshape, Check.ofExcept, Bind.bind, EStateM.bind]
  rfl

theorem Action.registerType_of_error {e : Failure} (hshape : w.catalog.shape t = .error e) (f : FunctionRef) :
    registerType t f w = .error e w := by
  simp only [registerType, check, hshape, Check.ofExcept, Bind.bind, EStateM.bind]
  rfl

end

/-! ## Runs -/

/-- What may happen to a world, where a tag is attached to a function only if it is the type of a shape. Engines
share the descriptors, the values and the identities, so another one may take over. -/
inductive World.Change : World → World → Prop
  | inside {w s} : Context.Move w.catalog w.heap w.context s → Change w { w with context := s }
  | build {w c} : w.catalog.Grows c → Change w { w with catalog := c }
  | write {w heap} : w.heap.SameTags heap → Change w { w with heap }
  | register {w t shape} (f) : w.catalog.shape t = .ok shape → Change w (w.registered t f)
  | turn (w engine journal) : Change w { w with context := { w.context with engine, journal } }

theorem World.Change.steps :
    Action.Steps (fun c h _ m => Makes (Context.Move c h) m) fun _ m => Makes World.Change m where
  toFrame := Makes.frame .inside .build
  modifyHeap f hf := .single fun w => .write (hf w.heap)
  registerType t f := by
    intro w
    cases hshape : w.catalog.shape t with
    | ok shape =>
      rw [Action.registerType_of_shape hshape]
      exact .single (.register f hshape)
    | error e =>
      rw [Action.registerType_of_error hshape]
      exact .refl

/-- Worlds to which requests lead, whether they succeed or fail, those in the middle of a call included. Any engine
may be the one that is asked next. -/
inductive World.Visited (start : World) : World → Prop
  | start : Visited start start
  | performed {w} (budget : Nat) (r : Request) : Visited start w →
      Visited start (stateAfter (Action.performWithin budget r w))
  | during {w} {budget : Nat} {r : Request} {x : Moment} : Visited start w → x ∈ Action.course budget r w →
      Visited start x.world
  | turned {w} (engine : Engine) (journal : Log.Journal) : Visited start w →
      Visited start { w with context := { w.context with engine, journal } }

theorem World.Visited.changes {start w : World} (hw : start.Visited w) : ReflTransGen World.Change start w := by
  have hcharts (budget : Nat) (r : Request) :
      Charts World.Change (fun _ => True) (Action.performWithin budget r) (Action.course budget r) :=
    .performWithin World.Change.steps (fun _ => .reset .inside) budget r
  induction hw with
  | start => exact .refl
  | performed budget r _ ih => exact ih.trans (hcharts budget r _ fun _ _ _ => trivial).1
  | during _ hx ih => exact ih.trans ((hcharts _ _ _ fun _ _ _ => trivial).2 _ hx)
  | turned engine journal _ ih => exact ih.tail (.turn _ engine journal)

theorem World.Visited.after {start w : World} (hw : start.Visited w) (budget : Nat) (requests : List Request) :
    start.Visited (w.after budget requests) := by
  induction requests generalizing w with
  | nil => exact hw
  | cons r requests ih => exact ih (hw.performed budget r)

theorem World.Visited.grows {w w' : World} (hw : w.Visited w') : w.catalog.Grows w'.catalog := by
  have hchanges := hw.changes
  clear hw
  induction hchanges with
  | refl => exact .refl _
  | tail _ hchange ih =>
    cases hchange with
    | build hgrows => exact ih.trans hgrows
    | inside | write | register | turn => exact ih

/-! ## Tagged functions -/

theorem Context.Move.sound {c : Catalog} {h : Heap} {s s' : Context} (hm : Context.Move c h s s')
    (hs : s.identities.Sound) (hroom : s'.identities.HasRoom) : s'.identities.Sound := by
  cases hm with
  | judge j => exact (Insensitive.resolve c j).keeps hs hroom
  | check v t => exact (Insensitive.isType c h v t).keeps hs hroom
  | draw g => exact hs.assign hroom
  | reset => exact hs
  | note journal notifies => exact hs

/-- Every tag is a defined object type. As long as not all identities have been given out, it has one. -/
structure World.Tagged (w : World) : Prop where
  sound : w.context.identities.HasRoom → w.context.identities.Sound
  defined : ∀ {f tag}, (w.heap.function f).tag = some tag → ∃ shape, w.catalog.shape tag = .ok shape
  identified : ∀ {f tag}, w.context.identities.HasRoom → (w.heap.function f).tag = some tag →
    ∃ i, w.context.identities.find? (.type tag) = some i

namespace World.Tagged

theorem create (options : Options) (filter : Log.Filter) : (World.create options filter).Tagged where
  sound _ := Identities.sound_empty
  defined hf := by simp [World.create, Heap.function, default] at hf
  identified _ hf := by simp [World.create, Heap.function, default] at hf

theorem registered {w : World} (hw : w.Tagged) {t : TypeRef} {shape : Shape} (hshape : w.catalog.shape t = .ok shape)
    (f : FunctionRef) : (w.registered t f).Tagged := by
  have hgrows := w.context.identities.grows_assign (.type t)
  refine ⟨fun hroom => ?_, fun {f' tag} hf => ?_, fun {f' tag} hroom hf => ?_⟩
  · exact (hw.sound (hgrows.hasRoom hroom)).assign hroom
  · obtain rfl | hf := Heap.tag_setTag hf
    · exact ⟨shape, hshape⟩
    · exact hw.defined hf
  · have hbefore := hgrows.hasRoom hroom
    obtain rfl | hf := Heap.tag_setTag hf
    · exact ⟨_, Identities.find?_assign_self (hw.sound hbefore) hroom⟩
    · obtain ⟨i, hi⟩ := hw.identified hbefore hf
      exact ⟨i, hgrows.keeps hi⟩

theorem change {w w' : World} (hw : w.Tagged) (hchange : w.Change w') : w'.Tagged := by
  cases hchange with
  | inside hm =>
    refine ⟨fun hroom => ?_, hw.defined, fun hroom hf => ?_⟩
    · exact hm.sound (hw.sound (hm.grows.hasRoom hroom)) hroom
    · obtain ⟨i, hi⟩ := hw.identified (hm.grows.hasRoom hroom) hf
      exact ⟨i, hm.grows.keeps hi⟩
  | build hgrows =>
    refine ⟨hw.sound, fun hf => ?_, hw.identified⟩
    obtain ⟨shape, hshape⟩ := hw.defined hf
    exact ⟨shape, hgrows.shape hshape⟩
  | write hsame =>
    refine ⟨hw.sound, fun {f tag} hf => ?_, fun {f tag} hroom hf => ?_⟩
    · exact hw.defined ((hsame f).symm.trans hf)
    · exact hw.identified hroom ((hsame f).symm.trans hf)
  | register f hshape => exact hw.registered hshape f
  | turn engine journal => exact ⟨hw.sound, hw.defined, hw.identified⟩

end World.Tagged

theorem World.Visited.tagged {options : Options} {filter : Log.Filter} {w : World}
    (hw : (World.create options filter).Visited w) : w.Tagged := by
  have hchanges := hw.changes
  clear hw
  induction hchanges with
  | refl => exact .create options filter
  | tail _ hchange ih => exact ih.change hchange

/-! ## Checks that start from a tag -/

section
variable {c : Catalog} {h : Heap} {tag : TypeRef} {own : Shape}

theorem Catalog.shape_of_blames {u : TypeRef} {cause : Malformation} (hblames : c.Blames u (.malformed cause)) :
    c.shape u = .error (.malformed cause) := by
  cases cause with
  | undefinedObject name => simp only [Catalog.shape, show c.get u = .object name none from hblames]
  | _ => exact hblames.elim

theorem Compatibility.tagMatches_malformed (hown : c.shape tag = .ok own) {target : TypeRef} {s s' : Context}
    {cause : Malformation} (hrun : tagMatches c tag target s = .error (.malformed cause) s') :
    ∃ u ∈ c.reachedTypes {.type tag, .type target}, c.shape u = .error (.malformed cause) := by
  have hj : Judgment.functionTag tag target ∈ between (c.reached {.type tag, .type target}) :=
    ⟨Catalog.mem_reached (.inl rfl), Catalog.mem_reached (.inr rfl)⟩
  obtain hlimit | ⟨k, hk, he⟩ :=
    resolveWithin_error (askClosed_insert Catalog.reached_closed hj) (Set.mem_insert _ _) hrun
  · cases hlimit
  obtain rfl | hk := hk
  · obtain he | he := he
    · rw [hown] at he
      cases he
    · exact ⟨target, Catalog.mem_reached (.inr rfl), he⟩
  · obtain ⟨u, hu, hblames⟩ := blames_of_failures hk he
    exact ⟨u, hu, Catalog.shape_of_blames hblames⟩

theorem Catalog.slot_reached (hown : c.shape tag = .ok own) {roots : Set Handle} (htag : .type tag ∈ roots)
    {x : SignatureRef} (hx : x ∈ own.callSignatures ++ own.constructSignatures) {arguments : List Value}
    {p : Value × TypeRef} (hp : p ∈ (c.signature x).slots arguments) : .type p.2 ∈ c.reached roots := by
  have hsignature : .signature x ∈ c.refs (.type tag) := by
    rw [Catalog.refs_of_shape hown]
    obtain hx | hx := List.mem_append.mp hx
    · exact Shape.call_mem_refs hx
    · exact Shape.construct_mem_refs hx
  have htype : .type p.2 ∈ c.refs (.signature x) := by
    obtain ⟨i, -, hi⟩ := hp
    cases hi with
    | declared hi => exact Signature.parameter_mem_refs (List.mem_of_getElem? hi)
    | rest _ hi => exact Signature.rest_mem_refs hi
  exact Catalog.reached_closed _ (Catalog.reached_closed _ (Catalog.mem_reached htag) _ hsignature) _ htype

theorem checkBoundary_malformed (hdefined : ∀ f, ∀ tag ∈ (h.function f).tag, ∃ shape, c.shape tag = .ok shape)
    (hown : c.shape tag = .ok own) {arguments : List Value} {s : Context} {cause : Malformation}
    (hrun : outcome (checkBoundary c h tag arguments s) = .error (.malformed cause)) :
    ∃ u ∈ c.reachedTypes (insert (.type tag) { g | ∃ v ∈ arguments, g ∈ h.tags v }),
      c.shape u = .error (.malformed cause) := by
  have haccepts : outcome (acceptsCall c h tag arguments s) = .error (.malformed cause) := by
    apply toldOf_injective
    rw [← (checkBoundary_run tag arguments s).1, hrun]
    rfl
  obtain ⟨tree, htree, -, hasks, hfails⟩ := acceptsCall_inquires c h hown arguments
  have htree := htree ()
  dsimp only at htree
  rw [htree] at haccepts
  obtain ⟨answers, s₁, -, ⟨hfail, -⟩ | ⟨p, hp, hask⟩⟩ := Inquiry.run_error (outcome_eq_error.mp haccepts)
  · exact (hfails _ hfail).elim
  obtain ⟨_, hmem, hslot⟩ := hasks p hp
  obtain ⟨x, hx, rfl⟩ := List.mem_map.mp hmem
  have htags : ∀ tag', .type tag' ∈ h.tags p.1 → ∃ shape, c.shape tag' = .ok shape := by
    rintro tag' ⟨f, -, _, hf, ⟨⟩⟩
    exact hdefined f _ hf
  obtain ⟨u, hu, hblames⟩ | ⟨activity, hlimit⟩ := Conformance.failsFor_isType htags _ _ _ hask
  · refine ⟨u, Catalog.reached_subset ?_ Catalog.reached_closed hu, Catalog.shape_of_blames hblames⟩
    rintro g (rfl | hg)
    · exact Catalog.slot_reached hown (.inl rfl) hx hslot
    · obtain ⟨i, hi, -⟩ := hslot
      exact Catalog.mem_reached (.inr ⟨p.1, List.mem_of_getElem? hi, hg⟩)
  · cases hlimit

end

/-- Wherever a run has come to, a tag is a defined object type, and has its identity unless all have been given out.
A registration that fails changes nothing, and a shape that is there stays. So where a call boundary or a question
about a tag fails for a descriptor, it is one that can be reached from there, and not a tag. -/
theorem tags_usable {options : Options} {filter : Log.Filter} {w : World}
    (hw : (World.create options filter).Visited w) :
    (∀ f tag, (w.heap.function f).tag = some tag → (∃ shape, w.catalog.shape tag = .ok shape) ∧
      (w.context.identities.HasRoom → ∃ i, w.context.identities.find? (.type tag) = some i)) ∧
    (∀ t f e w', Action.registerType t f w = .error e w' → w' = w) ∧
    (∀ t f shape, w.catalog.shape t = .ok shape → ∃ w', Action.registerType t f w = .ok f w' ∧
      (f.index < w.heap.functions.size → (w'.heap.function f).tag = some t)) ∧
    (∀ w', w.Visited w' → ∀ t shape, w.catalog.shape t = .ok shape → w'.catalog.shape t = .ok shape) ∧
    ∀ f tag, (w.heap.function f).tag = some tag → ∀ s cause,
      (∀ arguments, outcome (checkBoundary w.catalog w.heap tag arguments s) = .error (.malformed cause) →
        ∃ u ∈ w.catalog.reachedTypes (insert (.type tag) { g | ∃ v ∈ arguments, g ∈ w.heap.tags v }),
          w.catalog.shape u = .error (.malformed cause) ∧ ∀ f', (w.heap.function f').tag ≠ some u) ∧
      ∀ target, outcome (Compatibility.tagMatches w.catalog tag target s) = .error (.malformed cause) →
        ∃ u ∈ w.catalog.reachedTypes {.type tag, .type target},
          w.catalog.shape u = .error (.malformed cause) ∧ ∀ f', (w.heap.function f').tag ≠ some u := by
  have htagged := hw.tagged
  have huntagged : ∀ {u e}, w.catalog.shape u = .error e → ∀ f', (w.heap.function f').tag ≠ some u := by
    intro u e hu f' hf'
    obtain ⟨shape, hshape⟩ := htagged.defined hf'
    rw [hshape] at hu
    cases hu
  refine ⟨fun f tag hf => ⟨htagged.defined hf, fun hroom => htagged.identified hroom hf⟩, ?_, ?_, ?_, ?_⟩
  · intro t f e w' hrun
    cases hshape : w.catalog.shape t with
    | ok shape =>
      rw [Action.registerType_of_shape hshape] at hrun
      cases hrun
    | error e' =>
      rw [Action.registerType_of_error hshape] at hrun
      cases hrun
      rfl
  · intro t f shape hshape
    exact ⟨_, Action.registerType_of_shape hshape f, fun hf => Heap.tag_setTag_self hf t⟩
  · exact fun w' hw' t shape hshape => hw'.grows.shape hshape
  · intro f tag hf s cause
    obtain ⟨own, hown⟩ := htagged.defined hf
    constructor
    · intro arguments hrun
      obtain ⟨u, hu, hshape⟩ := checkBoundary_malformed (fun f tag hf => htagged.defined hf) hown hrun
      exact ⟨u, hu, hshape, huntagged hshape⟩
    · intro target hrun
      obtain ⟨u, hu, hshape⟩ := Compatibility.tagMatches_malformed hown (outcome_eq_error.mp hrun)
      exact ⟨u, hu, hshape, huntagged hshape⟩

/-- Function 0 registers type 0 for itself whenever it is called: while the type is only declared, and again when it
is defined. The parameter of the type's signature is still without a shape in the end. -/
def lateRegistration : List Request := [
  .newFunction none none fun _ => .request (.registerType ⟨0⟩ ⟨0⟩),
  .newObject [] none,
  .addType (.object (some "Job") none),
  .apply ⟨0⟩ .undefined [],
  .addType (.object (some "Task") none),
  .addSignature ⟨[⟨1⟩], 1, none, ⟨1⟩⟩,
  .defineObject ⟨0⟩ { callSignatures := [⟨0⟩] },
  .apply ⟨0⟩ .undefined []]

theorem tags_usable_lateRegistration :
    let w := (World.create {} .silent).after 1 lateRegistration
    let halfway := (World.create {} .silent).after 1 (lateRegistration.take 4)
    (halfway.heap.function ⟨0⟩).tag = none ∧ halfway.context.identities.find? (.type ⟨0⟩) = none ∧
    (w.heap.function ⟨0⟩).tag = some ⟨0⟩ ∧ (∃ i, w.context.identities.find? (.type ⟨0⟩) = some i) ∧
    outcome (checkBoundary w.catalog w.heap ⟨0⟩ [.object ⟨0⟩] w.context) =
      .error (.malformed (.undefinedObject (some "Task"))) ∧
    ∃ u ∈ w.catalog.reachedTypes (insert (.type ⟨0⟩) { g | ∃ v ∈ [Value.object ⟨0⟩], g ∈ w.heap.tags v }),
      w.catalog.shape u = .error (.malformed (.undefinedObject (some "Task"))) ∧
        ∀ f', (w.heap.function f').tag ≠ some u := by
  intro w halfway
  have hw : (World.create {} .silent).Visited w := World.Visited.start.after _ _
  have htag : (w.heap.function ⟨0⟩).tag = some ⟨0⟩ := by decide +kernel
  have hroom : w.context.identities.HasRoom := by decide +kernel
  have hrun : outcome (checkBoundary w.catalog w.heap ⟨0⟩ [.object ⟨0⟩] w.context) =
      .error (.malformed (.undefinedObject (some "Task"))) := by decide +kernel
  refine ⟨by decide +kernel, by decide +kernel, htag, ?_, hrun, ?_⟩
  all_goals
    generalize w = w' at hw htag hroom hrun ⊢
    obtain ⟨htags, -, -, -, hmalformed⟩ := tags_usable hw
  · exact (htags ⟨0⟩ ⟨0⟩ htag).2 hroom
  · exact (hmalformed ⟨0⟩ ⟨0⟩ htag _ _).1 _ hrun

end TypeContracts
