import TypeContracts.Proofs.Call.Parts
import TypeContracts.Proofs.Compatibility.Unrolling
import TypeContracts.Proofs.Conformance.Parts
import TypeContracts.Proofs.Conformance.Verdicts

/-!
# The journal is never read

What is written to the journal, and whether it is written at all, has no effect
on anything else. Two worlds that differ in their journals only give the same
answers to all requests, and go on to differ in their journals only
(`World.Twin.run`).
-/

namespace TypeContracts

/-! ## Computations that do not tell states apart -/

def Respects {ε σ α : Type} (R : σ → σ → Prop) (m : EStateM ε σ α) : Prop :=
  ∀ s s', R s s' → Parallel R (m s) (m s')

namespace Respects

variable {ε σ α β : Type} {R : σ → σ → Prop} {m : EStateM ε σ α}

theorem pure (a : α) : Respects R (Pure.pure a : EStateM ε σ α) := fun _ _ h => .ok h

theorem throw (e : ε) : Respects R (MonadExcept.throw e : EStateM ε σ α) := fun _ _ h => .error h

theorem bind {f : α → EStateM ε σ β} (hm : Respects R m) (hf : ∀ a, Respects R (f a)) : Respects R (m >>= f) := by
  intro s s' h
  have hends := hm s s' h
  simp only [Bind.bind, EStateM.bind]
  generalize m s = r at hends ⊢
  generalize m s' = r' at hends ⊢
  cases hends with
  | ok h => exact hf _ _ _ h
  | error h => exact .error h

theorem sequential : Sequential fun (α : Type) (m : EStateM ε σ α) => Respects R m := ⟨pure, throw, bind⟩

end Respects

/-! ## Checks -/

/-- The contexts differ in their journals only. -/
structure Context.Twin (s s' : Context) : Prop where
  engine : s'.engine = s.engine
  identities : s'.identities = s.identities

namespace Respects

variable {α : Type}

/-- Options are no part of the journal. -/
theorem read {f : Options → Check α} (hf : ∀ o, Respects Context.Twin (f o)) :
    Respects Context.Twin (do f (← MonadState.get).engine.options : Check α) := by
  intro s s' h
  have hrun : ∀ s : Context, (do f (← MonadState.get).engine.options : Check α) s = f s.engine.options s := fun _ => rfl
  rw [hrun, hrun, h.engine]
  exact hf _ s s' h

theorem compositional : Compositional Set.univ fun m : Check Bool => Respects Context.Twin m :=
  ⟨pure, fun _ => throw _, bind⟩

theorem judge {m : Check Bool} (hm : Respects Context.Twin m) (j : Judgment) :
    Respects Context.Twin (Check.judge j m) := by
  intro s s' h
  rcases hk : s.identities.keyed j with ⟨key, ids⟩
  have hk' : s'.identities.keyed j = (key, ids) := by rw [h.identities, hk]
  rw [Check.judge_run j m s hk, Check.judge_run j m s' hk', h.engine]
  cases s.engine.cache.peek key with
  | some b => exact .ok ⟨rfl, rfl⟩
  | none =>
    cases (s.engine.subtypeGuard.renewed.enter key).1 with
    | cycle => exact .ok ⟨rfl, rfl⟩
    | depthExceeded | iterationExceeded => exact .error ⟨rfl, rfl⟩
    | entered =>
      dsimp only
      have hends := hm ⟨s.engine.begun key, ids, s.journal.asked key⟩ ⟨s.engine.begun key, ids, s'.journal.asked key⟩
        ⟨rfl, rfl⟩
      generalize m ⟨s.engine.begun key, ids, s.journal.asked key⟩ = r at hends ⊢
      generalize m ⟨s.engine.begun key, ids, s'.journal.asked key⟩ = r' at hends ⊢
      cases hends with
      | ok h =>
        refine .ok ⟨?_, h.identities⟩
        dsimp only
        rw [h.engine]
      | error h =>
        refine .error ⟨?_, h.identities⟩
        dsimp only
        rw [h.engine]

theorem resolve (c : Catalog) (j : Judgment) : Respects Context.Twin (Compatibility.resolve c j) := by
  refine read (f := fun o =>
    Compatibility.resolveWithin c o.strictNullableSources o.subtypeProfile.limits.maxDepth.toNat j) fun o => ?_
  refine Compatibility.resolveWithin_of_judge (P := fun _ m => Respects Context.Twin m) (Compatibility.askClosed_univ c)
    (fun _ => pure true) ?_ (fun j _ _ => (throw _).judge j) _ (Set.mem_univ j)
  intro j ask _ _ ha
  exact (Compatibility.rule_of_asked compositional _ ha (Set.subset_univ _)).judge j

theorem guarded {m : Check Bool} (hm : Respects Context.Twin m) (value : Nat) (t : TypeRef) :
    Respects Context.Twin (Conformance.guarded value t m) := by
  intro s s' h
  rcases hi : s.identities.assign (.type t) with ⟨i, ids⟩
  have hi' : s'.identities.assign (.type t) = (i, ids) := by rw [h.identities, hi]
  rw [Conformance.guarded_run value t m s hi, Conformance.guarded_run value t m s' hi', h.engine]
  cases (s.engine.valueGuard.renewed.enter ⟨value, i⟩).1 with
  | cycle => exact .ok ⟨rfl, rfl⟩
  | depthExceeded | iterationExceeded => exact .error ⟨rfl, rfl⟩
  | entered =>
    dsimp only
    have hends := hm ⟨s.engine.valueTried ⟨value, i⟩, ids, s.journal⟩ ⟨s.engine.valueTried ⟨value, i⟩, ids, s'.journal⟩
      ⟨rfl, rfl⟩
    generalize m ⟨s.engine.valueTried ⟨value, i⟩, ids, s.journal⟩ = r at hends ⊢
    generalize m ⟨s.engine.valueTried ⟨value, i⟩, ids, s'.journal⟩ = r' at hends ⊢
    cases hends with
    | ok h =>
      refine .ok ⟨?_, h.identities⟩
      dsimp only
      rw [h.engine]
    | error h =>
      refine .error ⟨?_, h.identities⟩
      dsimp only
      rw [h.engine]

theorem isType (c : Catalog) (h : Heap) (v : Value) (t : TypeRef) :
    Respects Context.Twin (Conformance.isType c h v t) := by
  refine read (f := fun o =>
    Conformance.checkWithin c h ((o.valueProfile.limits.maxDepth.toNat + 1) * (c.types.size + 2)) v t) fun o => ?_
  exact Conformance.checkWithin_of_parts (S := Set.univ) (V := Set.univ) compositional (by simp) (by simp) (by simp)
    (fun _ _ _ _ hm => hm.guarded _ _) (fun _ _ _ _ => resolve c _) (by simp) _ (by simp) (by simp)

end Respects

theorem Context.Twin.parts (c : Catalog) (h : Heap) : Check.Parts c h fun _ m => Respects Context.Twin m where
  toSequential := Respects.sequential
  resolve := .resolve c
  isType := .isType c h
  identity g := by
    intro s s' hs
    simp only [Check.identity, modifyGet, MonadStateOf.modifyGet, EStateM.modifyGet]
    rw [hs.identities]
    exact .ok ⟨hs.engine, rfl⟩
  emit e _ _ hs := .ok ⟨hs.engine, hs.identities⟩
  notify message location := by
    intro s s' hs
    refine .ok ?_
    dsimp only
    rw [hs.engine]
    split
    · exact ⟨rfl, hs.identities⟩
    · exact hs

/-! ## Requests -/

structure World.Twin (w w' : World) : Prop where
  catalog : w'.catalog = w.catalog
  heap : w'.heap = w.heap
  context : w.context.Twin w'.context

theorem Respects.check {α : Type} {f : Catalog → Heap → Check α} (hf : ∀ c h, Respects Context.Twin (f c h)) :
    Respects World.Twin (Action.check f) := by
  intro w w' h
  have hends := hf w.catalog w.heap _ _ h.context
  unfold Action.check
  rw [h.catalog, h.heap]
  generalize f w.catalog w.heap w.context = r at hends ⊢
  generalize f w.catalog w.heap w'.context = r' at hends ⊢
  cases hends with
  | ok hcontext => exact .ok ⟨rfl, rfl, hcontext⟩
  | error hcontext => exact .error ⟨rfl, rfl, hcontext⟩

theorem Respects.modifyCatalog {α : Type} (f : Catalog → α × Catalog) :
    Respects World.Twin (Action.modifyCatalog f) := by
  intro w w' h
  simp only [Action.modifyCatalog, modifyGet, MonadStateOf.modifyGet, EStateM.modifyGet]
  rw [h.catalog]
  exact .ok ⟨rfl, h.heap, h.context⟩

theorem World.Twin.parts :
    Action.Parts (fun _ _ _ m => Respects Context.Twin m) fun _ m => Respects World.Twin m where
  toSequential := Respects.sequential
  checks := Context.Twin.parts
  check := Respects.check
  addType d := .modifyCatalog _
  addSignature s := .modifyCatalog _
  defineObject t shape := by
    intro w w' h
    unfold Action.defineObject
    rw [h.catalog]
    split
    · exact .ok ⟨rfl, h.heap, h.context⟩
    · exact .error h
  modifyHeap f := by
    intro w w' h
    simp only [Action.modifyHeap, modifyGet, MonadStateOf.modifyGet, EStateM.modifyGet]
    rw [h.heap]
    exact .ok ⟨h.catalog, rfl, h.context⟩
  attempt hm hf w w' h := by
    obtain ⟨hsame, hafter⟩ := (hm w w' h).outcome_eq
    unfold Action.attempt
    rw [hsame]
    exact hf _ _ _ hafter

theorem World.Twin.reset : Respects World.Twin Action.reset :=
  .check fun _ _ _ _ hs => .ok ⟨congrArg Engine.reset hs.engine, hs.identities⟩

namespace World

def after (w : World) (budget : Nat) (requests : List Request) : World :=
  requests.foldl (fun w r => stateAfter (Action.performWithin budget r w)) w

def answers (w : World) (budget : Nat) : List Request → List (Except Failure Answer)
  | [] => []
  | r :: requests =>
    outcome (Action.performWithin budget r w) :: (stateAfter (Action.performWithin budget r w)).answers budget requests

theorem Twin.run {w w' : World} (h : w.Twin w') (budget : Nat) (requests : List Request) :
    w'.answers budget requests = w.answers budget requests ∧
      (w.after budget requests).Twin (w'.after budget requests) := by
  induction requests generalizing w w' with
  | nil => exact ⟨rfl, h⟩
  | cons r requests ih =>
    obtain ⟨hanswer, hnext⟩ := (World.Twin.parts.performWithin World.Twin.reset budget r w w' h).outcome_eq
    obtain ⟨hanswers, hlast⟩ := ih hnext
    refine ⟨?_, hlast⟩
    rw [answers, answers, hanswer, hanswers]

end World

end TypeContracts
