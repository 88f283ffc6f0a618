import TypeContracts.Proofs.Call.Course

/-!
# Guards are empty between questions

A question that fails in the middle of another gives up all that is in progress,
so it leaves the guards as empty as it has found them. A body runs between
questions, and finds them empty too.
-/

namespace TypeContracts

open Relation (ReflTransGen)

section
variable {s s' : Context} {w w' : World}

theorem Context.Move.unguarded {c : Catalog} {h : Heap} (hm : Context.Move c h s s') (hs : s.engine.Unguarded) :
    s'.engine.Unguarded := by
  cases hm with
  | judge j => exact (Compatibility.resolve_follows c j s).unguarded hs
  | check v t => exact (Conformance.isType_follows c h v t s).unguarded hs
  | draw g => exact hs
  | reset => exact ⟨⟨rfl, rfl⟩, rfl, rfl⟩
  | note journal notifies => exact hs

theorem World.unguarded_of_moves (hm : ReflTransGen World.Move w w') (hw : w.context.engine.Unguarded) :
    w'.context.engine.Unguarded := by
  induction hm with
  | refl => exact hw
  | tail _ hm ih =>
    cases hm with
    | inside hm => exact hm.unguarded ih
    | build => exact ih
    | write heap => exact ih

/-- However a request ends and however deep its calls nest, both guards are empty afterwards, and they are so whenever
something is asked for or a body starts in the course of it. Every run of a body has such a start. -/
theorem guards_restored (hw : w.context.engine.Unguarded) (budget : Nat) (r : Request) :
    (stateAfter (Action.performWithin budget r w)).context.engine.Unguarded ∧
    (∀ moment ∈ Action.course budget r w, moment.world.context.engine.Unguarded) ∧
    ∀ f : FunctionRef, f.index < w.heap.functions.size → (stateAfter (Action.performWithin budget r w)).runs f =
      w.runs f + ((Action.course budget r w).filterMap Moment.start?).countP (·.1 == f) := by
  have hcharts : Charts World.Move (fun _ => True) (Action.performWithin budget r) (Action.course budget r) :=
    .performWithin World.Move.parts.steps (fun _ => World.Move.reset) budget r
  obtain ⟨hlast, hat⟩ := hcharts w fun _ _ _ => trivial
  refine ⟨World.unguarded_of_moves hlast hw, fun moment hm => ?_, fun f hf => Action.runs_performWithin budget r w hf⟩
  exact World.unguarded_of_moves (hat moment hm) hw

end

/-- Values may be checked one level deep, and the second object has the first inside. Function 0 wants a list,
function 1 calls it with the second object and calls function 2 when that has failed. -/
def shallowCalls : World :=
  { World.fresh { valueProfile := .custom ⟨1, 0xFFFFFFFF⟩ } .silent
      { endlessLists with
        types := endlessLists.types.push (.object none (some { callSignatures := [⟨0⟩] }))
        signatures := #[{ parameters := [⟨1⟩], mandatory := 1, rest := none, result := ⟨0⟩ }] }
      { ownSuccessor with
        functions := #[
          { tag := some ⟨3⟩ },
          { body := fun _ => .ask (.apply ⟨0⟩ .undefined [.object ⟨1⟩]) fun _ => .request (.apply ⟨2⟩ .undefined []) },
          {}] } with }

theorem guards_restored_shallowCalls :
    let r := Request.apply ⟨1⟩ .undefined []
    let w := stateAfter (Action.performWithin 2 r shallowCalls)
    outcome (Action.isType (.object ⟨1⟩) ⟨1⟩ shallowCalls) = .error (.recursionLimit .checkingValue) ∧
      ((Action.course 2 r shallowCalls).filterMap Moment.start?).map (·.1) = [⟨1⟩, ⟨2⟩] ∧
      (∀ moment ∈ Action.course 2 r shallowCalls, moment.world.context.engine.Unguarded) ∧
      w.context.engine.Unguarded ∧ w.runs ⟨0⟩ = 0 ∧ w.runs ⟨2⟩ = 1 := by
  intro r w
  have hstart : shallowCalls.context.engine.Unguarded := by decide +kernel
  obtain ⟨hlast, hat, hruns⟩ := guards_restored hstart 2 r
  refine ⟨by decide +kernel, by decide +kernel, hat, hlast, ?_, ?_⟩
  · exact (hruns ⟨0⟩ (by decide)).trans (by decide +kernel)
  · exact (hruns ⟨2⟩ (by decide)).trans (by decide +kernel)

end TypeContracts
