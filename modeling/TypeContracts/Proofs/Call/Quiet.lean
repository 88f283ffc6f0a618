import TypeContracts.Call.Boundary
import TypeContracts.Proofs.Compatibility.Rules
import TypeContracts.Proofs.Conformance.Parts

/-!
# Checks that notify nothing

Questions about types and values write events to the journal, but they notify
nothing, and what they fail with is never a violation (`Quiet`). That holds of
every question in every context; only `Check.violate` is not quiet.
-/

namespace TypeContracts

@[simp]
theorem Log.Journal.notices_record (j : Log.Journal) (e : Log.Event) : (j.record e).notices = j.notices := by
  unfold Log.Journal.record
  split <;> rfl

theorem Compatibility.isViolation_of_failures {c : Catalog} {j : Judgment} {e : Failure} (h : e ∈ failures c j) :
    e.isViolation = false := by
  cases j with
  | type s t => exact h.elim Catalog.Blames.isViolation Catalog.Blames.isViolation
  | signature x y => exact h.elim
  | functionTag tag target => exact h.elim Catalog.isViolation_of_shape Catalog.isViolation_of_shape

def acceptsCall (c : Catalog) (h : Heap) (tag : TypeRef) (arguments : List Value) : Check Bool := do
  let shape ← Check.ofExcept (c.shape tag)
  (shape.callSignatures ++ shape.constructSignatures).anyM fun s => signatureAccepts c h (c.signature s) arguments

structure Quiet {α : Type} (m : Check α) : Prop where
  notices : ∀ s, (stateAfter (m s)).journal.notices = s.journal.notices
  notifies : ∀ s, (stateAfter (m s)).engine.notifies = s.engine.notifies
  failure : ∀ {s e s'}, m s = .error e s' → e.isViolation = false

namespace Quiet

variable {α β : Type} {m : Check α}

theorem modifyGet {f : Context → α × Context} (hn : ∀ s, (f s).2.journal.notices = s.journal.notices)
    (he : ∀ s, (f s).2.engine.notifies = s.engine.notifies) : Quiet (MonadStateOf.modifyGet f : Check α) where
  notices := hn
  notifies := he
  failure h := by cases h

theorem pure (a : α) : Quiet (Pure.pure a : Check α) := ⟨fun _ => rfl, fun _ => rfl, fun h => by cases h⟩

theorem throw {e : Failure} (he : e.isViolation = false) : Quiet (MonadExcept.throw e : Check α) where
  notices _ := rfl
  notifies _ := rfl
  failure h := by cases h; exact he

theorem get : Quiet (MonadState.get : Check Context) := ⟨fun _ => rfl, fun _ => rfl, fun h => by cases h⟩

theorem bind {f : α → Check β} (hm : Quiet m) (hf : ∀ a, Quiet (f a)) : Quiet (m >>= f) where
  notices s := by
    have hs := hm.notices s
    simp only [Bind.bind, EStateM.bind]
    cases h : m s with
    | ok a s' => rw [h] at hs; exact ((hf a).notices s').trans hs
    | error e s' => rw [h] at hs; exact hs
  notifies s := by
    have hs := hm.notifies s
    simp only [Bind.bind, EStateM.bind]
    cases h : m s with
    | ok a s' => rw [h] at hs; exact ((hf a).notifies s').trans hs
    | error e s' => rw [h] at hs; exact hs
  failure h := by
    obtain h | ⟨a, s₁, -, h⟩ := bind_error.mp h
    · exact hm.failure h
    · exact (hf a).failure h

theorem ofExcept {r : Except Failure α} (hr : ∀ e, r = .error e → e.isViolation = false) :
    Quiet (Check.ofExcept r) := by
  cases r with
  | ok a => exact pure a
  | error e => exact throw (hr e rfl)

theorem emit (e : Log.Event) : Quiet (Check.emit e) := modifyGet (fun s => s.journal.notices_record e) fun _ => rfl

theorem identity (g : Handle) : Quiet (Check.identity g) := modifyGet (fun _ => rfl) fun _ => rfl

theorem modifyEngine {f : Engine → Engine} (hf : ∀ e, (f e).notifies = e.notifies) : Quiet (Check.modifyEngine f) :=
  modifyGet (fun _ => rfl) fun s => hf s.engine

theorem compositional : Compositional { e | e.isViolation = false } Quiet where
  pure := pure
  throw := throw
  bind := bind

/-- What is done in the end, whether the check fails or not, may be quiet too. -/
theorem leaving (hm : Quiet m) (leave : Context → Context) (hn : ∀ s, (leave s).journal = s.journal)
    (he : ∀ s, (leave s).engine.notifies = s.engine.notifies) {n : Check α}
    (hleave : ∀ s, n s = match m s with
      | .ok a s => .ok a (leave s)
      | .error e s => .error e (leave s)) : Quiet n where
  notices s := by
    have hs := hm.notices s
    rw [hleave]
    cases h : m s <;> rw [h] at hs <;> exact (congrArg Log.Journal.notices (hn _)).trans hs
  notifies s := by
    have hs := hm.notifies s
    rw [hleave]
    cases h : m s <;> rw [h] at hs <;> exact (he _).trans hs
  failure {s e s'} h := by
    rw [hleave] at h
    cases hrun : m s with
    | ok a s₁ => rw [hrun] at h; cases h
    | error e' s₁ => rw [hrun] at h; cases h; exact hm.failure hrun

/-! ## Judgments -/

theorem startQuery (key : JudgmentKey) : Quiet (Check.startQuery key) := by
  refine modifyGet (fun s => ?_) fun s => ?_
  · split
    · exact Log.Journal.notices_record _ _
    · rfl
  · split <;> rfl

theorem endQuery (query : Option Nat) (kind : JudgmentKind) (result cacheHit : Bool) :
    Quiet (Check.endQuery query kind result cacheHit) := by
  cases query with
  | none => exact pure ()
  | some query => exact emit _

theorem assume (query : Option Nat) (key : JudgmentKey) : Quiet (Check.assume query key) := by
  refine bind (modifyEngine ?_) fun _ => ?_
  · exact fun _ => rfl
  cases query with
  | none => exact pure true
  | some query => exact (emit _).bind fun _ => pure true

theorem keep (key : JudgmentKey) (before : Nat) (result : Bool) : Quiet (Check.keep key before result) := by
  refine get.bind fun s => ?_
  dsimp only
  split
  · exact modifyEngine fun _ => rfl
  · exact emit _

theorem judge {compute : Check Bool} (hc : Quiet compute) (j : Judgment) : Quiet (Check.judge j compute) := by
  have hkey : Quiet (Check.keyOf j) := (identity _).bind fun _ => (identity _).bind fun _ => pure _
  refine hkey.bind fun key => (startQuery key).bind fun query => ?_
  have hcached : Quiet (Check.cached key) := modifyGet (fun _ => rfl) fun _ => rfl
  refine hcached.bind fun answer => ?_
  cases answer with
  | some answer => exact (endQuery ..).bind fun _ => pure answer
  | none =>
    have henter : Quiet (Check.enterJudgment key) := modifyGet (fun _ => rfl) fun _ => rfl
    refine henter.bind fun admission => ?_
    cases admission with
    | entered =>
      have hleaving : Quiet (Check.leaving key compute) := by
        refine hc.leaving
          (fun s => { s with engine := { s.engine with subtypeGuard := s.engine.subtypeGuard.leave key } })
          (fun _ => rfl) (fun _ => rfl) fun s => ?_
        unfold Check.leaving
        cases compute s <;> rfl
      refine get.bind fun s => bind (modifyEngine ?_) fun _ => hleaving.bind fun b => ?_
      · exact fun _ => rfl
      · exact (keep ..).bind fun _ => (endQuery ..).bind fun _ => pure b
    | cycle => exact assume query key
    | depthExceeded => exact throw rfl
    | iterationExceeded => exact throw rfl

theorem resolveWithin (c : Catalog) (strict : Bool) (budget : Nat) (j : Judgment) :
    Quiet (Compatibility.resolveWithin c strict budget j) := by
  induction budget generalizing j with
  | zero =>
    unfold Compatibility.resolveWithin
    split
    · exact pure true
    · exact (throw rfl).judge j
  | succ budget ih =>
    unfold Compatibility.resolveWithin
    split
    · exact pure true
    · refine (Compatibility.rule_of_asked compositional strict (fun k _ => ih k) fun e he => ?_).judge j
      exact Compatibility.isViolation_of_failures he

theorem resolve (c : Catalog) (j : Judgment) : Quiet (Compatibility.resolve c j) :=
  get.bind fun _ => resolveWithin c _ _ j

/-! ## Value checks -/

theorem guarded {compute : Check Bool} (hc : Quiet compute) (value : Nat) (t : TypeRef) :
    Quiet (Conformance.guarded value t compute) := by
  refine (identity _).bind fun type => ?_
  have henter : Quiet (Conformance.enterCheck ⟨value, type⟩) := modifyGet (fun _ => rfl) fun _ => rfl
  refine henter.bind fun admission => ?_
  cases admission with
  | entered =>
    refine hc.leaving
      (fun s => { s with engine := { s.engine with valueGuard := s.engine.valueGuard.leave ⟨value, type⟩ } })
      (fun _ => rfl) (fun _ => rfl) fun s => ?_
    dsimp only [Conformance.leaving]
    cases compute s <;> rfl
  | cycle => exact (emit _).bind fun _ => pure true
  | depthExceeded => exact throw rfl
  | iterationExceeded => exact throw rfl

theorem isType (c : Catalog) (h : Heap) (v : Value) (t : TypeRef) : Quiet (Conformance.isType c h v t) :=
  Conformance.isType_of_parts (S := Set.univ) (V := Set.univ) compositional (by simp) (by simp)
    (fun _ hb => hb.isViolation) (fun _ _ _ _ hm => hm.guarded _ _) (fun _ _ _ _ => resolve c _) rfl
    (fun _ hf => get.bind hf) (fun _ => Set.mem_univ _) (Set.mem_univ _)

/-! ## Calls -/

theorem argumentsConform (c : Catalog) (h : Heap) (s : Signature) (index : Nat) (arguments : List Value) :
    Quiet (TypeContracts.argumentsConform c h s index arguments) := by
  induction arguments generalizing index with
  | nil => exact pure true
  | cons v rest ih =>
    unfold TypeContracts.argumentsConform
    split
    · exact pure true
    · refine (isType ..).bind fun b => ?_
      cases b with
      | true => exact ih (index + 1)
      | false => exact pure false

theorem signatureAccepts (c : Catalog) (h : Heap) (s : Signature) (arguments : List Value) :
    Quiet (TypeContracts.signatureAccepts c h s arguments) := by
  unfold TypeContracts.signatureAccepts
  split
  · exact pure false
  · exact argumentsConform c h s 0 arguments

theorem acceptsCall (c : Catalog) (h : Heap) (tag : TypeRef) (arguments : List Value) :
    Quiet (TypeContracts.acceptsCall c h tag arguments) := by
  refine (ofExcept fun e => Catalog.isViolation_of_shape).bind fun shape => ?_
  exact compositional.anyM fun s _ => signatureAccepts c h _ arguments

end Quiet

/-- A violation is notified when it is made, if anything is. -/
theorem Check.violate_run {α : Type} (message : String) (location : Location) (s : Context) :
    ∃ journal, (violate message location : Check α) s = .error (.violation ⟨message, location⟩) { s with journal } ∧
      journal.notices =
        if s.engine.notifies then s.journal.notices.push (message, location) else s.journal.notices := by
  have hrun : (violate message location : Check α) s = .error (.violation ⟨message, location⟩)
      (if s.engine.notifies then
        { s with journal := (s.journal.record (.violation location)).notify message location }
      else { s with journal := s.journal.record (.violation location) }) := rfl
  rw [hrun]
  split
  · exact ⟨_, rfl, by simp [Log.Journal.notify]⟩
  · exact ⟨_, rfl, by simp⟩

end TypeContracts
