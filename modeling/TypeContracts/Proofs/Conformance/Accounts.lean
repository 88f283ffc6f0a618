import TypeContracts.Proofs.Conformance.Ending
import TypeContracts.Proofs.Engine.Ledger

/-!
# Questions keep the books

Every question makes entries in the books of its engine and leaves as many
judgments in progress as it has found. The guard denies an attempt exactly if
the question fails for that reason: the first denial ends it, and the budget of
the recursion is never what ends it.
-/

namespace TypeContracts

open Relation (ReflTransGen)

/-- How many attempts to begin a judgment have been denied in a question that ends so. -/
def denialsOf {α : Type} : Except Failure α → Nat
  | .ok _ => 0
  | .error e => if e = .recursionLimit .relatingTypes then 1 else 0

/-- So many judgments are in progress, under the limit of the options. -/
structure Poised (o : Options) (depth : Nat) (s : Context) : Prop where
  options : s.engine.options = o
  limits : s.engine.subtypeGuard.limits = o.subtypeProfile.limits
  synced : s.engine.subtypeGuard.Synced
  depth : s.engine.subtypeGuard.depth = depth

section
variable {o : Options} {depth : Nat} {s s' : Context}

theorem Poised.follows (hs : Poised o depth s) (hf : s.Follows s') : Poised o depth s' where
  options := hf.options.trans hs.options
  limits := hf.subtypeGuard.limits.trans hs.limits
  synced := hf.subtypeGuard.synced hs.synced
  depth := (hf.subtypeGuard.depth hs.synced).trans hs.depth

theorem Poised.begun (hs : Poised o depth s) {key : JudgmentKey}
    (ha : (s.engine.subtypeGuard.renewed.enter key).1 = .entered) (ids : Identities) (journal : Log.Journal) :
    depth < o.subtypeProfile.limits.maxDepth.toNat ∧ Poised o (depth + 1) ⟨s.engine.begun key, ids, journal⟩ := by
  have hrenewed := s.engine.subtypeGuard.restored_renewed
  obtain ⟨hlimits, hdepth, hsynced, -⟩ := Guard.entered ha
  have hlt := Guard.depth_lt_of_entered ha
  rw [hrenewed.depth hs.synced, hs.depth] at hdepth hlt
  rw [hrenewed.limits, hs.limits] at hlimits hlt
  exact ⟨hlt, hs.options, hlimits, hsynced (hrenewed.synced hs.synced), hdepth⟩

end

/-- Whatever is in progress and has been denied before, the check is a sequence of entries and leaves the books with
the denial by which it fails, if it does. -/
structure Accounted (o : Options) (depth : Nat) {α : Type} (m : Check α) : Prop where
  follows : ∀ s : Context, s.Follows (stateAfter (m s))
  ticks : ∀ {s}, Poised o depth s → ∀ n d, ReflTransGen Ledger.Tick ⟨s.engine, n, d⟩
    ⟨(stateAfter (m s)).engine, n, d + denialsOf (outcome (m s))⟩

namespace Accounted

variable {o : Options} {depth : Nat} {α β : Type}

theorem pure (a : α) : Accounted o depth (Pure.pure a : Check α) := ⟨.refl, fun _ _ _ => .refl⟩

theorem throw {e : Failure} (he : e ≠ .recursionLimit .relatingTypes) :
    Accounted o depth (MonadExcept.throw e : Check α) := by
  refine ⟨.refl, fun {s} _ n d => ?_⟩
  change ReflTransGen Ledger.Tick _ ⟨s.engine, n, d + if e = .recursionLimit .relatingTypes then 1 else 0⟩
  rw [if_neg he]
  exact .refl

theorem bind {m : Check α} {f : α → Check β} (hm : Accounted o depth m) (hf : ∀ a, Accounted o depth (f a)) :
    Accounted o depth (m >>= f) := by
  refine ⟨fun s => ?_, fun {s} hs n d => ?_⟩
  · have hfirst := hm.follows s
    simp only [Bind.bind, EStateM.bind]
    cases hr : m s with
    | ok a s' => rw [hr] at hfirst; exact hfirst.trans ((hf a).follows s')
    | error e s' => rw [hr] at hfirst; exact hfirst
  · have hfirst := hm.ticks hs n d
    have hfollows := hm.follows s
    simp only [Bind.bind, EStateM.bind]
    cases hr : m s with
    | ok a s' =>
      rw [hr] at hfirst hfollows
      exact hfirst.trans ((hf a).ticks (hs.follows hfollows) n d)
    | error e s' => rw [hr] at hfirst; exact hfirst

theorem get {f : Context → Check α} (hf : ∀ s, Accounted o depth (f s)) : Accounted o depth (MonadState.get >>= f) :=
  ⟨fun s => (hf s).follows s, fun {s} hs => (hf s).ticks hs⟩

theorem compositional (o : Options) (depth : Nat) :
    Compositional { e | e ≠ .recursionLimit .relatingTypes } fun m : Check Bool => Accounted o depth m :=
  ⟨pure, throw, bind⟩

/-! ## Judgments -/

/-- Below a judgment that can be begun, one more is in progress. -/
theorem judge {m : Check Bool} (hfollows : ∀ s : Context, s.Follows (stateAfter (m s)))
    (hm : depth < o.subtypeProfile.limits.maxDepth.toNat → Accounted o (depth + 1) m) (j : Judgment) :
    Accounted o depth (Check.judge j m) := by
  refine ⟨Check.judge_follows hfollows, fun {s} hs n d => ?_⟩
  have hj := Check.judge_judged j m s
  generalize Check.judge j m s = r at hj ⊢
  cases hj with
  | hit journal hk hp => exact .single (.found hp)
  | assumed journal hk hp ha => exact .single (.assumed hp ha)
  | denied journal hk hp ha => exact .single (.denied hp ha)
  | @computed key ids b s' journal journal' hk hp ha hr =>
    obtain ⟨hlt, hbegun⟩ := hs.begun ha ids journal
    have hinner := (hm hlt).ticks hbegun (n + 1) d
    rw [hr] at hinner
    exact (ReflTransGen.single (.begun hp ha)).trans (hinner.tail (.answered _ b))
  | @failed key ids e s' journal hk hp ha hr =>
    obtain ⟨hlt, hbegun⟩ := hs.begun ha ids journal
    have hinner := (hm hlt).ticks hbegun (n + 1) d
    rw [hr] at hinner
    exact (ReflTransGen.single (.begun hp ha)).trans (hinner.tail .abandoned)

/-- With a budget that reaches up to the limit of the guard, the guard is what ends the recursion. -/
theorem resolveWithin {c : Catalog} {strict : Bool} {budget : Nat}
    (hbudget : o.subtypeProfile.limits.maxDepth.toNat ≤ budget + depth) (j : Judgment) :
    Accounted o depth (Compatibility.resolveWithin c strict budget j) := by
  induction budget generalizing depth j with
  | zero =>
    unfold Compatibility.resolveWithin
    split
    · exact pure true
    · refine judge (fun s => ?_) (fun hlt => by omega) j
      exact .refl s
  | succ budget ih =>
    unfold Compatibility.resolveWithin
    split
    · exact pure true
    · have hrule : Accounted o (depth + 1)
          (Compatibility.rule c (Compatibility.resolveWithin c strict budget) strict j) :=
        Compatibility.rule_of_asked (compositional o (depth + 1)) strict (fun k _ => ih (by omega) k)
          fun e he => Compatibility.not_limit_of_failures he _
      exact judge hrule.follows (fun _ => hrule) j

theorem resolve (c : Catalog) (j : Judgment) : Accounted o depth (Compatibility.resolve c j) := by
  refine ⟨Compatibility.resolve_follows c j, fun {s} hs n d => ?_⟩
  have hbudget : o.subtypeProfile.limits.maxDepth.toNat ≤
      s.engine.options.subtypeProfile.limits.maxDepth.toNat + depth := by
    rw [hs.options]
    omega
  exact (resolveWithin hbudget j).ticks hs n d

/-! ## Value checks -/

theorem guarded {value : Nat} {t : TypeRef} {m : Check Bool} (hm : Accounted o depth m) :
    Accounted o depth (Conformance.guarded value t m) := by
  refine ⟨Conformance.guarded_follows hm.follows, fun {s} hs n d => ?_⟩
  have hg := Conformance.guarded_guarded value t m s
  generalize Conformance.guarded value t m s = r at hg ⊢
  cases hg with
  | assumed journal hi ha => exact .single (.uncounted _ _)
  | denied hi ha => exact .single (.uncounted _ _)
  | @computed i ids b s' hi ha hr =>
    have hinner := hm.ticks (s := ⟨s.engine.valueTried ⟨value, i⟩, ids, s.journal⟩)
      ⟨hs.options, hs.limits, hs.synced, hs.depth⟩ n d
    rw [hr] at hinner
    exact (ReflTransGen.single (.uncounted _ _)).trans (hinner.tail (.uncounted _ _))
  | @failed i ids e s' hi ha hr =>
    have hinner := hm.ticks (s := ⟨s.engine.valueTried ⟨value, i⟩, ids, s.journal⟩)
      ⟨hs.options, hs.limits, hs.synced, hs.depth⟩ n d
    rw [hr] at hinner
    exact (ReflTransGen.single (.uncounted _ _)).trans (hinner.tail (.uncounted _ _))

theorem isType (c : Catalog) (h : Heap) (v : Value) (t : TypeRef) :
    Accounted o depth (Conformance.isType c h v t) := by
  refine Conformance.isType_of_parts (S := Set.univ) (V := Set.univ) (compositional o depth) (by simp) (by simp) ?_
    (fun _ _ _ _ hm => hm.guarded) (fun _ _ _ _ => resolve c _) (by simp) (fun _ hf => get hf) (by simp) (by simp)
  rintro u e - hblames rfl
  exact hblames

end Accounted

end TypeContracts
