import TypeContracts.Proofs.Conformance.Parts
import TypeContracts.Proofs.Conformance.Verdicts
import TypeContracts.Proofs.Engine.Turns

/-!
# Looser limits

A guard looks at its limits only to deny an attempt, and a question in which one
is denied fails for that. So a question that does not fail for a limit is
answered in the same way under limits that are at least as large, and does the
same to everything else (`Relaxes`).
-/

namespace TypeContracts

instance : LE Limits := ⟨fun a b => a.maxDepth ≤ b.maxDepth ∧ a.maxIterations ≤ b.maxIterations⟩

instance (a b : Limits) : Decidable (a ≤ b) := inferInstanceAs (Decidable (_ ∧ _))

/-! ## Guards and engines under other limits -/

namespace Guard

variable {κ : Type} [Ord κ]

def under (limits : Limits) (g : Guard κ) : Guard κ := { g with limits }

theorem renewed_under (g : Guard κ) (limits : Limits) : (g.under limits).renewed = g.renewed.under limits := by
  unfold renewed
  by_cases ha : g.isActive = true
  · have ha' : (g.under limits).isActive = true := ha
    rw [if_pos ha, if_pos ha']
  · have ha' : ¬ (g.under limits).isActive = true := ha
    rw [if_neg ha, if_neg ha']
    rfl

theorem admission_under {g : Guard κ} {limits : Limits} (hle : g.limits ≤ limits) (key : κ) :
    (g.admission key).isExceeded = true ∨ (g.under limits).admission key = g.admission key := by
  have hdepth := UInt32.le_iff_toNat_le.mp hle.1
  have hiterations := UInt32.le_iff_toNat_le.mp hle.2
  unfold admission
  by_cases hi : g.limits.maxIterations.toNat < g.iterations
  · rw [if_pos hi]
    exact .inl rfl
  · by_cases hd : g.limits.maxDepth.toNat ≤ g.depth
    · rw [if_neg hi, if_pos hd]
      exact .inl rfl
    · have hi' : ¬ (g.under limits).limits.maxIterations.toNat < (g.under limits).iterations := by
        simp only [under]
        omega
      have hd' : ¬ (g.under limits).limits.maxDepth.toNat ≤ (g.under limits).depth := by
        simp only [under]
        omega
      rw [if_neg hi, if_neg hd, if_neg hi', if_neg hd']
      exact .inr rfl

theorem enter_under {g : Guard κ} {limits : Limits} (hle : g.limits ≤ limits) (key : κ) :
    (g.enter key).1.isExceeded = true ∨
      (g.under limits).enter key = ((g.enter key).1, (g.enter key).2.under limits) := by
  have hcount : (g.under limits).count = g.count.under limits := rfl
  obtain hex | hsame := admission_under (g := g.count) hle key
  · rw [enter_fst]
    exact .inl hex
  · refine .inr (Prod.ext ?_ ?_)
    · rw [enter_fst, enter_fst, hcount, hsame]
    · dsimp only
      rw [enter_snd, enter_snd, hcount, hsame]
      split <;> rfl

end Guard

namespace Engine

def under (p q : Profile) (e : Engine) : Engine :=
  { e with
    options := { e.options with subtypeProfile := p, valueProfile := q }
    subtypeGuard := e.subtypeGuard.under p.limits
    valueGuard := e.valueGuard.under q.limits }

/-- These profiles allow for all that those of the engine do. -/
structure Allowed (p q : Profile) (e : Engine) : Prop where
  subtypeOptions : e.options.subtypeProfile.limits ≤ p.limits
  valueOptions : e.options.valueProfile.limits ≤ q.limits
  subtypeGuard : e.subtypeGuard.limits ≤ p.limits
  valueGuard : e.valueGuard.limits ≤ q.limits

variable {p q : Profile} {e e' : Engine}

theorem Allowed.of_same (h : e.Allowed p q) (hoptions : e'.options = e.options)
    (hsubtype : e'.subtypeGuard.limits = e.subtypeGuard.limits)
    (hvalue : e'.valueGuard.limits = e.valueGuard.limits) : e'.Allowed p q where
  subtypeOptions := hoptions ▸ h.subtypeOptions
  valueOptions := hoptions ▸ h.valueOptions
  subtypeGuard := hsubtype ▸ h.subtypeGuard
  valueGuard := hvalue ▸ h.valueGuard

theorem Allowed.tried (h : e.Allowed p q) (key : JudgmentKey) : (e.tried key).Allowed p q :=
  h.of_same rfl (e.tried_limits key) rfl

theorem Allowed.valueTried (h : e.Allowed p q) (key : ValueCheck) : (e.valueTried key).Allowed p q := by
  refine h.of_same rfl rfl ?_
  exact (Guard.enter_limits _ key).trans e.valueGuard.restored_renewed.limits

theorem Allowed.kept (h : e.Allowed p q) (key : JudgmentKey) (before : Nat) (b : Bool) :
    (e.kept key before b).Allowed p q := by
  refine h.of_same (kept_options ..) ?_ ?_
  · rw [kept_subtypeGuard]
  · rw [kept_valueGuard]

theorem kept_under (key : JudgmentKey) (before : Nat) (b : Bool) :
    (e.under p q).kept key before b = (e.kept key before b).under p q := by
  have hactive : (e.under p q).subtypeGuard.isActive = e.subtypeGuard.isActive := rfl
  have hassumptions : (e.under p q).cycleAssumptions = e.cycleAssumptions := rfl
  unfold kept
  rw [hactive, hassumptions]
  split <;> rfl

theorem tried_under (h : e.Allowed p q) (key : JudgmentKey) :
    (e.subtypeGuard.renewed.enter key).1.isExceeded = true ∨
      ((e.under p q).subtypeGuard.renewed.enter key).1 = (e.subtypeGuard.renewed.enter key).1 ∧
        (e.under p q).tried key = (e.tried key).under p q := by
  have hle : e.subtypeGuard.renewed.limits ≤ p.limits := e.subtypeGuard.restored_renewed.limits ▸ h.subtypeGuard
  have hrenewed : (e.under p q).subtypeGuard.renewed = e.subtypeGuard.renewed.under p.limits :=
    Guard.renewed_under _ _
  obtain hex | hsame := Guard.enter_under hle key
  · exact .inl hex
  · refine .inr ⟨by rw [hrenewed, hsame], ?_⟩
    unfold tried
    rw [hrenewed, hsame]
    rfl

theorem valueTried_under (h : e.Allowed p q) (key : ValueCheck) :
    (e.valueGuard.renewed.enter key).1.isExceeded = true ∨
      ((e.under p q).valueGuard.renewed.enter key).1 = (e.valueGuard.renewed.enter key).1 ∧
        (e.under p q).valueTried key = (e.valueTried key).under p q := by
  have hle : e.valueGuard.renewed.limits ≤ q.limits := e.valueGuard.restored_renewed.limits ▸ h.valueGuard
  have hrenewed : (e.under p q).valueGuard.renewed = e.valueGuard.renewed.under q.limits := Guard.renewed_under _ _
  obtain hex | hsame := Guard.enter_under hle key
  · exact .inl hex
  · refine .inr ⟨by rw [hrenewed, hsame], ?_⟩
    unfold valueTried
    rw [hrenewed, hsame]
    rfl

end Engine

def Context.under (p q : Profile) (s : Context) : Context := { s with engine := s.engine.under p q }

/-! ## Checks under looser limits -/

structure Context.Loosened (p q : Profile) (s s' : Context) : Prop where
  eq : s' = s.under p q
  allowed : s.engine.Allowed p q

def Denied {σ α : Type} (r : EStateM.Result Failure σ α) : Prop := ∃ activity s, r = .error (.recursionLimit activity) s

/-- From the looser limits the second check does what the first one does, if that does not fail for a limit. -/
def Relaxes {α : Type} (p q : Profile) (m m' : Check α) : Prop :=
  ∀ s s', Context.Loosened p q s s' → Denied (m s) ∨ Parallel (Context.Loosened p q) (m s) (m' s')

namespace Relaxes

variable {α β : Type} {p q : Profile} {m m' : Check Bool}

theorem pure (a : α) : Relaxes p q (Pure.pure a) (Pure.pure a) := fun _ _ h => .inr (.ok h)

theorem throw (e : Failure) : Relaxes p q (MonadExcept.throw e : Check α) (MonadExcept.throw e) :=
  fun _ _ h => .inr (.error h)

theorem denied (activity : Activity) (m : Check α) : Relaxes p q (MonadExcept.throw (.recursionLimit activity)) m :=
  fun s _ _ => .inl ⟨activity, s, rfl⟩

theorem bind {m m' : Check α} {f f' : α → Check β} (hm : Relaxes p q m m') (hf : ∀ a, Relaxes p q (f a) (f' a)) :
    Relaxes p q (m >>= f) (m' >>= f') := by
  intro s s' hs
  simp only [Bind.bind, EStateM.bind]
  obtain ⟨activity, s₁, hdenied⟩ | hends := hm s s' hs
  · rw [hdenied]
    exact .inl ⟨activity, s₁, rfl⟩
  · generalize m s = r at hends ⊢
    generalize m' s' = r' at hends ⊢
    cases hends with
    | ok h => exact hf _ _ _ h
    | error h => exact .inr (.error h)

theorem relational (p q : Profile) : Relational Set.univ fun m m' : Check Bool => Relaxes p q m m' where
  pure := pure
  throw _ := throw _
  bind := bind

theorem judge (hm : Relaxes p q m m') (j : Judgment) : Relaxes p q (Check.judge j m) (Check.judge j m') := by
  intro s s' ⟨heq, hs⟩
  subst heq
  rcases hk : s.identities.keyed j with ⟨key, ids⟩
  have hpeek : (s.under p q).engine.cache.peek key = s.engine.cache.peek key := rfl
  rw [Check.judge_run j m s hk, Check.judge_run j m' (s.under p q) hk, hpeek]
  cases s.engine.cache.peek key with
  | some b => exact .inr (.ok ⟨rfl, hs.of_same rfl rfl rfl⟩)
  | none =>
    dsimp only
    obtain hex | ⟨hadmission, htried⟩ := Engine.tried_under hs key
    · cases ha : (s.engine.subtypeGuard.renewed.enter key).1 with
      | depthExceeded | iterationExceeded => exact .inl ⟨_, _, rfl⟩
      | entered | cycle => rw [ha] at hex; cases hex
    · rw [show ((s.under p q).engine.subtypeGuard.renewed.enter key).1 = _ from hadmission]
      cases (s.engine.subtypeGuard.renewed.enter key).1 with
      | depthExceeded | iterationExceeded => exact .inl ⟨_, _, rfl⟩
      | cycle =>
        refine .inr (.ok ⟨?_, (hs.tried key).of_same rfl rfl rfl⟩)
        show Context.mk { (s.engine.under p q).tried key with cycleAssumptions := _ } _ _ = _
        rw [htried]
        rfl
      | entered =>
        have hbegun : (s.engine.under p q).begun key = (s.engine.begun key).under p q := by
          unfold Engine.begun
          rw [htried]
          rfl
        have hstart : Context.Loosened p q ⟨s.engine.begun key, ids, s.journal.asked key⟩
            ⟨(s.under p q).engine.begun key, ids, (s.under p q).journal.asked key⟩ :=
          ⟨congrArg (Context.mk · ids _) hbegun, (hs.tried key).of_same rfl rfl rfl⟩
        dsimp only
        obtain ⟨activity, s₁, hdenied⟩ | hends := hm _ _ hstart
        · rw [hdenied]
          exact .inl ⟨activity, _, rfl⟩
        · generalize m ⟨s.engine.begun key, ids, s.journal.asked key⟩ = r at hends ⊢
          generalize m' ⟨(s.under p q).engine.begun key, ids, (s.under p q).journal.asked key⟩ = r' at hends ⊢
          cases hends with
          | @ok b s₁ s₁' h =>
            obtain ⟨rfl, hallowed⟩ := h
            have hleft : (s₁.engine.left key).Allowed p q := hallowed.of_same rfl rfl rfl
            have hkept : ((s₁.engine.left key).under p q).kept key s.engine.cycleAssumptions b = _ :=
              Engine.kept_under key _ b
            exact .inr (.ok ⟨congrArg (Context.mk · s₁.identities _) hkept, hleft.kept key _ b⟩)
          | @error e s₁ s₁' h =>
            obtain ⟨rfl, hallowed⟩ := h
            exact .inr (.error ⟨rfl, hallowed.of_same rfl rfl rfl⟩)

theorem resolveWithin (c : Catalog) (strict : Bool) {n n' : Nat} (hle : n ≤ n') (j : Judgment) :
    Relaxes p q (Compatibility.resolveWithin c strict n j) (Compatibility.resolveWithin c strict n' j) := by
  induction n generalizing n' j with
  | zero =>
    unfold Compatibility.resolveWithin
    by_cases hr : Compatibility.isReflexive j = true
    · cases n' <;> simp only [hr, if_true] <;> exact pure true
    · cases n' <;> simp only [hr, Bool.false_eq_true, if_false] <;> exact (denied _ _).judge j
  | succ n ih =>
    obtain ⟨n', rfl⟩ : ∃ k, n' = k + 1 := ⟨n' - 1, by omega⟩
    unfold Compatibility.resolveWithin
    by_cases hr : Compatibility.isReflexive j = true
    · simp only [hr, if_true]
      exact pure true
    · simp only [hr, Bool.false_eq_true, if_false]
      obtain ⟨t, ht, -, -, -⟩ := Compatibility.rule_inquires c strict j
      have hrule : ∀ ask, Compatibility.rule c ask strict j = t.run ask := ht
      rw [hrule, hrule]
      exact ((relational p q).run _ (fun k _ => ih (by omega) k) fun e _ => Set.mem_univ e).judge j

theorem resolve (c : Catalog) (j : Judgment) :
    Relaxes p q (Compatibility.resolve c j) (Compatibility.resolve c j) := by
  intro s s' hs
  have hle := UInt32.le_iff_toNat_le.mp hs.allowed.subtypeOptions.1
  have hrun := resolveWithin c s.engine.options.strictNullableSources hle j s s' hs
  obtain ⟨rfl, -⟩ := hs
  exact hrun

/-! ## Value checks -/

theorem guarded (hm : Relaxes p q m m') (value : Nat) (t : TypeRef) :
    Relaxes p q (Conformance.guarded value t m) (Conformance.guarded value t m') := by
  intro s s' ⟨heq, hs⟩
  subst heq
  rcases hi : s.identities.assign (.type t) with ⟨i, ids⟩
  rw [Conformance.guarded_run value t m s hi, Conformance.guarded_run value t m' (s.under p q) hi]
  obtain hex | ⟨hadmission, htried⟩ := Engine.valueTried_under hs ⟨value, i⟩
  · cases ha : (s.engine.valueGuard.renewed.enter ⟨value, i⟩).1 with
    | depthExceeded | iterationExceeded => exact .inl ⟨_, _, rfl⟩
    | entered | cycle => rw [ha] at hex; cases hex
  · rw [show ((s.under p q).engine.valueGuard.renewed.enter ⟨value, i⟩).1 = _ from hadmission]
    have hstart : Context.Loosened p q ⟨s.engine.valueTried ⟨value, i⟩, ids, s.journal⟩
        ⟨(s.under p q).engine.valueTried ⟨value, i⟩, ids, (s.under p q).journal⟩ :=
      ⟨congrArg (Context.mk · ids _) htried, hs.valueTried _⟩
    cases (s.engine.valueGuard.renewed.enter ⟨value, i⟩).1 with
    | depthExceeded | iterationExceeded => exact .inl ⟨_, _, rfl⟩
    | cycle => exact .inr (.ok ⟨congrArg (Context.mk · ids _) htried, hs.valueTried _⟩)
    | entered =>
      dsimp only
      obtain ⟨activity, s₁, hdenied⟩ | hends := hm _ _ hstart
      · rw [hdenied]
        exact .inl ⟨activity, _, rfl⟩
      · generalize m ⟨s.engine.valueTried ⟨value, i⟩, ids, s.journal⟩ = r at hends ⊢
        generalize m' ⟨(s.under p q).engine.valueTried ⟨value, i⟩, ids, (s.under p q).journal⟩ = r' at hends ⊢
        cases hends with
        | @ok b s₁ s₁' h =>
          obtain ⟨rfl, hallowed⟩ := h
          exact .inr (.ok ⟨rfl, hallowed.of_same rfl rfl rfl⟩)
        | @error e s₁ s₁' h =>
          obtain ⟨rfl, hallowed⟩ := h
          exact .inr (.error ⟨rfl, hallowed.of_same rfl rfl rfl⟩)

theorem checkWithin (c : Catalog) (h : Heap) {n n' : Nat} (hle : n ≤ n') (v : Value) (t : TypeRef) :
    Relaxes p q (Conformance.checkWithin c h n v t) (Conformance.checkWithin c h n' v t) := by
  induction n generalizing n' v t with
  | zero =>
    unfold Conformance.checkWithin
    by_cases hv : v.isNullish = true
    · cases n' <;> simp only [hv, if_true] <;> exact pure true
    · cases n' <;> simp only [hv, Bool.false_eq_true, if_false] <;> exact denied _ _
  | succ n ih =>
    obtain ⟨n', rfl⟩ : ∃ k, n' = k + 1 := ⟨n' - 1, by omega⟩
    unfold Conformance.checkWithin
    by_cases hv : v.isNullish = true
    · simp only [hv, if_true]
      exact pure true
    · simp only [hv, Bool.false_eq_true, if_false]
      have hask : ∀ v t, Relaxes p q (Conformance.checkWithin c h n v t) (Conformance.checkWithin c h n' v t) :=
        fun v t => ih (by omega) v t
      refine Conformance.rule_related (relational p q) _ (fun e _ => Set.mem_univ e) (fun _ u _ => hask v u) ?_
      intro value shape _ _
      refine guarded ?_ value t
      exact Conformance.objectRule_related (relational p q) _ (fun _ _ => hask _ _)
        (fun _ tag _ _ => resolve c (.functionTag tag t)) fun _ index _ _ u _ => hask u index

theorem isType (c : Catalog) (h : Heap) (v : Value) (t : TypeRef) :
    Relaxes p q (Conformance.isType c h v t) (Conformance.isType c h v t) := by
  intro s s' hs
  have hdepth := UInt32.le_iff_toNat_le.mp hs.allowed.valueOptions.1
  have hle := Nat.mul_le_mul_right (c.types.size + 2) (Nat.succ_le_succ hdepth)
  have hrun := checkWithin c h hle v t s s' hs
  obtain ⟨rfl, -⟩ := hs
  exact hrun

end Relaxes

end TypeContracts
