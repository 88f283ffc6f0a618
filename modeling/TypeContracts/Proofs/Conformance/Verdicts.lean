import TypeContracts.Proofs.Compatibility.Verdicts
import TypeContracts.Proofs.Conformance.Rules

/-!
# Verdicts on values

Value checks have no cache, but a check in progress is assumed to succeed, so
their yeses are provisional like those of judgments. The judgments that they
ask for are decided with none in progress, and their answers are the truth.
-/

namespace TypeContracts

theorem Value.eq_of_identity? {v w : Value} {i : Nat} (hv : v.identity? = some i) (hw : w.identity? = some i) :
    v = w := by
  cases v <;> cases w <;> simp only [Value.identity?, Option.some.injEq, reduceCtorEq] at hv hw <;>
    grind [cases ArrayRef, cases ObjectRef, cases FunctionRef, cases BufferRef, cases ViewRef]

def Context.checking (s : Context) : Set (Value × TypeRef) :=
  { p | ∃ key : ValueCheck, p.1.identity? = some key.value ∧ s.identities.find? (.type p.2) = some key.type ∧
      s.engine.valueGuard.isVisiting key = true }

/-! ## What the guard around object types does -/

namespace Engine

def valueTried (e : Engine) (key : ValueCheck) : Engine :=
  { e with valueGuard := (e.valueGuard.renewed.enter key).2 }

def valueLeft (e : Engine) (key : ValueCheck) : Engine := { e with valueGuard := e.valueGuard.leave key }

end Engine

namespace Conformance

inductive Guarded (value : Nat) (t : TypeRef) (compute : Check Bool) (s : Context) :
    EStateM.Result Failure Context Bool → Prop
  | assumed {i ids} (journal) : s.identities.assign (.type t) = (i, ids) →
      (s.engine.valueGuard.renewed.enter ⟨value, i⟩).1 = .cycle →
      Guarded value t compute s (.ok true ⟨s.engine.valueTried ⟨value, i⟩, ids, journal⟩)
  | denied {i ids} : s.identities.assign (.type t) = (i, ids) →
      (s.engine.valueGuard.renewed.enter ⟨value, i⟩).1.isExceeded = true →
      Guarded value t compute s
        (.error (.recursionLimit .checkingValue) ⟨s.engine.valueTried ⟨value, i⟩, ids, s.journal⟩)
  | computed {i ids b s'} : s.identities.assign (.type t) = (i, ids) →
      (s.engine.valueGuard.renewed.enter ⟨value, i⟩).1 = .entered →
      compute ⟨s.engine.valueTried ⟨value, i⟩, ids, s.journal⟩ = .ok b s' →
      Guarded value t compute s (.ok b { s' with engine := s'.engine.valueLeft ⟨value, i⟩ })
  | failed {i ids e s'} : s.identities.assign (.type t) = (i, ids) →
      (s.engine.valueGuard.renewed.enter ⟨value, i⟩).1 = .entered →
      compute ⟨s.engine.valueTried ⟨value, i⟩, ids, s.journal⟩ = .error e s' →
      Guarded value t compute s (.error e { s' with engine := s'.engine.valueLeft ⟨value, i⟩ })

theorem guarded_run (value : Nat) (t : TypeRef) (compute : Check Bool) (s : Context) {i : Identity} {ids : Identities}
    (hi : s.identities.assign (.type t) = (i, ids)) : guarded value t compute s =
      match (s.engine.valueGuard.renewed.enter ⟨value, i⟩).1 with
      | .entered =>
        match compute ⟨s.engine.valueTried ⟨value, i⟩, ids, s.journal⟩ with
        | .ok b s' => .ok b { s' with engine := s'.engine.valueLeft ⟨value, i⟩ }
        | .error e s' => .error e { s' with engine := s'.engine.valueLeft ⟨value, i⟩ }
      | .cycle => .ok true ⟨s.engine.valueTried ⟨value, i⟩, ids, s.journal.record (.valueRevisited i)⟩
      | .depthExceeded | .iterationExceeded =>
        .error (.recursionLimit .checkingValue) ⟨s.engine.valueTried ⟨value, i⟩, ids, s.journal⟩ := by
  have hid : Check.identity (.type t) s = .ok i { s with identities := ids } := by
    rw [show i = (s.identities.assign (.type t)).1 by rw [hi],
      show ids = (s.identities.assign (.type t)).2 by rw [hi]]
    rfl
  have henter : enterCheck ⟨value, i⟩ { s with identities := ids } =
      .ok (s.engine.valueGuard.renewed.enter ⟨value, i⟩).1 ⟨s.engine.valueTried ⟨value, i⟩, ids, s.journal⟩ := rfl
  unfold guarded
  rw [bind_of_ok hid, bind_of_ok henter]
  cases (s.engine.valueGuard.renewed.enter ⟨value, i⟩).1 <;> rfl

theorem guarded_guarded (value : Nat) (t : TypeRef) (compute : Check Bool) (s : Context) :
    Guarded value t compute s (guarded value t compute s) := by
  rcases hi : s.identities.assign (.type t) with ⟨i, ids⟩
  rw [guarded_run value t compute s hi]
  cases ha : (s.engine.valueGuard.renewed.enter ⟨value, i⟩).1 with
  | cycle => exact .assumed _ hi ha
  | depthExceeded => exact .denied hi (by rw [ha]; rfl)
  | iterationExceeded => exact .denied hi (by rw [ha]; rfl)
  | entered =>
    dsimp only
    cases hc : compute ⟨s.engine.valueTried ⟨value, i⟩, ids, s.journal⟩ with
    | ok b s' => exact .computed hi ha hc
    | error e s' => exact .failed hi ha hc

theorem guarded_follows {value : Nat} {t : TypeRef} {compute : Check Bool}
    (hc : ∀ s : Context, s.Follows (stateAfter (compute s))) (s : Context) :
    s.Follows (stateAfter (guarded value t compute s)) := by
  have hids : ∀ {i ids}, s.identities.assign (.type t) = (i, ids) → s.identities.Grows ids := fun hi => by
    have := s.identities.grows_assign (.type t)
    rwa [hi] at this
  have hrenewed := s.engine.valueGuard.restored_renewed
  have hg := guarded_guarded value t compute s
  generalize guarded value t compute s = r at hg ⊢
  cases hg with
  | assumed journal hi ha =>
    exact ⟨rfl, hids hi, .refl _, hrenewed.trans (Guard.restored_denied (by rw [ha]; decide)), Nat.le_refl _⟩
  | denied hi ha =>
    have hne := Admission.ne_entered ha
    exact ⟨rfl, hids hi, .refl _, hrenewed.trans (Guard.restored_denied hne), Nat.le_refl _⟩
  | @computed i ids b s' hi ha hr =>
    have hf := hc ⟨s.engine.valueTried ⟨value, i⟩, ids, s.journal⟩
    rw [hr] at hf
    exact ⟨hf.options, (hids hi).trans hf.identities, hf.subtypeGuard,
      hrenewed.trans (Guard.restored_leave ha hf.valueGuard), hf.assumptions⟩
  | @failed i ids e s' hi ha hr =>
    have hf := hc ⟨s.engine.valueTried ⟨value, i⟩, ids, s.journal⟩
    rw [hr] at hf
    exact ⟨hf.options, (hids hi).trans hf.identities, hf.subtypeGuard,
      hrenewed.trans (Guard.restored_leave ha hf.valueGuard), hf.assumptions⟩

theorem guarded_grows {value : Nat} {t : TypeRef} {compute : Check Bool}
    (hc : ∀ s : Context, s.Follows (stateAfter (compute s))) {s : Context} {i : Identity} {ids : Identities}
    (hi : s.identities.assign (.type t) = (i, ids)) :
    ids.Grows (stateAfter (guarded value t compute s)).identities := by
  rw [guarded_run value t compute s hi]
  split
  · have hf := hc ⟨s.engine.valueTried ⟨value, i⟩, ids, s.journal⟩
    split <;> rename_i hr <;> rw [hr] at hf <;> exact hf.identities
  · exact .refl _
  · exact .refl _
  · exact .refl _

/-! ## Contexts in which values are checked -/

/-- No judgment is in progress, and the keys of the value checks in progress stand for values and types. -/
structure Ready (c : Catalog) (strict : Bool) (s : Context) : Prop where
  consistent : Compatibility.Consistent c strict s
  options : s.engine.options.strictNullableSources = strict
  idle : s.engine.subtypeGuard.isActive = false
  synced : s.engine.valueGuard.Synced
  visiting : ∀ {key}, s.engine.valueGuard.isVisiting key = true →
    ∃ (v : Value) (t : TypeRef), v.identity? = some key.value ∧ s.identities.find? (.type t) = some key.type

section
variable {c : Catalog} {strict : Bool} {s s' : Context} {v : Value} {t : TypeRef} {key : ValueCheck}
  {ids : Identities}

theorem Ready.of_follows (hr : Ready c strict s) (hf : s.Follows s') (hc : Compatibility.Consistent c strict s') :
    Ready c strict s' where
  consistent := hc
  options := by rw [hf.options, hr.options]
  idle := by
    rw [← hr.idle]
    simp only [Guard.isActive, hf.subtypeGuard.depth hr.consistent.synced]
  synced := hf.valueGuard.synced hr.synced
  visiting hv := by
    rw [hf.valueGuard.visiting hr.synced] at hv
    obtain ⟨v, t, hvalue, htype⟩ := hr.visiting hv
    exact ⟨v, t, hvalue, hf.identities.keeps htype⟩

theorem Ready.mem_checking (hr : Ready c strict s) (hids : s.identities.Grows ids) (hs : ids.Sound)
    (hvalue : v.identity? = some key.value) (htype : ids.find? (.type t) = some key.type)
    (hv : s.engine.valueGuard.isVisiting key = true) : (v, t) ∈ s.checking := by
  obtain ⟨v', t', hvalue', htype'⟩ := hr.visiting hv
  have hv' : v' = v := Value.eq_of_identity? hvalue' hvalue
  have ht' : t' = t := Handle.type.inj (hs.distinct (hids.keeps htype') htype)
  subst hv' ht'
  exact ⟨key, hvalue', htype', hv⟩

theorem Ready.checking_eq (hr : Ready c strict s) (hs : s'.identities.Sound) (hf : s.Follows s') :
    s'.checking = s.checking := by
  ext ⟨v, t⟩
  constructor
  · rintro ⟨key, hvalue, htype, hv⟩
    rw [hf.valueGuard.visiting hr.synced] at hv
    exact hr.mem_checking hf.identities hs hvalue htype hv
  · rintro ⟨key, hvalue, htype, hv⟩
    rw [← hf.valueGuard.visiting hr.synced] at hv
    exact ⟨key, hvalue, hf.identities.keeps htype, hv⟩

theorem Ready.checking_empty (hr : Ready c strict s) (hidle : s.engine.valueGuard.isActive = false) :
    s.checking = ∅ := by
  have hd : s.engine.valueGuard.depth = 0 := by simpa [Guard.isActive] using hidle
  refine Set.eq_empty_of_forall_notMem fun p hp => ?_
  obtain ⟨key, -, -, hv⟩ := hp
  rw [Guard.isVisiting_of_depth hr.synced hd] at hv
  cases hv

theorem Ready.assign {i : Identity} (hr : Ready c strict s) (hi : s.identities.assign (.type t) = (i, ids))
    (hroom : ids.HasRoom) : s.identities.Grows ids ∧ ids.Sound ∧ ids.find? (.type t) = some i := by
  have hg := s.identities.grows_assign (.type t)
  have hs := hr.consistent.identities.assign (h := .type t)
  have hf := Identities.find?_assign_self hr.consistent.identities (h := .type t)
  rw [hi] at hg hs hf
  exact ⟨hg, hs hroom, hf hroom⟩

theorem Ready.enter (hr : Ready c strict s) (hids : s.identities.Grows ids) (hs : ids.Sound)
    (hvalue : v.identity? = some key.value) (htype : ids.find? (.type t) = some key.type)
    (ha : (s.engine.valueGuard.renewed.enter key).1 = .entered) :
    Ready c strict ⟨s.engine.valueTried key, ids, s.journal⟩ ∧
      (⟨s.engine.valueTried key, ids, s.journal⟩ : Context).checking = insert (v, t) s.checking := by
  have hrenewed := s.engine.valueGuard.restored_renewed
  obtain ⟨-, -, hsync, hvisit⟩ := Guard.entered ha
  have hvisit : ∀ other, (s.engine.valueTried key).valueGuard.isVisiting other = true ↔
      key = other ∨ s.engine.valueGuard.isVisiting other = true := fun other => by
    rw [Engine.valueTried, hvisit, hrenewed.visiting hr.synced]
  refine ⟨⟨hr.consistent.of_restored hs hids (.refl _) fun _ => rfl, hr.options, hr.idle,
    hsync (hrenewed.synced hr.synced), fun hv => ?_⟩, ?_⟩
  · obtain rfl | hv := (hvisit _).mp hv
    · exact ⟨v, t, hvalue, htype⟩
    · obtain ⟨v', t', hvalue', htype'⟩ := hr.visiting hv
      exact ⟨v', t', hvalue', hids.keeps htype'⟩
  · ext ⟨v', t'⟩
    constructor
    · rintro ⟨other, hvalue', htype', hv⟩
      obtain rfl | hv := (hvisit other).mp hv
      · have hv' : v' = v := Value.eq_of_identity? hvalue' hvalue
        have ht' : t' = t := Handle.type.inj (hs.distinct htype' htype)
        exact .inl (by rw [hv', ht'])
      · exact .inr (hr.mem_checking hids hs hvalue' htype' hv)
    · rintro (heq | ⟨other, hvalue', htype', hv⟩)
      · cases heq
        exact ⟨key, hvalue, htype, (hvisit key).mpr (.inl rfl)⟩
      · exact ⟨other, hvalue', hids.keeps htype', (hvisit other).mpr (.inr hv)⟩

end

/-! ## Answers -/

def Presumed (c : Catalog) (h : Heap) (strict : Bool) (s : Context) (v : Value) (t : TypeRef) : Prop :=
  Settled c (provisional (objectRules c h strict) s.checking ∪ s.checking) v t

/-- A yes of the check `m`, begun in `s`, means `A s`, and a no means `N`, as long as there is room for
identities. -/
structure Checks (c : Catalog) (strict : Bool) (A : Context → Prop) (N : Prop) (m : Check Bool) : Prop where
  follows : ∀ s : Context, s.Follows (stateAfter (m s))
  consistent : ∀ {s}, Ready c strict s → (stateAfter (m s)).identities.HasRoom →
    Compatibility.Consistent c strict (stateAfter (m s))
  yes : ∀ {s s'}, Ready c strict s → m s = .ok true s' → s'.identities.HasRoom → A s
  no : ∀ {s s'}, Ready c strict s → m s = .ok false s' → s'.identities.HasRoom → N

section
variable {c : Catalog} {h : Heap} {strict : Bool} {A A' : Context → Prop} {N N' : Prop} {m : Check Bool}

theorem Checks.imp (hm : Checks c strict A N m) (hA : ∀ s, A s → A' s) (hN : N → N') : Checks c strict A' N' m where
  follows := hm.follows
  consistent := hm.consistent
  yes hr hs hroom := hA _ (hm.yes hr hs hroom)
  no hr hs hroom := hN (hm.no hr hs hroom)

theorem checks_pure {b : Bool} (hA : b = true → ∀ s, A s) (hN : b = false → N) : Checks c strict A N (pure b) where
  follows s := .refl s
  consistent hr _ := hr.consistent
  yes _ hs _ := by cases hs; exact hA rfl _
  no _ hs _ := by cases hs; exact hN rfl

theorem checks_no (hN : N) : Checks c strict A N (pure false) := checks_pure nofun fun _ => hN

theorem checks_throw (e : Failure) : Checks c strict A N (throw e) where
  follows s := .refl s
  consistent hr _ := hr.consistent
  yes _ hs _ := by cases hs
  no _ hs _ := by cases hs

theorem checks_resolve (j : Judgment) :
    Checks c strict (fun _ => j ∈ Compatibility.related c strict) (j ∉ Compatibility.related c strict)
      (Compatibility.resolve c j) where
  follows := Compatibility.resolve_follows c j
  consistent hr hroom := by
    have hc := hr.consistent
    rw [← hr.options] at hc ⊢
    exact Compatibility.resolve_consistent hc hroom
  yes hr hs hroom := by
    have hc := hr.consistent
    rw [← hr.options] at hc ⊢
    exact (Compatibility.resolve_exact hc hr.idle hs hroom).mp rfl
  no hr hs hroom hrel := by
    have hc := hr.consistent
    rw [← hr.options] at hc hrel
    exact Bool.noConfusion ((Compatibility.resolve_exact hc hr.idle hs hroom).mpr hrel)

section
variable {ask : Question → Check Bool}
  (ha : ∀ q, Checks c strict
    (fun s => q ∈ Question.holding { p | Presumed c h strict s p.1 p.2 } (Compatibility.related c strict))
    (q ∉ Question.holding (conforming c h strict) (Compatibility.related c strict)) (ask q))
include ha

theorem ready_of_ask (q : Question) {s : Context} (hr : Ready c strict s)
    (hroom : (stateAfter (ask q s)).identities.HasRoom) : Ready c strict (stateAfter (ask q s)) :=
  hr.of_follows ((ha q).follows s) ((ha q).consistent hr hroom)

theorem asked_checks {s s' : Context} {answers : List (Question × Bool)} (hasked : Inquiry.Asked ask s answers s')
    (hr : Ready c strict s) (hroom : s'.identities.HasRoom) :
    (∀ q, (q, true) ∈ answers →
        q ∈ Question.holding { p | Presumed c h strict s p.1 p.2 } (Compatibility.related c strict)) ∧
      ∀ q, (q, false) ∈ answers →
        q ∉ Question.holding (conforming c h strict) (Compatibility.related c strict) := by
  have hall := (Inquiry.asked_within (fun q => (ha q).follows) (ready_of_ask ha) hasked hr hroom).2
  constructor
  · intro q hq
    obtain ⟨s₁, s₂, hr₁, hbefore, hask, -, -, hroom₂⟩ := hall q true hq
    have hpresumed : Presumed c h strict s₁ = Presumed c h strict s := by
      unfold Presumed
      rw [hr.checking_eq hr₁.consistent.identities hbefore]
    rw [← hpresumed]
    exact (ha q).yes hr₁ hask hroom₂
  · intro q hq
    obtain ⟨s₁, s₂, hr₁, -, hask, -, -, hroom₂⟩ := hall q false hq
    exact (ha q).no hr₁ hask hroom₂

theorem checks_inquiry {t : Inquiry Question} {φ : Set Question → Prop} (hd : t.Decides φ) :
    Checks c strict
      (fun s => φ (Question.holding { p | Presumed c h strict s p.1 p.2 } (Compatibility.related c strict)))
      (¬ φ (Question.holding (conforming c h strict) (Compatibility.related c strict))) (t.run ask) where
  follows := Inquiry.run_rel Context.Follows.refl Context.Follows.trans fun q => (ha q).follows
  consistent hr hroom := (Inquiry.run_keeps (fun q => (ha q).follows) (ready_of_ask ha) hr hroom).consistent
  yes hr hrun hroom := by
    obtain ⟨answers, hends, hasked⟩ := Inquiry.run_ok hrun
    exact hd.yes hends _ (asked_checks ha hasked hr hroom).1
  no hr hrun hroom := by
    obtain ⟨answers, hends, hasked⟩ := Inquiry.run_ok hrun
    exact hd.no hends _ (asked_checks ha hasked hr hroom).2

end

section
variable {v : Value} {t : TypeRef} {value : Nat} (hvalue : v.identity? = some value)
include hvalue

/-- A check is begun, runs with itself in progress, and is left again. -/
theorem Checks.entered (hm : Checks c strict A N m) {s : Context} {i : Identity} {ids : Identities}
    (hr : Ready c strict s) (hi : s.identities.assign (.type t) = (i, ids))
    (ha : (s.engine.valueGuard.renewed.enter ⟨value, i⟩).1 = .entered) {r : EStateM.Result Failure Context Bool}
    (hrun : m ⟨s.engine.valueTried ⟨value, i⟩, ids, s.journal⟩ = r) (hroom : (stateAfter r).identities.HasRoom) :
    Ready c strict ⟨s.engine.valueTried ⟨value, i⟩, ids, s.journal⟩ ∧
      (⟨s.engine.valueTried ⟨value, i⟩, ids, s.journal⟩ : Context).checking = insert (v, t) s.checking ∧
      Compatibility.Consistent c strict
        { stateAfter r with engine := (stateAfter r).engine.valueLeft ⟨value, i⟩ } := by
  subst hrun
  have hf := hm.follows ⟨s.engine.valueTried ⟨value, i⟩, ids, s.journal⟩
  obtain ⟨hids, hs, htype⟩ := hr.assign hi (hf.identities.hasRoom hroom)
  obtain ⟨hr₁, hchecking⟩ := hr.enter hids hs hvalue htype ha
  have hc := hm.consistent hr₁ hroom
  exact ⟨hr₁, hchecking, hc.identities, hc.synced, hc.cached, hc.visiting⟩

variable (hm : Checks c strict (fun s => (v, t) ∈ provisional (objectRules c h strict) s.checking) N m)
include hm

theorem guarded_verdict {s : Context} {r : EStateM.Result Failure Context Bool} (hg : Guarded value t m s r)
    (hr : Ready c strict s) (hroom : (stateAfter r).identities.HasRoom) :
    Compatibility.Consistent c strict (stateAfter r) ∧ (∀ s', r = .ok true s' → Presumed c h strict s v t) ∧
      ∀ s', r = .ok false s' → N := by
  cases hg with
  | assumed journal hi ha =>
    obtain ⟨hids, hs, htype⟩ := hr.assign hi hroom
    refine ⟨hr.consistent.of_restored hs hids (.refl _) fun _ => rfl, fun s' _ => ?_, by simp⟩
    have hv := Guard.isVisiting_of_cycle ha
    rw [s.engine.valueGuard.restored_renewed.visiting hr.synced] at hv
    exact .object (.inr (hr.mem_checking hids hs hvalue htype hv))
  | denied hi ha =>
    obtain ⟨hids, hs, -⟩ := hr.assign hi hroom
    exact ⟨hr.consistent.of_restored hs hids (.refl _) fun _ => rfl, by simp, by simp⟩
  | computed hi ha hrun =>
    obtain ⟨hr₁, hchecking, hc⟩ := hm.entered hvalue hr hi ha hrun hroom
    refine ⟨hc, ?_, ?_⟩
    · rintro _ ⟨⟩
      have hyes := hm.yes hr₁ hrun hroom
      rw [hchecking] at hyes
      exact .object (.inl (provisional_insert _ hyes))
    · rintro _ ⟨⟩
      exact hm.no hr₁ hrun hroom
  | failed hi ha hrun =>
    obtain ⟨-, -, hc⟩ := hm.entered hvalue hr hi ha hrun hroom
    exact ⟨hc, by simp, by simp⟩

theorem checks_guarded : Checks c strict (Presumed c h strict · v t) N (guarded value t m) where
  follows := guarded_follows hm.follows
  consistent {s} hr hroom := (guarded_verdict hvalue hm (guarded_guarded value t m s) hr hroom).1
  yes {s s'} hr hs hroom := by
    have hg := guarded_guarded value t m s
    rw [hs] at hg
    exact (guarded_verdict hvalue hm hg hr hroom).2.1 s' rfl
  no {s s'} hr hs hroom := by
    have hg := guarded_guarded value t m s
    rw [hs] at hg
    exact (guarded_verdict hvalue hm hg hr hroom).2.2 s' rfl

end

end

/-! ## The recursion over values -/

section
variable {c : Catalog} {h : Heap} {strict : Bool} {ask : Value → TypeRef → Check Bool} {v : Value} {t : TypeRef}

def Answers (c : Catalog) (h : Heap) (strict : Bool) (v : Value) (t : TypeRef) (m : Check Bool) : Prop :=
  Checks c strict (Presumed c h strict · v t) ((v, t) ∉ conforming c h strict) m

theorem checks_question (ha : ∀ v t, Answers c h strict v t (ask v t)) (q : Question) :
    Checks c strict
      (fun s => q ∈ Question.holding { p | Presumed c h strict s p.1 p.2 } (Compatibility.related c strict))
      (q ∉ Question.holding (conforming c h strict) (Compatibility.related c strict)) (q.answer c ask) := by
  cases q with
  | conforms v t => exact ha v t
  | relates j => exact checks_resolve j

theorem not_mem_conforming_of_object (hn : v.isNullish = false) {name : Option String} {shape : Option Shape}
    (hg : c.get t = .object name shape)
    (hs : ¬ ReferenceStep (conforming c h strict) (Compatibility.related c strict) c h v t) :
    (v, t) ∉ conforming c h strict := by
  rw [mem_conforming_iff, Step, hg, hn]
  simpa using hs

theorem answers_object (ha : ∀ v t, Answers c h strict v t (ask v t)) (hn : v.isNullish = false)
    {name : Option String} {shape : Option Shape} (hg : c.get t = .object name shape) :
    Answers c h strict v t (rule c h ask v t) := by
  unfold rule
  rw [hg]
  dsimp only
  cases hshape : c.shape t with
  | error e => exact checks_throw e
  | ok shape =>
    simp only [Check.ofExcept, pure_bind]
    have hno : ¬ (v.identity?.isSome = true ∧ (shape.hasSignatures = true → v.isCallable = true) ∧
        ObjectStep (conforming c h strict) (Compatibility.related c strict) c h v t shape) →
        (v, t) ∉ conforming c h strict := by
      intro hs
      refine not_mem_conforming_of_object hn hg ?_
      rintro ⟨shape', hs', hstep⟩
      rw [hshape] at hs'
      cases hs'
      exact hs hstep
    unfold referenceRule
    cases hvalue : v.identity? with
    | none => exact checks_no (hno (by simp [hvalue]))
    | some value =>
      dsimp only
      split
      · rename_i hsig
        exact checks_no (hno (by simp_all))
      · rename_i hsig
        have hsig : shape.hasSignatures = true → v.isCallable = true := by simpa using hsig
        obtain ⟨tree, ht, hd, -⟩ := objectRule_inquires (c := c) (h := h) (v := v) (t := t) shape
        rw [show objectRule c h ask v t shape = tree.run (Question.answer c ask) from ht ask]
        refine checks_guarded hvalue ((checks_inquiry (checks_question ha) hd).imp (fun s hstep => ?_) fun hstep => ?_)
        · rw [← provisional_eq]
          exact ⟨shape, hshape, by simp [hvalue], hsig, hstep⟩
        · exact hno fun hs => hstep hs.2.2

theorem answers_rule (ha : ∀ v t, Answers c h strict v t (ask v t)) (hn : v.isNullish = false) :
    Answers c h strict v t (rule c h ask v t) := by
  by_cases hobject : ∃ name shape, c.get t = .object name shape
  · obtain ⟨name, shape, hg⟩ := hobject
    exact answers_object ha hn hg
  · simp only [not_exists] at hobject
    obtain ⟨tree, ht, hd, -⟩ := rule_inquires (h := h) (v := v) hobject
    rw [show rule c h ask v t = tree.run (Question.answer c ask) from ht ask]
    refine (checks_inquiry (checks_question ha) hd).imp (fun s hstep => ?_) fun hstep hconf => hstep ?_
    · split at hstep
      · exact .intersection ‹_› hstep
      · obtain ⟨member, hm, hs⟩ := hstep
        exact .union ‹_› hm hs
      · exact .plain hstep
    · rw [mem_conforming_iff, Step, hn] at hconf
      simp only [Bool.false_eq_true, false_or] at hconf
      cases hg : c.get t with
      | object name shape => exact absurd hg (hobject name shape)
      | _ => rw [hg] at hconf; exact hconf

theorem answers_nullish (hn : v.isNullish = true) : Answers c h strict v t (pure true) :=
  checks_pure (fun _ _ => .nullish hn) nofun

theorem answers_checkWithin (c : Catalog) (h : Heap) (strict : Bool) (budget : Nat) (v : Value) (t : TypeRef) :
    Answers c h strict v t (checkWithin c h budget v t) := by
  induction budget generalizing v t with
  | zero =>
    unfold checkWithin
    split
    · exact answers_nullish ‹_›
    · exact checks_throw _
  | succ budget ih =>
    unfold checkWithin
    split
    · exact answers_nullish ‹_›
    · exact answers_rule ih (Bool.eq_false_iff.mpr ‹_›)

end

/-! ## Whole checks -/

section
variable {c : Catalog} {h : Heap} {strict : Bool} {v : Value} {t : TypeRef} {s s' : Context}

theorem isType_follows (c : Catalog) (h : Heap) (v : Value) (t : TypeRef) (s : Context) :
    s.Follows (stateAfter (isType c h v t s)) :=
  (answers_checkWithin c h false _ v t).follows s

theorem isType_consistent (hr : Ready c strict s) (hroom : (stateAfter (isType c h v t s)).identities.HasRoom) :
    Compatibility.Consistent c strict (stateAfter (isType c h v t s)) :=
  (answers_checkWithin c h strict _ v t).consistent hr hroom

theorem mem_settled_of_isType (hr : Ready c strict s) (hidle : s.engine.valueGuard.isActive = false)
    (hs : isType c h v t s = .ok true s') (hroom : s'.identities.HasRoom) : (v, t) ∈ settled c h strict := by
  have hyes := (answers_checkWithin c h strict _ v t).yes hr hs hroom
  rwa [Presumed, hr.checking_empty hidle, provisional_empty, Set.union_empty] at hyes

theorem isType_exact {b : Bool} (hr : Ready c strict s) (hidle : s.engine.valueGuard.isActive = false)
    (hs : isType c h v t s = .ok b s') (hroom : s'.identities.HasRoom) :
    b = true ↔ (v, t) ∈ conforming c h strict := by
  cases b with
  | true => exact iff_of_true rfl (settled_subset_conforming (mem_settled_of_isType hr hidle hs hroom))
  | false => exact iff_of_false nofun ((answers_checkWithin c h strict _ v t).no hr hs hroom)

end

end Conformance

end TypeContracts
