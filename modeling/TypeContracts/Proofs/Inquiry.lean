import Mathlib
import TypeContracts.Engine.Basic

/-!
# Inquiries

A rule decides a question by asking others, one after the other, and stops as
soon as the answers so far decide it. An inquiry is such a rule as a tree:
what is asked next depends on the answers, and on nothing else. Whatever the
questions do to the context, what a run can do is read off the tree (`run_ok`,
`run_error`), and `Inquires` says of a rule which condition on the answers it
decides, what it may ask and how it may fail.
-/

namespace TypeContracts

def stateAfter {ε σ α : Type} : EStateM.Result ε σ α → σ
  | .ok _ s => s
  | .error _ s => s

@[simp]
theorem stateAfter_ok {ε σ α : Type} (a : α) (s : σ) : stateAfter (.ok a s : EStateM.Result ε σ α) = s := rfl

def outcome {ε σ α : Type} : EStateM.Result ε σ α → Except ε α
  | .ok a _ => .ok a
  | .error e _ => .error e

theorem outcome_eq_ok {ε σ α : Type} {r : EStateM.Result ε σ α} {a : α} :
    outcome r = .ok a ↔ r = .ok a (stateAfter r) := by
  cases r <;> simp [outcome]

theorem outcome_eq_error {ε σ α : Type} {r : EStateM.Result ε σ α} {e : ε} :
    outcome r = .error e ↔ r = .error e (stateAfter r) := by
  cases r <;> simp [outcome, stateAfter]

theorem bind_ok {ε σ α β : Type} {x : EStateM ε σ α} {f : α → EStateM ε σ β} {s s' : σ} {b : β} :
    (x >>= f) s = .ok b s' ↔ ∃ a s₁, x s = .ok a s₁ ∧ f a s₁ = .ok b s' := by
  simp only [bind, EStateM.bind]
  cases x s <;> simp [and_assoc]

theorem bind_error {ε σ α β : Type} {x : EStateM ε σ α} {f : α → EStateM ε σ β} {s s' : σ} {e : ε} :
    (x >>= f) s = .error e s' ↔ x s = .error e s' ∨ ∃ a s₁, x s = .ok a s₁ ∧ f a s₁ = .error e s' := by
  simp only [bind, EStateM.bind]
  cases x s <;> simp [and_assoc]

theorem bind_of_ok {ε σ α β : Type} {x : EStateM ε σ α} {s s₁ : σ} {a : α} (h : x s = .ok a s₁)
    (f : α → EStateM ε σ β) : (x >>= f) s = f a s₁ := by
  simp only [bind, EStateM.bind, h]

theorem stateAfter_bind_pure {ε σ α β : Type} (x : EStateM ε σ α) (f : α → β) (s : σ) :
    stateAfter ((x >>= fun a => pure (f a)) s) = stateAfter (x s) := by
  simp only [bind, EStateM.bind]
  cases x s <;> rfl

/-- The two runs have ended in the same way, in states that are related. -/
inductive Parallel {ε σ α : Type} (R : σ → σ → Prop) : EStateM.Result ε σ α → EStateM.Result ε σ α → Prop
  | ok {a s s'} : R s s' → Parallel R (.ok a s) (.ok a s')
  | error {e s s'} : R s s' → Parallel R (.error e s) (.error e s')

theorem Parallel.outcome_eq {ε σ α : Type} {R : σ → σ → Prop} {r r' : EStateM.Result ε σ α} (h : Parallel R r r') :
    outcome r' = outcome r ∧ R (stateAfter r) (stateAfter r') := by
  cases h with
  | ok h => exact ⟨rfl, h⟩
  | error h => exact ⟨rfl, h⟩

inductive Inquiry (κ : Type) where
  | answer (holds : Bool)
  | fail (cause : Failure)
  | ask (question : κ) (next : Bool → Inquiry κ)

namespace Inquiry

variable {κ : Type}

def run (ask : κ → Check Bool) : Inquiry κ → Check Bool
  | answer holds => pure holds
  | fail cause => throw cause
  | .ask question next => do (next (← ask question)).run ask

def bind : Inquiry κ → (Bool → Inquiry κ) → Inquiry κ
  | answer holds, f => f holds
  | fail cause, _ => fail cause
  | ask question next, f => ask question fun b => (next b).bind f

theorem run_bind (ask : κ → Check Bool) (t : Inquiry κ) (f : Bool → Inquiry κ) :
    (t.bind f).run ask = t.run ask >>= fun b => (f b).run ask := by
  induction t with
  | answer b => simp [bind, run]
  | fail e => rfl
  | ask k next ih => simp [bind, run, ih]

/-! ## What a tree can ask, and how it can end -/

/-- These answers, in this order, lead to this verdict. -/
inductive Ends : Inquiry κ → List (κ × Bool) → Bool → Prop
  | answer {b} : Ends (.answer b) [] b
  | ask {k next b answers verdict} : Ends (next b) answers verdict → Ends (.ask k next) ((k, b) :: answers) verdict

def Asks (k : κ) : Inquiry κ → Prop
  | answer _ => False
  | fail _ => False
  | ask question next => question = k ∨ ∃ b, (next b).Asks k

def FailsWith (e : Failure) : Inquiry κ → Prop
  | answer _ => False
  | fail cause => cause = e
  | ask _ next => ∃ b, (next b).FailsWith e

theorem ends_bind {t : Inquiry κ} {f : Bool → Inquiry κ} {answers : List (κ × Bool)} {verdict : Bool}
    (h : (t.bind f).Ends answers verdict) :
    ∃ b first rest, answers = first ++ rest ∧ t.Ends first b ∧ (f b).Ends rest verdict := by
  induction t generalizing answers with
  | answer b => exact ⟨b, [], answers, rfl, .answer, h⟩
  | fail e => cases h
  | ask k next ih =>
    cases h with
    | @ask _ _ b' rest _ h =>
      obtain ⟨b, first, rest, rfl, ht, hf⟩ := ih b' h
      exact ⟨b, (k, b') :: first, rest, rfl, .ask ht, hf⟩

theorem asks_bind {t : Inquiry κ} {f : Bool → Inquiry κ} {k : κ} (h : (t.bind f).Asks k) :
    t.Asks k ∨ ∃ b, (f b).Asks k := by
  induction t with
  | answer b => exact .inr ⟨b, h⟩
  | fail e => exact h.elim
  | ask q next ih =>
    obtain rfl | ⟨b, h⟩ := h
    · exact .inl (.inl rfl)
    · exact (ih b h).imp (fun h => .inr ⟨b, h⟩) id

theorem failsWith_bind {t : Inquiry κ} {f : Bool → Inquiry κ} {e : Failure} (h : (t.bind f).FailsWith e) :
    t.FailsWith e ∨ ∃ b, (f b).FailsWith e := by
  induction t with
  | answer b => exact .inr ⟨b, h⟩
  | fail e => exact .inl h
  | ask q next ih =>
    obtain ⟨b, h⟩ := h
    exact (ih b h).imp (fun h => ⟨b, h⟩) id

/-! ## Runs -/

/-- Questions asked one after the other, with their answers, lead from one context to the other. -/
inductive Asked (ask : κ → Check Bool) : Context → List (κ × Bool) → Context → Prop
  | nil {s} : Asked ask s [] s
  | cons {s s₁ s' k b answers} : ask k s = .ok b s₁ → Asked ask s₁ answers s' → Asked ask s ((k, b) :: answers) s'

section
variable {ask : κ → Check Bool} {t : Inquiry κ} {s s' : Context}

theorem run_ok {b : Bool} (h : t.run ask s = .ok b s') : ∃ answers, t.Ends answers b ∧ Asked ask s answers s' := by
  induction t generalizing s with
  | answer b => cases h; exact ⟨[], .answer, .nil⟩
  | fail e => cases h
  | ask k next ih =>
    obtain ⟨b', s₁, hk, h⟩ := bind_ok.mp h
    obtain ⟨answers, he, ha⟩ := ih b' h
    exact ⟨(k, b') :: answers, .ask he, .cons hk ha⟩

theorem run_error {e : Failure} (h : t.run ask s = .error e s') :
    ∃ answers s₁, Asked ask s answers s₁ ∧
      ((t.FailsWith e ∧ s' = s₁) ∨ ∃ k, t.Asks k ∧ ask k s₁ = .error e s') := by
  induction t generalizing s with
  | answer b => cases h
  | fail e =>
    cases h
    exact ⟨[], _, .nil, .inl ⟨rfl, rfl⟩⟩
  | ask k next ih =>
    obtain h | ⟨b, s₁, hk, h⟩ := bind_error.mp h
    · exact ⟨[], s, .nil, .inr ⟨k, .inl rfl, h⟩⟩
    · obtain ⟨answers, s₂, ha, ⟨hf, rfl⟩ | ⟨k', hk', h⟩⟩ := ih b h
      · exact ⟨(k, b) :: answers, _, .cons hk ha, .inl ⟨⟨b, hf⟩, rfl⟩⟩
      · exact ⟨(k, b) :: answers, s₂, .cons hk ha, .inr ⟨k', .inr ⟨b, hk'⟩, h⟩⟩

/-- How a question is answered that is never asked does not matter. -/
theorem run_congr {ask' : κ → Check Bool} (h : ∀ k, t.Asks k → ask k = ask' k) : t.run ask = t.run ask' := by
  induction t with
  | answer b => rfl
  | fail e => rfl
  | ask k next ih =>
    have hnext : ∀ b, (next b).run ask = (next b).run ask' := fun b => ih b fun k' hk' => h k' (.inr ⟨b, hk'⟩)
    simp only [run, h k (.inl rfl), hnext]

/-- What is not asked may be answered in any way, for instance by `other`. -/
theorem exists_run_eq {P : κ → Check Bool → Prop} {other : Check Bool} (h : ∀ k, t.Asks k → P k (ask k))
    (hother : ∀ k, P k other) : ∃ ask', t.run ask = t.run ask' ∧ ∀ k, P k (ask' k) := by
  classical
  refine ⟨fun k => if t.Asks k then ask k else other, run_congr fun k hk => (if_pos hk).symm, fun k => ?_⟩
  by_cases hk : t.Asks k
  · simp only [if_pos hk]
    exact h k hk
  · simp only [if_neg hk]
    exact hother k

section
variable {P : Context → Context → Prop} (refl : ∀ s, P s s) (trans : ∀ {s s₁ s₂}, P s s₁ → P s₁ s₂ → P s s₂)
  (h : ∀ k s, P s (stateAfter (ask k s)))
include refl trans h

theorem asked_rel {answers : List (κ × Bool)} (ha : Asked ask s answers s') : P s s' := by
  induction ha with
  | nil => exact refl _
  | @cons s s₁ s' k b answers hk _ ih =>
    have hs := h k s
    rw [hk] at hs
    exact trans hs ih

theorem run_rel (s : Context) : P s (stateAfter (t.run ask s)) := by
  cases hr : t.run ask s with
  | ok b s' =>
    obtain ⟨answers, -, ha⟩ := run_ok hr
    exact asked_rel refl trans h ha
  | error e s' =>
    obtain ⟨answers, s₁, ha, ⟨-, rfl⟩ | ⟨k, -, hk⟩⟩ := run_error hr
    · exact asked_rel refl trans h ha
    · have hs := h k s₁
      rw [hk] at hs
      exact trans (asked_rel refl trans h ha) hs

end

end

/-! ## Conditions that trees decide -/

/-- The verdict tells whether `φ` holds: a yes whenever the yes answers are true, a no whenever the no answers
are. The other answers may be wrong. -/
structure Decides (t : Inquiry κ) (φ : Set κ → Prop) : Prop where
  yes : ∀ {answers}, t.Ends answers true → ∀ R : Set κ, (∀ k, (k, true) ∈ answers → k ∈ R) → φ R
  no : ∀ {answers}, t.Ends answers false → ∀ R : Set κ, (∀ k, (k, false) ∈ answers → k ∉ R) → ¬ φ R

end Inquiry

/-- The rule `m` is an inquiry that decides `φ`, asks nothing outside `Q` and fails for no cause outside `E`. How
questions are answered, and anything else that the rule is given, is the parameter `i`. -/
def Inquires {ι κ : Type} (ask : ι → κ → Check Bool) (m : ι → Check Bool) (φ : Set κ → Prop) (Q : Set κ)
    (E : Set Failure) : Prop :=
  ∃ t : Inquiry κ, (∀ i, m i = t.run (ask i)) ∧ t.Decides φ ∧ (∀ k, t.Asks k → k ∈ Q) ∧ ∀ e, t.FailsWith e → e ∈ E

namespace Inquires

variable {ι κ α : Type} {ask : ι → κ → Check Bool} {m n : ι → Check Bool} {φ ψ : Set κ → Prop} {Q Q' : Set κ}
  {E E' : Set Failure}

theorem congr (h : Inquires ask m φ Q E) (hψ : ∀ R, φ R ↔ ψ R) : Inquires ask m ψ Q E := by
  obtain ⟨t, hm, hd, hq⟩ := h
  exact ⟨t, hm, ⟨fun he R hR => (hψ R).mp (hd.yes he R hR), fun he R hR => mt (hψ R).mpr (hd.no he R hR)⟩, hq⟩

theorem mono (h : Inquires ask m φ Q E) (hQ : Q ⊆ Q') : Inquires ask m φ Q' E := by
  obtain ⟨t, hm, hd, hq, hf⟩ := h
  exact ⟨t, hm, hd, fun k hk => hQ (hq k hk), hf⟩

theorem pure (b : Bool) (hφ : ∀ R, φ R ↔ b = true) : Inquires ask (fun _ => Pure.pure b) φ Q E := by
  refine ⟨.answer b, fun _ => rfl, ⟨?_, ?_⟩, fun _ h => h.elim, fun _ h => h.elim⟩
  · intro answers he R _
    cases he
    exact (hφ R).mpr rfl
  · intro answers he R _
    cases he
    simp [hφ]

theorem always : Inquires ask (fun _ => Pure.pure true) (fun _ => True) Q E := pure true (by simp)

theorem never : Inquires ask (fun _ => Pure.pure false) (fun _ => False) Q E := pure false (by simp)

theorem throw {e : Failure} (he : e ∈ E) : Inquires ask (fun _ => MonadExcept.throw e) φ Q E := by
  refine ⟨.fail e, fun _ => rfl, ⟨?_, ?_⟩, fun _ h => h.elim, fun _ h => h ▸ he⟩
  · intro answers h
    cases h
  · intro answers h
    cases h

theorem question {k : κ} (hk : k ∈ Q) : Inquires ask (fun i => ask i k) (k ∈ ·) Q E := by
  refine ⟨.ask k .answer, fun i => by simp [Inquiry.run], ⟨?_, ?_⟩, ?_, fun _ h => h.elim fun _ h => h.elim⟩
  · intro answers he R hR
    cases he with
    | ask he => cases he; exact hR k (by simp)
  · intro answers he R hR
    cases he with
    | ask he => cases he; exact hR k (by simp)
  · rintro _ (rfl | ⟨_, h⟩)
    · exact hk
    · exact h.elim

/-- A rule that goes on with one of two others. What the second decides has to imply what the first does, because
the answer that selects between them may be wrong. -/
theorem ite {χ : Set κ → Prop} {o : ι → Check Bool} (hm : Inquires ask m φ Q E) (hn : Inquires ask n ψ Q E)
    (ho : Inquires ask o χ Q E) (hχ : ∀ R, χ R → ψ R) :
    Inquires ask (fun i => do if ← m i then n i else o i) (fun R => φ R ∧ ψ R ∨ χ R) Q E := by
  obtain ⟨t, ht, hd, hq, hf⟩ := hm
  obtain ⟨u, hu, hdu, hqu, hfu⟩ := hn
  obtain ⟨u', hu', hdu', hqu', hfu'⟩ := ho
  refine ⟨t.bind fun b => if b then u else u', ?_, ⟨?_, ?_⟩, ?_, ?_⟩
  · intro i
    simp only [Inquiry.run_bind, ht, hu, hu']
    congr 1; funext b; cases b <;> rfl
  · intro answers he R hR
    obtain ⟨b, first, rest, rfl, h₁, h₂⟩ := Inquiry.ends_bind he
    have hfirst : ∀ k, (k, true) ∈ first → k ∈ R := fun k hk => hR k (by simp [hk])
    have hrest : ∀ k, (k, true) ∈ rest → k ∈ R := fun k hk => hR k (by simp [hk])
    cases b with
    | false => exact .inr (hdu'.yes h₂ R hrest)
    | true => exact .inl ⟨hd.yes h₁ R hfirst, hdu.yes h₂ R hrest⟩
  · intro answers he R hR
    obtain ⟨b, first, rest, rfl, h₁, h₂⟩ := Inquiry.ends_bind he
    have hfirst : ∀ k, (k, false) ∈ first → k ∉ R := fun k hk => hR k (by simp [hk])
    have hrest : ∀ k, (k, false) ∈ rest → k ∉ R := fun k hk => hR k (by simp [hk])
    cases b with
    | false => exact not_or.mpr ⟨fun h => hd.no h₁ R hfirst h.1, hdu'.no h₂ R hrest⟩
    | true =>
      have hψ := hdu.no h₂ R hrest
      exact not_or.mpr ⟨fun h => hψ h.2, fun h => hψ (hχ R h)⟩
  · intro k hk
    obtain hk | ⟨b, hk⟩ := Inquiry.asks_bind hk
    · exact hq k hk
    · cases b with
      | false => exact hqu' k hk
      | true => exact hqu k hk
  · intro e he
    obtain he | ⟨b, he⟩ := Inquiry.failsWith_bind he
    · exact hf e he
    · cases b with
      | false => exact hfu' e he
      | true => exact hfu e he

theorem and (hm : Inquires ask m φ Q E) (hn : Inquires ask n ψ Q E) :
    Inquires ask (fun i => do if ← m i then n i else return false) (fun R => φ R ∧ ψ R) Q E :=
  (hm.ite hn never nofun).congr (by simp)

theorem or (hm : Inquires ask m φ Q E) (hn : Inquires ask n ψ Q E) :
    Inquires ask (fun i => do if ← m i then return true else n i) (fun R => φ R ∨ ψ R) Q E :=
  (hm.ite always hn fun _ _ => trivial).congr (by simp)

/-! ## Lists of rules -/

theorem allM {l : List α} {f : ι → α → Check Bool} {Φ : α → Set κ → Prop}
    (h : ∀ x ∈ l, Inquires ask (f · x) (Φ x) Q E) :
    Inquires ask (fun i => l.allM (f i)) (fun R => ∀ x ∈ l, Φ x R) Q E := by
  induction l with
  | nil => exact pure true (by simp)
  | cons x l ih =>
    have hx := (h x (by simp)).and (ih fun y hy => h y (by simp [hy]))
    simp only [List.allM_cons]
    exact hx.congr (by simp)

theorem anyM {l : List α} {f : ι → α → Check Bool} {Φ : α → Set κ → Prop}
    (h : ∀ x ∈ l, Inquires ask (f · x) (Φ x) Q E) :
    Inquires ask (fun i => l.anyM (f i)) (fun R => ∃ x ∈ l, Φ x R) Q E := by
  induction l with
  | nil => exact pure false (by simp)
  | cons x l ih =>
    have hx := (h x (by simp)).or (ih fun y hy => h y (by simp [hy]))
    simp only [List.anyM_cons]
    exact hx.congr (by simp)

end Inquires

/-! ## Properties of checks -/

/-- Checks that are made in the same way of related checks are related. Failures of `E` are related to themselves. -/
structure Relational (E : Set Failure) (R : Check Bool → Check Bool → Prop) : Prop where
  pure : ∀ b, R (Pure.pure b) (Pure.pure b)
  throw : ∀ {e : Failure}, e ∈ E → R (MonadExcept.throw e) (MonadExcept.throw e)
  bind : ∀ {m m' : Check Bool} {f f' : Bool → Check Bool}, R m m' → (∀ b, R (f b) (f' b)) → R (m >>= f) (m' >>= f')

namespace Relational

variable {E : Set Failure} {R : Check Bool → Check Bool → Prop} {α : Type} {l : List α} {f : α → Check Bool}
  (hR : Relational E R) (f' : α → Check Bool)
include hR

theorem allM (hf : ∀ x ∈ l, R (f x) (f' x)) : R (l.allM f) (l.allM f') := by
  induction l with
  | nil => exact hR.pure true
  | cons x l ih =>
    rw [List.allM_cons, List.allM_cons]
    refine hR.bind (hf x (by simp)) fun b => ?_
    cases b with
    | true => exact ih fun y hy => hf y (by simp [hy])
    | false => exact hR.pure false

theorem anyM (hf : ∀ x ∈ l, R (f x) (f' x)) : R (l.anyM f) (l.anyM f') := by
  induction l with
  | nil => exact hR.pure false
  | cons x l ih =>
    rw [List.anyM_cons, List.anyM_cons]
    refine hR.bind (hf x (by simp)) fun b => ?_
    cases b with
    | true => exact hR.pure true
    | false => exact ih fun y hy => hf y (by simp [hy])

theorem run {κ : Type} {ask : κ → Check Bool} (ask' : κ → Check Bool) {t : Inquiry κ}
    (hask : ∀ k, t.Asks k → R (ask k) (ask' k)) (hfail : ∀ e, t.FailsWith e → e ∈ E) :
    R (t.run ask) (t.run ask') := by
  induction t with
  | answer b => exact hR.pure b
  | fail e => exact hR.throw (hfail e rfl)
  | ask k next ih =>
    refine hR.bind (hask k (.inl rfl)) fun b => ih b ?_ fun e he => hfail e ⟨b, he⟩
    exact fun k' hk' => hask k' (.inr ⟨b, hk'⟩)

end Relational

structure Compositional (E : Set Failure) (P : Check Bool → Prop) : Prop where
  pure : ∀ b, P (Pure.pure b)
  throw : ∀ {e : Failure}, e ∈ E → P (MonadExcept.throw e)
  bind : ∀ {m : Check Bool} {f : Bool → Check Bool}, P m → (∀ b, P (f b)) → P (m >>= f)

namespace Compositional

variable {E : Set Failure} {P : Check Bool → Prop} (hP : Compositional E P)
include hP

theorem relational : Relational E fun m _ => P m := ⟨hP.pure, hP.throw, hP.bind⟩

theorem anyM {α : Type} {l : List α} {f : α → Check Bool} (hf : ∀ x ∈ l, P (f x)) : P (l.anyM f) :=
  hP.relational.anyM f hf

theorem run {κ : Type} {ask : κ → Check Bool} {t : Inquiry κ} (hask : ∀ k, t.Asks k → P (ask k))
    (hfail : ∀ e, t.FailsWith e → e ∈ E) : P (t.run ask) := hP.relational.run ask hask hfail

end Compositional

theorem compositional_rel {R : Context → Context → Prop} (refl : ∀ s, R s s)
    (trans : ∀ {s s₁ s₂}, R s s₁ → R s₁ s₂ → R s s₂) :
    Compositional Set.univ fun m : Check Bool => ∀ s, R s (stateAfter (m s)) where
  pure b s := refl s
  throw _ s := refl s
  bind {m f} hm hf s := by
    have hs := hm s
    simp only [Bind.bind, EStateM.bind]
    cases hr : m s with
    | ok b s' => rw [hr] at hs; exact trans hs (hf b s')
    | error e s' => rw [hr] at hs; exact hs

end TypeContracts
