import Mathlib.Data.List.Forall2

/-!
# How runs end

`Leads m s P F` says how `m` ends when it is run from `s`: with a result and a
state as `P` says, or with a failure as `F` says. Loops over lists and over the
indices of a table have one law each, with an invariant.
-/

namespace TypeContracts

variable {ε σ α β : Type}

/-- What comes after a look at the state is run in that state. -/
theorem get_bind_run (f : σ → EStateM ε σ α) (s : σ) : (get >>= f) s = f s s := rfl

def Leads (m : EStateM ε σ α) (s : σ) (P : α → σ → Prop) (F : ε → Prop) : Prop :=
  match m s with
  | .ok a s' => P a s'
  | .error e _ => F e

namespace Leads

variable {m : EStateM ε σ α} {s : σ} {P : α → σ → Prop} {F : ε → Prop}

theorem ok (h : Leads m s P F) {a : α} {s' : σ} (hm : m s = .ok a s') : P a s' := by
  unfold Leads at h
  rw [hm] at h
  exact h

theorem error (h : Leads m s P F) {e : ε} {s' : σ} (hm : m s = .error e s') : F e := by
  unfold Leads at h
  rw [hm] at h
  exact h

theorem imp {Q : α → σ → Prop} (h : Leads m s P F) (hPQ : ∀ a s', P a s' → Q a s') : Leads m s Q F := by
  unfold Leads at *
  cases hm : m s with
  | ok a s' => rw [hm] at h; exact hPQ a s' h
  | error e s' => rw [hm] at h; exact h

theorem bind {f : α → EStateM ε σ β} {Q : β → σ → Prop} (h : Leads m s P F)
    (hf : ∀ a s', P a s' → Leads (f a) s' Q F) : Leads (m >>= f) s Q F := by
  unfold Leads at h
  simp only [Leads, Bind.bind, EStateM.bind]
  cases hm : m s with
  | ok a s' => rw [hm] at h; exact hf a s' h
  | error e s' => rw [hm] at h; exact h

theorem discard (h : Leads m s P F) : Leads (Functor.discard m) s (fun _ s' => ∃ a, P a s') F := by
  unfold Leads at *
  simp only [Functor.discard, Functor.mapConst, Function.comp, EStateM.map]
  cases hm : m s with
  | ok a s' => rw [hm] at h; exact ⟨a, h⟩
  | error e s' => rw [hm] at h; exact h

/-! ## Loops -/

/-- Each result is right when it is found, and stays so. -/
theorem mapM {I : σ → Prop} {R : σ → σ → Prop} {f : α → EStateM ε σ β} {Q : α → β → σ → Prop} {l : List α}
    (hrefl : ∀ s, R s s) (htrans : ∀ {s s₁ s₂}, R s s₁ → R s₁ s₂ → R s s₂)
    (hstable : ∀ {x y s s'}, R s s' → Q x y s → Q x y s')
    (h : ∀ x ∈ l, ∀ s, I s → Leads (f x) s (fun y s' => I s' ∧ R s s' ∧ Q x y s') F) (hs : I s) :
    Leads (l.mapM f) s (fun ys s' => I s' ∧ R s s' ∧ List.Forall₂ (Q · · s') l ys) F := by
  induction l generalizing s with
  | nil => exact ⟨hs, hrefl s, .nil⟩
  | cons x l ih =>
    rw [List.mapM_cons]
    refine (h x (by simp) s hs).bind fun y s₁ ⟨hs₁, h₁, hy⟩ => ?_
    refine (ih (fun x' hx' => h x' (by simp [hx'])) hs₁).bind fun ys s₂ ⟨hs₂, h₂, hys⟩ => ?_
    exact ⟨hs₂, htrans h₁ h₂, .cons (hstable h₂ hy) hys⟩

section
variable {f : α → EStateM ε σ β} {Q : α → β → Prop}

theorem mapM_same {l : List α} (h : ∀ x ∈ l, Leads (f x) s (fun y s' => s' = s ∧ Q x y) F) :
    Leads (l.mapM f) s (fun ys s' => s' = s ∧ List.Forall₂ Q l ys) F := by
  refine (mapM (I := (· = s)) (R := fun s s' => s' = s) (Q := fun x y _ => Q x y) (fun _ => rfl)
    (fun h₁ h₂ => h₂.trans h₁) (fun _ hxy => hxy) ?_ rfl).imp fun ys s' ⟨hs', _, hys⟩ => ⟨hs', hys⟩
  rintro x hx s rfl
  exact (h x hx).imp fun y s' ⟨hs', hxy⟩ => ⟨hs', hs', hxy⟩

theorem optionMapM_same {x : Option α} (h : ∀ y ∈ x, Leads (f y) s (fun z s' => s' = s ∧ Q y z) F) :
    Leads (x.mapM f) s (fun z s' => s' = s ∧ Option.Rel Q x z) F := by
  cases x with
  | none => exact ⟨rfl, .none⟩
  | some x => exact (h x rfl).bind fun z s' ⟨hs', hz⟩ => ⟨hs', .some hz⟩

end

/-- A loop over the indices below `n`, with an invariant that knows how far it has come. -/
theorem forM_range {I : Nat → σ → Prop} {f : Nat → EStateM ε σ PUnit} {n : Nat}
    (h : ∀ k < n, ∀ s, I k s → Leads (f k) s (fun _ s' => I (k + 1) s') F) (hs : I 0 s) :
    Leads ((List.range n).forM f) s (fun _ s' => I n s') F := by
  induction n with
  | zero => exact hs
  | succ n ih =>
    rw [List.forM_eq_forM] at *
    rw [List.range_succ, List.forM_append]
    refine (ih fun k hk => h k (by omega)).bind fun _ s₁ hs₁ => ?_
    exact (h n (by omega) s₁ hs₁).bind fun _ s₂ hs₂ => hs₂

end Leads

/-! ## Computations that agree -/

/-- From every state of `I` the two end alike, and within `I`. -/
def Agrees (I : σ → Prop) (m m' : EStateM ε σ α) : Prop :=
  ∀ s, I s → m s = m' s ∧ Leads m s (fun _ s' => I s') fun _ => True

namespace Agrees

variable {I : σ → Prop} {m m' : EStateM ε σ α}

theorem same (h : ∀ s, I s → Leads m s (fun _ s' => I s') fun _ => True) : Agrees I m m := fun s hs => ⟨rfl, h s hs⟩

theorem pure (a : α) : Agrees I (Pure.pure a : EStateM ε σ α) (Pure.pure a) := same fun _ hs => hs

theorem throw (e : ε) : Agrees I (MonadExcept.throw e : EStateM ε σ α) (MonadExcept.throw e) := same fun _ _ => trivial

theorem get : Agrees I (MonadState.get : EStateM ε σ σ) MonadState.get := same fun _ hs => hs

theorem bind {f f' : α → EStateM ε σ β} (h : Agrees I m m') (hf : ∀ a, Agrees I (f a) (f' a)) :
    Agrees I (m >>= f) (m' >>= f') := by
  intro s hs
  obtain ⟨heq, hled⟩ := h s hs
  refine ⟨?_, hled.bind fun a s' hs' => (hf a s' hs').2⟩
  simp only [Bind.bind, EStateM.bind, ← heq]
  cases hm : m s with
  | ok a s' => exact (hf a s' (hled.ok hm)).1
  | error e s' => rfl

theorem throw_bind (e : ε) (f f' : α → EStateM ε σ β) :
    Agrees I (MonadExcept.throw e >>= f) (MonadExcept.throw e >>= f') :=
  fun _ _ => ⟨rfl, trivial⟩

theorem discard (h : Agrees I m m') : Agrees I (Functor.discard m) (Functor.discard m') := by
  intro s hs
  obtain ⟨heq, hled⟩ := h s hs
  refine ⟨?_, hled.discard.imp fun _ _ ⟨_, hs'⟩ => hs'⟩
  simp only [Functor.discard, Functor.mapConst, Function.comp, EStateM.map, heq]

variable {f f' : α → EStateM ε σ β}

theorem mapM (h : ∀ a, Agrees I (f a) (f' a)) (l : List α) : Agrees I (l.mapM f) (l.mapM f') := by
  induction l with
  | nil => exact .pure []
  | cons a l ih =>
    simp only [List.mapM_cons]
    exact (h a).bind fun b => ih.bind fun bs => .pure (b :: bs)

theorem optionMapM (h : ∀ a, Agrees I (f a) (f' a)) (x : Option α) : Agrees I (x.mapM f) (x.mapM f') := by
  cases x with
  | none => exact .pure none
  | some a => exact (h a).bind fun b => .pure (some b)

theorem forM {f f' : α → EStateM ε σ PUnit} {l : List α} (h : ∀ a ∈ l, Agrees I (f a) (f' a)) :
    Agrees I (l.forM f) (l.forM f') := by
  induction l with
  | nil => exact .pure ()
  | cons a l ih => exact (h a (by simp)).bind fun _ => ih fun b hb => h b (by simp [hb])

end Agrees

end TypeContracts
