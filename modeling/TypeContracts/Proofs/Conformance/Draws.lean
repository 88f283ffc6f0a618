import TypeContracts.Proofs.Conformance.Parts
import TypeContracts.Proofs.Conformance.Verdicts
import TypeContracts.Proofs.Engine.Draws
import TypeContracts.Proofs.Engine.Work

/-!
# Questions draw identities

Whatever is asked of an engine, and however that ends, identities change by
draws only, and the keys that the engine comes to hold are made of these
(`resolve_drawn`, `isType_drawn`).
-/

namespace TypeContracts

open Identities (KeyFor)

/-- These draws lead from one context to the other. A key is held afterwards only if it was held before or has been
made of them. -/
structure Context.Drawn (log : List Draw) (s s' : Context) : Prop where
  draws : s.identities.Draws log s'.identities
  keys : ∀ key ∈ s'.engine.held, key ∈ s.engine.held ∨ ∃ j, KeyFor log j key

namespace Context

def Draws (s s' : Context) : Prop := ∃ log, Drawn log s s'

variable {s s₁ s₂ : Context} {log log₁ log₂ : List Draw}

theorem Drawn.refl (s : Context) : Drawn [] s s := ⟨.nil, fun _ => .inl⟩

theorem Drawn.trans (h₁ : Drawn log₁ s s₁) (h₂ : Drawn log₂ s₁ s₂) : Drawn (log₁ ++ log₂) s s₂ := by
  refine ⟨h₁.draws.append h₂.draws, fun key hkey => ?_⟩
  obtain hkey | ⟨j, hj⟩ := h₂.keys key hkey
  · exact (h₁.keys key hkey).imp_right fun ⟨j, hj⟩ => ⟨j, hj.mono (List.subset_append_left ..)⟩
  · exact .inr ⟨j, hj.mono (List.subset_append_right ..)⟩

theorem Draws.refl (s : Context) : Draws s s := ⟨[], .refl s⟩

theorem Draws.trans (h₁ : Draws s s₁) (h₂ : Draws s₁ s₂) : Draws s s₂ := by
  obtain ⟨log₁, h₁⟩ := h₁
  obtain ⟨log₂, h₂⟩ := h₂
  exact ⟨_, h₁.trans h₂⟩

/-- The engine may change otherwise. -/
theorem Drawn.of_held (h : Drawn log s s₁) (e : Engine) (he : e.held ⊆ s₁.engine.held) (journal : Log.Journal) :
    Drawn log s ⟨e, s₁.identities, journal⟩ :=
  ⟨h.draws, fun key hkey => h.keys key (he hkey)⟩

/-- The engine may also come to hold a key that has been made. -/
theorem Drawn.of_held_insert (h : Drawn log s s₁) {j : Judgment} {key : JudgmentKey} (hj : KeyFor log j key)
    (e : Engine) (he : e.held ⊆ insert key s₁.engine.held) (journal : Log.Journal) :
    Drawn log s ⟨e, s₁.identities, journal⟩ := by
  refine ⟨h.draws, fun other hother => ?_⟩
  obtain rfl | hother := he hother
  · exact .inr ⟨j, hj⟩
  · exact h.keys other hother

theorem drawn_assign (s : Context) (g : Handle) :
    Drawn [⟨g, (s.identities.assign g).1⟩] s { s with identities := (s.identities.assign g).2 } :=
  ⟨.single s.identities g, fun _ => .inl⟩

theorem drawn_keyed (s : Context) {j : Judgment} {key : JudgmentKey} {ids : Identities}
    (hk : s.identities.keyed j = (key, ids)) :
    ∃ log, Drawn log s { s with identities := ids } ∧ KeyFor log j key := by
  have hdraws := Identities.Draws.keyed s.identities j
  have hkind : (s.identities.keyed j).1.kind = j.kind := rfl
  rw [hk] at hdraws hkind
  exact ⟨_, ⟨hdraws, fun _ => .inl⟩, hkind, by simp, by simp⟩

end Context

theorem compositional_draws :
    Compositional Set.univ fun m : Check Bool => ∀ s : Context, s.Draws (stateAfter (m s)) :=
  compositional_rel Context.Draws.refl Context.Draws.trans

section
variable {m : Check Bool} (hm : ∀ s : Context, s.Draws (stateAfter (m s)))
include hm

theorem Check.judge_drawn (j : Judgment) (s : Context) : s.Draws (stateAfter (Check.judge j m s)) := by
  have hinner : ∀ {key ids journal r}, s.identities.keyed j = (key, ids) → m ⟨s.engine.begun key, ids, journal⟩ = r →
      ∃ log, Context.Drawn log s (stateAfter r) ∧ KeyFor log j key := by
    intro key ids journal r hk hr
    obtain ⟨log, hdrawn, hkey⟩ := s.drawn_keyed hk
    obtain ⟨more, hmore⟩ := hm ⟨s.engine.begun key, ids, journal⟩
    rw [hr] at hmore
    have hbegun := hdrawn.of_held_insert hkey (s.engine.begun key) (s.engine.held_of_tried key) journal
    exact ⟨_, hbegun.trans hmore, hkey.mono (List.subset_append_left ..)⟩
  have hj := Check.judge_judged j m s
  generalize Check.judge j m s = r at hj ⊢
  cases hj with
  | @hit key ids b journal hk hp =>
    obtain ⟨log, hdrawn, -⟩ := s.drawn_keyed hk
    have hsame : (s.engine.asked key).held ⊆ s.engine.held := by
      simp [Engine.held, Engine.asked]
    exact ⟨log, hdrawn.of_held _ hsame journal⟩
  | @assumed key ids journal hk hp ha =>
    obtain ⟨log, hdrawn, hkey⟩ := s.drawn_keyed hk
    let e := { s.engine.tried key with cycleAssumptions := s.engine.cycleAssumptions + 1 }
    exact ⟨log, hdrawn.of_held_insert hkey e (s.engine.held_of_tried key) journal⟩
  | @denied key ids journal hk hp ha =>
    obtain ⟨log, hdrawn, hkey⟩ := s.drawn_keyed hk
    exact ⟨log, hdrawn.of_held_insert hkey _ (s.engine.held_of_tried key) journal⟩
  | @computed key ids b s' journal journal' hk hp ha hr =>
    obtain ⟨log, hdrawn, hkey⟩ := hinner hk hr
    have hleft := hdrawn.of_held _ (s'.engine.held_of_left key) journal'
    exact ⟨log, hleft.of_held_insert hkey _ ((s'.engine.left key).held_of_kept key _ b) journal'⟩
  | @failed key ids e s' journal hk hp ha hr =>
    obtain ⟨log, hdrawn, -⟩ := hinner hk hr
    exact ⟨log, hdrawn.of_held _ (s'.engine.held_of_left key) s'.journal⟩

/-- The guard of value checks has keys of its own. -/
theorem Conformance.guarded_drawn (value : Nat) (t : TypeRef) (s : Context) :
    s.Draws (stateAfter (guarded value t m s)) := by
  have hassign : ∀ {i ids}, s.identities.assign (.type t) = (i, ids) → ∀ journal,
      ∃ log, Context.Drawn log s ⟨s.engine.valueTried ⟨value, i⟩, ids, journal⟩ := by
    intro i ids hi journal
    have hdrawn := s.drawn_assign (.type t)
    rw [hi] at hdrawn
    exact ⟨_, hdrawn.of_held (s.engine.valueTried ⟨value, i⟩) subset_rfl journal⟩
  have hinner : ∀ {i ids r}, s.identities.assign (.type t) = (i, ids) →
      m ⟨s.engine.valueTried ⟨value, i⟩, ids, s.journal⟩ = r →
      s.Draws { stateAfter r with engine := (stateAfter r).engine.valueLeft ⟨value, i⟩ } := by
    intro i ids r hi hr
    obtain ⟨log, hdrawn⟩ := hassign hi s.journal
    obtain ⟨more, hmore⟩ := hm ⟨s.engine.valueTried ⟨value, i⟩, ids, s.journal⟩
    rw [hr] at hmore
    exact ⟨_, (hdrawn.trans hmore).of_held ((stateAfter r).engine.valueLeft ⟨value, i⟩) subset_rfl _⟩
  have hg := guarded_guarded value t m s
  generalize guarded value t m s = r at hg ⊢
  cases hg with
  | assumed journal hi ha => exact hassign hi journal
  | denied hi ha => exact hassign hi s.journal
  | computed hi ha hr => exact hinner hi hr
  | failed hi ha hr => exact hinner hi hr

end

theorem Compatibility.resolve_drawn (c : Catalog) (j : Judgment) (s : Context) :
    s.Draws (stateAfter (resolve c j s)) := by
  refine resolveWithin_of_judge (P := fun _ m => ∀ s : Context, s.Draws (stateAfter (m s))) (askClosed_univ c)
    (fun _ s => .refl s) ?_ ?_ _ (Set.mem_univ j) s
  · intro j ask _ _ ha
    exact Check.judge_drawn (rule_of_asked compositional_draws _ ha (Set.subset_univ _)) j
  · intro j _ _
    exact Check.judge_drawn (compositional_draws.throw (Set.mem_univ _)) j

theorem Conformance.isType_drawn (c : Catalog) (h : Heap) (v : Value) (t : TypeRef) (s : Context) :
    s.Draws (stateAfter (isType c h v t s)) := by
  revert s
  exact isType_of_parts (S := Set.univ) (V := Set.univ) compositional_draws (by simp) (by simp) (by simp)
    (fun _ _ _ _ hm => guarded_drawn hm _ _) (fun _ _ _ _ => Compatibility.resolve_drawn c _) (by simp)
    (fun f hf s => hf s s) (by simp) (by simp)

end TypeContracts
