import TypeContracts.Proofs.Compatibility.Verdicts

/-!
# Judgments that are never denied

A no is found by looking at descriptors that are there, and these stay as they
are while the catalog grows. So a set of judgments that supports itself under
the rules is not denied by any engine, whatever the engine has been asked
before and whatever was still missing then (`resolve_spared`).
-/

namespace TypeContracts

/-- The same in both catalogs, but for an object type that gets its shape. -/
def Catalog.Refines (c₀ c : Catalog) : Handle → Prop
  | .type t => c.get t = c₀.get t ∨ ∃ name shape, c₀.get t = .object name none ∧ c.get t = .object name (some shape)
  | .signature x => c.signature x = c₀.signature x

section
variable {c₀ c : Catalog} {t : TypeRef}

theorem Catalog.Refines.refl (c : Catalog) (g : Handle) : c.Refines c g := by
  cases g with
  | type t => exact .inl rfl
  | signature x => rfl

theorem Catalog.Refines.tag (h : c₀.Refines c (.type t)) : c.tag t = c₀.tag t := by
  unfold Catalog.tag
  rcases h with h | ⟨name, shape, h₀, h⟩
  · rw [h]
  · rw [h₀, h]
    rfl

theorem Catalog.Refines.shape (h : c₀.Refines c (.type t)) {shape : Shape} (hs : c₀.shape t = .ok shape) :
    c.shape t = .ok shape := by
  rw [Catalog.shape_eq_ok] at *
  obtain ⟨name, hs⟩ := hs
  rcases h with h | ⟨_, _, h₀, -⟩
  · exact ⟨name, h.trans hs⟩
  · rw [h₀] at hs
    cases hs

end

namespace Compatibility

/-! ## Rules that are run too early -/

section
variable {c₀ c : Catalog} {strict : Bool} {s t : TypeRef} {R : Set Judgment}

theorem isUniversal_later (hs : c₀.Refines c (.type s)) :
    isUniversal strict (c.get s) = isUniversal strict (c₀.get s) := by
  have htag := hs.tag
  unfold Catalog.tag at htag
  unfold isUniversal
  rw [htag]

theorem typeStep_later_of_eq (hs : c.get s = c₀.get s) (ht : c.get t = c₀.get t) :
    TypeStep R c₀ strict s t ↔ TypeStep R c strict s t := by
  unfold TypeStep TargetStep Catalog.tag Catalog.shape
  rw [hs, ht]

theorem typeStep_later_of_undefined {name : Option String} {shape : Shape} (hs₀ : c₀.get s = .object name none)
    (hs : c.get s = .object name (some shape)) (ht : c.get t = c₀.get t) (hobject : c₀.tag t ≠ .object) :
    TypeStep R c₀ strict s t ↔ TypeStep R c strict s t := by
  unfold TypeStep TargetStep Catalog.tag
  rw [hs, hs₀, ht]
  unfold Catalog.tag at hobject
  cases hg : c₀.get t with
  | object => rw [hg] at hobject; exact absurd rfl hobject
  | _ => simp [isUniversal, Descriptor.tag]

/-- A rule that fails whatever it is told decides everything. -/
theorem inquires_of_throw {j : Judgment} {e : Failure} {φ : Set Judgment → Prop} {S : Set Handle}
    (he : e ∈ failures c₀ j) (h : ∀ ask, rule c₀ ask strict j = throw e) :
    Asking (fun ask => rule c₀ ask strict j) φ S (failures c₀ j) := by
  rw [show (fun ask => rule c₀ ask strict j) = fun _ => throw e from funext h]
  exact Inquires.throw he

theorem typeRule_inquires_of_undefined_source {name : Option String} (hs : c₀.get s = .object name none)
    (ht : c₀.tag t = .object) (φ : Set Judgment → Prop) (S : Set Handle) :
    Asking (fun ask => rule c₀ ask strict (.type s t)) φ S (failures c₀ (.type s t)) := by
  unfold Catalog.tag at ht
  have hs' : c₀.shape s = .error (.malformed (.undefinedObject name)) := by simp only [Catalog.shape, hs]
  have hrule : ∀ ask, rule c₀ ask strict (.type s t) = targetRule c₀ ask s t := by
    intro ask
    simp only [rule, typeRule, hs]
    rfl
  cases hg : c₀.get t with
  | object name' shape =>
    cases shape with
    | none =>
      refine inquires_of_throw (e := .malformed (.undefinedObject name')) (.inr hg) fun ask => ?_
      rw [hrule]
      simp only [targetRule, hg, Catalog.shape]
      rfl
    | some shape =>
      refine inquires_of_throw (e := .malformed (.undefinedObject name)) (.inl hs) fun ask => ?_
      have ht' : c₀.shape t = .ok shape := by simp only [Catalog.shape, hg]
      rw [hrule]
      simp only [targetRule, hg, hs, hs', ht']
      rfl
  | _ => rw [hg] at ht; cases ht

theorem typeRule_inquires_of_undefined_target {name : Option String} (hs : c₀.Refines c (.type s))
    (ht : c₀.get t = .object name none) :
    Asking (fun ask => rule c₀ ask strict (.type s t)) (RuleStep · c strict (.type s t)) (near c₀ (.type s t))
      (failures c₀ (.type s t)) := by
  have hrule := rule_inquires c₀ strict (.type s t)
  by_cases hu : isUniversal strict (c₀.get s) = true
  · refine hrule.congr fun R => iff_of_true (.inl hu) (.inl ?_)
    rwa [isUniversal_later hs]
  · have hthrow : (∀ ask, typeRule c₀ ask strict s t = targetRule c₀ ask s t) →
        Asking (fun ask => rule c₀ ask strict (.type s t)) (RuleStep · c strict (.type s t)) (near c₀ (.type s t))
          (failures c₀ (.type s t)) := by
      intro htarget
      refine inquires_of_throw (e := .malformed (.undefinedObject name)) (.inr ht) fun ask => ?_
      show typeRule c₀ ask strict s t = _
      rw [htarget]
      simp only [targetRule, ht, Catalog.shape]
      rfl
    cases hg : c₀.get s with
    | typeParameter name' =>
      refine inquires_of_throw (e := .unsupportedTypeParameter) (.inl ?_) fun ask => ?_
      · simp only [Catalog.Blames, Catalog.tag, hg, Descriptor.tag]
      · rw [hg] at hu
        simp only [rule, typeRule, hg, hu]
        rfl
    | union members name' =>
      -- members are asked about one by one, before the target is looked at
      have hs' : c.get s = .union members name' := by
        rcases hs with hs | ⟨_, _, hs, -⟩
        · rw [hs, hg]
        · rw [hg] at hs
          cases hs
      refine hrule.congr fun R => ?_
      simp only [RuleStep, TypeStep, hg, hs']
    | _ =>
      refine hthrow fun ask => ?_
      rw [hg] at hu
      simp only [typeRule, hg, hu]
      rfl

theorem rule_inquires_later (strict : Bool) {j : Judgment} (hs : c₀.Refines c j.source) (ht : c₀.Refines c j.target) :
    Asking (fun ask => rule c₀ ask strict j) (RuleStep · c strict j) (near c₀ j) (failures c₀ j) := by
  have hrule := rule_inquires c₀ strict j
  cases j with
  | type s t =>
    rcases ht with ht | ⟨name, shape, ht₀, ht⟩
    · rcases id hs with hs | ⟨name, shape, hs₀, hs⟩
      · exact hrule.congr fun R => typeStep_later_of_eq hs ht
      · by_cases hobject : c₀.tag t = .object
        · exact typeRule_inquires_of_undefined_source hs₀ hobject _ _
        · exact hrule.congr fun R => typeStep_later_of_undefined hs₀ hs ht hobject
    · exact typeRule_inquires_of_undefined_target hs ht₀
  | signature x y =>
    refine hrule.congr fun R => ?_
    simp only [RuleStep]
    rw [show c.signature x = c₀.signature x from hs, show c.signature y = c₀.signature y from ht]
  | functionTag tag target =>
    cases hown : c₀.shape tag with
    | error e =>
      refine inquires_of_throw (.inl hown) fun ask => ?_
      simp only [rule, hown]
      rfl
    | ok own =>
      cases hwanted : c₀.shape target with
      | error e =>
        refine inquires_of_throw (.inr hwanted) fun ask => ?_
        simp only [rule, hown, hwanted]
        rfl
      | ok wanted =>
        refine hrule.congr fun R => ?_
        simp only [RuleStep, hown, hwanted, hs.shape hown, ht.shape hwanted]

end

end Compatibility

/-! ## Checks that keep an invariant -/

/-- The check follows the contexts it is given, and keeps `I` as long as there is room for identities. -/
structure Keeps (I : Context → Prop) {α : Type} (m : Check α) : Prop where
  follows : ∀ s : Context, s.Follows (stateAfter (m s))
  keeps : ∀ {s}, I s → (stateAfter (m s)).identities.HasRoom → I (stateAfter (m s))

namespace Keeps

variable {I : Context → Prop} {α β : Type} {m : Check α}

theorem pure (a : α) : Keeps I (Pure.pure a : Check α) := ⟨fun s => .refl s, fun hs _ => hs⟩

theorem throw (e : Failure) : Keeps I (MonadExcept.throw e : Check α) := ⟨fun s => .refl s, fun hs _ => hs⟩

theorem bind {f : α → Check β} (hm : Keeps I m) (hf : ∀ a, Keeps I (f a)) : Keeps I (m >>= f) := by
  refine ⟨fun s => ?_, fun {s} hs hroom => ?_⟩
  · have hfollows := hm.follows s
    simp only [Bind.bind, EStateM.bind]
    cases hr : m s with
    | ok a s' => rw [hr] at hfollows; exact hfollows.trans ((hf a).follows s')
    | error e s' => rw [hr] at hfollows; exact hfollows
  · have hkeeps := hm.keeps hs
    simp only [Bind.bind, EStateM.bind] at hroom ⊢
    cases hr : m s with
    | ok a s' =>
      rw [hr] at hkeeps hroom
      exact (hf a).keeps (hkeeps (((hf a).follows s').identities.hasRoom hroom)) hroom
    | error e s' => rw [hr] at hkeeps hroom; exact hkeeps hroom

end Keeps

namespace Compatibility

/-! ## Engines that have never denied a judgment -/

structure Spares (T : Set Judgment) (strict : Bool) (s : Context) : Prop where
  options : s.engine.options.strictNullableSources = strict
  identities : s.identities.Sound
  cached : ∀ {key}, s.engine.cache.peek key = some false → ∃ j, s.identities.IsKey key j ∧ j ∉ T

/-- The check keeps it so, and is no no itself if `j` is one of `T`. -/
structure Spared (T : Set Judgment) (strict : Bool) (j : Judgment) (m : Check Bool) : Prop extends
    Keeps (Spares T strict) m where
  no : ∀ {s s'}, Spares T strict s → m s = .ok false s' → s'.identities.HasRoom → j ∉ T

section
variable {T : Set Judgment} {strict : Bool} {s s' : Context} {j : Judgment}

theorem Spares.of_cache (h : Spares T strict s) (hoptions : s'.engine.options = s.engine.options)
    (hids : s.identities.Grows s'.identities) (hs : s'.identities.Sound)
    (hcache : ∀ key, s'.engine.cache.peek key = s.engine.cache.peek key) : Spares T strict s' where
  options := by rw [hoptions, h.options]
  identities := hs
  cached hp := by
    rw [hcache] at hp
    obtain ⟨j, hk, hj⟩ := h.cached hp
    exact ⟨j, hk.grows hids, hj⟩

theorem Spares.keyed (h : Spares T strict s) {key : JudgmentKey} {ids : Identities}
    (hk : s.identities.keyed j = (key, ids)) (hroom : ids.HasRoom) :
    s.identities.Grows ids ∧ ids.Sound ∧ ids.IsKey key j := by
  have hg := s.identities.grows_keyed j
  have hs := h.identities.keyed (j := j)
  rw [hk] at hg hs
  exact ⟨hg, hs hroom⟩

theorem Spares.kept {key : JudgmentKey} {before : Nat} {b : Bool} (h : Spares T strict s)
    (hk : s.identities.IsKey key j) (hb : b = false → j ∉ T) (journal : Log.Journal) :
    Spares T strict ⟨s.engine.kept key before b, s.identities, journal⟩ := by
  refine ⟨(congrArg Options.strictNullableSources (Engine.kept_options ..)).trans h.options, h.identities, ?_⟩
  intro other hp
  unfold Engine.kept at hp
  split at hp
  · rw [Cache.peek_insert] at hp
    split at hp
    · rename_i heq
      cases hp
      exact ⟨j, heq ▸ hk, hb rfl⟩
    · exact h.cached hp
  · exact h.cached hp

theorem judged_spares {compute : Check Bool} {r : EStateM.Result Failure Context Bool}
    (hc : Spared T strict j compute) (hj : Check.Judged j compute s r) (h : Spares T strict s)
    (hroom : (stateAfter r).identities.HasRoom) :
    Spares T strict (stateAfter r) ∧ ∀ s', r = .ok false s' → j ∉ T := by
  cases hj with
  | @hit key ids b journal hk hp =>
    obtain ⟨hids, hs, hkey⟩ := h.keyed hk hroom
    refine ⟨h.of_cache rfl hids hs (Cache.peek_lookup _ _), ?_⟩
    rintro _ ⟨⟩
    obtain ⟨j', hk', hj'⟩ := h.cached hp
    rwa [hs.eq_of_isKey hkey (hk'.grows hids)]
  | assumed journal hk hp ha =>
    obtain ⟨hids, hs, -⟩ := h.keyed hk hroom
    exact ⟨h.of_cache rfl hids hs (Cache.peek_lookup _ _), by simp⟩
  | denied journal hk hp ha =>
    obtain ⟨hids, hs, -⟩ := h.keyed hk hroom
    exact ⟨h.of_cache rfl hids hs (Cache.peek_lookup _ _), by simp⟩
  | @computed key ids b s₁ journal journal' hk hp ha hrun =>
    have hf := hc.follows ⟨s.engine.begun key, ids, journal⟩
    have hkeeps := hc.keeps (s := ⟨s.engine.begun key, ids, journal⟩)
    rw [hrun] at hf hkeeps
    obtain ⟨hids, hs, hkey⟩ := h.keyed hk (hf.identities.hasRoom hroom)
    have hbegun : Spares T strict ⟨s.engine.begun key, ids, journal⟩ :=
      h.of_cache rfl hids hs (Cache.peek_lookup _ _)
    have hno : b = false → j ∉ T := by
      rintro rfl
      exact hc.no hbegun hrun hroom
    have hleft : Spares T strict { s₁ with engine := s₁.engine.left key } :=
      (hkeeps hbegun hroom).of_cache rfl (.refl _) (hkeeps hbegun hroom).identities fun _ => rfl
    refine ⟨hleft.kept (hkey.grows hf.identities) hno journal', ?_⟩
    rintro _ ⟨⟩
    exact hno rfl
  | @failed key ids e s₁ journal hk hp ha hrun =>
    have hf := hc.follows ⟨s.engine.begun key, ids, journal⟩
    have hkeeps := hc.keeps (s := ⟨s.engine.begun key, ids, journal⟩)
    rw [hrun] at hf hkeeps
    obtain ⟨hids, hs, -⟩ := h.keyed hk (hf.identities.hasRoom hroom)
    have hafter := hkeeps (h.of_cache rfl hids hs (Cache.peek_lookup _ _)) hroom
    exact ⟨hafter.of_cache rfl (.refl _) hafter.identities fun _ => rfl, by simp⟩

theorem spared_judge {compute : Check Bool} (hc : Spared T strict j compute) :
    Spared T strict j (Check.judge j compute) where
  follows := Check.judge_follows hc.follows
  keeps {s} h hroom := (judged_spares hc (Check.judge_judged j compute s) h hroom).1
  no {s s'} h hrun hroom := by
    have hj := Check.judge_judged j compute s
    rw [hrun] at hj
    exact (judged_spares hc hj h hroom).2 s' rfl

theorem spared_throw (e : Failure) : Spared T strict j (throw e) where
  toKeeps := .throw e
  no _ h _ := by cases h

theorem spared_pure_true : Spared T strict j (pure true) where
  toKeeps := .pure true
  no _ h _ := by cases h

variable {c₀ c : Catalog} (hT : T ⊆ rules c strict T)
include hT

/-- Without a no to a judgment of `T` among its answers, no rule comes to one. -/
theorem spared_rule {ask : Judgment → Check Bool} (hj : isReflexive j = false) (hs : c₀.Refines c j.source)
    (ht : c₀.Refines c j.target) (ha : ∀ k ∈ Judgment.among (near c₀ j), Spared T strict k (ask k)) :
    Spared T strict j (rule c₀ ask strict j) := by
  obtain ⟨tree, htree, hd, hasks, -⟩ := rule_inquires_later strict hs ht
  obtain ⟨ask', hrun, hask'⟩ := Inquiry.exists_run_eq (P := Spared T strict) (fun k hk => ha k (hasks k hk))
    fun _ => spared_pure_true
  rw [show rule c₀ ask strict j = tree.run ask from htree ask]
  rw [hrun]
  refine ⟨⟨?_, ?_⟩, ?_⟩
  · exact Inquiry.run_rel Context.Follows.refl Context.Follows.trans fun k => (hask' k).follows
  · exact fun h hroom => Inquiry.run_keeps (fun k => (hask' k).follows) (fun k => (hask' k).keeps) h hroom
  · intro s s' h hno hroom hmem
    obtain ⟨answers, hends, hasked⟩ := Inquiry.run_ok hno
    have hall := (Inquiry.asked_within (fun k => (hask' k).follows) (fun k => (hask' k).keeps) hasked h hroom).2
    have hnot : ¬ RuleStep T c strict j := hd.no hends T fun k hk => by
      obtain ⟨s₁, s₂, h₁, -, hk, -, -, hroom₂⟩ := hall k false hk
      exact (hask' k).no h₁ hk hroom₂
    obtain hrefl | hstep := hT hmem
    · rw [hj] at hrefl
      cases hrefl
    · exact hnot hstep

variable {S : Set Handle} (hclosed : ∀ g ∈ S, ∀ g' ∈ c₀.refs g, g' ∈ S) (hS : ∀ g ∈ S, c₀.Refines c g)
include hclosed hS

theorem resolveWithin_spared {budget : Nat} (hs : j.source ∈ S) (ht : j.target ∈ S) :
    Spared T strict j (resolveWithin c₀ strict budget j) := by
  refine resolveWithin_of_judge (askClosed_between hclosed) (fun _ => spared_pure_true) (fun {j ask} hj hr ha => ?_)
    (fun j _ _ => spared_judge (spared_throw _)) budget ⟨hs, ht⟩
  exact spared_judge (spared_rule hT hr (hS _ hj.1) (hS _ hj.2) ha)

theorem resolve_spared (hs : j.source ∈ S) (ht : j.target ∈ S) : Spared T strict j (resolve c₀ j) where
  follows := resolve_follows c₀ j
  keeps {s} h hroom := by
    have hwithin : ∀ {budget}, Spared T strict j (resolveWithin c₀ strict budget j) :=
      resolveWithin_spared hT hclosed hS hs ht
    have hoptions := h.options
    subst hoptions
    exact hwithin.keeps h hroom
  no {s s'} h hrun hroom := by
    have hwithin : ∀ {budget}, Spared T strict j (resolveWithin c₀ strict budget j) :=
      resolveWithin_spared hT hclosed hS hs ht
    have hoptions := h.options
    subst hoptions
    exact hwithin.no h hrun hroom

omit hclosed hS in
/-- With a catalog that is complete, the judgment may be about anything. -/
theorem resolve_spared_complete (j : Judgment) : Spared T strict j (resolve c j) :=
  resolve_spared hT (S := Set.univ) (by simp) (fun g _ => .refl c g) (Set.mem_univ _) (Set.mem_univ _)

end

end Compatibility

end TypeContracts
