import TypeContracts.Proofs.Conformance.Ending
import TypeContracts.Proofs.Document.Copies
import TypeContracts.Proofs.Document.Fitting
import TypeContracts.Proofs.Json.Depth
import TypeContracts.Proofs.Value.Layout

/-!
# Checks of JSON values

The values in progress are those that hold the value at hand, and these are not
among what was there when it was made (`Outside`). So a check of a JSON value
meets no check of its own, enters the guard each time, and answers what the
document says of the value (`yields_fits`).
-/

namespace TypeContracts.Conformance

open Document (Faithful Names Represents Defined ShapeRepresented PropertyRepresented Entry sift fits)

/-! ## The guard -/

/-- At this depth of the guard, and nothing of `top` is in progress. -/
structure Outside (L : Limits) (depth : Nat) (top : Heap) (s : Context) : Prop extends AtDepth L depth s where
  visiting : ∀ {key}, s.engine.valueGuard.isVisiting key = true → ∀ v, top.Has v → v.identity? ≠ some key.value

section
variable {L : Limits} {depth : Nat} {top inner : Heap} {s s' : Context} {v : Value} {key : ValueCheck}

theorem Outside.follows (hs : Outside L depth top s) (hf : s.Follows s') : Outside L depth top s' := by
  refine ⟨hs.toAtDepth.follows hf, fun {key} hv => ?_⟩
  rw [hf.valueGuard.visiting hs.synced] at hv
  exact hs.visiting hv

theorem Outside.admission (hs : Outside L depth top s) (hunbounded : L.maxIterations.toNat = unboundedIterations)
    (hdepth : depth < L.maxDepth.toNat) (hv : top.Has v) (hvalue : v.identity? = some key.value) :
    (s.engine.valueGuard.renewed.enter key).1 = .entered := by
  have hrenewed := s.engine.valueGuard.restored_renewed
  cases ha : (s.engine.valueGuard.renewed.enter key).1 with
  | entered => rfl
  | cycle =>
    have hvisiting := Guard.isVisiting_of_cycle ha
    rw [hrenewed.visiting hs.synced] at hvisiting
    exact absurd hvalue (hs.visiting hvisiting v hv)
  | depthExceeded | iterationExceeded =>
    have hle := Guard.depth_of_isExceeded (by rw [ha]; rfl) (by rw [hrenewed.limits, hs.limits, hunbounded])
    rw [hrenewed.limits, hs.limits, hrenewed.depth hs.synced, hs.depth] at hle
    omega

theorem Outside.entered (hs : Outside L depth top s) (hinner : inner.Grows top) (hv : ¬ inner.Has v)
    (hvalue : v.identity? = some key.value) (ha : (s.engine.valueGuard.renewed.enter key).1 = .entered)
    (ids : Identities) (journal : Log.Journal) :
    Outside L (depth + 1) inner ⟨s.engine.valueTried key, ids, journal⟩ := by
  have hrenewed := s.engine.valueGuard.restored_renewed
  obtain ⟨-, -, -, hvisiting⟩ := Guard.entered ha
  refine ⟨(hs.toAtDepth.entered ha ids journal).1, fun {other} hother u hu hidentity => ?_⟩
  obtain rfl | hother := (hvisiting other).mp hother
  · exact hv (Value.eq_of_identity? hvalue hidentity ▸ hu)
  · rw [hrenewed.visiting hs.synced] at hother
    exact hs.visiting hother u (hinner.has hu) hidentity

end

/-! ## Checks that answer without a trace -/

def Yields (L : Limits) (depth : Nat) (top : Heap) (m : Check Bool) (r : Except Failure Bool) : Prop :=
  ∀ s, Outside L depth top s →
    outcome (m s) = r ∧ (stateAfter (m s)).journal = s.journal ∧ s.Follows (stateAfter (m s))

section
variable {L : Limits} {depth : Nat} {top inner : Heap} {m : Check Bool} {r : Except Failure Bool}

theorem yields_pure (b : Bool) : Yields L depth top (pure b) (.ok b) := fun s _ => ⟨rfl, rfl, .refl s⟩

theorem yields_throw (e : Failure) : Yields L depth top (throw e) (.error e) := fun s _ => ⟨rfl, rfl, .refl s⟩

theorem Yields.bind {f : Bool → Check Bool} {g : Bool → Except Failure Bool} (hm : Yields L depth top m r)
    (hf : ∀ b, Yields L depth top (f b) (g b)) : Yields L depth top (m >>= f) (r >>= g) := by
  intro s hs
  obtain ⟨hr, hjournal, hfollows⟩ := hm s hs
  cases hrun : m s with
  | ok b s' =>
    rw [hrun] at hr hjournal hfollows
    subst hr
    obtain ⟨hr', hjournal', hfollows'⟩ := hf b s' (hs.follows hfollows)
    rw [bind_of_ok hrun]
    exact ⟨hr', hjournal'.trans hjournal, hfollows.trans hfollows'⟩
  | error e s' =>
    rw [hrun] at hr hjournal hfollows
    subst hr
    have hbind : (m >>= f) s = .error e s' := bind_error.mpr (.inl hrun)
    rw [hbind]
    exact ⟨rfl, hjournal, hfollows⟩

theorem Yields.then_same {f : Bool → Check Bool} (hm : Yields L depth top m r)
    (hf : ∀ b, Yields L depth top (f b) (.ok b)) : Yields L depth top (m >>= f) r := by
  have hr : r = r >>= fun b => .ok b := by cases r <;> rfl
  rw [hr]
  exact hm.bind hf

section
variable {α β : Type} {xs : List α} {ys : List β} {f : α → Check Bool} {g : β → Except Failure Bool}
  (h : List.Forall₂ (fun y x => Yields L depth top (f x) (g y)) ys xs)
include h

theorem yields_allM : Yields L depth top (xs.allM f) (ys.allM g) := by
  induction h with
  | nil => exact yields_pure true
  | cons hx _ ih =>
    rw [List.allM_cons, List.allM_cons]
    refine hx.bind fun b => ?_
    cases b with
    | true => exact ih
    | false => exact yields_pure false

theorem yields_anyM : Yields L depth top (xs.anyM f) (ys.anyM g) := by
  induction h with
  | nil => exact yields_pure false
  | cons hx _ ih =>
    rw [List.anyM_cons, List.anyM_cons]
    refine hx.bind fun b => ?_
    cases b with
    | true => exact yields_pure true
    | false => exact ih

end

theorem yields_guarded (hunbounded : L.maxIterations.toNat = unboundedIterations) (hdepth : depth < L.maxDepth.toNat)
    {v : Value} {value : Nat} {t : TypeRef} (htop : top.Has v) (hvalue : v.identity? = some value)
    (hinner : inner.Grows top) (hnew : ¬ inner.Has v) (hm : Yields L (depth + 1) inner m r)
    (hfollows : ∀ s : Context, s.Follows (stateAfter (m s))) : Yields L depth top (guarded value t m) r := by
  intro s hs
  rcases hi : s.identities.assign (.type t) with ⟨i, ids⟩
  have ha : (s.engine.valueGuard.renewed.enter ⟨value, i⟩).1 = .entered :=
    hs.admission hunbounded hdepth htop hvalue
  obtain ⟨hr, hjournal, -⟩ := hm _ (hs.entered hinner hnew hvalue ha ids s.journal)
  have hleft : s.Follows (stateAfter (guarded value t m s)) := guarded_follows hfollows s
  rw [guarded_run value t m s hi, ha] at hleft ⊢
  generalize m ⟨s.engine.valueTried ⟨value, i⟩, ids, s.journal⟩ = result at hr hjournal hleft ⊢
  cases result with
  | ok b s' => exact ⟨hr, hjournal, hleft⟩
  | error e s' => exact ⟨hr, hjournal, hleft⟩

end

/-! ## Object types -/

/-- What an array lists. Objects list nothing. -/
def listed (h : Heap) : Value → List Value
  | .array r => (h.elements r).toList
  | _ => []

theorem checkWithin_undefined (c : Catalog) (h : Heap) (n : Nat) (t : TypeRef) :
    checkWithin c h n .undefined t = pure true := by
  cases n <;> rfl

section
variable {c : Catalog} {h : Heap} {table : TypeTable} {L : Limits} {depth n : Nat} {top inner : Heap}

/-- The value has the types that `g` says, as far as they are in the table. -/
def Agree (c : Catalog) (h : Heap) (table : TypeTable) (L : Limits) (depth n : Nat) (top : Heap)
    (g : Nat → Except Failure Bool) (v : Value) : Prop :=
  ∀ i t, table.get? i = some t → Yields L depth top (checkWithin c h n v t) (g i)

theorem yields_property {properties : Heap.Properties} {part? : String → Option (Nat → Except Failure Bool)}
    (hparts : ∀ name, Option.Rel (Agree c h table L depth n top) (part? name) (properties.get? name))
    {p : String × Document.PropertyEntry} {q : String × Property} (hq : PropertyRepresented table.get? p q) :
    Yields L depth top (propertyRule (checkWithin c h n) properties q.1 q.2)
      (match part? p.1 with
        | some part => part p.2.type.toNat
        | none => .ok p.2.optional) := by
  have hpart := hparts p.1
  unfold propertyRule
  rw [hq.name, hq.optional]
  generalize properties.get? p.1 = own at hpart ⊢
  generalize part? p.1 = part at hpart ⊢
  cases hpart with
  | none =>
    dsimp only
    rw [Option.getD_none, checkWithin_undefined]
    simpa using yields_pure p.2.optional
  | @some part u hagree =>
    refine (hagree _ _ hq.type).then_same fun b => ?_
    cases b with
    | true => simpa using yields_pure true
    | false => exact yields_pure false

/-- A value that is neither a function nor a buffer. -/
theorem yields_object {v : Value} (hv : top.Has v) {part? : String → Option (Nat → Except Failure Bool)}
    {elements : List (Nat → Except Failure Bool)} (t : TypeRef) {o : Document.ObjectEntry} {shape : Shape}
    (hshape : ShapeRepresented c table.get? o shape)
    (hparts : ∀ name, Option.Rel (Agree c h table L depth n inner) (part? name) ((h.properties v).get? name))
    (helements : List.Forall₂ (Agree c h table L depth n inner) elements (listed h v)) :
    Yields L depth inner (objectRule c h (checkWithin c h n) v t shape) (do
      let all ← o.properties.toList.allM fun p =>
        match part? p.1 with
        | some part => part p.2.type.toNat
        | none => .ok p.2.optional
      if all then
        match o.numericIndexType with
        | some index => elements.allM fun element => element index.toNat
        | none => .ok true
      else .ok false) := by
  have hcallable : callableRule c h v t = pure true := by
    cases v with
    | array r | object r => rfl
    | _ => exact hv.elim
  have hindex : ∀ index, indexRule c h (checkWithin c h n) v index =
      (listed h v).allM fun element => checkWithin c h n element index := by
    intro index
    cases v with
    | array r | object r => rfl
    | _ => exact hv.elim
  unfold objectRule Compatibility.allOf
  rw [List.allM_cons]
  refine Yields.bind (yields_allM ?_) fun all => ?_
  · exact hshape.properties.imp fun p q hq => yields_property hparts hq
  · cases all with
    | false => exact yields_pure false
    | true =>
      simp only [List.allM_cons, id_eq, hcallable, pure_bind, if_true]
      have hnumeric := hshape.numericIndex
      generalize o.numericIndexType = wanted at hnumeric ⊢
      generalize shape.numericIndex = index at hnumeric ⊢
      cases hnumeric with
      | none => exact (yields_pure true).then_same fun b => by cases b <;> exact yields_pure _
      | @some r index hr =>
        simp only [hindex]
        refine (yields_allM ?_).then_same fun b => by cases b <;> exact yields_pure _
        exact helements.imp fun g u hu => hu _ _ hr

theorem signatures_isEmpty {o : Document.ObjectEntry} {shape : Shape} (hshape : ShapeRepresented c table.get? o shape) :
    o.signatures.isEmpty = !shape.hasSignatures := by
  have hcall : o.callSignatures = [] ↔ shape.callSignatures = [] := by
    rw [← List.length_eq_zero_iff, hshape.callSignatures.length_eq, List.length_eq_zero_iff]
  have hconstruct : o.constructSignatures = [] ↔ shape.constructSignatures = [] := by
    rw [← List.length_eq_zero_iff, hshape.constructSignatures.length_eq, List.length_eq_zero_iff]
  rw [Bool.eq_iff_iff]
  simp [Document.ObjectEntry.signatures, Shape.hasSignatures, hcall, hconstruct]

end

/-! ## Entries -/

section
variable {d : Document} {c₀ c : Catalog} {h : Heap} {table : TypeTable} {L : Limits} {depth n : Nat}
  {top inner : Heap} {v : Value} {t : TypeRef} {e : Entry}
  (hrep : Represents table.get? (Defined c table.get?) e (c.get t)) (hleaf : e.isComposite = false)
include hrep hleaf

theorem yields_admits (hv : v.identity? = none) (hn : v.isNullish = false) :
    Yields L depth top (rule c h (checkWithin c h n) v t) (e.admits v) := by
  unfold rule
  generalize hget : c.get t = x at hrep ⊢
  cases hrep with
  | union => cases hleaf
  | intersection => cases hleaf
  | typeParameter name => cases v <;> exact yields_throw _
  | object hs =>
    obtain ⟨shape, rfl, -⟩ := hs
    have hshape : c.shape t = .ok shape := Catalog.shape_eq_ok.mpr ⟨_, hget⟩
    simp only [hshape, referenceRule, hv]
    cases v <;> exact yields_pure false
  | _ =>
    cases v with
    | boolean b | number x | string s => exact yields_pure _
    | undefined | null => cases hn
    | _ => cases hv

theorem yields_admitsParts (hunbounded : L.maxIterations.toNat = unboundedIterations)
    (hdepth : depth < L.maxDepth.toNat) (hv : top.Has v) (hinner : inner.Grows top) (hnew : ¬ inner.Has v)
    {part? : String → Option (Nat → Except Failure Bool)} {elements : List (Nat → Except Failure Bool)}
    (hparts : ∀ name, Option.Rel (Agree c h table L (depth + 1) n inner) (part? name) ((h.properties v).get? name))
    (helements : List.Forall₂ (Agree c h table L (depth + 1) n inner) elements (listed h v)) :
    Yields L depth top (rule c h (checkWithin c h n) v t) (e.admitsParts part? elements) := by
  unfold rule
  generalize hget : c.get t = x at hrep ⊢
  cases hrep with
  | union => cases hleaf
  | intersection => cases hleaf
  | typeParameter name => exact yields_throw _
  | @object o _ hs =>
    obtain ⟨shape, rfl, hrepresented⟩ := hs
    have hshape : c.shape t = .ok shape := Catalog.shape_eq_ok.mpr ⟨_, hget⟩
    obtain ⟨value, hvalue⟩ : ∃ value, v.identity? = some value := by
      cases v with
      | array r | object r => exact ⟨_, rfl⟩
      | _ => exact hv.elim
    have hcallable : v.isCallable = false := by
      cases v with
      | array r | object r => rfl
      | _ => exact hv.elim
    have hfollows := objectRule_follows (c := c) (h := h)
      (fun u t => (answers_checkWithin c h false n u t).follows) v t shape
    have hlifted : (Check.ofExcept (.ok shape) : Check Shape) = pure shape := rfl
    simp only [hshape, hlifted, pure_bind, referenceRule, hvalue, hcallable, Entry.admitsParts,
      signatures_isEmpty hrepresented]
    cases hsignatures : shape.hasSignatures with
    | true => exact yields_pure false
    | false =>
      exact yields_guarded hunbounded hdepth hv hvalue hinner hnew
        (yields_object hv t hrepresented hparts helements) hfollows
  | _ =>
    cases v with
    | array r | object r => exact yields_pure _
    | _ => exact hv.elim

end

section
variable {d : Document} {c₀ c : Catalog} {h : Heap} {table : TypeTable} (hf : Faithful d c₀ table c)
  (hd : d.WellFormed) {L : Limits} {depth : Nat} {top : Heap} {v : Value}
include hf

/-- Unions and intersections ask about the same value, so that each of them costs one level of questions. -/
theorem yields_sift {leaf : Entry → Except Failure Bool} {least : Nat} (hn : v.isNullish = false)
    (hleaf : ∀ n t e, least ≤ n → Represents table.get? (Defined c table.get?) e (c.get t) → e.isComposite = false →
      Yields L depth top (rule c h (checkWithin c h n) v t) (leaf e))
    {n i : Nat} {t : TypeRef} (hle : least + d.nesting i + 1 ≤ n) (ht : table.get? i = some t) :
    Yields L depth top (checkWithin c h n v t) (sift hd leaf i) := by
  induction n generalizing i t with
  | zero => omega
  | succ n ih =>
    obtain ⟨e, he, hrep⟩ := hf.entry ht
    have hrule : checkWithin c h (n + 1) v t = rule c h (checkWithin c h n) v t := by simp [checkWithin, hn]
    rw [hrule]
    cases hcomposite : e.isComposite with
    | false =>
      rw [Document.sift_of_leaf hd leaf he hcomposite]
      exact hleaf n t e (by omega) hrep hcomposite
    | true =>
      rw [Document.sift_eq, he]
      unfold rule
      generalize c.get t = x at hrep ⊢
      cases hrep with
      | @union rs ts name hts =>
        refine yields_anyM (List.Forall₂.imp (fun r u hr => ?_) ((List.forall₂_and_left rs ts).mpr ⟨fun r hr => hr, hts⟩))
        have hlt := hd.nesting_lt (Document.member_of_union he hr.1)
        exact ih (by omega) hr.2
      | @intersection rs ts name hts =>
        refine yields_allM (List.Forall₂.imp (fun r u hr => ?_) ((List.forall₂_and_left rs ts).mpr ⟨fun r hr => hr, hts⟩))
        have hlt := hd.nesting_lt (Document.member_of_intersection he hr.1)
        exact ih (by omega) hr.2
      | _ => cases hcomposite

theorem agree_scalar (hv : v.identity? = none) (hn : v.isNullish = false) {n : Nat} (hle : d.types.size + 1 ≤ n) :
    Agree c h table L depth n top (sift hd (·.admits v)) v := by
  intro i t ht
  have hnesting := d.nesting_le i
  refine yields_sift hf hd hn (fun n t e _ hrep hleaf => yields_admits hrep hleaf hv hn) (?_ : 0 + _ + 1 ≤ n) ht
  omega

theorem agree_parts (hunbounded : L.maxIterations.toNat = unboundedIterations) (hdepth : depth < L.maxDepth.toNat)
    {inner : Heap} (hv : top.Has v) (hinner : inner.Grows top) (hnew : ¬ inner.Has v)
    {part? : String → Option (Nat → Except Failure Bool)} {elements : List (Nat → Except Failure Bool)} {least n : Nat}
    (hparts : ∀ n, least ≤ n → ∀ name,
      Option.Rel (Agree c h table L (depth + 1) n inner) (part? name) ((h.properties v).get? name))
    (helements : ∀ n, least ≤ n →
      List.Forall₂ (Agree c h table L (depth + 1) n inner) elements (listed h v))
    (hle : least + d.types.size + 1 ≤ n) :
    Agree c h table L depth n top (sift hd (Entry.admitsParts part? elements)) v := by
  intro i t ht
  have hnesting := d.nesting_le i
  have hn : v.isNullish = false := by
    cases v with
    | array r | object r => rfl
    | _ => exact hv.elim
  refine yields_sift hf hd hn (fun n t e hleast hrep hleaf => ?_) (?_ : least + _ + 1 ≤ n) ht
  · exact yields_admitsParts hrep hleaf hunbounded hdepth hv hinner hnew (hparts n hleast) (helements n hleast)
  · omega

end

/-! ## Values -/

section
variable {α β : Type} {R : α → β → Prop}

theorem forall₂_getElem? {as : List α} {bs : List β} (h : List.Forall₂ R as bs) (k : Nat) :
    Option.Rel R as[k]? bs[k]? := by
  induction h generalizing k with
  | nil => exact .none
  | cons hab _ ih =>
    cases k with
    | zero => exact .some hab
    | succ k => exact ih k

theorem forall₂_lookup {as : List (String × α)} {bs : List (String × β)}
    (h : List.Forall₂ (fun a b => a.1 = b.1 ∧ R a.2 b.2) as bs) (name : String) :
    Option.Rel R (as.lookup name) (bs.lookup name) := by
  induction h with
  | nil => exact .none
  | @cons a b as bs hab _ ih =>
    obtain ⟨key, x⟩ := a
    obtain ⟨key', y⟩ := b
    obtain ⟨rfl, hxy⟩ := hab
    by_cases hname : name = key
    · subst hname
      simpa using Option.Rel.some hxy
    · rw [Members.lookup_cons_of_ne hname, Members.lookup_cons_of_ne hname]
      exact ih

end

theorem properties_of_object {h : Heap} {r : ObjectRef} {ps : List (String × Value)}
    (hr : h.object r = { properties := .ofList ps }) (name : String) :
    (h.properties (.object r)).get? name = ps.reverse.lookup name := by
  simp [Heap.properties, Heap.Properties.get?, hr, Heap.chain, Heap.chainWithin, Heap.inherit, Members.find?_ofList]

section
variable {d : Document} {c₀ c : Catalog} {h : Heap} {table : TypeTable} (hf : Faithful d c₀ table c)
  (hd : d.WellFormed) {L : Limits} (hunbounded : L.maxIterations.toNat = unboundedIterations)
include hf hunbounded

/-- The recursion is on the value. Each of its levels needs as many levels of questions as unions and intersections
can nest. -/
theorem agree_fits {j : Json} {depth n : Nat} {top : Heap} {v : Value} (hv : h.Denotes top j v)
    (hdepth : depth + j.depth ≤ L.maxDepth.toNat) (hn : (j.depth + 1) * (d.types.size + 2) ≤ n) :
    Agree c h table L depth n top (fits hd j) v := by
  have hone : (j.depth + 1) * (d.types.size + 2) = j.depth * (d.types.size + 2) + (d.types.size + 2) := Nat.succ_mul _ _
  cases j with
  | null =>
    obtain ⟨_, rfl, -⟩ := hv
    intro i t _
    cases n <;> exact yields_pure true
  | bool b | number x | string s =>
    obtain ⟨_, rfl, -⟩ := hv
    exact agree_scalar hf hd rfl rfl (by omega)
  | array elements =>
    obtain ⟨r, inner, rfl, htop, hnew, hinner, hdenotes⟩ := hv.array
    have hpos : 0 < (Json.array elements).depth := Nat.succ_pos _
    have heach : ∀ n, (Json.array elements).depth * (d.types.size + 2) ≤ n →
        List.Forall₂ (Agree c h table L (depth + 1) n inner) (Document.fitsEach hd elements)
          (h.elements r).toList := by
      intro n hle
      rw [Document.fitsEach_eq, List.forall₂_map_left_iff]
      refine List.Forall₂.imp (fun x u hx => ?_) ((List.forall₂_and_left elements _).mpr ⟨fun x hx => hx, hdenotes⟩)
      have hlt := Json.depth_lt_array hx.1
      exact agree_fits hx.2 (by omega) ((Nat.mul_le_mul_right _ hlt).trans hle)
    refine agree_parts hf hd hunbounded (by omega) htop hinner hnew (fun n hle name => ?_) heach (by omega)
    have heach := heach n hle
    unfold Document.elementPart? Heap.properties Heap.Properties.get?
    by_cases hname : name = "length"
    · have hlength : (Document.fitsEach hd elements).length = (h.elements r).size := heach.length_eq
      have hlevels := Nat.le_mul_of_pos_left (d.types.size + 2) hpos
      simp only [hname, if_true, hlength]
      exact .some (agree_scalar hf hd rfl rfl (by omega))
    · simp only [hname, if_false]
      cases Heap.canonicalIndex name with
      | none => exact .none
      | some k => simpa using forall₂_getElem? heach k
  | object members =>
    obtain ⟨r, inner, ps, rfl, htop, hnew, hinner, hobject, hdenotes⟩ := hv.object
    have hpos : 0 < (Json.object members).depth := Nat.succ_pos _
    refine agree_parts hf hd hunbounded (by omega) htop hinner hnew
      (fun n (hle : (Json.object members).depth * (d.types.size + 2) ≤ n) name => ?_) (fun _ _ => .nil) (by omega)
    rw [properties_of_object hobject]
    refine forall₂_lookup (List.forall₂_reverse_iff.mpr ?_) name
    rw [Document.fitsMembers_eq, List.forall₂_map_left_iff]
    refine List.Forall₂.imp (fun m p hm => ⟨hm.2.1, ?_⟩) ((List.forall₂_and_left members _).mpr ⟨fun m hm => hm, hdenotes⟩)
    have hlt := Json.depth_lt_object hm.1
    exact agree_fits hm.2.2 (by omega) ((Nat.mul_le_mul_right _ hlt).trans hle)
termination_by j.depth

omit hunbounded in
theorem size_le_of_faithful : d.types.size ≤ c.types.size := by
  have hindex : ∀ i : Fin d.types.size, ∃ k : Fin c.types.size, table.get? i = some ⟨k⟩ := by
    intro i
    obtain ⟨t, ht⟩ := hf.exists_get? i.isLt
    exact ⟨⟨t.index, (hf.own ht).2⟩, ht⟩
  choose f hfound using hindex
  have hinjective : Function.Injective f := by
    intro i k hik
    exact Fin.ext (hf.inj (hfound i) (hik ▸ hfound k))
  simpa using Fintype.card_le_of_injective f hinjective

/-- A fresh engine answers what the document says, and nothing is logged: in particular no cycle. -/
theorem isType_fits {options : Options} (hL : options.valueProfile.limits = L) {j : Json}
    (hdepth : j.depth ≤ L.maxDepth.toNat) {i : Nat} {t : TypeRef} (ht : table.get? i = some t) (h : Heap)
    (ids : Identities) (journal : Log.Journal) :
    outcome (isType c (h.ofJson j).2 (h.ofJson j).1 t ⟨.create options, ids, journal⟩) = fits hd j i ∧
      (stateAfter (isType c (h.ofJson j).2 (h.ofJson j).1 t ⟨.create options, ids, journal⟩)).journal = journal := by
  subst hL
  have hfresh : Outside options.valueProfile.limits 0 (h.ofJson j).2 ⟨.create options, ids, journal⟩ := by
    refine ⟨⟨rfl, rfl, rfl⟩, fun {key} hv => ?_⟩
    simp [Engine.create, Guard.ofProfile, Guard.isVisiting] at hv
  have hbudget : (j.depth + 1) * (d.types.size + 2) ≤
      (options.valueProfile.limits.maxDepth.toNat + 1) * (c.types.size + 2) :=
    Nat.mul_le_mul (Nat.succ_le_succ hdepth) (Nat.add_le_add_right (size_le_of_faithful hf) 2)
  have hv : (h.ofJson j).2.Denotes (h.ofJson j).2 j (h.ofJson j).1 := ⟨h, rfl, .refl _, .refl _⟩
  obtain ⟨hanswer, hjournal, -⟩ := agree_fits hf hd hunbounded hv (by omega) hbudget i t ht _ hfresh
  exact ⟨hanswer, hjournal⟩

end

end TypeContracts.Conformance
