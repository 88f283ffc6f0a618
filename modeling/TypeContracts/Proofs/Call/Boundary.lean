import TypeContracts.Proofs.Call.Laws
import TypeContracts.Proofs.Call.Notices

/-!
# What passes the boundary of a call

A call of a tagged function is let in if one of the tag's signatures accepts the
arguments. The signatures are tried in order, and the arguments of each from
left to right, by value checks that change the engine. Read as an inquiry into
these checks the loop decides `Signature.Accepts`, and as every check is right
whatever the engine has been asked before, so is the boundary.
-/

namespace TypeContracts

open Conformance (conforming)

namespace Signature

/-- The type that the signature has for the argument at a place: that of the parameter there, or of the rest if all
parameters come before. -/
inductive Slot (s : Signature) : Nat → TypeRef → Prop
  | declared {i t} : s.parameters[i]? = some t → Slot s i t
  | rest {i t} : s.parameters.length ≤ i → s.rest = some t → Slot s i t

/-- The arguments with the types that the signature has for them, where the first argument is the one at `index`. -/
def slotsFrom (s : Signature) (index : Nat) (arguments : List Value) : Set (Value × TypeRef) :=
  { p | ∃ i, arguments[i]? = some p.1 ∧ s.Slot (index + i) p.2 }

def slots (s : Signature) (arguments : List Value) : Set (Value × TypeRef) := s.slotsFrom 0 arguments

/-- There are enough arguments, and each for which the signature has a type is of that type, if the pairs of `X`
conform. -/
def Accepts (s : Signature) (X : Set (Value × TypeRef)) (arguments : List Value) : Prop :=
  s.mandatory ≤ arguments.length ∧ s.slots arguments ⊆ X

/-- The same arguments in the places of the parameters, and after them if there is a rest, and enough of them in both
lists or in neither. -/
def SameSlots (s : Signature) (arguments arguments' : List Value) : Prop :=
  (s.mandatory ≤ arguments.length ↔ s.mandatory ≤ arguments'.length) ∧
    ∀ i, i < s.parameters.length ∨ s.rest ≠ none → arguments[i]? = arguments'[i]?

variable {s : Signature} {index : Nat} {v : Value} {rest : List Value}

theorem parameterAt_eq_some_iff {t : TypeRef} : s.parameterAt index = some t ↔ s.Slot index t := by
  simp only [parameterAt, Option.orElse_eq_orElse, Option.orElse_eq_or, Option.or_eq_some_iff,
    List.getElem?_eq_none_iff]
  constructor
  · rintro (h | ⟨hlength, h⟩)
    · exact .declared h
    · exact .rest hlength h
  · intro h
    cases h with
    | declared h => exact .inl h
    | rest hlength h => exact .inr ⟨hlength, h⟩

theorem parameterAt_eq_none_iff : s.parameterAt index = none ↔ s.parameters.length ≤ index ∧ s.rest = none := by
  simp only [parameterAt, Option.orElse_eq_orElse, Option.orElse_eq_or, Option.or_eq_none_iff,
    List.getElem?_eq_none_iff]

/-- From the first argument without a type on there is none. -/
theorem not_slot (h : s.parameterAt index = none) (i : Nat) (t : TypeRef) : ¬ s.Slot (index + i) t := by
  obtain ⟨hlength, hrest⟩ := parameterAt_eq_none_iff.mp h
  rw [← parameterAt_eq_some_iff, parameterAt_eq_none_iff.mpr ⟨by omega, hrest⟩]
  nofun

theorem slotsFrom_nil : s.slotsFrom index [] = ∅ := by
  simp [slotsFrom]

theorem slotsFrom_of_none (h : s.parameterAt index = none) (arguments : List Value) :
    s.slotsFrom index arguments = ∅ := by
  simp [slotsFrom, not_slot h]

theorem slotsFrom_cons {t : TypeRef} (h : s.parameterAt index = some t) :
    s.slotsFrom index (v :: rest) = insert (v, t) (s.slotsFrom (index + 1) rest) := by
  ext ⟨u, k⟩
  constructor
  · rintro ⟨i, hu, hk⟩
    cases i with
    | zero =>
      rw [Nat.add_zero, ← parameterAt_eq_some_iff, h] at hk
      cases hk
      cases hu
      exact .inl rfl
    | succ i => exact .inr ⟨i, hu, by rwa [Nat.add_right_comm]⟩
  · rintro (heq | ⟨i, hu, hk⟩)
    · cases heq
      exact ⟨0, rfl, parameterAt_eq_some_iff.mp h⟩
    · exact ⟨i + 1, hu, by rwa [Nat.add_right_comm] at hk⟩

/-- Without a rest parameter there is a type for the declared parameters only. -/
theorem sameSlots_append (arguments more more' : List Value) (hrest : s.rest = none)
    (hdeclared : s.parameters.length ≤ arguments.length)
    (hcount : more.length = more'.length ∨ s.mandatory ≤ arguments.length) :
    s.SameSlots (arguments ++ more) (arguments ++ more') := by
  refine ⟨by simp only [List.length_append]; omega, fun i hi => ?_⟩
  have hlt : i < s.parameters.length := hi.resolve_right fun h => h hrest
  rw [List.getElem?_append_left (by omega), List.getElem?_append_left (by omega)]

end Signature

/-! ## The check as an inquiry -/

section
variable (c : Catalog) (h : Heap)

abbrev Deciding (m : Check Bool) (φ : Set (Value × TypeRef) → Prop) (Q : Set (Value × TypeRef)) : Prop :=
  Inquires (fun (_ : Unit) p => Conformance.isType c h p.1 p.2) (fun _ => m) φ Q ∅

theorem argumentsConform_inquires (s : Signature) (index : Nat) (arguments : List Value) :
    Deciding c h (argumentsConform c h s index arguments) (s.slotsFrom index arguments ⊆ ·)
      (s.slotsFrom index arguments) := by
  induction arguments generalizing index with
  | nil => exact Inquires.pure true (by simp [Signature.slotsFrom_nil])
  | cons v rest ih =>
    unfold argumentsConform
    cases ht : s.parameterAt index with
    | none => exact Inquires.pure true (by simp [Signature.slotsFrom_of_none ht])
    | some t =>
      rw [Signature.slotsFrom_cons ht]
      have hfirst : Deciding c h (Conformance.isType c h v t) ((v, t) ∈ ·)
          (insert (v, t) (s.slotsFrom (index + 1) rest)) :=
        Inquires.question (k := (v, t)) (.inl rfl)
      have hrest := (ih (index + 1)).mono (Set.subset_insert (v, t) _)
      exact (hfirst.and hrest).congr fun R => Set.insert_subset_iff.symm

theorem signatureAccepts_inquires (s : Signature) (arguments : List Value) :
    Deciding c h (signatureAccepts c h s arguments) (s.Accepts · arguments) (s.slots arguments) := by
  unfold signatureAccepts
  split
  · rename_i hfew
    exact Inquires.pure false (by simp [Signature.Accepts, hfew])
  · rename_i henough
    refine (argumentsConform_inquires c h s 0 arguments).congr fun R => ?_
    exact (and_iff_right (Nat.not_lt.mp henough)).symm

variable {c} in
theorem acceptsCall_eq {tag : TypeRef} {shape : Shape} (hshape : c.shape tag = .ok shape) (arguments : List Value) :
    acceptsCall c h tag arguments = (shape.callSignatures ++ shape.constructSignatures).anyM fun x =>
      signatureAccepts c h (c.signature x) arguments := by
  simp only [acceptsCall, hshape, Check.ofExcept, pure_bind]

theorem acceptsCall_inquires {tag : TypeRef} {shape : Shape} (hshape : c.shape tag = .ok shape) (arguments : List Value) :
    let signatures := (shape.callSignatures ++ shape.constructSignatures).map c.signature
    Deciding c h (acceptsCall c h tag arguments) (fun R => ∃ x ∈ signatures, x.Accepts R arguments)
      { p | ∃ x ∈ signatures, p ∈ x.slots arguments } := by
  simp only [Deciding, acceptsCall_eq h hshape, List.mem_map, exists_exists_and_eq_and]
  exact Inquires.anyM fun x hx => (signatureAccepts_inquires c h (c.signature x) arguments).mono fun _ hp => ⟨x, hx, hp⟩

end

/-! ## Arguments without a type -/

section
variable {c : Catalog} {h : Heap} {s : Signature} {arguments arguments' : List Value}

theorem argumentsConform_congr (index : Nat)
    (hsame : ∀ i, (s.parameterAt (index + i)).isSome = true → arguments[i]? = arguments'[i]?) :
    argumentsConform c h s index arguments = argumentsConform c h s index arguments' := by
  induction arguments generalizing index arguments' with
  | nil =>
    cases arguments' with
    | nil => rfl
    | cons v' rest' =>
      cases ht : s.parameterAt index with
      | none => simp only [argumentsConform, ht]
      | some t => cases hsame 0 (by simp [ht])
  | cons v rest ih =>
    cases ht : s.parameterAt index with
    | none => cases arguments' <;> simp only [argumentsConform, ht]
    | some t =>
      cases arguments' with
      | nil => cases hsame 0 (by simp [ht])
      | cons v' rest' =>
        have hv : v = v' := Option.some.inj (hsame 0 (by simp [ht]))
        have hrest : argumentsConform c h s (index + 1) rest = argumentsConform c h s (index + 1) rest' :=
          ih (index + 1) fun i hi => hsame (i + 1) (by rwa [Nat.add_right_comm] at hi)
        simp only [argumentsConform, ht, hv, hrest]

theorem signatureAccepts_congr (hsame : s.SameSlots arguments arguments') :
    signatureAccepts c h s arguments = signatureAccepts c h s arguments' := by
  unfold signatureAccepts
  have hslots : ∀ i, (s.parameterAt (0 + i)).isSome = true → arguments[i]? = arguments'[i]? := by
    intro i hi
    refine hsame.2 i ?_
    rw [Nat.zero_add, Option.isSome_iff_ne_none, ne_eq, Signature.parameterAt_eq_none_iff, not_and_or,
      Nat.not_le] at hi
    exact hi
  rw [argumentsConform_congr 0 hslots]
  have hcount : arguments.length < s.mandatory ↔ arguments'.length < s.mandatory := by
    have := hsame.1
    omega
  simp only [hcount]

theorem acceptsCall_congr {tag : TypeRef} {shape : Shape} (hshape : c.shape tag = .ok shape)
    (hsame : ∀ x ∈ (shape.callSignatures ++ shape.constructSignatures).map c.signature,
      x.SameSlots arguments arguments') : acceptsCall c h tag arguments = acceptsCall c h tag arguments' := by
  rw [acceptsCall_eq h hshape, acceptsCall_eq h hshape]
  generalize shape.callSignatures ++ shape.constructSignatures = signatures at hsame
  induction signatures with
  | nil => rfl
  | cons x signatures ih =>
    have hfirst := signatureAccepts_congr (c := c) (h := h) (hsame (c.signature x) (by simp))
    rw [List.anyM_cons, List.anyM_cons, hfirst, ih fun y hy => hsame y (List.mem_cons_of_mem _ hy)]

end

/-! ## The boundary -/

/-- What a caller is told, the text of a violation apart. -/
def told : Except Failure Unit → Option (Except Failure Unit)
  | .error (.violation _) => none
  | r => some r

/-- What a caller is told when the question whether a signature accepts the arguments ends in this way. -/
def toldOf : Except Failure Bool → Option (Except Failure Unit)
  | .ok true => some (.ok ())
  | .ok false => none
  | .error e => some (.error e)

theorem toldOf_injective : toldOf.Injective := by
  intro r r' heq
  match r, r' with
  | .ok true, .ok true | .ok false, .ok false => rfl
  | .error e, .error e' => cases heq; rfl
  | .ok true, .ok false | .ok false, .ok true | .ok true, .error _ | .error _, .ok true | .ok false, .error _
  | .error _, .ok false => cases heq

section
variable {c : Catalog} {h : Heap}

theorem told_of_failure {e : Failure} (he : e.isViolation = false) : told (.error e) = some (.error e) := by
  cases e with
  | violation cause => cases he
  | _ => rfl

theorem checkBoundary_run (tag : TypeRef) (arguments : List Value) (s : Context) :
    told (outcome (checkBoundary c h tag arguments s)) = toldOf (outcome (acceptsCall c h tag arguments s)) ∧
      (stateAfter (checkBoundary c h tag arguments s)).identities =
        (stateAfter (acceptsCall c h tag arguments s)).identities := by
  have hrun : checkBoundary c h tag arguments = acceptsCall c h tag arguments >>= fun accepted =>
      if accepted then Check.emit (.callAccepted arguments.length)
      else Check.emit (.callRejected arguments.length) >>= fun _ =>
        Check.violate (rejectionText tag arguments c h) .unknown := by
    simp only [checkBoundary, acceptsCall, bind_assoc, rejectionText]
  rw [hrun]
  cases ha : acceptsCall c h tag arguments s with
  | error e s' =>
    rw [bind_error.mpr (.inl ha)]
    exact ⟨told_of_failure ((Quiet.acceptsCall c h tag arguments).failure ha), rfl⟩
  | ok accepted s' =>
    rw [bind_of_ok ha]
    cases accepted with
    | true => exact ⟨rfl, rfl⟩
    | false =>
      have hemit : Check.emit (.callRejected arguments.length) s' =
          .ok () { s' with journal := s'.journal.record (.callRejected arguments.length) } := rfl
      obtain ⟨journal, hviolate, -⟩ := Check.violate_run (α := Unit) (rejectionText tag arguments c h) .unknown
        { s' with journal := s'.journal.record (.callRejected arguments.length) }
      rw [if_neg Bool.false_ne_true, bind_of_ok hemit, hviolate]
      exact ⟨rfl, rfl⟩

end

section
variable {options : Options} {w : World}

theorem World.Arises.moved (hw : w.Arises options) {s : Context} (hm : Context.Move w.catalog w.heap w.context s) :
    ({ w with context := s } : World).Arises options := by
  obtain ⟨w₀, hattained, hreachable, hcatalog⟩ := hw
  exact ⟨w₀, hattained, hreachable.moved (.inside hm), hcatalog⟩

theorem World.Arises.isType_exact {v : Value} {t : TypeRef} {b : Bool} {s : Context} (hw : w.Arises options)
    (hb : Conformance.isType w.catalog w.heap v t w.context = .ok b s) (hroom : s.identities.HasRoom) :
    b = true ↔ (v, t) ∈ conforming w.catalog w.heap options.strictNullableSources := by
  have hf := Conformance.isType_follows w.catalog w.heap v t w.context
  rw [hb] at hf
  have hrest := hw.atRest (hf.identities.hasRoom hroom)
  exact Conformance.isType_exact hrest.ready hrest.idle hb hroom

/-- Answers to value checks that are made one after the other are right. -/
theorem World.Arises.asked {answers : List ((Value × TypeRef) × Bool)} {s : Context} (hw : w.Arises options)
    (hasked : Inquiry.Asked (fun p => Conformance.isType w.catalog w.heap p.1 p.2) w.context answers s)
    (hroom : s.identities.HasRoom) :
    ({ w with context := s } : World).Arises options ∧ ∀ p b, (p, b) ∈ answers →
      (b = true ↔ p ∈ conforming w.catalog w.heap options.strictNullableSources) := by
  obtain ⟨hlast, hall⟩ := Inquiry.asked_within (I := fun s => ({ w with context := s } : World).Arises options)
    (fun (p : Value × TypeRef) => Conformance.isType_follows w.catalog w.heap p.1 p.2)
    (fun p s hs _ => hs.moved (.check s p.1 p.2)) hasked hw hroom
  refine ⟨hlast, fun p b hp => ?_⟩
  obtain ⟨s₁, s₂, hs₁, -, hask, -, -, hroom₂⟩ := hall p b hp
  exact hs₁.isType_exact hask hroom₂

section
variable {tag : TypeRef} {shape : Shape} {arguments : List Value} (hw : w.Arises options)
  (hshape : w.catalog.shape tag = .ok shape)
  (hroom : (stateAfter (acceptsCall w.catalog w.heap tag arguments w.context)).identities.HasRoom)
include hw hshape hroom

theorem World.Arises.acceptsCall_exact {b : Bool}
    (hb : outcome (acceptsCall w.catalog w.heap tag arguments w.context) = .ok b) :
    b = true ↔ ∃ x ∈ (shape.callSignatures ++ shape.constructSignatures).map w.catalog.signature,
      x.Accepts (conforming w.catalog w.heap options.strictNullableSources) arguments := by
  obtain ⟨tree, htree, hdecides, -, -⟩ := acceptsCall_inquires w.catalog w.heap hshape arguments
  have htree := htree ()
  dsimp only at htree
  rw [htree] at hb hroom
  obtain ⟨answers, hends, hasked⟩ := Inquiry.run_ok (outcome_eq_ok.mp hb)
  obtain ⟨-, hright⟩ := hw.asked hasked hroom
  cases b with
  | true => exact iff_of_true rfl (hdecides.yes hends _ fun p hp => (hright p true hp).mp rfl)
  | false =>
    refine iff_of_false nofun (hdecides.no hends _ fun p hp hconforms => ?_)
    cases (hright p false hp).mpr hconforms

theorem World.Arises.acceptsCall_error {e : Failure}
    (he : outcome (acceptsCall w.catalog w.heap tag arguments w.context) = .error e) :
    ∃ x ∈ (shape.callSignatures ++ shape.constructSignatures).map w.catalog.signature, ∃ p ∈ x.slots arguments,
      ∃ w' : World, w'.Arises options ∧ w'.catalog = w.catalog ∧ w'.heap = w.heap ∧
        outcome (Action.isType p.1 p.2 w') = .error e := by
  obtain ⟨tree, htree, -, hasks, hfails⟩ := acceptsCall_inquires w.catalog w.heap hshape arguments
  have htree := htree ()
  dsimp only at htree
  cases hrun : acceptsCall w.catalog w.heap tag arguments w.context with
  | ok b s => rw [hrun] at he; cases he
  | error e' s =>
    rw [hrun] at he hroom
    cases he
    rw [htree] at hrun
    obtain ⟨answers, s₁, hasked, ⟨hfail, -⟩ | ⟨p, hp, hask⟩⟩ := Inquiry.run_error hrun
    · exact (hfails e hfail).elim
    · obtain ⟨x, hx, hslot⟩ := hasks p hp
      have hf := Conformance.isType_follows w.catalog w.heap p.1 p.2 s₁
      rw [hask] at hf
      obtain ⟨harises, -⟩ := hw.asked hasked (hf.identities.hasRoom hroom)
      refine ⟨x, hx, p, hslot, { w with context := s₁ }, harises, rfl, rfl, ?_⟩
      rw [Action.isType, outcome_check, hask]
      rfl

end

/-- What the boundary of a call comes to. A failure other than a violation is that of a value check of one of the
arguments, made by the engine as it is then. Arguments for which a signature has no type are counted, and do not
matter otherwise. -/
theorem boundary_exact {tag : TypeRef} {shape : Shape} (hw : w.Arises options)
    (hshape : w.catalog.shape tag = .ok shape) (arguments : List Value)
    (hroom : (stateAfter (checkBoundary w.catalog w.heap tag arguments w.context)).identities.HasRoom) :
    let signatures := (shape.callSignatures ++ shape.constructSignatures).map w.catalog.signature
    let X := conforming w.catalog w.heap options.strictNullableSources
    let result := outcome (checkBoundary w.catalog w.heap tag arguments w.context)
    (result = .ok () → ∃ x ∈ signatures, x.Accepts X arguments) ∧
    (∀ cause, result = .error (.violation cause) → ∀ x ∈ signatures, ¬ x.Accepts X arguments) ∧
    (∀ e, result = .error e → e.isViolation = false → ∃ x ∈ signatures, ∃ p ∈ x.slots arguments,
      ∃ w' : World, w'.Arises options ∧ w'.catalog = w.catalog ∧ w'.heap = w.heap ∧
        outcome (Action.isType p.1 p.2 w') = .error e) ∧
    ∀ arguments', (∀ x ∈ signatures, x.SameSlots arguments arguments') →
      told (outcome (checkBoundary w.catalog w.heap tag arguments' w.context)) = told result := by
  intro signatures X result
  obtain ⟨htold, hids⟩ := checkBoundary_run (c := w.catalog) (h := w.heap) tag arguments w.context
  rw [hids] at hroom
  refine ⟨fun hresult => ?_, fun cause hresult x hx haccepts => ?_, fun e hresult he => ?_, fun arguments' hsame => ?_⟩
  · have hyes : toldOf _ = toldOf (.ok true) := htold.symm.trans (congrArg told hresult)
    exact (hw.acceptsCall_exact hshape hroom (toldOf_injective hyes)).mp rfl
  · have hno : toldOf _ = toldOf (.ok false) := htold.symm.trans (congrArg told hresult)
    cases (hw.acceptsCall_exact hshape hroom (toldOf_injective hno)).mpr ⟨x, hx, haccepts⟩
  · have hfails : toldOf _ = toldOf (.error e) := htold.symm.trans ((congrArg told hresult).trans (told_of_failure he))
    exact hw.acceptsCall_error hshape hroom (toldOf_injective hfails)
  · rw [(checkBoundary_run tag arguments' w.context).1, ← acceptsCall_congr hshape hsame]
    exact htold.symm

end

/-- Functions of type 4 take a list of type 1, or a text and numbers after it. Those of type 5 take a list of type 1,
and are to be called with two arguments. -/
def overloads : Catalog where
  types := endlessLists.types ++
    #[.string, .object none (some { callSignatures := [⟨0⟩], constructSignatures := [⟨1⟩] }),
      .object none (some { callSignatures := [⟨2⟩] })]
  signatures := #[⟨[⟨1⟩], 1, none, ⟨0⟩⟩, ⟨[⟨3⟩], 1, some ⟨0⟩, ⟨0⟩⟩, ⟨[⟨1⟩], 2, none, ⟨0⟩⟩]

/-- A text is let in with a number after it and not with a list; a list that is its own rest with whatever comes after
it. -/
theorem boundary_exact_overloads :
    let w := World.fresh {} .silent overloads ownSuccessor
    let enter := fun tag arguments => outcome (checkBoundary overloads ownSuccessor tag arguments w.context)
    let X := conforming overloads ownSuccessor false
    enter ⟨4⟩ [.string "x", .number .zero] = .ok () ∧
      (∃ x ∈ [overloads.signature ⟨0⟩, overloads.signature ⟨1⟩], x.Accepts X [.string "x", .number .zero]) ∧
      (∀ x ∈ [overloads.signature ⟨0⟩, overloads.signature ⟨1⟩], ¬ x.Accepts X [.string "x", .object ⟨0⟩]) ∧
      enter ⟨5⟩ [.object ⟨0⟩, .null] = .ok () ∧ ∀ v, told (enter ⟨5⟩ [.object ⟨0⟩, v]) = some (.ok ()) := by
  intro w enter X
  have hw : w.Arises {} := World.Reachable.arises .start rfl
  have hboth : w.catalog.shape ⟨4⟩ = .ok { callSignatures := [⟨0⟩], constructSignatures := [⟨1⟩] } := rfl
  have hone : w.catalog.shape ⟨5⟩ = .ok { callSignatures := [⟨2⟩] } := rfl
  have hyes : enter ⟨4⟩ [.string "x", .number .zero] = .ok () := by decide +kernel
  have htwo : enter ⟨5⟩ [.object ⟨0⟩, .null] = .ok () := by decide +kernel
  have hno : enter ⟨4⟩ [.string "x", .object ⟨0⟩] =
      .error (.violation (w.rejection ⟨4⟩ [.string "x", .object ⟨0⟩])) := by decide +kernel
  obtain ⟨haccepted, -⟩ := boundary_exact hw hboth [.string "x", .number .zero] (by decide +kernel)
  obtain ⟨-, hrejected, -⟩ := boundary_exact hw hboth [.string "x", .object ⟨0⟩] (by decide +kernel)
  obtain ⟨-, -, -, hrest⟩ := boundary_exact hw hone [.object ⟨0⟩, .null] (by decide +kernel)
  refine ⟨hyes, haccepted hyes, hrejected _ hno, htwo, fun v => ?_⟩
  refine (hrest [.object ⟨0⟩, v] fun x hx => ?_).trans (congrArg told htwo)
  obtain rfl := List.mem_singleton.mp hx
  exact Signature.sameSlots_append [.object ⟨0⟩] [.null] [v] rfl (by decide) (.inl rfl)

/-- An argument that has no slot is still counted: the signature asks for two and declares one, and the list that is its
own rest is turned away alone and let in with a null after it. -/
theorem boundary_counts_unslotted_overloads :
    let w := World.fresh {} .silent overloads ownSuccessor
    let x := overloads.signature ⟨2⟩
    let enter := fun arguments => outcome (checkBoundary overloads ownSuccessor ⟨5⟩ arguments w.context)
    w.Arises {} ∧ w.catalog.shape ⟨5⟩ = .ok { callSignatures := [⟨2⟩] } ∧ x.parameters.length = 1 ∧ x.rest = none ∧
      enter [.object ⟨0⟩] = .error (.violation (w.rejection ⟨5⟩ [.object ⟨0⟩])) ∧
      enter ([.object ⟨0⟩] ++ [.null]) = .ok () := by
  intro w x enter
  refine ⟨World.Reachable.arises .start rfl, rfl, rfl, rfl, ?_, ?_⟩ <;> decide +kernel

end TypeContracts
