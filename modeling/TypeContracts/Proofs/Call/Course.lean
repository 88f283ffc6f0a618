import TypeContracts.Proofs.Call.Occurrences

/-!
# The course of a run

A run comes to moments at which something is asked for or a body starts. Its
course is the list of them in order, each with the world it finds, and with
those of a nested call in the place of the call. A run is made of moves, and so
is the way to each moment of its course (`Charts.performWithin`). No start of a body is
left out: the starts are those of the history of the run (`starts_course`).
-/

namespace TypeContracts

open Relation (ReflTransGen)

inductive Moment where
  | asked (request : Request) (world : World)
  | started (function : FunctionRef) (invocation : Invocation) (world : World)

namespace Moment

def world : Moment → World
  | asked _ w | started _ _ w => w

def start? : Moment → Option (FunctionRef × Invocation)
  | started f invocation _ => some (f, invocation)
  | asked .. => none

end Moment

def Request.call? : Request → Option (FunctionRef × Value × List Value)
  | apply f receiver arguments => some (f, receiver, arguments)
  | callValue (.function f) receiver arguments => some (f, receiver, arguments)
  | _ => none

abbrev Course := World → List Moment

namespace Action

def requestCourse (called : FunctionRef → Value → List Value → Course) (r : Request) : Course := fun w =>
  .asked r w :: match r.call? with
    | some (f, receiver, arguments) => called f receiver arguments w
    | none => []

def scriptCourse (perform : Request → Action Answer) (asked : Request → Course) : Script → Course
  | .stop _ => fun _ => []
  | .ask request next => fun w =>
    asked request w ++ match perform request w with
      | .ok answer w' => scriptCourse perform asked (next (.ok answer)) w'
      | .error e w' => scriptCourse perform asked (next (.error e)) w'

/-- The body starts when its run has been counted. -/
def bodyCourse (perform : Request → Action Answer) (asked : Request → Course) (f : FunctionRef) (receiver : Value)
    (arguments : List Value) : Course := fun w =>
  let invocation : Invocation := ⟨receiver, arguments, w.runs f + 1⟩
  .started f invocation (w.counted f) :: scriptCourse perform asked ((w.heap.function f).body invocation) (w.counted f)

def callCourse : Nat → FunctionRef → Value → List Value → Course
  | 0, _, _, _ => fun _ => []
  | budget + 1, f, receiver, arguments => fun w =>
    match enterCall f arguments w with
    | .ok _ w' => bodyCourse (performWith (applyWithin budget)) (requestCourse (callCourse budget)) f receiver arguments w'
    | .error _ _ => []

def course (budget : Nat) (r : Request) : Course := requestCourse (callCourse budget) r

/-! ## Calls among the requests -/

section
variable {r : Request}

theorem performWith_of_call {f : FunctionRef} {receiver : Value} {arguments : List Value}
    (h : r.call? = some (f, receiver, arguments)) (call : Caller) :
    performWith call r = (do return .value (← call f receiver arguments)) := by
  unfold Request.call? at h
  split at h
  · cases h; rfl
  · cases h; rfl
  · cases h

theorem performWith_of_plain (h : r.call? = none) (call call' : Caller) : performWith call r = performWith call' r := by
  cases r with
  | apply f receiver arguments => cases h
  | callValue callee receiver arguments =>
    cases callee with
    | function f => cases h
    | _ => rfl
  | _ => rfl

end

end Action

/-! ## Moves along a course -/

/-- As long as only good requests are made, the run is made of moves, and so is the way to each of its moments. -/
def Charts {α : Type} (M : World → World → Prop) (good : Request → Prop) (m : Action α) (course : Course) : Prop :=
  ∀ w, (∀ r w', .asked r w' ∈ course w → good r) →
    ReflTransGen M w (stateAfter (m w)) ∧ ∀ x ∈ course w, ReflTransGen M w x.world

namespace Charts

variable {α : Type} {M : World → World → Prop} {good : Request → Prop}

theorem runScript {perform : Request → Action Answer} {asked : Request → Course}
    (hp : ∀ r, Charts M good (perform r) (asked r)) :
    ∀ script, Charts M good (Action.runScript perform script) (Action.scriptCourse perform asked script)
  | .stop (.ok v) => fun _ _ => ⟨.refl, by simp [Action.scriptCourse]⟩
  | .stop (.error e) => fun _ _ => ⟨.refl, by simp [Action.scriptCourse]⟩
  | .ask request next => fun w hgood => by
    simp only [Action.scriptCourse, List.mem_append] at hgood ⊢
    obtain ⟨hfirst, hat⟩ := hp request w fun r w' h => hgood r w' (.inl h)
    -- what comes after the request starts where the request has ended
    have hlater : ∀ {script w'}, ReflTransGen M w w' →
        (∀ r w₁, .asked r w₁ ∈ Action.scriptCourse perform asked script w' → good r) →
        Charts M good (Action.runScript perform script) (Action.scriptCourse perform asked script) →
        ReflTransGen M w (stateAfter (Action.runScript perform script w')) ∧
          ∀ x, x ∈ asked request w ∨ x ∈ Action.scriptCourse perform asked script w' → ReflTransGen M w x.world := by
      intro script w' hmoves hgood hnext
      obtain ⟨hlast, hnext⟩ := hnext w' hgood
      refine ⟨hmoves.trans hlast, fun x hx => ?_⟩
      obtain hx | hx := hx
      · exact hat x hx
      · exact hmoves.trans (hnext x hx)
    unfold Action.runScript
    cases hr : perform request w with
    | ok answer w' =>
      rw [hr] at hfirst
      exact hlater hfirst (fun r w₁ h => hgood r w₁ (.inr (by rw [hr]; exact h))) (runScript hp _)
    | error e w' =>
      rw [hr] at hfirst
      exact hlater hfirst (fun r w₁ h => hgood r w₁ (.inr (by rw [hr]; exact h))) (runScript hp _)

variable {Q : Catalog → Heap → (α : Type) → Check α → Prop} (hM : Action.Steps Q fun _ m => Makes M m)
  (hreset : good .reset → Makes M Action.reset)
include hM

theorem runBody {perform : Request → Action Answer} {asked : Request → Course}
    (hp : ∀ r, Charts M good (perform r) (asked r)) (f : FunctionRef) (receiver : Value) (arguments : List Value) :
    Charts M good (Action.runBody perform f receiver arguments)
      (Action.bodyCourse perform asked f receiver arguments) := by
  intro w hgood
  have hcounted : ReflTransGen M w (w.counted f) := hM.countRun f w
  obtain ⟨hlast, hat⟩ := runScript hp ((w.heap.function f).body ⟨receiver, arguments, w.runs f + 1⟩) (w.counted f)
    fun r w' h => hgood r w' (List.mem_cons_of_mem _ h)
  refine ⟨hcounted.trans hlast, fun x hx => ?_⟩
  obtain rfl | hx := List.mem_cons.mp hx
  · exact hcounted
  · exact hcounted.trans (hat x hx)

include hreset

theorem performWith {call : Action.Caller} {called : FunctionRef → Value → List Value → Course}
    (hcall : ∀ f receiver arguments, Charts M good (call f receiver arguments) (called f receiver arguments))
    (r : Request) : Charts M good (Action.performWith call r) (Action.requestCourse called r) := by
  intro w hgood
  have hr : good r := hgood r w (List.mem_cons_self ..)
  cases hc : r.call? with
  | none =>
    -- who is called does not matter, so it may be one who only fails
    have hplain : Makes M (Action.performWith (Action.applyWithin 0) r) :=
      hM.performWith (fun _ _ _ => hM.throw _) r fun h => hreset (h ▸ hr)
    refine ⟨?_, fun x hx => ?_⟩
    · rw [Action.performWith_of_plain hc call]
      exact hplain w
    · simp only [Action.requestCourse, hc, List.mem_singleton] at hx
      subst hx
      exact .refl
  | some found =>
    obtain ⟨f, receiver, arguments⟩ := found
    simp only [Action.requestCourse, hc, List.mem_cons] at hgood ⊢
    obtain ⟨hlast, hat⟩ := hcall f receiver arguments w fun r w' h => hgood r w' (.inr h)
    refine ⟨?_, fun x hx => ?_⟩
    · rw [Action.performWith_of_call hc, stateAfter_bind_pure]
      exact hlast
    · obtain rfl | hx := hx
      · exact .refl
      · exact hat x hx

theorem applyWithin (budget : Nat) (f : FunctionRef) (receiver : Value) (arguments : List Value) :
    Charts M good (Action.applyWithin budget f receiver arguments)
      (Action.callCourse budget f receiver arguments) := by
  induction budget generalizing f receiver arguments with
  | zero => exact fun _ _ => ⟨.refl, by simp [Action.callCourse]⟩
  | succ budget ih =>
    intro w hgood
    have hentry := hM.enterCall f arguments w
    have hrun : Action.applyWithin (budget + 1) f receiver arguments w =
        (Action.enterCall f arguments >>= fun _ =>
          Action.runBody (Action.performWith (Action.applyWithin budget)) f receiver arguments) w := rfl
    rw [hrun]
    simp only [Action.callCourse, Bind.bind, EStateM.bind] at hgood ⊢
    cases he : Action.enterCall f arguments w with
    | error e w' => rw [he] at hentry; exact ⟨hentry, by simp⟩
    | ok u w' =>
      rw [he] at hentry hgood
      obtain ⟨hlast, hat⟩ := runBody hM (performWith hM hreset ih) f receiver arguments w' hgood
      exact ⟨hentry.trans hlast, fun x hx => hentry.trans (hat x hx)⟩

theorem performWithin (budget : Nat) (r : Request) :
    Charts M good (Action.performWithin budget r) (Action.course budget r) :=
  performWith hM hreset (applyWithin hM hreset budget) r

end Charts

/-! ## Starts along a course -/

def Occurrence.start? : Occurrence → Option (FunctionRef × Invocation)
  | ran f invocation => some (f, invocation)
  | _ => none

theorem Occurrence.countP_isRunOf (f : FunctionRef) (occurrences : List Occurrence) :
    occurrences.countP (isRunOf f) = (occurrences.filterMap start?).countP (·.1 == f) := by
  rw [List.countP_filterMap]
  congr 1
  funext x
  cases x <;> rfl

namespace Action

/-- The bodies that start are the ones that are run, in the same order and with the same arguments. -/
def SameStarts (course : Course) (history : History) : Prop :=
  ∀ w, (course w).filterMap Moment.start? = (history w).filterMap Occurrence.start?

theorem starts_assertHistory (v : Value) (t : TypeRef) (location : Location) (w : World) :
    (assertHistory v t location w).filterMap Occurrence.start? = [] := by
  simp only [assertHistory, History.andThen, History.silent, List.nil_append]
  cases isType v t w with
  | error e w' => rfl
  | ok holds w' => cases holds <;> rfl

theorem starts_entryHistory (f : FunctionRef) (arguments : List Value) (w : World) :
    (entryHistory f arguments w).filterMap Occurrence.start? = [] := by
  unfold entryHistory
  cases (w.heap.function f).tag with
  | none => rfl
  | some tag =>
    simp only [History.andThen, History.silent, List.nil_append]
    cases accepts tag arguments w with
    | error e w' => rfl
    | ok accepted w' => cases accepted <;> rfl

theorem starts_request {called : FunctionRef → Value → List Value → Course}
    {recalled : FunctionRef → Value → List Value → History}
    (hcall : ∀ f receiver arguments, SameStarts (called f receiver arguments) (recalled f receiver arguments))
    (r : Request) : SameStarts (requestCourse called r) (requestHistory recalled r) := by
  intro w
  cases r with
  | assertType v t location => exact (starts_assertHistory v t location w).symm
  | apply f receiver arguments => exact hcall f receiver arguments w
  | callValue callee receiver arguments =>
    cases callee with
    | function f => exact hcall f receiver arguments w
    | _ => rfl
  | _ => rfl

theorem starts_script {perform : Request → Action Answer} {asked : Request → Course} {told : Request → History}
    (hp : ∀ r, SameStarts (asked r) (told r)) :
    ∀ script, SameStarts (scriptCourse perform asked script) (scriptHistory perform told script)
  | .stop _ => fun _ => rfl
  | .ask request next => fun w => by
    simp only [scriptCourse, scriptHistory, List.filterMap_append, hp request w]
    cases perform request w with
    | ok answer w' => simp only [starts_script hp (next (.ok answer)) w']
    | error e w' => simp only [starts_script hp (next (.error e)) w']

theorem starts_call (budget : Nat) (f : FunctionRef) (receiver : Value) (arguments : List Value) :
    SameStarts (callCourse budget f receiver arguments) (callHistory budget f receiver arguments) := by
  induction budget generalizing f receiver arguments with
  | zero => exact fun _ => rfl
  | succ budget ih =>
    intro w
    simp only [callCourse, callHistory, History.andThen, List.filterMap_append, starts_entryHistory, List.nil_append]
    cases enterCall f arguments w with
    | error e w' => rfl
    | ok u w' =>
      simp only [bodyCourse, bodyHistory, List.filterMap_cons, Moment.start?, Occurrence.start?,
        starts_script (starts_request ih) _ (w'.counted f)]

theorem starts_course (budget : Nat) (r : Request) :
    SameStarts (course budget r) (requestHistory (callHistory budget) r) :=
  starts_request (starts_call budget) r

theorem runs_performWithin (budget : Nat) (r : Request) (w : World) {f : FunctionRef}
    (hf : f.index < w.heap.functions.size) :
    (stateAfter (performWithin budget r w)).runs f =
      w.runs f + ((course budget r w).filterMap Moment.start?).countP (·.1 == f) := by
  have hcounted := (performWith_recounts (applyWithin_recounts budget) r w).runs f hf
  rw [Occurrence.countP_isRunOf, ← starts_course budget r w] at hcounted
  exact hcounted

end Action

end TypeContracts
