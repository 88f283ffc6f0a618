import Mathlib.Data.List.Intervals
import TypeContracts.Log.Event

/-!
# Judgment events in brackets

The start of a judgment and its end enclose what is reported in between, as an
opening and a closing bracket do. A judgment that is found in the cache ends at
once, and one that is assumed does not end. Queries are numbered in the order in
which they start.
-/

namespace TypeContracts.Log

namespace Event

def isJudgment : Event → Bool
  | judgmentStart .. | judgmentEnd .. | cycleAssumed _ => true
  | _ => false

def isEnd (cacheHit : Bool) : Event → Bool
  | judgmentEnd _ _ _ hit => hit == cacheHit
  | _ => false

def isCycle : Event → Bool
  | cycleAssumed _ => true
  | _ => false

def started? : Event → Option Nat
  | judgmentStart query _ => some query
  | _ => none

def ended? : Event → Option Nat
  | judgmentEnd query .. => some query
  | _ => none

end Event

/-- Judgment events that are well bracketed. The first query to start has the first number, and the second number is
that of the query to start next. -/
inductive Bracketed : Nat → List Event → Nat → Prop
  | nil {q} : Bracketed q [] q
  | found {q r key result rest} : Bracketed (q + 1) rest r →
      Bracketed q (.judgmentStart q key :: .judgmentEnd q key.kind result true :: rest) r
  | assumed {q r key rest} : Bracketed (q + 1) rest r →
      Bracketed q (.judgmentStart q key :: .cycleAssumed key :: rest) r
  | computed {q p r key result inner rest} : Bracketed (q + 1) inner p → Bracketed p rest r →
      Bracketed q (.judgmentStart q key :: (inner ++ .judgmentEnd q key.kind result false :: rest)) r

namespace Bracketed

variable {q p r : Nat} {events events' : List Event}

theorem append (h : Bracketed q events p) (h' : Bracketed p events' r) : Bracketed q (events ++ events') r := by
  induction h with
  | nil => exact h'
  | found _ ih => exact .found (ih h')
  | assumed _ ih => exact .assumed (ih h')
  | computed hinner _ _ ih =>
    rw [List.cons_append, List.append_assoc, List.cons_append]
    exact .computed hinner (ih h')

theorem le (h : Bracketed q events r) : q ≤ r := by
  induction h with
  | nil => exact Nat.le_refl _
  | found _ ih => omega
  | assumed _ ih => omega
  | computed _ _ ih ih' => omega

/-- Queries start in the order of their numbers, and no number is left out. -/
theorem started (h : Bracketed q events r) : events.filterMap Event.started? = List.Ico q r := by
  induction h with
  | nil => simp
  | found h ih => simp [List.filterMap_cons, Event.started?, ih, List.Ico.eq_cons (Nat.lt_of_succ_le h.le)]
  | assumed h ih => simp [List.filterMap_cons, Event.started?, ih, List.Ico.eq_cons (Nat.lt_of_succ_le h.le)]
  | computed h h' ih ih' =>
    have hlt := Nat.lt_of_lt_of_le (Nat.lt_of_succ_le h.le) h'.le
    simp [List.filterMap_cons, Event.started?, ih, ih', List.Ico.eq_cons hlt, List.Ico.append_consecutive h.le h'.le]

theorem mem_ended (h : Bracketed q events r) {query : Nat} (hquery : query ∈ events.filterMap Event.ended?) :
    q ≤ query ∧ query < r := by
  induction h with
  | nil => simp at hquery
  | found h ih =>
    have hle := h.le
    simp only [List.filterMap_cons, Event.ended?, List.mem_cons] at hquery
    obtain rfl | hquery := hquery
    · omega
    · have := ih hquery
      omega
  | assumed h ih =>
    simp only [List.filterMap_cons, Event.ended?] at hquery
    have := ih hquery
    omega
  | computed h h' ih ih' =>
    have hle := h.le
    have hle' := h'.le
    simp only [List.filterMap_cons, List.filterMap_append, Event.ended?, List.mem_append, List.mem_cons] at hquery
    obtain hquery | rfl | hquery := hquery
    · have := ih hquery
      omega
    · omega
    · have := ih' hquery
      omega

/-- No query ends twice. -/
theorem ended_nodup (h : Bracketed q events r) : (events.filterMap Event.ended?).Nodup := by
  induction h with
  | nil => simp
  | found h ih =>
    simp only [List.filterMap_cons, Event.ended?, List.nodup_cons]
    refine ⟨fun hquery => ?_, ih⟩
    have := h.mem_ended hquery
    omega
  | assumed h ih => simpa [List.filterMap_cons, Event.ended?] using ih
  | @computed q p r key result inner rest h h' ih ih' =>
    have hafter : ∀ query ∈ q :: rest.filterMap Event.ended?, query = q ∨ p ≤ query := by
      intro query hquery
      exact (List.mem_cons.mp hquery).imp id fun hquery => (h'.mem_ended hquery).1
    simp only [List.filterMap_cons, List.filterMap_append, Event.ended?]
    refine List.nodup_append.mpr ⟨ih, List.nodup_cons.mpr ⟨fun hquery => ?_, ih'⟩, ?_⟩
    · have hle := h.le
      have := h'.mem_ended hquery
      omega
    · intro query hquery other hother heq
      have := h.mem_ended hquery
      obtain rfl | hle := hafter other hother
      · omega
      · omega

end Bracketed

end TypeContracts.Log
