import TypeContracts.Proofs.Call.Boundary
import TypeContracts.Proofs.Conformance.Draws

/-!
# Identities in running programs

A program may have many engines, which share descriptors, values, identities and
the journal, and it may ask for identities itself. Whatever it does, the
identities change by draws (`Action.performWithin_draws`). As long as there are numbers
for all handles that are asked, identities tell handles apart and keys tell
judgments apart (`identities_unique`).
-/

namespace TypeContracts

open Identities (KeyFor)

theorem Engine.held_reset (e : Engine) : e.reset.held = ∅ := by
  refine Set.eq_empty_of_forall_notMem fun key hkey => ?_
  obtain hv | hp := hkey
  · simp [reset, Guard.reset, Guard.isVisiting] at hv
  · simp [reset, Cache.peek] at hp

theorem Context.Move.draws {c : Catalog} {h : Heap} {s s' : Context} (hm : Context.Move c h s s') : s.Draws s' := by
  cases hm with
  | judge j => exact Compatibility.resolve_drawn c j s
  | check v t => exact Conformance.isType_drawn c h v t s
  | draw g => exact ⟨_, s.drawn_assign g⟩
  | reset =>
    refine ⟨[], (Drawn.refl s).of_held s.engine.reset ?_ s.journal⟩
    rw [Engine.held_reset]
    exact Set.empty_subset _
  | note journal notifies => exact ⟨[], (Drawn.refl s).of_held { s.engine with notifies } subset_rfl journal⟩

theorem Action.performWithin_draws (budget : Nat) (r : Request) (w : World) :
    w.context.Draws (stateAfter (performWithin budget r w)).context := by
  have hw : w.Reachable (stateAfter (performWithin budget r w)) := .performed budget r .start
  exact hw.invariant (P := fun s => w.context.Draws s) (.refl _) fun hm h => h.trans hm.draws

structure Program where
  engines : Nat → Engine
  catalog : Catalog
  heap : Heap
  identities : Identities
  journal : Log.Journal

namespace Program

/-- A program that has not done anything. No identity has been drawn, and all engines are new. -/
def start (options : Nat → Options) (filter : Log.Filter) (c : Catalog) (h : Heap) : Program where
  engines n := .create (options n)
  catalog := c
  heap := h
  identities := {}
  journal := { filter }

def world (p : Program) (n : Nat) : World := ⟨p.catalog, p.heap, ⟨p.engines n, p.identities, p.journal⟩⟩

def identify (p : Program) (g : Handle) : Program := { p with identities := (p.identities.assign g).2 }

def after (p : Program) (n budget : Nat) (r : Request) : World :=
  stateAfter (Action.performWithin budget r (p.world n))

def perform (p : Program) (n budget : Nat) (r : Request) : Program where
  engines := Function.update p.engines n (p.after n budget r).context.engine
  catalog := (p.after n budget r).catalog
  heap := (p.after n budget r).heap
  identities := (p.after n budget r).context.identities
  journal := (p.after n budget r).context.journal

/-- The program has come to the other, and these draws have been made on the way, by itself or by its engines. -/
inductive Runs (p : Program) : List Draw → Program → Prop
  | start : Runs p [] p
  | identify {log q} (g : Handle) : Runs p log q → Runs p (log ++ [⟨g, (q.identities.assign g).1⟩]) (q.identify g)
  | perform {log q more} (n budget : Nat) (r : Request) : Runs p log q →
      Context.Drawn more (q.world n).context (q.after n budget r).context →
      Runs p (log ++ more) (q.perform n budget r)

variable {p q : Program} {log : List Draw}

/-- An engine that is not asked keeps its keys, and draws of the others are draws for it as well. -/
theorem Runs.drawn (h : p.Runs log q) (n : Nat) : Context.Drawn log (p.world n).context (q.world n).context := by
  induction h with
  | start => exact .refl _
  | @identify log q g _ ih => exact ih.trans ((q.world n).context.drawn_assign g)
  | @perform log q more m budget r _ hdrawn ih =>
    refine ih.trans ?_
    by_cases hn : n = m
    · subst hn
      simpa [world, Program.perform] using hdrawn
    · refine ⟨hdrawn.draws, fun key hkey => .inl ?_⟩
      simpa [world, Program.perform, hn] using hkey

theorem Runs.draws (h : p.Runs log q) : p.identities.Draws log q.identities := (h.drawn 0).draws

end Program

section
variable {options : Nat → Options} {filter : Log.Filter} {c : Catalog} {h : Heap} {log : List Draw} {p : Program}

/-- In a run in which no more handles are asked for their identity than there are numbers for, every handle has the
identity that it was given first, for ever, and no other handle has it. It is valid, and larger than all that were
given before. So the keys that engines make are equal exactly if they are made for the same things, and a key that is
made again is the same. Whatever is asked of an engine next draws identities in the same way; a handle for which there
is no number left gets none. -/
theorem identities_unique (hrun : (Program.start options filter c h).Runs log p)
    (hbound : (Draw.handles log).card ≤ UInt32.size - 1) :
    (∀ g i, p.identities.find? g = some i ↔ ⟨g, i⟩ ∈ log) ∧
    (∀ later q, p.Runs later q → ∀ d ∈ log, q.identities.find? d.handle = some d.identity) ∧
    (∀ d ∈ log, d.identity.isValid = true) ∧
    (∀ first d rest, log = first ++ d :: rest → d.handle ∉ Draw.handles first →
      ∀ d' ∈ first, d'.identity.number < d.identity.number) ∧
    (∀ d ∈ log, ∀ d' ∈ log, d.identity = d'.identity ↔ d.handle = d'.handle) ∧
    (∀ n, ∀ key ∈ (p.engines n).held, ∃ j, KeyFor log j key) ∧
    (∀ j j' key key', KeyFor log j key → KeyFor log j' key' →
      (key = key' ↔ j.kind = j'.kind ∧ j.source = j'.source ∧ j.target = j'.target)) ∧
    (∀ j key, KeyFor log j key → p.identities.keyed j = (key, p.identities)) ∧
    (∀ n budget r, ∃ more, Context.Drawn more (p.world n).context (p.after n budget r).context) ∧
    ((Draw.handles log).card = UInt32.size - 1 → ∀ g ∉ Draw.handles log,
      (p.identities.assign g).1.isValid = false ∧ (p.identities.assign g).2.find? g = none) := by
  have hdraws : Identities.Draws {} log p.identities := hrun.draws
  have hf := hdraws.faithful hbound
  refine ⟨fun g i => hf.found, fun later q hlater d hd => ?_, fun d hd => hf.isValid hd, ?_, ?_, ?_, ?_, ?_, ?_, ?_⟩
  · exact hlater.draws.grows.keeps (hf.found.mpr hd)
  · intro first d rest hlog hd d' hd'
    exact hdraws.increasing hbound hlog hd hd'
  · intro d hd d' hd'
    exact hf.identity_eq_iff hd hd'
  · intro n key hkey
    refine ((hrun.drawn n).keys key hkey).resolve_left fun hstart => ?_
    simp [Program.world, Program.start, Engine.held_create] at hstart
  · intro j j' key key' hk hk'
    exact hf.key_eq_iff hk hk'
  · intro j key hk
    exact (hf.isKey_iff.mpr hk).keyed_eq
  · intro n budget r
    exact Action.performWithin_draws budget r (p.world n)
  · intro hfull g hg
    exact hf.assign_exhausted hfull hg

end

/-- A signature is asked by the program, and after that two engines compare functions and lists. What the first engine
has drawn for a signature is not drawn by the second for the type of the same index. -/
theorem identities_unique_twoEngines :
    let start := Program.start (fun _ => {}) .silent overloads ownSuccessor
    let p :=
      ((start.identify (.signature ⟨0⟩)).perform 0 0 (.isCompatible ⟨5⟩ ⟨4⟩)).perform 1 0 (.isCompatible ⟨1⟩ ⟨2⟩)
    ∃ log, start.Runs log p ∧ (Draw.handles log).card = 6 ∧
      ⟨.signature ⟨0⟩, ⟨0⟩⟩ ∈ log ∧ ⟨.signature ⟨2⟩, ⟨3⟩⟩ ∈ log ∧ ⟨.type ⟨2⟩, ⟨5⟩⟩ ∈ log ∧
      (∀ later q, p.Runs later q → q.identities.find? (.signature ⟨2⟩) = some ⟨3⟩) ∧
      (∀ n, ∀ key ∈ (p.engines n).held, ∃ j, KeyFor log j key) ∧
      ∃ key ∈ (p.engines 1).held, KeyFor log (.type ⟨1⟩ ⟨2⟩) key := by
  intro start p
  obtain ⟨_, hfirst⟩ := Action.performWithin_draws 0 (.isCompatible ⟨5⟩ ⟨4⟩) ((start.identify (.signature ⟨0⟩)).world 0)
  obtain ⟨_, hsecond⟩ := Action.performWithin_draws 0 (.isCompatible ⟨1⟩ ⟨2⟩)
    (((start.identify (.signature ⟨0⟩)).perform 0 0 (.isCompatible ⟨5⟩ ⟨4⟩)).world 1)
  have hrun := ((Program.Runs.start.identify (.signature ⟨0⟩)).perform 0 0 _ hfirst).perform 1 0 _ hsecond
  have hroom : p.identities.HasRoom := by decide +kernel
  have hsize : p.identities.assigned.size = 6 := by decide +kernel
  have hcount := (hrun.draws.faithful_of_hasRoom hroom).count.trans hsize
  have hsignature : p.identities.find? (.signature ⟨0⟩) = some ⟨0⟩ := by decide +kernel
  have hother : p.identities.find? (.signature ⟨2⟩) = some ⟨3⟩ := by decide +kernel
  have htype : p.identities.find? (.type ⟨2⟩) = some ⟨5⟩ := by decide +kernel
  have hsource : p.identities.find? (.type ⟨1⟩) = some ⟨4⟩ := by decide +kernel
  have hcached : (p.engines 1).cache.peek ⟨.type, ⟨4⟩, ⟨5⟩⟩ = some true := by decide +kernel
  obtain ⟨hfound, hkept, -, -, -, hkeys, -⟩ := identities_unique hrun (hcount.trans_le (by decide))
  have hdrawn := (hfound _ _).mp htype
  refine ⟨_, hrun, hcount, (hfound _ _).mp hsignature, (hfound _ _).mp hother, hdrawn, ?_, hkeys, ?_⟩
  · intro later q hlater
    exact hkept later q hlater _ ((hfound _ _).mp hother)
  · refine ⟨⟨.type, ⟨4⟩, ⟨5⟩⟩, .inr ?_, rfl, (hfound _ _).mp hsource, hdrawn⟩
    simp [hcached]

end TypeContracts
