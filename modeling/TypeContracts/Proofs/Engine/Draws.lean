import Mathlib.Data.Finset.Card
import TypeContracts.Proofs.Engine.Identities

/-!
# Drawing identities one after the other

All that ever happens to the identities is that handles are asked for theirs.
The log of these draws tells what has been given to whom. As long as no more
handles have been asked than there are numbers, the log and the table agree
(`Faithful`), and a handle that is asked for the first time is given a larger
number than all before it (`Draws.increasing`).
-/

namespace TypeContracts

structure Draw where
  handle : Handle
  identity : Identity
deriving DecidableEq, Repr

namespace Draw

def handles (log : List Draw) : Finset Handle := (log.map handle).toFinset

variable {log : List Draw} {g : Handle} {i : Identity}

theorem mem_handles : g ∈ handles log ↔ ∃ i, ⟨g, i⟩ ∈ log := by
  simp only [handles, List.mem_toFinset, List.mem_map]
  constructor
  · rintro ⟨⟨_, i⟩, hd, rfl⟩
    exact ⟨i, hd⟩
  · rintro ⟨i, hd⟩
    exact ⟨_, hd, rfl⟩

theorem handles_append_singleton (log : List Draw) (g : Handle) (i : Identity) :
    handles (log ++ [⟨g, i⟩]) = insert g (handles log) := by
  ext
  simp [handles]

end Draw

namespace Identities

/-- These draws, one after the other, lead from the first identities to the last. -/
inductive Draws (ids : Identities) : List Draw → Identities → Prop
  | nil : Draws ids [] ids
  | snoc {log later} (g : Handle) : Draws ids log later →
      Draws ids (log ++ [⟨g, (later.assign g).1⟩]) (later.assign g).2

variable {ids mid later : Identities} {log rest : List Draw} {g : Handle} {i : Identity}

namespace Draws

theorem single (ids : Identities) (g : Handle) : Draws ids [⟨g, (ids.assign g).1⟩] (ids.assign g).2 := .snoc g .nil

theorem append (h₁ : Draws ids log mid) (h₂ : Draws mid rest later) : Draws ids (log ++ rest) later := by
  induction h₂ with
  | nil => simpa using h₁
  | snoc g _ ih =>
    rw [← List.append_assoc]
    exact ih.snoc g

theorem grows (h : Draws ids log later) : ids.Grows later := by
  induction h with
  | nil => exact .refl ids
  | snoc g _ ih => exact ih.trans (grows_assign _ g)

/-- A key is made of two draws. -/
theorem keyed (ids : Identities) (j : Judgment) :
    Draws ids [⟨j.source, (ids.keyed j).1.source⟩, ⟨j.target, (ids.keyed j).1.target⟩] (ids.keyed j).2 :=
  .snoc j.target (.snoc j.source .nil)

end Draws

/-! ## The log and the table -/

/-- The table holds what has been drawn, and no number has been lost. -/
structure Faithful (log : List Draw) (ids : Identities) : Prop where
  sound : ids.Sound
  found : ∀ {g i}, ids.find? g = some i ↔ ⟨g, i⟩ ∈ log
  count : (Draw.handles log).card = ids.assigned.size

theorem faithful_empty : Faithful [] {} where
  sound := sound_empty
  found := by simp [find?]
  count := rfl

theorem Faithful.find?_eq_none_iff (hf : Faithful log ids) : ids.find? g = none ↔ g ∉ Draw.handles log := by
  rw [Draw.mem_handles, Option.eq_none_iff_forall_ne_some]
  simp only [ne_eq, hf.found, not_exists]

theorem Faithful.assign (hf : Faithful log ids) (hroom : ids.find? g = none → ids.HasRoom) :
    Faithful (log ++ [⟨g, (ids.assign g).1⟩]) (ids.assign g).2 := by
  cases hn : ids.find? g with
  | some i =>
    have hi := hf.found.mp hn
    rw [assign_of_some hn]
    refine ⟨hf.sound, fun {g' i'} => ?_, ?_⟩
    · rw [hf.found, List.mem_append, List.mem_singleton]
      exact ⟨.inl, fun h => h.elim id fun heq => heq ▸ hi⟩
    · rw [Draw.handles_append_singleton, Finset.insert_eq_of_mem (Draw.mem_handles.mpr ⟨i, hi⟩), hf.count]
  | none =>
    have hr := hroom hn
    have hnew := hf.find?_eq_none_iff.mp hn
    refine ⟨hf.sound.assign_of_hasRoom hr, fun {g' i'} => ?_, ?_⟩
    · rw [(assign_eq hf.sound hn hr).1, find?_insert, List.mem_append, List.mem_singleton, ← hf.found]
      by_cases hg : g = g'
      · subst hg
        simp [hn, eq_comm]
      · simp [hg, Ne.symm hg]
    · rw [(assign_eq hf.sound hn hr).1, Draw.handles_append_singleton, Finset.card_insert_of_notMem hnew, hf.count]
      simp [Std.TreeMap.size_insert, contains_code, hn]

namespace Draws

/-- The largest number is not given to any handle, so there is one less than there are numbers. -/
theorem faithful (h : Draws {} log ids) (hbound : (Draw.handles log).card ≤ UInt32.size - 1) : Faithful log ids := by
  induction h with
  | nil => exact faithful_empty
  | @snoc log ids g _ ih =>
    rw [Draw.handles_append_singleton] at hbound
    have hf := ih ((Finset.card_le_card (Finset.subset_insert g _)).trans hbound)
    refine hf.assign fun hn => ?_
    rw [Finset.card_insert_of_notMem (hf.find?_eq_none_iff.mp hn), hf.count] at hbound
    exact hbound

theorem faithful_of_hasRoom (h : Draws {} log ids) (hroom : ids.HasRoom) : Faithful log ids := by
  induction h with
  | nil => exact faithful_empty
  | @snoc log ids g _ ih =>
    have hbefore := (grows_assign ids g).hasRoom hroom
    exact (ih hbefore).assign fun _ => hbefore

theorem increasing (h : Draws {} log ids) (hbound : (Draw.handles log).card ≤ UInt32.size - 1) {first : List Draw}
    {d : Draw} (hlog : log = first ++ d :: rest) (hd : d.handle ∉ Draw.handles first) {d' : Draw} (hd' : d' ∈ first) :
    d'.identity.number < d.identity.number := by
  induction h generalizing rest with
  | nil => simp at hlog
  | @snoc log ids g hdraws ih =>
    rw [Draw.handles_append_singleton] at hbound
    have hless := (Finset.card_le_card (Finset.subset_insert g _)).trans hbound
    obtain rfl | ⟨rest, last, rfl⟩ := List.eq_nil_or_concat rest
    · -- the draw is the last one, and all numbers given before are below the counter
      obtain ⟨rfl, hlast⟩ := List.append_inj' hlog rfl
      cases hlast
      have hf := hdraws.faithful hless
      rw [assign_new (hf.find?_eq_none_iff.mpr hd)]
      exact hf.sound.below (hf.found.mpr hd')
    · rw [List.concat_eq_append, ← List.cons_append, ← List.append_assoc] at hlog
      exact ih hless (List.append_inj' hlog rfl).1

end Draws

section
variable (hf : Faithful log ids)
include hf

theorem Faithful.isValid (hi : ⟨g, i⟩ ∈ log) : i.isValid = true := by
  have hlt := UInt32.lt_iff_toNat_lt.mp (hf.sound.below (hf.found.mpr hi))
  have hnext : ids.next.toNat < UInt32.size := ids.next.toNat_lt
  have hne : i ≠ Identity.invalid := by
    rintro rfl
    simp only [Identity.invalid, UInt32.reduceToNat, UInt32.size] at hlt hnext
    omega
  simpa [Identity.isValid] using hne

theorem Faithful.identity_eq_iff {d d' : Draw} (hd : d ∈ log) (hd' : d' ∈ log) :
    d.identity = d'.identity ↔ d.handle = d'.handle := by
  have hfound := hf.found.mpr hd
  have hfound' := hf.found.mpr hd'
  constructor
  · intro heq
    rw [heq] at hfound
    exact hf.sound.distinct hfound hfound'
  · intro heq
    rw [heq, hfound'] at hfound
    exact (Option.some.inj hfound).symm

/-- When all numbers have been given, the next handle is given none. -/
theorem Faithful.assign_exhausted (hfull : (Draw.handles log).card = UInt32.size - 1) (hg : g ∉ Draw.handles log) :
    (ids.assign g).1.isValid = false ∧ (ids.assign g).2.find? g = none := by
  have hn := hf.find?_eq_none_iff.mpr hg
  have hnext : ids.next = 0xFFFFFFFF := by
    refine UInt32.toNat_inj.mp ?_
    rw [hf.sound.next, ← hf.count, hfull]
    rfl
  have hinvalid : (⟨ids.next⟩ : Identity).isValid = false := by rw [hnext]; rfl
  rw [assign_new hn]
  refine ⟨hinvalid, ?_⟩
  rw [hinvalid]
  exact hn

end

/-! ## Keys -/

/-- The key is made for the judgment, of identities that have been drawn. -/
structure KeyFor (log : List Draw) (j : Judgment) (key : JudgmentKey) : Prop where
  kind : key.kind = j.kind
  source : ⟨j.source, key.source⟩ ∈ log
  target : ⟨j.target, key.target⟩ ∈ log

theorem KeyFor.mono {log' : List Draw} {j : Judgment} {key : JudgmentKey} (h : KeyFor log j key) (hlog : log ⊆ log') :
    KeyFor log' j key :=
  ⟨h.kind, hlog h.source, hlog h.target⟩

theorem Faithful.isKey_iff (hf : Faithful log ids) {j : Judgment} {key : JudgmentKey} :
    ids.IsKey key j ↔ KeyFor log j key := by
  constructor
  · intro h
    exact ⟨h.kind, hf.found.mp h.source, hf.found.mp h.target⟩
  · intro h
    exact ⟨h.kind, hf.found.mpr h.source, hf.found.mpr h.target⟩

theorem Faithful.key_eq_iff (hf : Faithful log ids) {j j' : Judgment} {key key' : JudgmentKey} (hk : KeyFor log j key)
    (hk' : KeyFor log j' key') :
    key = key' ↔ j.kind = j'.kind ∧ j.source = j'.source ∧ j.target = j'.target := by
  have hsource := hf.identity_eq_iff hk.source hk'.source
  have htarget := hf.identity_eq_iff hk.target hk'.target
  rw [← hk.kind, ← hk'.kind, ← hsource, ← htarget]
  cases key
  cases key'
  simp

end Identities

end TypeContracts
