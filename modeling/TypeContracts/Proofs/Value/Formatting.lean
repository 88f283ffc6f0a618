import TypeContracts.Proofs.Value.Chains

/-!
# What a formatter writes

A value is written out in full at its first visit, in the order in which a
reader comes to it, and as a marker at every other (`formatter_cycle_safe`). The
reference values that a formatter has not seen yet become fewer on the way down,
so the budget for the nesting is never used up.
-/

namespace TypeContracts

namespace Heap

/-! ## One value -/

/-- The text of an object: every member has a line of its own, two blanks further in than the braces. -/
def objectText (level : Nat) : List (String × String) → String
  | [] => "\x7b\x7d"
  | members =>
    let line := fun (member : String × String) =>
      String.ofList (List.replicate (2 * (level + 1)) ' ') ++ member.1 ++ ": " ++ member.2 ++ ",\n"
    "\x7b\n" ++ String.join (members.map line) ++ String.ofList (List.replicate (2 * level) ' ') ++ "\x7d"

def dots (total : Nat) : List String := if 10 < total then ["..."] else []

section
variable (h : Heap) (c : Catalog)

def parts : Value → List Value
  | .array r => (h.elements r).toList.take 10
  | .object r => (unshadowed [] (h.holders r)).map Prod.snd
  | _ => []

def partLevel (level : Nat) : Value → Nat
  | .object _ => level + 1
  | _ => level

def fullText (level : Nat) (texts : List String) : Value → String
  | .undefined => "undefined"
  | .null => "null"
  | .boolean b => if b then "true" else "false"
  | .number x => x.text
  | .string s => "'" ++ s ++ "'"
  | .function r =>
    match (h.function r).tag with
    | some tag => c.typeText tag
    | none => "Function"
  | .array r => "[" ++ ", ".intercalate (texts ++ dots (h.elements r).size) ++ "]"
  | .buffer r =>
    let preview := ((h.buffer r).elements.toList.take 10).map Double.text
    (h.buffer r).kind.constructorName ++ " [" ++ ", ".intercalate (preview ++ dots (h.buffer r).elements.size) ++ "]"
  | .view r => "DataView \x7b byteLength: " ++ toString (h.bytes r).length ++ " \x7d"
  | .object r => objectText level (((unshadowed [] (h.holders r)).map Prod.fst).zip texts)

end

theorem membersText_eq (level : Nat) (members : List (String × String)) :
    membersText level members = objectText level members := by
  cases members with
  | nil => rfl
  | cons member members =>
    simp only [membersText, objectText, braced, indentation, List.isEmpty_cons, List.map_map]
    simp [Function.comp_def, String.append_assoc]

theorem previewText_eq {preview : List String} {total : Nat} (hlength : preview.length = min 10 total) :
    previewText preview total = ", ".intercalate (preview ++ dots total) := by
  have hiff : preview.length < total ↔ 10 < total := by omega
  unfold previewText dots
  simp only [hiff]
  split
  · rfl
  · rw [List.append_nil]

theorem bufferText_eq (h : Heap) (c : Catalog) (level : Nat) (texts : List String) (r : BufferRef) :
    bufferText (h.buffer r) = h.fullText c level texts (.buffer r) := by
  have hlength : (((h.buffer r).elements.toList.take 10).map Double.text).length =
      min 10 (h.buffer r).elements.size := by simp
  unfold bufferText fullText maxPreviewElements
  dsimp only
  rw [previewText_eq hlength]

section
variable {α β σ : Type}

theorem run_mapM_cons (f : α → StateM σ β) (a : α) (as : List α) (s : σ) :
    ((a :: as).mapM f).run s =
      ((((f a).run s).1 :: ((as.mapM f).run ((f a).run s).2).1), ((as.mapM f).run ((f a).run s).2).2) := by
  rw [List.mapM_cons]
  rfl

theorem length_run_mapM (f : α → StateM σ β) (as : List α) (s : σ) : ((as.mapM f).run s).1.length = as.length := by
  induction as generalizing s with
  | nil => rfl
  | cons a as ih => rw [run_mapM_cons, List.length_cons, ih, List.length_cons]

/-- Names are carried along. -/
theorem run_mapM_named (f : α → StateM σ β) (entries : List (String × α)) (s : σ) :
    (entries.mapM (m := StateM σ) fun (key, a) => return (key, ← f a)).run s =
      ((entries.map Prod.fst).zip (((entries.map Prod.snd).mapM f).run s).1,
        (((entries.map Prod.snd).mapM f).run s).2) := by
  induction entries generalizing s with
  | nil => rfl
  | cons entry entries ih =>
    rw [run_mapM_cons, ih, List.map_cons, List.map_cons, run_mapM_cons]
    rfl

end

theorem run_then {α β σ : Type} (m : StateM σ α) (f : α → β) (s : σ) :
    (do return f (← m) : StateM σ β).run s = (f (m.run s).1, (m.run s).2) := rfl

theorem run_unless_marked (v : Value) (write : StateM Seen String) (seen : Seen) :
    (do if ← markSeen v then return circularReferenceMarker else write : StateM Seen String).run seen =
      if (markSeen v seen).1 then (circularReferenceMarker, (markSeen v seen).2) else write.run (markSeen v seen).2 := by
  have hbind : (do if ← markSeen v then return circularReferenceMarker else write : StateM Seen String).run seen =
      (if (markSeen v seen).1 then return circularReferenceMarker else write : StateM Seen String).run
        (markSeen v seen).2 := rfl
  rw [hbind]
  cases (markSeen v seen).1 <;> rfl

/-- What a formatter does with a value: a marker, or its parts and then its text. -/
theorem run_valueTextWithin (h : Heap) (c : Catalog) (budget level : Nat) (v : Value) (seen : Seen) :
    (h.valueTextWithin c (budget + 1) level v).run seen =
      if (markSeen v seen).1 then (circularReferenceMarker, (markSeen v seen).2)
      else
        let result := ((h.parts v).mapM (h.valueTextWithin c budget (partLevel level v))).run (markSeen v seen).2
        (h.fullText c level result.1 v, result.2) := by
  cases v with
  | array r =>
    rw [valueTextWithin, run_unless_marked]
    generalize (markSeen (.array r) seen).2 = seen'
    have hlength := length_run_mapM (h.valueTextWithin c budget level) ((h.elements r).toList.take 10) seen'
    have htext : previewText _ (h.elements r).size = _ := previewText_eq (hlength.trans (by simp))
    dsimp only [maxPreviewElements]
    rw [run_then, htext]
    split <;> rfl
  | object r =>
    rw [valueTextWithin, run_unless_marked]
    generalize (markSeen (.object r) seen).2 = seen'
    have hnamed := run_mapM_named (h.valueTextWithin c budget (level + 1)) (h.listedEntries r) seen'
    rw [run_then, hnamed, membersText_eq, listedEntries_eq]
    split <;> rfl
  | buffer r =>
    rw [valueTextWithin, run_unless_marked, bufferText_eq h c level []]
    split <;> rfl
  | _ =>
    rw [valueTextWithin, run_unless_marked]
    rfl

/-- An object that has not been seen is written with its entries in their order. -/
theorem run_object (h : Heap) (c : Catalog) (budget level : Nat) {r : ObjectRef} {seen : Seen}
    (hseen : (markSeen (.object r) seen).1 = false) :
    let entries := unshadowed [] (h.holders r)
    let values := ((entries.map Prod.snd).mapM (h.valueTextWithin c budget (level + 1))).run
      (markSeen (.object r) seen).2
    (h.valueTextWithin c (budget + 1) level (.object r)).run seen =
      (objectText level ((entries.map Prod.fst).zip values.1), values.2) := by
  rw [run_valueTextWithin, hseen, if_neg Bool.false_ne_true]
  rfl

end Heap

/-! ## Marking -/

/-- A formatter that has seen `seen` comes to these values one after the other, and writes out those it has not come to
before. -/
inductive Marks : Seen → List (Value × Bool) → Seen → Prop
  | nil {seen} : Marks seen [] seen
  | cons {seen seen' v full visits} :
    (markSeen v seen).1 = !full → Marks (markSeen v seen).2 visits seen' → Marks seen ((v, full) :: visits) seen'

section
variable {seen seen' seen'' : Seen} {v : Value} {full : Bool} {visits visits' : List (Value × Bool)} {i : Nat}

theorem Marks.append (hm : Marks seen visits seen') (hm' : Marks seen' visits' seen'') :
    Marks seen (visits ++ visits') seen'' := by
  induction hm with
  | nil => exact hm'
  | cons hv _ ih => exact .cons hv (ih hm')

theorem markSeen_eq_true : (markSeen v seen).1 = true ↔ ∃ i, v.identity? = some i ∧ i ∈ seen := by
  unfold markSeen
  cases v.identity? with
  | none => simp
  | some i => by_cases hi : i ∈ seen <;> simp [hi]

theorem mem_markSeen : i ∈ (markSeen v seen).2 ↔ i ∈ seen ∨ v.identity? = some i := by
  unfold markSeen
  cases v.identity? with
  | none => simp
  | some j =>
    by_cases hj : j ∈ seen
    · simp [hj]
      rintro rfl
      exact hj
    · simp [hj, or_comm]

theorem Marks.mem_iff (hm : Marks seen visits seen') :
    i ∈ seen' ↔ i ∈ seen ∨ ∃ p ∈ visits, p.1.identity? = some i := by
  induction hm with
  | nil => simp
  | cons _ _ ih => simp [ih, mem_markSeen, or_assoc]

/-- A value is written out if it is a primitive one, or the formatter has not come to it yet. -/
theorem Marks.full_iff {before after : List (Value × Bool)} (hm : Marks seen (before ++ (v, full) :: after) seen') :
    full = true ↔ ∀ i, v.identity? = some i → i ∉ seen ∧ ∀ p ∈ before, p.1.identity? ≠ some i := by
  induction before generalizing seen with
  | nil =>
    cases hm with
    | cons hv _ =>
      have hmarked : (markSeen v seen).1 = true ↔ _ := markSeen_eq_true
      rw [hv] at hmarked
      cases full <;> simp_all
  | cons p before ih =>
    cases hm with
    | cons _ hm =>
      rw [ih hm]
      simp only [mem_markSeen, not_or, List.forall_mem_cons, and_assoc]

theorem Marks.once (hm : Marks seen visits seen') :
    visits.Pairwise fun p q => p.2 = true → q.2 = true → ∀ i, p.1.identity? = some i → q.1.identity? ≠ some i := by
  induction hm with
  | nil => exact .nil
  | cons _ hm ih =>
    refine .cons (fun q hq _ hfull i hp hi => ?_) ih
    obtain ⟨before, after, rfl⟩ := List.append_of_mem hq
    exact (hm.full_iff.mp hfull i hi).1 (mem_markSeen.mpr (.inr hp))

end

namespace Heap

/-! ## What is left to see -/

def identities (h : Heap) : Finset Nat :=
  (Finset.range h.arrays.size).image (5 * ·) ∪ (Finset.range h.objects.size).image (5 * · + 1)

def unseen (h : Heap) (seen : Seen) : Nat := (h.identities.filter fun i => i ∉ seen).card

section
variable {h : Heap} {seen seen' : Seen} {v : Value}

theorem unseen_lt_textBudget (h : Heap) (seen : Seen) : h.unseen seen < h.textBudget := by
  have hfilter : h.unseen seen ≤ h.identities.card := Finset.card_filter_le _ _
  have hunion := Finset.card_union_le ((Finset.range h.arrays.size).image (5 * ·))
    ((Finset.range h.objects.size).image (5 * · + 1))
  have harrays := Finset.card_image_le (s := Finset.range h.arrays.size) (f := (5 * ·))
  have hobjects := Finset.card_image_le (s := Finset.range h.objects.size) (f := (5 * · + 1))
  rw [Finset.card_range] at harrays hobjects
  unfold identities at hfilter
  unfold textBudget
  omega

theorem unseen_le_of_subset (hsub : ∀ i ∈ seen, i ∈ seen') : h.unseen seen' ≤ h.unseen seen :=
  Finset.card_le_card (Finset.monotone_filter_right _ fun _ _ hi hold => hi (hsub _ hold))

theorem elements_of_size_le {r : ArrayRef} (hr : h.arrays.size ≤ r.index) : h.elements r = #[] := by
  rw [elements, Array.getD_eq_getD_getElem?, Array.getElem?_eq_none hr, Option.getD_none]

/-- Only what is in the heap has parts. -/
theorem mem_identities_of_parts (hparts : h.parts v ≠ []) : ∃ i ∈ h.identities, v.identity? = some i := by
  cases v with
  | array r =>
    have hr : r.index < h.arrays.size := by
      by_contra hr
      simp [parts, elements_of_size_le (Nat.not_lt.mp hr)] at hparts
    exact ⟨_, Finset.mem_union_left _ (Finset.mem_image_of_mem _ (Finset.mem_range.mpr hr)), rfl⟩
  | object r =>
    have hr : r.index < h.objects.size := by
      by_contra hr
      have hentries : unshadowed [] (h.holders r) = [] := by
        rw [holders, object_of_size_le (Nat.not_lt.mp hr)]
        rfl
      simp [parts, hentries] at hparts
    exact ⟨_, Finset.mem_union_right _ (Finset.mem_image_of_mem _ (Finset.mem_range.mpr hr)), rfl⟩
  | _ => exact absurd rfl hparts

theorem unseen_markSeen_lt (hparts : h.parts v ≠ []) (hnew : (markSeen v seen).1 = false) :
    h.unseen (markSeen v seen).2 < h.unseen seen := by
  obtain ⟨i, hi, hv⟩ := mem_identities_of_parts hparts
  have hfresh : i ∉ seen := fun hold => by
    rw [markSeen_eq_true.mpr ⟨i, hv, hold⟩] at hnew
    cases hnew
  refine Finset.card_lt_card (Finset.ssubset_iff_of_subset ?_ |>.mpr ⟨i, by simp [hi, hfresh], ?_⟩)
  · exact Finset.monotone_filter_right _ fun _ _ hj hold => hj (mem_markSeen.mpr (.inl hold))
  · simp [mem_markSeen, hv]

end

/-! ## Whole lists -/

/-- The texts of values, one after the other, and the values that a reader comes to in them, from left to right and
from the outside in: with `true` where a value is written out, and with `false` where there is a marker. -/
inductive Writes (h : Heap) (c : Catalog) : Nat → List Value → List String → List (Value × Bool) → Prop
  | nil {level} : Writes h c level [] [] []
  | marker {level v vs texts visits} : Writes h c level vs texts visits →
    Writes h c level (v :: vs) (circularReferenceMarker :: texts) ((v, false) :: visits)
  | full {level v vs inner texts within visits} : Writes h c (partLevel level v) (h.parts v) inner within →
    Writes h c level vs texts visits →
    Writes h c level (v :: vs) (h.fullText c level inner v :: texts) ((v, true) :: (within ++ visits))

/-- The induction is on how much is left to see, and then on the list. -/
theorem exists_writes (h : Heap) (c : Catalog) {n : Nat} (level : Nat) (vs : List Value) {seen : Seen}
    (hn : h.unseen seen ≤ n) : ∃ texts visits seen', Writes h c level vs texts visits ∧ Marks seen visits seen' ∧
      ∀ budget, n < budget → (vs.mapM (h.valueTextWithin c budget level)).run seen = (texts, seen') := by
  induction n using Nat.strongRecOn generalizing level vs seen with
  | ind n ih =>
    induction vs generalizing seen with
    | nil => exact ⟨[], [], seen, .nil, .nil, fun _ _ => rfl⟩
    | cons v vs ihvs =>
      have hmarked : h.unseen (markSeen v seen).2 ≤ n :=
        Nat.le_trans (unseen_le_of_subset fun i hi => mem_markSeen.mpr (.inl hi)) hn
      cases hv : (markSeen v seen).1 with
      | true =>
        obtain ⟨texts, visits, seen', hw, hm, hrun⟩ := ihvs hmarked
        refine ⟨_, _, seen', .marker hw, .cons hv hm, fun budget hbudget => ?_⟩
        obtain ⟨budget, rfl⟩ : ∃ b, budget = b + 1 := ⟨budget - 1, by omega⟩
        rw [run_mapM_cons, run_valueTextWithin, hv, if_pos rfl, hrun _ hbudget]
      | false =>
        obtain ⟨inner, within, between, hwi, hmi, hruni⟩ : ∃ inner within between,
            Writes h c (partLevel level v) (h.parts v) inner within ∧ Marks (markSeen v seen).2 within between ∧
            ∀ budget, n ≤ budget → ((h.parts v).mapM (h.valueTextWithin c budget (partLevel level v))).run
              (markSeen v seen).2 = (inner, between) := by
          by_cases hparts : h.parts v = []
          · rw [hparts]
            exact ⟨[], [], _, .nil, .nil, fun _ _ => rfl⟩
          · have hlt := Nat.lt_of_lt_of_le (unseen_markSeen_lt hparts hv) hn
            obtain ⟨inner, within, between, hw, hm, hrun⟩ := ih _ hlt (partLevel level v) (h.parts v) (Nat.le_refl _)
            exact ⟨inner, within, between, hw, hm, fun budget hbudget => hrun budget (Nat.lt_of_lt_of_le hlt hbudget)⟩
        have hbetween : h.unseen between ≤ n :=
          Nat.le_trans (unseen_le_of_subset fun i hi => hmi.mem_iff.mpr (.inl hi)) hmarked
        obtain ⟨texts, visits, seen', hw, hm, hrun⟩ := ihvs hbetween
        refine ⟨_, _, seen', .full hwi hw, .cons hv (hmi.append hm), fun budget hbudget => ?_⟩
        obtain ⟨budget, rfl⟩ : ∃ b, budget = b + 1 := ⟨budget - 1, by omega⟩
        rw [run_mapM_cons, run_valueTextWithin, hv, if_neg Bool.false_ne_true, hruni budget (by omega)]
        dsimp only
        rw [hrun _ hbudget]

/-- A formatter writes out what it comes to for the first time in its life, and marks every other occurrence of a
reference value. It has seen afterwards what it had seen before and what it has come to. However deep values nest, the
text is the same for every budget from `textBudget` on. The entries of an object are those of its prototype chain. -/
theorem formatter_cycle_safe (h : Heap) (c : Catalog) (seen : Seen) (vs : List Value) :
    ∃ texts visits seen', (vs.mapM (h.formatValue c)).run seen = (texts, seen') ∧ Writes h c 0 vs texts visits ∧
      (∀ before v full after, visits = before ++ (v, full) :: after →
        (full = true ↔ ∀ i, v.identity? = some i → i ∉ seen ∧ ∀ p ∈ before, p.1.identity? ≠ some i)) ∧
      (visits.Pairwise fun p q => p.2 = true → q.2 = true → ∀ i, p.1.identity? = some i → q.1.identity? ≠ some i) ∧
      (∀ i, i ∈ seen' ↔ i ∈ seen ∨ ∃ p ∈ visits, p.1.identity? = some i) ∧
      (seen = ∅ → h.listText c vs = ", ".intercalate texts) ∧
      (∀ budget, h.textBudget ≤ budget → (vs.mapM (h.valueTextWithin c budget 0)).run seen = (texts, seen')) ∧
      ∀ r refs, h.IsChain (h.object r).proto refs →
        h.holders r = (h.object r).properties :: refs.map fun p => (h.object p).properties := by
  obtain ⟨texts, visits, seen', hw, hm, hrun⟩ := h.exists_writes c 0 vs (Nat.le_refl (h.unseen seen))
  have hbudget := h.unseen_lt_textBudget seen
  have hformat : (vs.mapM (h.formatValue c)).run seen = (texts, seen') := hrun _ hbudget
  refine ⟨texts, visits, seen', hformat, hw, ?_, hm.once, fun i => hm.mem_iff, ?_,
    fun budget hle => hrun budget (Nat.lt_of_lt_of_le hbudget hle), fun r refs hc => holders_eq hc⟩
  · rintro before v full after rfl
    exact hm.full_iff
  · rintro rfl
    rw [listText, valueTexts, hformat]

/-- An object that holds itself, and an array twice; it hides one member of its prototype and inherits the other. The
array ends in the prototype, which is one element too far. -/
def sharedMembers : Heap where
  arrays := #[#[.null, .null, .null, .null, .null, .null, .null, .null, .null, .boolean true, .object ⟨1⟩]]
  objects := #[
    { properties := .ofList [("self", .object ⟨0⟩), ("list", .array ⟨0⟩), ("same", .array ⟨0⟩)], proto := some ⟨1⟩ },
    { properties := .ofList [("list", .string "hidden"), ("make", .function ⟨0⟩)] }]
  functions := #[{}]

theorem formatter_cycle_safe_sharedMembers :
    let text := "\x7b\n  self: [circular reference],\n" ++
      "  list: [null, null, null, null, null, null, null, null, null, true, ...],\n" ++
      "  same: [circular reference],\n  make: Function,\n\x7d, [circular reference], " ++
      "\x7b\n  list: 'hidden',\n  make: [circular reference],\n\x7d"
    ∃ texts visits, Writes sharedMembers {} 0 [.object ⟨0⟩, .array ⟨0⟩, .object ⟨1⟩] texts visits ∧
      ", ".intercalate texts = text ∧
      visits.Pairwise fun p q => p.2 = true → q.2 = true → p.1 = .array ⟨0⟩ → q.1 ≠ .array ⟨0⟩ := by
  intro text
  have htext : sharedMembers.listText {} [.object ⟨0⟩, .array ⟨0⟩, .object ⟨1⟩] = text := by decide +kernel
  obtain ⟨texts, visits, -, -, hwrites, -, honce, -, hlist, -⟩ :=
    formatter_cycle_safe sharedMembers {} ∅ [.object ⟨0⟩, .array ⟨0⟩, .object ⟨1⟩]
  refine ⟨texts, visits, hwrites, (hlist rfl).symm.trans htext, honce.imp fun hone hp hq hv hw => ?_⟩
  rw [hv, hw] at hone
  exact hone hp hq _ rfl rfl

end Heap

end TypeContracts
