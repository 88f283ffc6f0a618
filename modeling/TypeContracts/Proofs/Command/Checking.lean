import TypeContracts.Command.Run
import TypeContracts.Proofs.Call.Exactness
import TypeContracts.Proofs.Call.Notices
import TypeContracts.Proofs.Conformance.Fitting

/-!
# Checking JSON values

A check of a JSON value is a recursion on the value and on nothing else: the
guard of the engine, the identities of descriptors and the depth limit never
show. So what a run of the program decides is what the document says.
-/

namespace TypeContracts

open Document (faithful_of_decode fits supported_fits)

section
variable {d : Document} {c₀ c' : Catalog} {table : TypeTable} (hdecode : d.decode c₀ = .ok (table, c'))
  (hd : d.WellFormed)
include hdecode

theorem isType_ofJson {w : World} {options : Options} (hengine : w.context.engine = .create options)
    (hprofile : options.valueProfile = .valueConformance) (hgrows : c'.Grows w.catalog) {i : Nat} {t : TypeRef}
    (ht : table.get? i = some t) {j : Json} (hj : j.depth ≤ 127) :
    outcome (Action.isType (w.heap.ofJson j).1 t { w with heap := (w.heap.ofJson j).2 }) = fits hd j i ∧
      (stateAfter (Action.isType (w.heap.ofJson j).1 t { w with heap := (w.heap.ofJson j).2 })).context.journal =
        w.context.journal := by
  have hcontext : w.context = ⟨.create options, w.context.identities, w.context.journal⟩ := by rw [← hengine]
  have hfaithful := (faithful_of_decode hdecode).later hgrows
  have hlimits : options.valueProfile.limits = Profile.valueConformance.limits := by rw [hprofile]
  obtain ⟨hanswer, hjournal⟩ := Conformance.isType_fits hfaithful hd (L := Profile.valueConformance.limits) rfl hlimits
    (hj.trans (by decide)) ht w.heap w.context.identities w.context.journal
  rw [Action.isType, outcome_check, stateAfter_check]
  dsimp only
  rw [hcontext]
  exact ⟨hanswer, hjournal⟩

end

namespace Command

/-- The world that a check is made in: the descriptors and the value are there. -/
def loaded (options : Options) (filter : Log.Filter) (path : String) (table : TypeTable) (c : Catalog) (j : Json) :
    World where
  catalog := c
  heap := (({} : Heap).ofJson j).2
  context := ⟨.create options, {}, { filter : Log.Journal }.record (.documentLoaded path table.size)⟩

section
variable {files : Files} {w : World} {d : Document} {table : TypeTable} {c : Catalog} {path text : String}

theorem loadTable_run (htext : files path = .ok text) (hparse : Document.parse text = .ok d)
    (hdecode : d.decode w.catalog = .ok (table, c)) :
    Run.loadTable files path w = .ok table
      { w with catalog := c, context.journal := w.context.journal.record (.documentLoaded path table.size) } := by
  have hread : Run.read files "descriptors" path w = .ok text w := by
    unfold Run.read
    rw [htext]
    rfl
  have hdocument : Run.ofExcept ("failed to parse descriptors " ++ path) (Document.parse text) w = .ok d w := by
    rw [hparse]
    rfl
  have hdecoded : Run.ofExcept ("failed to decode descriptors " ++ path) (d.decode w.catalog) w =
      .ok (table, c) w := by
    rw [hdecode]
    rfl
  have hget : (get : Run World) w = .ok w w := rfl
  have htable : Run.decodeDocument path d w = .ok table { w with catalog := c } := by
    unfold Run.decodeDocument
    rw [bind_of_ok hget, bind_of_ok hdecoded]
    rfl
  unfold Run.loadTable
  rw [bind_of_ok hread, bind_of_ok hdocument, bind_of_ok htable]
  rfl

theorem selectOrRoot_run {root? : Option UInt32} {t : TypeRef} (hroot : table.get? d.root.toNat = some table.root)
    (ht : table.get? (root?.getD d.root).toNat = some t) : Run.selectOrRoot table root? w = .ok t w := by
  cases root? with
  | none =>
    rw [Option.getD_none, hroot] at ht
    cases ht
    rfl
  | some index =>
    rw [Option.getD_some] at ht
    simp only [Run.selectOrRoot, Run.select, ht]
    rfl

theorem loadValue_run {j : Json} (htext : files path = .ok text) (hjson : Json.parse? Json.maxDepth text = some j) :
    Run.loadValue files path w = .ok (w.heap.ofJson j).1 { w with heap := (w.heap.ofJson j).2 } := by
  have hread : Run.read files "value" path w = .ok text w := by
    unfold Run.read
    rw [htext]
    rfl
  unfold Run.loadValue
  rw [bind_of_ok hread, hjson]
  rfl

end

def verdictOf (refusal : String) : Except Failure Bool → Except RunFailure Verdict
  | .ok true => .ok .conforms
  | .ok false => .ok (.violation refusal)
  | .error e => .error ⟨"value check failed", some (.failure e)⟩

def concluded : EStateM.Result Failure World Value → EStateM.Result RunFailure World Verdict
  | .ok _ w => .ok .conforms w
  | .error (.violation violation) w => .ok (.violation violation.text) w
  | .error e w => .error ⟨"value check failed", some (.failure e)⟩ w

theorem outcome_concluded (v : Value) (t : TypeRef) (location : Location) (w : World) :
    outcome (concluded (Action.assertType v t location w)) =
      verdictOf (w.refusal v t location).text (outcome (Action.isType v t w)) := by
  have hends := Action.assertType_ends v t location w
  unfold Action.AssertionEnds at hends
  cases hask : Action.isType v t w with
  | ok holds w' =>
    rw [hask] at hends
    cases holds with
    | true =>
      rw [hends.1]
      rfl
    | false =>
      have hassert := hends.1
      generalize Action.assertType v t location w = result at hassert ⊢
      cases result with
      | ok => cases hassert
      | error =>
        cases hassert
        rfl
  | error e w' =>
    rw [hask] at hends
    obtain ⟨hassert, hviolation, -⟩ := hends
    rw [hassert]
    cases e with
    | violation => cases hviolation
    | _ => rfl

section
variable {files : Files} {filter : Log.Filter} {a : CheckArguments} {text source : String} {d : Document}
  {table : TypeTable} {c : Catalog} {j : Json} {t : TypeRef} (htypes : files a.types = .ok text)
  (hparse : Document.parse text = .ok d) (hdecode : d.decode {} = .ok (table, c))
  (ht : table.get? (a.root.getD d.root).toNat = some t) (hvalue : files a.value = .ok source)
  (hjson : Json.parse? Json.maxDepth source = some j)
include htypes hparse hdecode ht hvalue hjson

theorem check_run (options : Options) : Run.check files a (.create options filter) =
    concluded
      (Action.assertType (({} : Heap).ofJson j).1 t a.location (loaded options filter a.types table c j)) := by
  have htable := loadTable_run (w := .create options filter) htypes hparse hdecode
  have hselect := fun w : World => selectOrRoot_run (w := w) (faithful_of_decode hdecode).root ht
  unfold Run.check
  rw [bind_of_ok htable, bind_of_ok (hselect _), bind_of_ok (loadValue_run hvalue hjson)]
  change (Run.act (Action.assertType (({} : Heap).ofJson j).1 t a.location) >>= _)
    (loaded options filter a.types table c j) = _
  cases hassert : Action.assertType (({} : Heap).ofJson j).1 t a.location (loaded options filter a.types table c j) with
  | ok v w =>
    have hact : Run.act (Action.assertType (({} : Heap).ofJson j).1 t a.location)
        (loaded options filter a.types table c j) = .ok (.ok v) w := by
      unfold Run.act
      rw [hassert]
    rw [bind_of_ok hact]
    rfl
  | error e w =>
    have hact : Run.act (Action.assertType (({} : Heap).ofJson j).1 t a.location)
        (loaded options filter a.types table c j) = .ok (.error e) w := by
      unfold Run.act
      rw [hassert]
    rw [bind_of_ok hact]
    cases e <;> rfl

theorem run_eq (hd : d.WellFormed) {args : Arguments} (hargs : args.command = .check a) :
    (run files filter args).1 =
      verdictOf ((loaded args.options filter a.types table c j).refusal (({} : Heap).ofJson j).1 t a.location).text
        (fits hd j (a.root.getD d.root).toNat) := by
  have hdepth : j.depth ≤ 127 := Json.depth_le_of_parse hjson
  have hanswer : outcome (Action.isType (({} : Heap).ofJson j).1 t (loaded args.options filter a.types table c j)) =
      fits hd j (a.root.getD d.root).toNat :=
    (isType_ofJson hdecode hd (w := { loaded args.options filter a.types table c j with heap := {} }) rfl rfl
      (.refl c) ht hdepth).1
  unfold run
  rw [hargs, Run.subcommand, check_run htypes hparse hdecode ht hvalue hjson, ← hanswer, ← outcome_concluded]
  cases concluded (Action.assertType (({} : Heap).ofJson j).1 t a.location
    (loaded args.options filter a.types table c j)) with
  | ok => rfl
  | error => rfl

end

/-- A check of a JSON value is decided by recursion on the value, for every engine of the default profile and every
entry of a document; the check never assumes anything of a cycle, which it would record, and ends for want of nothing
but a type parameter's bound. A run says what that recursion says. -/
theorem json_checked_structurally {d : Document} (hd : d.WellFormed) :
    (∀ j i e, fits hd j i = .error e → e = .unsupportedTypeParameter) ∧
      (∀ {c₀ c' : Catalog} {table : TypeTable} {w : World} {options : Options} {i : Nat} {t : TypeRef} {j : Json},
        d.decode c₀ = .ok (table, c') → c'.Grows w.catalog → table.get? i = some t →
          w.context.engine = .create options → options.valueProfile = .valueConformance → j.depth ≤ 127 →
            outcome (Action.isType (w.heap.ofJson j).1 t { w with heap := (w.heap.ofJson j).2 }) = fits hd j i ∧
              (stateAfter (Action.isType (w.heap.ofJson j).1 t { w with heap := (w.heap.ofJson j).2 })).context.journal =
                w.context.journal) ∧
      ∀ {files : Files} {filter : Log.Filter} {args : Arguments} {a : CheckArguments} {text source : String}
        {table : TypeTable} {c : Catalog} {t : TypeRef} {j : Json}, args.command = .check a →
          files a.types = .ok text → Document.parse text = .ok d → d.decode {} = .ok (table, c) →
            table.get? (a.root.getD d.root).toNat = some t → files a.value = .ok source →
              Json.parse? Json.maxDepth source = some j →
                (run files filter args).1 =
                  verdictOf
                    ((loaded args.options filter a.types table c j).refusal (({} : Heap).ofJson j).1 t a.location).text
                    (fits hd j (a.root.getD d.root).toNat) := by
  refine ⟨supported_fits hd, ?_, ?_⟩
  · intro _ _ _ _ _ _ _ _ hdecode hgrows ht hengine hprofile hj
    exact isType_ofJson hdecode hd hengine hprofile hgrows ht hj
  · intro _ _ _ _ _ _ _ _ _ _ hargs htypes hparse hdecode ht hvalue hjson
    exact run_eq htypes hparse hdecode ht hvalue hjson hd hargs

def numberTrees : Document where
  types := #[.numeric, .union [0, 2] none, .objectType ⟨none, ∅, [], [], some 1, none⟩]
  root := 2

def numberTreesText : String :=
  "\x7b\"types\": [[\"numeric\"], [\"union\", [0, 2], null], [\"objectType\", null, \x7b\x7d, [], [], 1, null]], " ++
    "\"root\": 2\x7d"

def numberTreesTable : TypeTable := ⟨#[⟨1⟩, ⟨2⟩, ⟨0⟩], ⟨0⟩⟩

def numberTreesCatalog : Catalog where
  types := #[.object none (some { numericIndex := some ⟨2⟩ }), .numeric, .union [⟨1⟩, ⟨0⟩] none]

def mixedTree : Json := .array [.number (.ofNat 1), .array [.number (.ofNat 2), .string "x"]]

def mixedTreeFiles : Files
  | "types.json" => .ok numberTreesText
  | _ => .ok "[1, [2, \"x\"]]"

def mixedTreeCheck : CheckArguments := ⟨"types.json", "value.json", none, none, 0, 0⟩

theorem json_checked_structurally_mixedTree :
    ∃ hd : numberTrees.WellFormed, mixedTree.depth = 2 ∧ fits hd mixedTree 2 = .ok false ∧
      ∃ text, (run mixedTreeFiles .everything ⟨false, true, .check mixedTreeCheck⟩).1 = .ok (.violation text) := by
  have hdecode : numberTrees.decode {} = .ok (numberTreesTable, numberTreesCatalog) := rfl
  have hd := (faithful_of_decode hdecode).wellFormed
  obtain ⟨-, hchecks, hruns⟩ := json_checked_structurally hd
  have hfits : fits hd mixedTree 2 = .ok false := by
    rw [← (hchecks (w := World.fresh {} .everything numberTreesCatalog {}) hdecode (.refl _) rfl rfl rfl (by decide)).1]
    decide +kernel
  have hparse : Document.parse numberTreesText = .ok numberTrees := rfl
  have hjson : Json.parse? Json.maxDepth "[1, [2, \"x\"]]" = some mixedTree := rfl
  have htypes : mixedTreeFiles mixedTreeCheck.types = .ok numberTreesText := rfl
  have hvalue : mixedTreeFiles mixedTreeCheck.value = .ok "[1, [2, \"x\"]]" := rfl
  obtain ⟨text, hrun⟩ : ∃ text,
      (run mixedTreeFiles .everything ⟨false, true, .check mixedTreeCheck⟩).1 = verdictOf text (fits hd mixedTree 2) :=
    ⟨_, hruns rfl htypes hparse hdecode rfl hvalue hjson⟩
  rw [hfits] at hrun
  exact ⟨hd, by decide, hfits, text, hrun⟩

end Command

end TypeContracts
