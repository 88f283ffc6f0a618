import TypeContracts.Document.Decode
import TypeContracts.Document.Writer
import TypeContracts.Proofs.Document.Reading
import TypeContracts.Proofs.Double.Range
import TypeContracts.Proofs.Json.RoundTrip

/-!
# Documents that are written and read again

What is written for a document is read as the same document, from the value
(`readDocument_writeWith`) and from its text. How a number is written is not
fixed; its text has to denote it.
-/

namespace TypeContracts

namespace Document

open Json

/-! ## Fields -/

theorem mapM_write {α β : Type} {write : α → β} {read : β → Option α} {xs : List α}
    (h : ∀ x ∈ xs, read (write x) = some x) : (xs.map write).mapM read = some xs := by
  induction xs with
  | nil => rfl
  | cons x xs ih =>
    rw [List.map_cons, List.mapM_cons, h x (by simp), ih fun y hy => h y (List.mem_cons_of_mem x hy)]
    rfl

/-- Fields in their order, some of them left out, are all known. -/
theorem knownMembers_of_sublist {names : List String} {members : Fields} (hnodup : names.Nodup)
    (hsub : (members.map Prod.fst).Sublist names) : knownMembers names members = some members := by
  have hfilter : (members.filter fun m => names.contains m.1) = members :=
    List.filter_eq_self.mpr fun m hm => by simpa using hsub.subset (List.mem_map_of_mem hm)
  unfold knownMembers
  rw [hfilter, if_pos (hnodup.sublist hsub)]

theorem toNatBelow?_ofNat {bound n : Nat} (h : n < bound) : (Json.ofNat n).toNatBelow? bound = some n := by
  simp [toNatBelow?, Json.ofNat, Numeral.toNat?, Numeral.ofNat, h]

theorem readIndex_writeIndex (i : EntryIndex) : readIndex (writeIndex i) = some i := by
  simp [readIndex, writeIndex, toUInt32?, toNatBelow?_ofNat i.toNat_lt_size]

theorem readIndices_writeIndices (is : List EntryIndex) : readIndices (writeIndices is) = some is :=
  mapM_write fun i _ => readIndex_writeIndex i

@[simp]
theorem lookup_optionalField {α : Type} (name key : String) (write : α → Json) (x : Option α) :
    (optionalField name write x).lookup key = if key = name then x.map write else none := by
  cases x with
  | none => simp [optionalField]
  | some y =>
    by_cases h : key = name
    · simp [optionalField, h]
    · simp [optionalField, h, List.lookup_cons, beq_eq_false_iff_ne.mpr h]

section
variable {α : Type} {fields : Fields} {name : String} {read : Json → Option α} {json : Json} {x : α}

theorem required_of_lookup (hlookup : fields.lookup name = some json) (hread : read json = some x) :
    required fields name read = some x := by
  rw [required, hlookup, Option.bind_some, hread]

theorem defaulted_of_lookup {default : α} (hlookup : fields.lookup name = some json) (hread : read json = some x) :
    defaulted fields name default read = some x := by
  rw [defaulted, hlookup]
  exact hread

/-- A field that is left out when absent and never written as `null`. -/
theorem optional_of_lookup (write : α → Json) {x : Option α} (hlookup : fields.lookup name = x.map write)
    (hread : ∀ y, read (write y) = some y) (hnull : ∀ y, write y ≠ .null) :
    Json.optional fields name read = some x := by
  unfold Json.optional
  rw [hlookup]
  cases x with
  | none => rfl
  | some y =>
    have hy := hnull y
    simp [hread]

end

theorem sublist_optionalField {α : Type} (name : String) (write : α → Json) (x : Option α) :
    ((optionalField name write x).map Prod.fst).Sublist [name] := by
  cases x <;> simp [optionalField]

theorem optional_name {fields : Fields} (name : Option String) (hlookup : fields.lookup "name" = name.map .string) :
    Json.optional fields "name" toString? = some name :=
  optional_of_lookup .string hlookup (fun _ => rfl) fun _ => nofun

theorem optional_index {fields : Fields} {key : String} (i : Option EntryIndex)
    (hlookup : fields.lookup key = i.map writeIndex) : Json.optional fields key readIndex = some i :=
  optional_of_lookup writeIndex hlookup readIndex_writeIndex fun _ => nofun

/-! ## Properties and signatures -/

theorem readProperty_writeProperty (p : PropertyEntry) : readProperty (writeProperty p) = some p := by
  simp only [readProperty, writeProperty, fields?]
  rw [knownMembers_of_sublist (by decide) (by exact List.Sublist.refl _), Option.bind_eq_bind, Option.bind_some,
    required_of_lookup rfl (readIndex_writeIndex p.type)]
  rfl

theorem readSignature_writeSignature (s : SignatureEntry) : readSignature (writeSignature s) = some s := by
  have hcount : ∀ n : UInt64, ((Json.ofNat n.toNat).toNatBelow? UInt64.size).map UInt64.ofNat = some n := by
    intro n
    simp [toNatBelow?_ofNat n.toNat_lt_size]
  simp only [readSignature, writeSignature, fields?]
  rw [knownMembers_of_sublist (by decide), Option.bind_eq_bind, Option.bind_some,
    defaulted_of_lookup (by simp) (readIndices_writeIndices s.args),
    optional_of_lookup (fun n : UInt64 => .ofNat n.toNat) (x := s.mandatoryArgs)
      (by simp [List.lookup_cons, List.lookup_append]) hcount fun _ => nofun,
    optional_index s.varargs (by simp [List.lookup_cons, List.lookup_append]),
    required_of_lookup (by simp [List.lookup_cons, List.lookup_append]) (readIndex_writeIndex s.result)]
  · rfl
  · simp only [List.map_append]
    exact (((List.Sublist.refl ["args"]).append (sublist_optionalField ..)).append (sublist_optionalField ..)).append
      (.refl ["result"])

theorem readProperties_write (properties : Members PropertyEntry) :
    readProperties (.object (properties.toList.map fun (name, p) => (name, writeProperty p))) = some properties := by
  simp only [readProperties]
  rw [mapM_write]
  · exact congrArg some (Members.ext (Members.toList_ofList properties.nodup))
  · intro entry _
    simp [readProperty_writeProperty]

/-! ## Entries -/

section
variable (write : Double → Json)

theorem readEntry_tagged {tag : String} {names : List String} {fields : Fields}
    (hnames : entryFields.lookup tag = some names) (hsub : (fields.map Prod.fst).Sublist names) :
    readEntry (.object (("type", .string tag) :: fields)) = readTagged tag fields := by
  have hall : ∀ p ∈ entryFields, p.2.Nodup ∧ "type" ∉ p.2 := by decide
  obtain ⟨hnodup, htype⟩ := hall _ ((Members.lookup_eq_some_iff (by decide)).mp hnames)
  have hother : ∀ m ∈ fields, m.1 ≠ "type" := fun m hm heq => htype (heq ▸ hsub.subset (List.mem_map_of_mem hm))
  have htag : knownMembers ["type"] (("type", .string tag) :: fields) = some [("type", .string tag)] := by
    have hfilter : fields.filter (fun entry => ["type"].contains entry.1) = [] :=
      List.filter_eq_nil_iff.mpr fun m hm => by simpa using hother m hm
    unfold knownMembers
    rw [List.filter_cons_of_pos (by simp), hfilter]
    rfl
  have hrest : (("type", Json.string tag) :: fields).filter (fun entry => entry.1 != "type") = fields := by
    rw [List.filter_cons_of_neg (by simp), List.filter_eq_self]
    exact fun m hm => by simpa using hother m hm
  have hread : required [("type", .string tag)] "type" toString? = some tag := rfl
  simp only [readEntry, htag, hread, hnames, hrest, fields?, knownMembers_of_sublist hnodup hsub, Option.bind_eq_bind,
    Option.bind_some]

/-- An entry is written with the fields of its tag. -/
theorem sublist_fields (e : Entry) :
    ∃ names, entryFields.lookup e.tag = some names ∧ ((e.fields write).map Prod.fst).Sublist names := by
  cases e with
  | objectType entry =>
    refine ⟨_, rfl, ?_⟩
    simp only [Entry.fields, writeName, List.map_append]
    exact (((sublist_optionalField ..).append (.refl ["properties", "callSignatures", "constructSignatures"])).append
      (sublist_optionalField ..)).append (sublist_optionalField ..)
  | typeParameter name => exact ⟨_, rfl, sublist_optionalField ..⟩
  | union types name => exact ⟨_, rfl, .cons_cons _ (sublist_optionalField ..)⟩
  | intersection types name => exact ⟨_, rfl, .cons_cons _ (sublist_optionalField ..)⟩
  | _ => exact ⟨_, rfl, .refl _⟩

theorem readTagged_fields {e : Entry} (h : ∀ x, e = .numericLiteral x → (write x).toDouble? = some x) :
    readTagged e.tag (e.fields write) = some e := by
  cases e with
  | numericLiteral x =>
    simp only [Entry.tag, Entry.fields, readTagged]
    rw [required_of_lookup rfl (h x rfl)]
    rfl
  | union types name | intersection types name =>
    simp only [Entry.tag, Entry.fields, readTagged, writeName]
    rw [required_of_lookup rfl (readIndices_writeIndices types), optional_name name (by simp [List.lookup_cons])]
    rfl
  | typeParameter name =>
    simp only [Entry.tag, Entry.fields, readTagged, writeName]
    rw [optional_name name (by simp)]
    rfl
  | objectType entry =>
    have hsignatures : ∀ l : List SignatureEntry, toList? readSignature (.array (l.map writeSignature)) = some l :=
      fun l => mapM_write fun s _ => readSignature_writeSignature s
    simp only [Entry.tag, Entry.fields, readTagged, writeName]
    rw [optional_name entry.name (by simp [List.lookup_append, List.lookup_cons]),
      defaulted_of_lookup (by simp [List.lookup_append]) (readProperties_write entry.properties),
      defaulted_of_lookup (by simp [List.lookup_append, List.lookup_cons]) (hsignatures entry.callSignatures),
      defaulted_of_lookup (by simp [List.lookup_append, List.lookup_cons]) (hsignatures entry.constructSignatures),
      optional_index entry.numericIndexType (by simp [List.lookup_append, List.lookup_cons]),
      optional_index entry.stringIndexType (by simp [List.lookup_append, List.lookup_cons])]
    rfl
  | _ => rfl

theorem readDocument_writeWith {d : Document}
    (h : ∀ x, .numericLiteral x ∈ d.types → (write x).toDouble? = some x) :
    readDocument (d.writeWith write) = some d := by
  have hentries : toList? readEntry (.array (d.types.toList.map (writeEntry write))) = some d.types.toList := by
    refine mapM_write fun e he => ?_
    obtain ⟨names, hnames, hsub⟩ := sublist_fields write e
    rw [writeEntry, readEntry_tagged hnames hsub]
    exact readTagged_fields write fun x hx => h x (hx ▸ Array.mem_toList_iff.mp he)
  simp only [readDocument, writeWith, fields?]
  rw [knownMembers_of_sublist (by decide) (by exact List.Sublist.refl _), Option.bind_eq_bind, Option.bind_some,
    required_of_lookup rfl hentries, required_of_lookup rfl (readIndex_writeIndex d.root)]
  rfl

end

/-! ## Texts -/

section
variable (k : Nat)

theorem legible_ofNat {n : Nat} (h : n < UInt64.size) : Legible k (.ofNat n) :=
  legible_number.mpr ⟨reread_ofNat h, Numeral.isFinite_ofNat h⟩

theorem legible_writeIndex (i : EntryIndex) : Legible k (writeIndex i) :=
  legible_ofNat k (Nat.lt_trans i.toNat_lt_size (by decide))

theorem legible_writeIndices (is : List EntryIndex) : Legible (k + 1) (writeIndices is) :=
  legible_array.mpr (List.forall_mem_map.mpr fun i _ => legible_writeIndex k i)

variable {k} in
theorem legible_optionalField {α : Type} {name : String} {write : α → Json} {x : Option α}
    (h : ∀ y, Legible k (write y)) : ∀ m ∈ optionalField name write x, Legible k m.2 :=
  List.forall_mem_map.mpr fun y _ => h y

theorem legible_writeProperty (p : PropertyEntry) : Legible (k + 1) (writeProperty p) := by
  simp [writeProperty, legible_object, legible_writeIndex, legible_bool]

theorem legible_writeSignature (s : SignatureEntry) : Legible (k + 2) (writeSignature s) := by
  rw [writeSignature, legible_object]
  simp only [List.forall_mem_append, List.forall_mem_singleton]
  exact ⟨⟨⟨legible_writeIndices k s.args, legible_optionalField fun n => legible_ofNat _ n.toNat_lt_size⟩,
    legible_optionalField (legible_writeIndex _)⟩, legible_writeIndex _ s.result⟩

variable {write : Double → Numeral}

theorem legible_fields {e : Entry} (h : ∀ x, e = .numericLiteral x → Stable (write x)) :
    ∀ m ∈ e.fields (fun x => .number (write x)), Legible (k + 3) m.2 := by
  have hname : ∀ name, ∀ m ∈ writeName name, Legible (k + 3) m.2 := fun name =>
    legible_optionalField fun s => legible_string s _
  cases e with
  | booleanLiteral b => simp [Entry.fields, legible_bool]
  | numericLiteral x => simp [Entry.fields, legible_number, h x rfl]
  | stringLiteral s => simp [Entry.fields, legible_string]
  | union types name | intersection types name =>
    exact List.forall_mem_cons.mpr ⟨legible_writeIndices _ types, hname name⟩
  | typeParameter name => exact hname name
  | objectType entry =>
    have hsignatures : ∀ l : List SignatureEntry, Legible (k + 3) (.array (l.map writeSignature)) := fun l =>
      legible_array.mpr (List.forall_mem_map.mpr fun s _ => legible_writeSignature k s)
    have hproperties : Legible (k + 3) (.object (entry.properties.toList.map fun (name, p) => (name, writeProperty p))) :=
      legible_object.mpr (List.forall_mem_map.mpr fun m _ => legible_writeProperty (k + 1) m.2)
    simp only [Entry.fields, List.forall_mem_append, List.forall_mem_cons]
    exact ⟨⟨⟨hname entry.name, hproperties, hsignatures _, hsignatures _, List.forall_mem_nil _⟩,
      legible_optionalField (legible_writeIndex _)⟩, legible_optionalField (legible_writeIndex _)⟩
  | _ => simp [Entry.fields]

theorem legible_writeWith {d : Document} (h : ∀ x, .numericLiteral x ∈ d.types → Stable (write x)) :
    Legible (k + 6) (d.writeWith fun x => .number (write x)) := by
  have hentries : ∀ e ∈ d.types.toList, Legible (k + 4) (writeEntry (fun x => .number (write x)) e) := fun e he =>
    legible_object.mpr (List.forall_mem_cons.mpr ⟨legible_string _ _,
      legible_fields k fun x hx => h x (hx ▸ Array.mem_toList_iff.mp he)⟩)
  rw [writeWith, legible_object]
  simp only [List.forall_mem_cons]
  exact ⟨legible_array.mpr (List.forall_mem_map.mpr hentries), legible_writeIndex _ d.root, List.forall_mem_nil _⟩

end

theorem parse_render {write : Double → Numeral} {d : Document}
    (h : ∀ x, .numericLiteral x ∈ d.types → Spells (write x) x) :
    parse (render (d.writeWith fun x => .number (write x))) = .ok d := by
  have hlegible : Legible maxDepth (d.writeWith fun x => .number (write x)) :=
    legible_writeWith 121 fun x hx => (spells_iff.mp (h x hx)).1
  have hread : readDocument (d.writeWith fun x => .number (write x)) = some d :=
    readDocument_writeWith _ fun x hx => congrArg some (h x hx).2
  have htext : parseRecord? documentFields maxDepth (render (d.writeWith fun x => .number (write x))) =
      some (d.writeWith fun x => .number (write x)) := parseRecord?_render (by simp [documentFields]) hlegible
  simp only [parse, htext, Option.bind_some, hread]

/-- Writing a document and reading it again gives the same document, if its numeric literals are written as numerals
that denote them. This goes for every document with finite literals, and so for whatever another text has been read
as: the two texts stand for the same descriptors. -/
theorem document_reads_back (write : Double → Numeral) (d : Document)
    (hwrite : ∀ x, .numericLiteral x ∈ d.types → x.isFinite = true → Spells (write x) x) :
    let text := render (d.writeWith fun x => .number (write x))
    ((∀ x, .numericLiteral x ∈ d.types → x.isFinite = true) → parse text = .ok d) ∧
    ∀ given, parse given = .ok d →
      parse text = .ok d ∧ ∀ c, (parse text).bind (decode · c) = (parse given).bind (decode · c) := by
  intro text
  refine ⟨fun hfinite => parse_render fun x hx => hwrite x hx (hfinite x hx), fun given hgiven => ?_⟩
  have hread : parse text = .ok d := parse_render fun x hx => hwrite x hx (parse_finite hgiven hx)
  exact ⟨hread, fun c => by rw [hread, hgiven]⟩

/-- A type with a property given twice, a signature as an array and an option that is `null`. -/
def boxedTenthsText : String :=
  "\x7b\"root\":1,\"note\":1e999,\"types\":[[\"numericLiteral\",0.1],\x7b\"type\":\"objectType\",\"name\":null," ++
  "\"properties\":\x7b\"a\":[2],\"b\":\x7b\"type\":1,\"optional\":true\x7d,\"a\":[0]\x7d," ++
  "\"callSignatures\":[[[0,1],1,null,2]]\x7d,\x7b\"value\":-0.0,\"type\":\"numericLiteral\"\x7d]\x7d"

def boxedTenths : Document where
  types := #[.numericLiteral (.ofDecimal false 1 (-1)),
    .objectType {
      name := none
      properties := .ofList [("a", ⟨0, false⟩), ("b", ⟨1, true⟩)]
      callSignatures := [⟨[0, 1], some 1, none, 2⟩]
      constructSignatures := []
      numericIndexType := none
      stringIndexType := none },
    .numericLiteral (.ofMagnitude true 0)]
  root := 1

set_option maxRecDepth 100000 in
theorem document_reads_back_boxedTenths :
    parse boxedTenthsText = .ok boxedTenths ∧ parse (render boxedTenths.toJson) = .ok boxedTenths := by
  have hgiven : parse boxedTenthsText = .ok boxedTenths := by rfl
  have hwrite : ∀ x, .numericLiteral x ∈ boxedTenths.types → x.isFinite = true → Spells (.ofDouble x) x := by
    intro x hx _
    have hx : x = .ofDecimal false 1 (-1) ∨ x = .ofMagnitude true 0 := by simpa [boxedTenths] using hx
    rw [spells_iff]
    obtain rfl | rfl := hx
    · exact ⟨⟨by decide +kernel, by decide +kernel⟩, by decide +kernel⟩
    · exact ⟨⟨by decide +kernel, by decide +kernel⟩, by decide +kernel⟩
  obtain ⟨-, hagain⟩ := document_reads_back Numeral.ofDouble boxedTenths hwrite
  exact ⟨hgiven, (hagain boxedTenthsText hgiven).1⟩

end Document

end TypeContracts
