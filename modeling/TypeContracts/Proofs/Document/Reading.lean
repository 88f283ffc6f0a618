import TypeContracts.Document.Reader
import TypeContracts.Proofs.Json.Numerals

/-!
# Numbers in documents that are read

Every numeric literal of a document that was read from a text is finite, since
numerals that denote no finite number are not read.
-/

namespace TypeContracts.Document

open Json (Fields)

theorem mem_of_lookup {fields : Fields} {name : String} {json : Json} (h : fields.lookup name = some json) :
    (name, json) ∈ fields := by
  obtain ⟨before, after, rfl, -⟩ := List.lookup_eq_some_iff.mp h
  simp

/-- Numeric literals are read from the field of their own tag. -/
theorem readTagged_numeral {tag : String} {fields : Fields} {x : Double}
    (h : readTagged tag fields = some (.numericLiteral x)) : ∃ n, ("value", .number n) ∈ fields ∧ n.toDouble = x := by
  unfold readTagged at h
  split at h <;> simp [bind, Option.bind_eq_some_iff, Json.required] at h
  obtain ⟨json, hlookup, hx⟩ := h
  cases json with
  | number n =>
    cases hx
    exact ⟨n, mem_of_lookup hlookup, rfl⟩
  | _ => cases hx

theorem readEntry_numeral {json : Json} {x : Double} (h : readEntry json = some (.numericLiteral x)) :
    ∃ n ∈ json.numerals, n.toDouble = x := by
  unfold readEntry at h
  split at h
  · simp only [bind, Option.bind_eq_some_iff] at h
    obtain ⟨_, -, _, -, _, -, fields, hfields, h⟩ := h
    obtain ⟨n, hn, hx⟩ := readTagged_numeral h
    have hmem := Json.mem_numerals_of_fields hfields hn (n := n) (by simp [Json.numerals])
    rw [Json.numerals_object] at hmem ⊢
    obtain ⟨m, hm, hnumeral⟩ := List.mem_flatMap.mp hmem
    exact ⟨n, List.mem_flatMap.mpr ⟨m, (List.mem_filter.mp hm).1, hnumeral⟩, hx⟩
  · simp only [bind, Option.bind_eq_some_iff] at h
    obtain ⟨_, -, fields, hfields, h⟩ := h
    obtain ⟨n, hn, hx⟩ := readTagged_numeral h
    have hmem := Json.mem_numerals_of_fields hfields hn (n := n) (by simp [Json.numerals])
    rw [Json.numerals_array] at hmem ⊢
    exact ⟨n, List.mem_append_right _ hmem, hx⟩
  · cases h

theorem exists_of_mem_mapM {α β : Type} {f : α → Option β} {as : List α} {bs : List β} (h : as.mapM f = some bs)
    {b : β} (hb : b ∈ bs) : ∃ a ∈ as, f a = some b := by
  induction as generalizing bs with
  | nil =>
    cases h
    cases hb
  | cons a as ih =>
    simp only [List.mapM_cons, bind, Option.bind_eq_some_iff] at h
    obtain ⟨b', hb', bs', hbs', h⟩ := h
    cases h
    rcases List.mem_cons.mp hb with rfl | hb
    · exact ⟨a, by simp, hb'⟩
    · obtain ⟨a', ha', hf⟩ := ih hbs' hb
      exact ⟨a', List.mem_cons_of_mem a ha', hf⟩

theorem parse_finite {text : String} {d : Document} (h : parse text = .ok d) {x : Double}
    (hx : .numericLiteral x ∈ d.types) : x.isFinite = true := by
  unfold parse at h
  split at h
  · rename_i hread
    cases h
    obtain ⟨json, hjson, hread⟩ := Option.bind_eq_some_iff.mp hread
    simp only [readDocument, Json.required, bind, Option.bind_eq_some_iff] at hread
    obtain ⟨fields, hfields, entries, ⟨array, harray, hentries⟩, root, -, h⟩ := hread
    cases h
    cases array with
    | array elements =>
      obtain ⟨element, hmem, helement⟩ := exists_of_mem_mapM hentries (List.mem_toArray.mp hx)
      obtain ⟨n, hn, rfl⟩ := readEntry_numeral helement
      refine Json.isFinite_of_parseRecord hjson n (Json.mem_numerals_of_fields hfields (mem_of_lookup harray) ?_)
      exact Json.mem_numerals_of_mem_array hmem hn
    | _ => cases hentries
  · cases h

theorem parse_not_nan {text : String} {d : Document} (h : parse text = .ok d) {x : Double}
    (hx : .numericLiteral x ∈ d.types) : x.isNaN = false := by
  have hfinite := parse_finite h hx
  unfold Double.isFinite at hfinite
  simp_all [Double.isNaN]

end TypeContracts.Document
