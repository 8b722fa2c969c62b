import BlockLoom.Proofs.Content.Codec
import BlockLoom.Proofs.Content.Exportable

/-!
The inputs that a component declares, through its text as page content. The further fields
of an input stand beside its name and its default value, and a reader tells them apart by
their keys alone: inputs come back as they were just if no further field is called like one
of the two.
-/

namespace BlockLoom.Content

variable {component : Component} {input : Input}

/-- Whether no further field of an input has the key of a known one. -/
def Unmixed (input : Input) : Prop :=
  "name" ∉ Fields.names input.metadata ∧ "defaultValue" ∉ Fields.names input.metadata

theorem Unmixed.readable (unmixed : Unmixed input) : Readable input := by
  intro value found
  exact absurd (Fields.mem_names_of_mem (Fields.mem_of_get? found)) unmixed.1

theorem Unmixed.faithful (unmixed : Unmixed input) (given : input.defaultValue ≠ some .null) :
    Faithful input := by
  refine ⟨unmixed.1, unmixed.2, fun value default => ?_⟩
  cases value with
  | null => exact absurd default given
  | _ => rfl

theorem unmixed_inputOfJson (json : Json) : Unmixed (inputOfJson json) := by
  have other : ∀ entry ∈ (inputOfJson json).metadata,
      entry.1 ≠ "name" ∧ entry.1 ≠ "defaultValue" := fun entry member =>
    of_decide_eq_true (List.mem_filter.mp member).2
  constructor
  · intro member
    obtain ⟨entry, stored, key⟩ := List.mem_map.mp member
    exact (other entry stored).1 key
  · intro member
    obtain ⟨entry, stored, key⟩ := List.mem_map.mp member
    exact (other entry stored).2 key

/-- A reader mixes up no fields: what it keeps besides the known ones is not called like them. -/
theorem unmixed_of_read {source : String} {content : Content} (h : read source = .ok content) :
    ∀ input ∈ content.inputs, Unmixed input := by
  unfold read at h
  split at h
  · cases h
  · split at h
    · cases h
      intro input member
      obtain ⟨json, -, rfl⟩ := List.mem_map.mp member
      exact unmixed_inputOfJson json
    · cases h

/-- An import keeps the inputs of the document. -/
theorem inputs_of_parse {settings : ImportSettings} {source : String}
    (h : parse settings source = .ok component) :
    ∃ content, read source = .ok content ∧ component.inputs = content.inputs := by
  unfold parse at h
  split at h
  · cases h
  · next content found =>
    refine ⟨content, found, ?_⟩
    unfold toComponent at h
    split at h
    · cases h
    · cases h
      rfl

/-- A document whose inputs and elements repeat no member repeats none. -/
theorem isSettled_document {content : Content}
    (inputs : ∀ input ∈ content.inputs, (inputToJson input).isSettled = true)
    (blocks : Json.areSettled (Element.listToJson content.blocks) = true) :
    content.toJson.isSettled = true := by
  have text (text : Option String) : ∀ read, text.map Json.string = some read →
      read.isSettled = true := by
    intro read given
    obtain ⟨text, -, rfl⟩ := Option.map_eq_some_iff.mp given
    rfl
  have declared : Json.areSettled (content.inputs.map inputToJson) = true := by
    rw [Json.areSettled_iff]
    intro json member
    obtain ⟨input, given, rfl⟩ := List.mem_map.mp member
    exact inputs input given
  have data : (Json.object (Json.present (dataEntries content (content.inputs.map inputToJson)
      (Element.listToJson content.blocks)))).isSettled = true := by
    rw [Json.isSettled_object]
    refine ⟨Json.distinct_present (distinct_dataEntries _ _ _), Json.haveSettled_present ?_⟩
    simp only [dataEntries, List.forall_mem_cons, List.not_mem_nil, false_implies, implies_true,
      and_true, Option.some.injEq, forall_eq']
    refine ⟨text _, text _, text _, fun read given => ?_, blocks⟩
    split at given
    · cases given
    · cases given
      exact declared
  rw [toJson_eq, Json.isSettled_object]
  refine ⟨Json.distinct_present (distinct_documentEntries _ _ _), Json.haveSettled_present ?_⟩
  simp only [documentEntries, List.forall_mem_cons, List.not_mem_nil, false_implies, implies_true,
    and_true, Option.some.injEq, forall_eq']
  exact ⟨text _, data⟩

/-- The text of a component with unmixed inputs repeats no member. -/
theorem isSettled_ofComponent (writing : ExportSettings) (keyed : component.isKeyed = true)
    (faithful : ∀ input ∈ component.inputs, Faithful input) :
    (ofComponent writing component).toJson.isSettled = true := by
  simp only [Component.isKeyed, Bool.and_eq_true, List.all_eq_true] at keyed
  obtain ⟨⟨⟨-, children⟩, inputs⟩, -⟩ := keyed
  refine isSettled_document (fun input member => ?_) (areSettled_blocks writing children)
  exact isSettled_inputToJson (faithful input member) (inputs input member).1 (inputs input member).2

/-- A component with unmixed inputs is read as the content that it is written as, versions that
are `null` aside. -/
theorem read_write_faithful (writing : ExportSettings) (keyed : component.isKeyed = true)
    (integral : (ofComponent writing component).toJson.isIntegral = true)
    (deep : (ofComponent writing component).toJson.nesting ≤ Json.maxDepth)
    (faithful : ∀ input ∈ component.inputs, Faithful input) :
    read (write writing component) =
      .ok { ofComponent writing component with
        blocks := Element.strippedList (exportNodes component.children) } := by
  simp only [Component.isKeyed, Bool.and_eq_true, List.all_eq_true] at keyed
  obtain ⟨⟨⟨-, children⟩, inputs⟩, -⟩ := keyed
  have fits := fitItems_faithful (fun input member => inputs input member) faithful
  have found := read_render (.ofPretty writing.pretty) integral deep
    (areSettled_blocks writing children) fits
  rw [map_inputOfJson faithful] at found
  exact found

/-- Unmixed inputs are among what is read from the text of a component. -/
theorem inputs_of_read_write (writing : ExportSettings) {content : Content}
    (keyed : component.isKeyed = true)
    (integral : (ofComponent writing component).toJson.isIntegral = true)
    (deep : (ofComponent writing component).toJson.nesting ≤ Json.maxDepth)
    (faithful : ∀ input ∈ component.inputs, Faithful input)
    (h : read (write writing component) = .ok content) : content.inputs = component.inputs := by
  obtain rfl := Except.ok.inj
    (h.symm.trans (read_write_faithful writing keyed integral deep faithful))
  rfl

/-- A component is written without a repeated member, and its inputs are imported again as
they were and in their order, just if no further field of an input is called like a known
one, and the nodes of the component are exportable. -/
theorem inputs_parse_write_iff (reading : ImportSettings) (writing : ExportSettings)
    (component : Component) (keyed : component.isKeyed = true)
    (integral : (ofComponent writing component).toJson.isIntegral = true)
    (deep : (ofComponent writing component).toJson.nesting ≤ Json.maxDepth)
    (given : ∀ input ∈ component.inputs, input.defaultValue ≠ some .null) :
    ((ofComponent writing component).toJson.isSettled = true ∧
      ∃ result, parse reading (write writing component) = .ok result ∧
        result.inputs = component.inputs) ↔
      (∀ input ∈ component.inputs, Unmixed input) ∧
        AllExportable reading component.children := by
  constructor
  · rintro ⟨-, result, imported, same⟩
    obtain ⟨content, found, inputs⟩ := inputs_of_parse imported
    have unmixed : ∀ input ∈ component.inputs, Unmixed input := by
      rw [← same, inputs]
      exact unmixed_of_read found
    have readable := fun input member => (unmixed input member).readable
    exact ⟨unmixed, (parse_write_iff_exportable reading writing keyed integral deep readable).mp
      ⟨result, imported⟩⟩
  · rintro ⟨unmixed, exportable⟩
    have readable := fun input member => (unmixed input member).readable
    have faithful : ∀ input ∈ component.inputs, Faithful input := fun input member =>
      (unmixed input member).faithful (given input member)
    obtain ⟨result, imported⟩ := (parse_write_iff_exportable reading writing keyed integral deep
      readable).mpr exportable
    obtain ⟨content, found, inputs⟩ := inputs_of_parse imported
    refine ⟨isSettled_ofComponent writing keyed faithful, result, imported, ?_⟩
    rw [inputs, inputs_of_read_write writing keyed integral deep faithful found]

/-- A page with inputs of several kinds: with a default value and without, with further
fields and without, and two of one name. -/
def searchPage : Component :=
  { name := "Search"
    inputs :=
      [{ name := "query", defaultValue := some (.string ""), metadata := [("type", .string "text")] },
       { name := "", metadata := [("Name", .null), ("enum", .array [.ofInt 1, .bool false])] },
       { name := "query" }]
    children := [{ name := "h1" }] }

theorem searchPage_inputs :
    searchPage.isKeyed = true ∧ (ofComponent {} searchPage).toJson.isIntegral = true ∧
      (ofComponent {} searchPage).toJson.nesting ≤ Json.maxDepth ∧
      (∀ input ∈ searchPage.inputs, input.defaultValue ≠ some .null) ∧
      (ofComponent {} searchPage).toJson.isSettled = true ∧
      ∃ result, parse {} (write {} searchPage) = .ok result ∧
        result.inputs = searchPage.inputs := by
  have keyed : searchPage.isKeyed = true := by decide
  have integral : (ofComponent {} searchPage).toJson.isIntegral = true := by decide
  have deep : (ofComponent {} searchPage).toJson.nesting ≤ Json.maxDepth := by decide
  have given : ∀ input ∈ searchPage.inputs, input.defaultValue ≠ some .null := by
    simp [searchPage]
  have unmixed : ∀ input ∈ searchPage.inputs, Unmixed input := by
    simp [searchPage, Unmixed]
  have title : Exportable {} { name := "h1" } :=
    (exportable_iff _).mpr (by rw [Node.isTag, show Node.isTagName "h1" = true from rfl]; trivial)
  obtain ⟨settled, imported⟩ :=
    (inputs_parse_write_iff {} {} searchPage keyed integral deep given).mpr
      ⟨unmixed, title, trivial⟩
  exact ⟨keyed, integral, deep, given, settled, imported⟩

/-- An input with a second name among its further fields. -/
def renamedInput : Component :=
  { name := "Search", inputs := [{ name := "query", metadata := [("name", .string "text")] }] }

/-- The name is written twice, and the second one is read: the input has another name. -/
theorem renamedInput_mixed :
    renamedInput.check = .ok () ∧ renamedInput.isKeyed = true ∧
      (ofComponent {} renamedInput).toJson.isSettled = false ∧
      ∃ result, parse {} (write {} renamedInput) = .ok result ∧
        result.inputs.map Input.name = ["text"] := by
  have keyed : renamedInput.isKeyed = true := by decide
  have integral : (ofComponent {} renamedInput).toJson.isIntegral = true := by decide
  have deep : (ofComponent {} renamedInput).toJson.nesting ≤ Json.maxDepth := by decide
  have readable : ∀ input ∈ renamedInput.inputs, Readable input := by
    intro input member value found
    cases List.mem_singleton.mp member
    cases found
    rfl
  obtain ⟨result, imported⟩ := (parse_write_iff_exportable {} {} keyed integral deep readable).mpr
    trivial
  obtain ⟨content, found, inputs⟩ := inputs_of_parse imported
  have fits : Json.fitItems schema inputShape (settledInputs (ofComponent {} renamedInput)) =
      .ok [.object [("name", .string "text")]] := by rfl
  have read := read_render (.ofPretty true) integral deep rfl fits
  obtain rfl := Except.ok.inj (found.symm.trans read)
  exact ⟨rfl, keyed, by decide, result, imported, by rw [inputs]; rfl⟩

end BlockLoom.Content
