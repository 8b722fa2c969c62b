import BlockLoom.Content.Export
import BlockLoom.Proofs.Content.Wire

/-!
The text of a document reads back as the document. Only an input can stand in the
way: its further fields may contain a second name, which a reader takes instead
of the first and refuses if it is no text.
-/

namespace BlockLoom.Content

open BlockLoom.Json (Shape present FitsField optionalMember settledMembers settledMembers_eq
  settledItems_eq)

/-! ## Inputs -/

theorem settledMembers_append (members others : List (String × Json)) :
    settledMembers (members ++ others) = settledMembers members ++ settledMembers others := by
  induction members with
  | nil => rfl
  | cons entry members ih => exact congrArg (_ :: ·) ih

def inputHead (input : Input) : List (String × Option Json) :=
  [("name", some (.string input.name)), ("defaultValue", input.defaultValue)]

theorem inputToJson_eq (input : Input) :
    inputToJson input = .object (present (inputHead input) ++ input.metadata) := by
  simp [inputToJson, inputHead, present, optionalMember]

theorem distinct_inputHead (input : Input) : Fields.Distinct (inputHead input) := by
  have keys : Fields.names (inputHead input) = ["name", "defaultValue"] := rfl
  rw [Fields.Distinct, keys]
  decide

/-- The data of an input as a reader takes them. -/
theorem settled_inputToJson (input : Input) :
    (inputToJson input).settled =
      .object (Fields.merge (Fields.ofEntries (settledMembers (present (inputHead input))))
        (Fields.mapValues Json.settled input.metadata)) := by
  rw [inputToJson_eq, Json.settled, settledMembers_append, settledMembers_eq input.metadata,
    Fields.ofEntries, Fields.merge_append]
  rfl

/-- Whether a reader accepts an input: a second name among its further fields is a text. -/
def Readable (input : Input) : Prop :=
  ∀ value, Fields.get? input.metadata "name" = some value → value.isString = true

theorem isString_settled (value : Json) : value.settled.isString = value.isString := by
  cases value <;> rfl

theorem fit_string_iff {schema : Json.Schema} {value : Json} :
    (∃ read, Shape.string.fit schema value = .ok read) ↔ value.isString = true := by
  cases value with
  | string text => exact ⟨fun _ => rfl, fun _ => ⟨_, Shape.fit_string text⟩⟩
  | _ => simp [Shape.fit, Json.isString]

theorem inputFields_name :
    fieldsOf "BuilderInput" "name" = some ⟨"name", .string, .required⟩ := rfl

theorem inputFields_default :
    fieldsOf "BuilderInput" "defaultValue" = some ⟨"defaultValue", .any, .optional⟩ := rfl

private theorem inputField?_eq_none {key : String} (name : key ≠ "name")
    (default : key ≠ "defaultValue") :
    (Json.Schema.record schema "BuilderInput").field? key = none := by
  change [(⟨"name", .string, .required⟩ : Json.Field), ⟨"defaultValue", .any, .optional⟩].find?
    (fun field => field.name == key) = none
  simp [Ne.symm name, Ne.symm default]

/-- An input keeps any further field as it is. -/
theorem inputFields_other {key : String} (name : key ≠ "name") (default : key ≠ "defaultValue") :
    fieldsOf "BuilderInput" key = some ⟨key, .any, .defaulted⟩ := by
  rw [fieldsOf, Json.Record.fieldAt?, inputField?_eq_none name default]
  rfl

/-- The name that a reader takes: the one among the further fields if there is one. -/
theorem get?_name_settled (input : Input) (distinct : Fields.Distinct input.metadata) :
    Fields.get? (Fields.merge (Fields.ofEntries (settledMembers (present (inputHead input))))
        (Fields.mapValues Json.settled input.metadata)) "name" =
      some (((Fields.get? input.metadata "name").map Json.settled).getD (.string input.name)) := by
  have head : Fields.get? (Fields.ofEntries (settledMembers (present (inputHead input))))
      "name" = some (.string input.name) := by
    have apart : Fields.Distinct (settledMembers (present (inputHead input))) := by
      rw [settledMembers_eq]
      exact (Json.distinct_present (distinct_inputHead input)).mapValues _
    rw [Fields.ofEntries_of_distinct apart]
    rfl
  rw [Fields.get?_merge (distinct.mapValues _), Fields.get?_mapValues, head]
  cases Fields.get? input.metadata "name" <;> rfl

theorem input_complete {names : List String} (named : "name" ∈ names) :
    (Json.Schema.record schema "BuilderInput").missing? names = none := by
  change (([(⟨"name", .string, .required⟩ : Json.Field), ⟨"defaultValue", .any, .optional⟩].find?
    fun field => field.presence = .required && !names.contains field.name).map
      Json.Field.name) = none
  simp [named]

/-- An input can be read back just if a reader accepts it. -/
theorem fit_input_iff (input : Input) (distinct : Fields.Distinct input.metadata) :
    (∃ read, inputShape.fit schema (inputToJson input).settled = .ok read) ↔ Readable input := by
  have name := get?_name_settled input distinct
  have apart : Fields.Distinct (Fields.merge
      (Fields.ofEntries (settledMembers (present (inputHead input))))
      (Fields.mapValues Json.settled input.metadata)) := (Fields.distinct_ofEntries _).merge _
  rw [settled_inputToJson, inputShape, Shape.fit_object]
  generalize Fields.merge (Fields.ofEntries (settledMembers (present (inputHead input))))
    (Fields.mapValues Json.settled input.metadata) = members at name apart ⊢
  constructor
  · rintro ⟨read, h⟩ value found
    split at h
    · cases h
    · next result fits =>
      rw [found] at name
      have text := fit_string_iff.mp
        (Json.fits_of_fitMembers fits (Fields.mem_of_get? name) inputFields_name rfl)
      exact (isString_settled value).symm.trans text
  · intro readable
    have text : ∀ value, Fields.get? members "name" = some value → value.isString = true := by
      intro value found
      rw [name] at found
      cases second : Fields.get? input.metadata "name" with
      | none =>
        rw [second] at found
        cases found
        rfl
      | some given =>
        rw [second] at found
        cases found
        exact (isString_settled given).trans (readable given second)
    obtain ⟨read, fits⟩ : ∃ read, Json.fitMembers schema (fieldsOf "BuilderInput") members =
        .ok read := by
      apply Json.fitMembers_of_fits
      intro entry member found known _
      by_cases key : entry.1 = "name"
      · rw [key, inputFields_name] at known
        cases known
        exact fit_string_iff.mpr
          (text entry.2 ((Fields.get?_eq_some_iff apart).mpr (key ▸ member)))
      · by_cases default : entry.1 = "defaultValue"
        · rw [default, inputFields_default] at known
          cases known
          exact ⟨entry.2, Shape.fit_any entry.2⟩
        · rw [inputFields_other key default] at known
          cases known
          exact ⟨entry.2, Shape.fit_any entry.2⟩
    have named : "name" ∈ Fields.names members := Fields.mem_names_of_mem (Fields.mem_of_get? name)
    rw [fits]
    simp only [input_complete named]
    exact ⟨_, rfl⟩

/-! ## Inputs that read back as they are -/

/-- Whether the further fields of an input are other than the known ones, and its
default is no `null`. -/
def Faithful (input : Input) : Prop :=
  "name" ∉ Fields.names input.metadata ∧ "defaultValue" ∉ Fields.names input.metadata ∧
    ∀ value, input.defaultValue = some value → value.isNull = false

private theorem key_of_inputHead {input : Input} {key : String}
    (h : key ∈ Fields.names (present (inputHead input))) : key = "name" ∨ key = "defaultValue" := by
  have known := Json.mem_names_present h
  simpa only [inputHead, Fields.names_cons, Fields.names_nil, List.mem_cons, List.not_mem_nil,
    or_false] using known

private theorem get?_default {input : Input} (faithful : Faithful input) :
    Fields.get? (present (inputHead input) ++ input.metadata) "defaultValue" =
      input.defaultValue := by
  rw [Fields.get?_append, Json.get?_present (distinct_inputHead input),
    Fields.get?_eq_none_iff.mpr faithful.2.1, Option.or_none]
  rfl

/-- A test for other keys than those of the head leaves the further fields. -/
private theorem filter_further (input : Input) (other : String → Bool)
    (name : other "name" = false) (default : other "defaultValue" = false)
    (further : ∀ entry ∈ input.metadata, other entry.1 = true) :
    (present (inputHead input) ++ input.metadata).filter (fun entry => other entry.1) =
      input.metadata := by
  have dropped : (present (inputHead input)).filter (fun entry => other entry.1) = [] := by
    rw [List.filter_eq_nil_iff]
    intro entry member
    rcases key_of_inputHead (Fields.mem_names_of_mem member) with key | key
    · simp [key, name]
    · simp [key, default]
  rw [List.filter_append, dropped, List.nil_append, List.filter_eq_self]
  exact further

private theorem further_key {input : Input} (faithful : Faithful input) {entry : String × Json}
    (member : entry ∈ input.metadata) : entry.1 ≠ "name" ∧ entry.1 ≠ "defaultValue" :=
  ⟨fun heq => faithful.1 (heq ▸ Fields.mem_names_of_mem member),
    fun heq => faithful.2.1 (heq ▸ Fields.mem_names_of_mem member)⟩

/-- The data of a faithful input hold each key once if its further fields do. -/
theorem Faithful.distinct {input : Input} (faithful : Faithful input)
    (distinct : Fields.Distinct input.metadata) :
    Fields.Distinct (present (inputHead input) ++ input.metadata) := by
  rw [Fields.distinct_append]
  refine ⟨Json.distinct_present (distinct_inputHead input), distinct, ?_⟩
  intro key member
  rcases key_of_inputHead member with rfl | rfl
  · exact faithful.1
  · exact faithful.2.1

theorem fit_input {input : Input} (faithful : Faithful input)
    (distinct : Fields.Distinct input.metadata) :
    inputShape.fit schema (inputToJson input) = .ok (inputToJson input) := by
  have head : Json.fitMembers schema (fieldsOf "BuilderInput") (present (inputHead input)) =
      .ok (present (inputHead input)) := by
    apply Json.fitMembers_present
    refine .cons (fitsField_text rfl rfl (some input.name)) (.cons (fitsField_object rfl ?_) .nil)
    exact fun value found => ⟨faithful.2.2 value found, Shape.fit_any value⟩
  have others : Json.fitMembers schema (fieldsOf "BuilderInput") input.metadata =
      .ok input.metadata := by
    apply Json.fitMembers_self
    intro entry member
    obtain ⟨name, default⟩ := further_key faithful member
    exact ⟨_, inputFields_other name default, rfl, Shape.fit_any entry.2⟩
  have apart := faithful.distinct distinct
  have known : (Json.Schema.record schema "BuilderInput").fields.map (fun field =>
      (field.name, Fields.get? (present (inputHead input) ++ input.metadata) field.name)) =
      inputHead input := by
    change [("name", some (.string input.name)), ("defaultValue", Fields.get?
      (present (inputHead input) ++ input.metadata) "defaultValue")] = inputHead input
    rw [get?_default faithful]
    rfl
  have further := filter_further input
    (fun key => ((Json.Schema.record schema "BuilderInput").field? key).isNone) rfl rfl
    fun entry member => by
      obtain ⟨name, default⟩ := further_key faithful member
      rw [inputField?_eq_none name default]
      rfl
  have named : "name" ∈ Fields.names (present (inputHead input) ++ input.metadata) := by
    simp [inputHead, present, optionalMember]
  rw [inputToJson_eq, inputShape, Shape.fit_record (Json.fitMembers_append head others)
    (input_complete named) apart, Json.Record.normal, Json.filterMap_eq_present, known, further]
  rfl

/-- The data of a faithful input stand for the input. -/
theorem inputOfJson_inputToJson {input : Input} (faithful : Faithful input) :
    inputOfJson (inputToJson input) = input := by
  have further := filter_further input
    (fun key => decide (key ≠ "name" ∧ key ≠ "defaultValue")) rfl rfl
    fun entry member => decide_eq_true (further_key faithful member)
  have default := get?_default faithful
  rw [inputToJson_eq, inputOfJson]
  obtain ⟨name, defaultValue, metadata⟩ := input
  simp only [Input.mk.injEq]
  exact ⟨rfl, default, further⟩

/-! ## Documents -/

def dataEntries (content : Content) (inputs blocks : List Json) : List (String × Option Json) :=
  [("cssCode", content.css.map Json.string), ("jsCode", content.plainCode.map Json.string),
    ("tsCode", content.typedCode.map Json.string),
    ("inputs", if content.inputs.isEmpty then none else some (.array inputs)),
    ("blocks", some (.array blocks))]

def documentEntries (content : Content) (inputs blocks : List Json) :
    List (String × Option Json) :=
  [("name", content.name.map Json.string),
    ("data", some (.object (present (dataEntries content inputs blocks))))]

theorem toJson_eq (content : Content) :
    content.toJson = .object (present (documentEntries content
      (content.inputs.map inputToJson) (Element.listToJson content.blocks))) := by
  unfold toJson
  cases h : content.inputs <;>
    simp [documentEntries, dataEntries, present, optionalMember, h]

theorem distinct_dataEntries (content : Content) (inputs blocks : List Json) :
    Fields.Distinct (dataEntries content inputs blocks) := by
  have keys : Fields.names (dataEntries content inputs blocks) =
      ["cssCode", "jsCode", "tsCode", "inputs", "blocks"] := rfl
  rw [Fields.Distinct, keys]
  decide

theorem distinct_documentEntries (content : Content) (inputs blocks : List Json) :
    Fields.Distinct (documentEntries content inputs blocks) := by
  have keys : Fields.names (documentEntries content inputs blocks) = ["name", "data"] := rfl
  rw [Fields.Distinct, keys]
  decide

theorem settledMembers_present (entries : List (String × Option Json)) :
    settledMembers (present entries) =
      present (Fields.mapValues (Option.map Json.settled) entries) := by
  induction entries with
  | nil => rfl
  | cons entry entries ih =>
    obtain ⟨key, value⟩ := entry
    rw [Json.present_cons, settledMembers_append, ih]
    cases value <;> rfl

private theorem settled_object_present {entries : List (String × Option Json)}
    (distinct : Fields.Distinct entries) :
    (Json.object (present entries)).settled =
      .object (present (Fields.mapValues (Option.map Json.settled) entries)) := by
  have apart : Fields.Distinct (settledMembers (present entries)) := by
    rw [settledMembers_eq]
    exact (Json.distinct_present distinct).mapValues _
  rw [Json.settled, Fields.ofEntries_of_distinct apart, settledMembers_present]

private theorem settled_text (text : Option String) :
    (text.map Json.string).map Json.settled = text.map Json.string := by
  cases text <;> rfl

/-- Settling the data of a document settles the data of its inputs and blocks. -/
theorem settled_document (content : Content) (inputs blocks : List Json) :
    (Json.object (present (documentEntries content inputs blocks))).settled =
      .object (present (documentEntries content (inputs.map Json.settled)
        (blocks.map Json.settled))) := by
  have data : (Json.object (present (dataEntries content inputs blocks))).settled =
      .object (present (dataEntries content (inputs.map Json.settled)
        (blocks.map Json.settled))) := by
    rw [settled_object_present (distinct_dataEntries content inputs blocks)]
    simp only [dataEntries, Fields.mapValues, List.map_cons, List.map_nil, settled_text,
      Option.map_some, Json.settled, settledItems_eq]
    cases content.inputs.isEmpty
    · simp only [Bool.false_eq_true, if_false, Option.map_some, Json.settled, settledItems_eq]
    · rfl
  rw [settled_object_present (distinct_documentEntries content inputs blocks)]
  simp only [documentEntries, Fields.mapValues, List.map_cons, List.map_nil, settled_text,
    Option.map_some, data]

/-- Settled data of a document have its shape if those of its inputs and blocks do. -/
theorem fit_document {content : Content} {inputs blocks inputs' blocks' : List Json}
    (fitInputs : Json.fitItems schema inputShape inputs = .ok inputs')
    (fitBlocks : Json.fitItems schema elementShape blocks = .ok blocks') :
    shape.fit schema (.object (present (documentEntries content inputs blocks))) =
      .ok (.object (present (documentEntries content inputs' blocks'))) := by
  have given : FitsField schema (fieldsOf "BuilderData")
      ("inputs", if content.inputs.isEmpty then none else some (.array inputs))
      ("inputs", if content.inputs.isEmpty then none else some (.array inputs')) := by
    split
    · exact .absent _
    · exact .given rfl rfl (Shape.fit_list fitInputs)
  have data : (Shape.record "BuilderData").fit schema
      (.object (present (dataEntries content inputs blocks))) =
        .ok (.object (present (dataEntries content inputs' blocks'))) :=
    Shape.fit_record_present rfl
      (.cons (fitsField_text rfl rfl content.css) <|
        .cons (fitsField_text rfl rfl content.plainCode) <|
        .cons (fitsField_text rfl rfl content.typedCode) <| .cons given <|
        .cons (.given rfl rfl (Shape.fit_list fitBlocks)) .nil) rfl rfl (by decide)
  exact Shape.fit_record_present rfl
    (.cons (fitsField_text rfl rfl content.name) <| .cons (.given rfl rfl data) .nil)
    rfl rfl (by decide)

private theorem textAt?_present {entries : List (String × Option Json)}
    (distinct : Fields.Distinct entries) {key : String} (value : Option String)
    (found : Fields.get? entries key = some (value.map Json.string)) :
    (Json.object (present entries)).textAt? key = value := by
  have stored : (Json.object (present entries)).get? key = value.map Json.string := by
    change Fields.get? (present entries) key = _
    rw [Json.get?_present distinct, found]
    rfl
  rw [Json.textAt?, stored]
  cases value <;> rfl

private theorem itemsAt_present {entries : List (String × Option Json)}
    (distinct : Fields.Distinct entries) {key : String} (value : Option Json)
    (found : Fields.get? entries key = some value) :
    (Json.object (present entries)).itemsAt key = (value.bind Json.items?).getD [] := by
  have stored : (Json.object (present entries)).get? key = value := by
    change Fields.get? (present entries) key = _
    rw [Json.get?_present distinct, found]
    rfl
  rw [Json.itemsAt, stored]

/-- What stands in the data of a document. -/
theorem ofJson_document (content : Content) (inputs blocks : List Json)
    (empty : content.inputs.isEmpty = true → inputs = []) :
    ofJson (.object (present (documentEntries content inputs blocks))) =
      { content with inputs := inputs.map inputOfJson, blocks := Element.ofItems blocks } := by
  have distinct := distinct_dataEntries content inputs blocks
  have data : ((Json.object (present (documentEntries content inputs blocks))).get? "data").getD
      (.object []) = .object (present (dataEntries content inputs blocks)) := by
    change ((Fields.get? (present (documentEntries content inputs blocks)) "data").getD _) = _
    rw [Json.get?_present (distinct_documentEntries content inputs blocks)]
    rfl
  have items : (Json.object (present (dataEntries content inputs blocks))).itemsAt "inputs" =
      inputs := by
    rw [itemsAt_present distinct _ rfl]
    split
    · next none => exact (empty none).symm
    · rfl
  unfold ofJson
  simp only [data, items, Content.mk.injEq]
  refine ⟨?_, ?_, ?_, ?_, trivial, ?_⟩
  · exact textAt?_present (distinct_documentEntries content inputs blocks) _ rfl
  · exact textAt?_present distinct _ rfl
  · exact textAt?_present distinct _ rfl
  · exact textAt?_present distinct _ rfl
  · rw [itemsAt_present distinct _ rfl]
    rfl

def settledInputs (content : Content) : List Json :=
  content.inputs.map fun input => (inputToJson input).settled

private theorem parse_document (layout : Json.Layout) {content : Content}
    (integral : content.toJson.isIntegral = true) (deep : content.toJson.nesting ≤ Json.maxDepth)
    (settled : Json.areSettled (Element.listToJson content.blocks) = true) :
    Json.parse (Json.render layout 0 content.toJson) =
      .ok (.object (present (documentEntries content (settledInputs content)
        (Element.listToJson content.blocks)))) := by
  have blocks : (Element.listToJson content.blocks).map Json.settled =
      Element.listToJson content.blocks := by
    rw [← settledItems_eq, Json.settledItems_of_areSettled _ settled]
  rw [Json.parse_render layout integral deep, toJson_eq, settled_document, blocks, List.map_map]
  rfl

/-- A document is read back if its inputs are, in either layout: the inputs as they are read back,
the blocks without versions that are `null`, and all other fields as they were. -/
theorem read_render (layout : Json.Layout) {content : Content} {inputs : List Json}
    (integral : content.toJson.isIntegral = true) (deep : content.toJson.nesting ≤ Json.maxDepth)
    (settled : Json.areSettled (Element.listToJson content.blocks) = true)
    (fits : Json.fitItems schema inputShape (settledInputs content) = .ok inputs) :
    read (Json.render layout 0 content.toJson) =
      .ok { content with
        inputs := inputs.map inputOfJson
        blocks := Element.strippedList content.blocks } := by
  have empty : content.inputs.isEmpty = true → inputs = [] := by
    intro none
    rw [List.isEmpty_iff] at none
    rw [settledInputs, none] at fits
    cases fits
    rfl
  rw [read, parse_document layout integral deep settled]
  simp only [fit_document fits (Element.fitItems_listToJson _ settled)]
  rw [ofJson_document content _ _ empty, Element.ofItems_listToJson]

private theorem fits_of_fit_record {name : String} {entries : List (String × Option Json)}
    {result : Json} (whole : (Shape.record name).fit schema (.object (present entries)) = .ok result)
    (distinct : Fields.Distinct entries) (key : String) {value : Json} {found : Json.Field}
    (given : Fields.get? entries key = some (some value)) (known : fieldsOf name key = some found)
    (kept : (found.presence = .optional && value.isNull) = false) :
    ∃ read, found.shape.fit schema value = .ok read := by
  have stored : Fields.get? (present entries) key = some value := by
    rw [Json.get?_present distinct, given]
    rfl
  rw [Shape.fit_object] at whole
  split at whole
  · cases whole
  · next fits => exact Json.fits_of_fitMembers fits (Fields.mem_of_get? stored) known kept

private theorem fitItems_of_fit_list {item : Shape} {items : List Json} {result : Json}
    (h : (Shape.list item).fit schema (.array items) = .ok result) :
    ∃ read, Json.fitItems schema item items = .ok read := by
  rw [Shape.fit] at h
  split at h
  · next read fits => exact ⟨read, fits⟩
  · cases h

theorem fits_of_fit_document {content : Content} {inputs blocks : List Json} {result : Json}
    (whole : shape.fit schema (.object (present (documentEntries content inputs blocks))) =
      .ok result) :
    (content.inputs.isEmpty = false →
      ∃ read, Json.fitItems schema inputShape inputs = .ok read) ∧
      ∃ read, Json.fitItems schema elementShape blocks = .ok read := by
  obtain ⟨data, fitsData⟩ := fits_of_fit_record whole (distinct_documentEntries _ _ _) "data"
    rfl rfl rfl
  constructor
  · intro some
    have given : Fields.get? (dataEntries content inputs blocks) "inputs" =
        Option.some (Option.some (.array inputs)) := by
      simp [dataEntries, Fields.get?_cons, some]
    obtain ⟨read, fitsInputs⟩ := fits_of_fit_record fitsData (distinct_dataEntries _ _ _)
      "inputs" given rfl rfl
    exact fitItems_of_fit_list fitsInputs
  · obtain ⟨read, fitsBlocks⟩ := fits_of_fit_record fitsData (distinct_dataEntries _ _ _)
      "blocks" rfl rfl rfl
    exact fitItems_of_fit_list fitsBlocks

/-- Every input of a document that can be read is one that a reader accepts. -/
theorem readable_of_read (layout : Json.Layout) {content result : Content}
    (integral : content.toJson.isIntegral = true) (deep : content.toJson.nesting ≤ Json.maxDepth)
    (settled : Json.areSettled (Element.listToJson content.blocks) = true)
    (distinct : ∀ input ∈ content.inputs, Fields.Distinct input.metadata)
    (h : read (Json.render layout 0 content.toJson) = .ok result) :
    ∀ input ∈ content.inputs, Readable input := by
  intro input member
  have some : content.inputs.isEmpty = false := by
    rw [List.isEmpty_eq_false_iff]
    exact List.ne_nil_of_mem member
  rw [read, parse_document layout integral deep settled] at h
  simp only at h
  split at h
  · next document whole =>
    obtain ⟨read, fits⟩ := (fits_of_fit_document whole).1 some
    exact (fit_input_iff input (distinct input member)).mp
      (Json.fits_of_fitItems fits (List.mem_map_of_mem member))
  · cases h

/-- Inputs that a reader accepts have their shape. -/
theorem fit_settledInputs (content : Content)
    (distinct : ∀ input ∈ content.inputs, Fields.Distinct input.metadata)
    (readable : ∀ input ∈ content.inputs, Readable input) :
    ∃ read, Json.fitItems schema inputShape (settledInputs content) = .ok read := by
  apply Json.fitItems_of_fits
  intro item member
  obtain ⟨input, given, rfl⟩ := List.mem_map.mp member
  exact (fit_input_iff input (distinct input given)).mpr (readable input given)

end BlockLoom.Content
