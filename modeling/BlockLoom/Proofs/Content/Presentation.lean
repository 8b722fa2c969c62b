import BlockLoom.Proofs.Content.Document
import BlockLoom.Proofs.Json.Layout

/-!
How a component is presented as text does not matter. The layout has no influence on the
data that are read, and missing code that is written as empty text is still missing for the
import. A document reads back in every presentation, as the same component, or in none.
-/

namespace BlockLoom.Content

open BlockLoom.Json (Shape present reread rereadItems rereadMembers)

/-! ## Records as they are read back -/

def rereadEntry (limit : Nat) : String × Option Json → Option (String × Option Json)
  | (key, none) => some (key, none)
  | (key, some value) => (reread limit value).map fun read => (key, some read)

def rereadEntries (limit : Nat) :
    List (String × Option Json) → Option (List (String × Option Json))
  | [] => some []
  | entry :: entries =>
    (rereadEntry limit entry).bind fun entry =>
      (rereadEntries limit entries).map fun entries => entry :: entries

theorem rereadEntry_text (limit : Nat) (key : String) (text : Option String) :
    rereadEntry limit (key, text.map Json.string) = some (key, text.map Json.string) := by
  cases text with
  | none => rfl
  | some text =>
    rw [Option.map_some, rereadEntry, reread]
    rfl

theorem rereadMembers_present (limit : Nat) (entries : List (String × Option Json)) :
    rereadMembers limit (present entries) = (rereadEntries limit entries).map present := by
  induction entries with
  | nil => rfl
  | cons entry entries ih =>
    obtain ⟨key, value⟩ := entry
    rw [Json.present_cons, rereadEntries]
    cases value with
    | none =>
      change rereadMembers limit (present entries) = _
      rw [ih]
      cases rereadEntries limit entries <;> rfl
    | some value =>
      change rereadMembers limit ((key, value) :: present entries) = _
      rw [rereadMembers, ih, rereadEntry]
      cases reread limit value with
      | none => rfl
      | some read => cases rereadEntries limit entries <;> rfl

theorem names_rereadEntries {limit : Nat} {entries read : List (String × Option Json)}
    (h : rereadEntries limit entries = some read) : Fields.names read = Fields.names entries := by
  induction entries generalizing read with
  | nil => cases h; rfl
  | cons entry entries ih =>
    rw [rereadEntries] at h
    obtain ⟨first, here, h⟩ := Option.bind_eq_some_iff.mp h
    obtain ⟨others, later, rfl⟩ := Option.map_eq_some_iff.mp h
    have same : first.1 = entry.1 := by
      obtain ⟨key, value⟩ := entry
      cases value with
      | none =>
        cases here
        rfl
      | some value =>
        obtain ⟨read, -, rfl⟩ := Option.map_eq_some_iff.mp here
        rfl
    rw [Fields.names_cons, Fields.names_cons, same, ih later]

/-- A record is read back field by field. -/
theorem reread_present {limit : Nat} {entries : List (String × Option Json)}
    (distinct : Fields.Distinct entries) :
    reread (limit + 1) (.object (present entries)) =
      (rereadEntries limit entries).map fun read => .object (present read) := by
  rw [reread, rereadMembers_present, Option.map_map]
  cases h : rereadEntries limit entries with
  | none => rfl
  | some read =>
    have apart : Fields.Distinct read := by
      rw [Fields.Distinct, names_rereadEntries h]
      exact distinct
    change some (Json.object (Fields.ofEntries (present read))) = _
    rw [Fields.ofEntries_of_distinct (Json.distinct_present apart)]
    rfl

/-! ## Documents -/

/-- The data of inputs and blocks are read back; the other fields of a document are texts. -/
theorem reread_document (limit : Nat) (content : Content) {inputs : List Json}
    (empty : content.inputs.isEmpty = true → inputs = []) (blocks : List Json) :
    reread (limit + 3) (.object (present (documentEntries content inputs blocks))) =
      (rereadItems limit inputs).bind fun inputs =>
        (rereadItems limit blocks).map fun blocks =>
          .object (present (documentEntries content inputs blocks)) := by
  have listed : rereadEntry (limit + 1)
      ("inputs", if content.inputs.isEmpty then none else some (.array inputs)) =
      (rereadItems limit inputs).map fun inputs =>
        ("inputs", if content.inputs.isEmpty then none else some (.array inputs)) := by
    cases none : content.inputs.isEmpty with
    | true =>
      rw [empty none]
      rfl
    | false =>
      simp only [Bool.false_eq_true, if_false, rereadEntry, reread, Option.map_map]
      rfl
  have data : rereadEntries (limit + 1) (dataEntries content inputs blocks) =
      (rereadItems limit inputs).bind fun inputs =>
        (rereadItems limit blocks).map fun blocks => dataEntries content inputs blocks := by
    simp only [dataEntries, rereadEntries, rereadEntry_text, listed, Option.bind_some]
    cases rereadItems limit inputs with
    | none => rfl
    | some inputs =>
      rw [rereadEntry, reread]
      cases rereadItems limit blocks <;> rfl
  rw [reread_present (distinct_documentEntries content inputs blocks)]
  simp only [documentEntries, rereadEntries, rereadEntry_text, Option.bind_some]
  rw [rereadEntry, reread_present (distinct_dataEntries content inputs blocks), data]
  cases rereadItems limit inputs with
  | none => rfl
  | some inputs => cases rereadItems limit blocks <;> rfl

theorem fit_document_toOption {content : Content} {inputs blocks : List Json}
    (empty : content.inputs.isEmpty = true → inputs = []) :
    (shape.fit schema (.object (present (documentEntries content inputs blocks)))).toOption =
      (Json.fitItems schema inputShape inputs).toOption.bind fun inputs =>
        (Json.fitItems schema elementShape blocks).toOption.map fun blocks =>
          .object (present (documentEntries content inputs blocks)) := by
  cases whole : shape.fit schema (.object (present (documentEntries content inputs blocks))) with
  | ok result =>
    obtain ⟨listed, blocks', fitBlocks⟩ := fits_of_fit_document whole
    have fitInputs : ∃ read, Json.fitItems schema inputShape inputs = .ok read := by
      cases none : content.inputs.isEmpty with
      | true =>
        rw [empty none]
        exact ⟨[], rfl⟩
      | false => exact listed none
    obtain ⟨inputs', fitInputs⟩ := fitInputs
    rw [← whole, fit_document fitInputs fitBlocks, fitInputs, fitBlocks]
    rfl
  | error problem =>
    cases fitInputs : Json.fitItems schema inputShape inputs with
    | error problem => rfl
    | ok inputs' =>
      cases fitBlocks : Json.fitItems schema elementShape blocks with
      | error problem => rfl
      | ok blocks' => cases whole.symm.trans (fit_document fitInputs fitBlocks)

def readParts (inputs : List Input) (blocks : List Element) :
    Option (List Input × List Element) :=
  (rereadItems (Json.maxDepth - 3) (inputs.map inputToJson)).bind fun inputs =>
    (rereadItems (Json.maxDepth - 3) (Element.listToJson blocks)).bind fun blocks =>
      (Json.fitItems schema inputShape inputs).toOption.bind fun inputs =>
        (Json.fitItems schema elementShape blocks).toOption.map fun blocks =>
          (inputs.map inputOfJson, Element.ofItems blocks)

theorem read_eq_bind (source : String) :
    (read source).toOption = (Json.parse source).toOption.bind fun value =>
      (shape.fit schema value).toOption.map ofJson := by
  rw [read]
  cases Json.parse source with
  | error message => rfl
  | ok value =>
    change _ = Option.map ofJson (shape.fit schema value).toOption
    dsimp only
    cases shape.fit schema value <;> rfl

/-- A document is read back just if its inputs and its blocks are, in every layout. -/
theorem read_toOption (layout : Json.Layout) (content : Content) :
    (read (Json.render layout 0 content.toJson)).toOption =
      (readParts content.inputs content.blocks).map fun parts =>
        { content with inputs := parts.1, blocks := parts.2 } := by
  have empty : content.inputs.isEmpty = true → content.inputs.map inputToJson = [] := by
    intro none
    rw [List.isEmpty_iff.mp none]
    rfl
  have reading := reread_document (Json.maxDepth - 3) content empty
    (Element.listToJson content.blocks)
  rw [← toJson_eq] at reading
  change reread Json.maxDepth content.toJson = _ at reading
  rw [read_eq_bind, Json.parse_toOption, reading, readParts]
  cases given : rereadItems (Json.maxDepth - 3) (content.inputs.map inputToJson) with
  | none => rfl
  | some inputs =>
    cases rereadItems (Json.maxDepth - 3) (Element.listToJson content.blocks) with
    | none => rfl
    | some blocks =>
      have bare : content.inputs.isEmpty = true → inputs = [] := by
        intro none
        rw [empty none] at given
        cases given
        rfl
      change Option.map ofJson (shape.fit schema
        (.object (present (documentEntries content inputs blocks)))).toOption = _
      rw [fit_document_toOption bare]
      change _ = Option.map _ (Option.bind (Json.fitItems schema inputShape inputs).toOption _)
      cases fits : Json.fitItems schema inputShape inputs with
      | error problem => rfl
      | ok inputs' =>
        have none : content.inputs.isEmpty = true → inputs' = [] := by
          intro none
          rw [bare none] at fits
          cases fits
          rfl
        change Option.map ofJson (Option.map _
            (Json.fitItems schema elementShape blocks).toOption) =
          Option.map _ (Option.map _ (Json.fitItems schema elementShape blocks).toOption)
        cases Json.fitItems schema elementShape blocks with
        | error problem => rfl
        | ok blocks' => exact congrArg some (ofJson_document content inputs' blocks' none)

/-! ## Presentations of a component -/

theorem filter_codeOrEmpty (settings : ExportSettings) (code : Option String) :
    (codeOrEmpty settings code).filter (fun code => !Text.isBlankText code) =
      code.filter fun code => !Text.isBlankText code := by
  rw [codeOrEmpty]
  cases code with
  | some code => rfl
  | none =>
    cases settings.emitEmptyCode <;> rfl

/-- The code of an exported component, whether missing code is written or not. -/
theorem code?_ofComponent (settings : ExportSettings) (component : Component) (inputs : List Input)
    (blocks : List Element) :
    code? { ofComponent settings component with inputs, blocks } =
      [State.render .hook component.state component.onMount,
        State.render .assignment component.state component.onMount].findSome? fun code =>
          code.filter fun code => !Text.isBlankText code := by
  simp only [code?, ofComponent, List.findSome?_cons, filter_codeOrEmpty]

/-- The import of an exported component, with its inputs and blocks as they are read back. -/
theorem toComponent_ofComponent_congr (settings : ImportSettings) (first second : ExportSettings)
    (component : Component) (inputs : List Input) (blocks : List Element) :
    toComponent settings { ofComponent first component with inputs, blocks } =
      toComponent settings { ofComponent second component with inputs, blocks } := by
  rw [toComponent, toComponent, code?_ofComponent, code?_ofComponent]
  rfl

theorem parse_toOption (settings : ImportSettings) (source : String) :
    (parse settings source).toOption =
      (read source).toOption.bind fun content => (toComponent settings content).toOption := by
  rw [parse]
  cases read source <;> rfl

theorem parse_write_toOption (settings : ImportSettings) (choice : ExportSettings)
    (component : Component) :
    (parse settings (write choice component)).toOption =
      (readParts component.inputs (exportNodes component.children)).bind fun parts =>
        (toComponent settings { ofComponent choice component with
          inputs := parts.1, blocks := parts.2 }).toOption := by
  rw [parse_toOption, write, read_toOption]
  change Option.bind (Option.map _ (readParts component.inputs
    (exportNodes component.children))) _ = _
  cases readParts component.inputs (exportNodes component.children) <;> rfl

/-- The choices of an export have no influence on what is read back: two exports of a
component are both refused, or both give the same component. Its texts in either layout
hold the same data. -/
theorem parse_write_congr (settings : ImportSettings) (first second : ExportSettings)
    (component : Component) :
    ((∃ failure failure', parse settings (write first component) = .error failure ∧
        parse settings (write second component) = .error failure') ∨
      ∃ result, parse settings (write first component) = .ok result ∧
        parse settings (write second component) = .ok result) ∧
    ∀ (emitEmptyCode : Bool) (value : Json),
      Json.parse (write { emitEmptyCode, pretty := true } component) = .ok value ↔
        Json.parse (write { emitEmptyCode, pretty := false } component) = .ok value := by
  constructor
  · have same : (parse settings (write first component)).toOption =
        (parse settings (write second component)).toOption := by
      rw [parse_write_toOption, parse_write_toOption]
      simp only [toComponent_ofComponent_congr settings first second]
    cases one : parse settings (write first component) with
    | error failure =>
      cases other : parse settings (write second component) with
      | error failure' => exact .inl ⟨failure, failure', rfl, rfl⟩
      | ok result =>
        rw [one, other] at same
        cases same
    | ok result =>
      rw [one] at same
      cases other : parse settings (write second component) with
      | error failure' =>
        rw [other] at same
        cases same
      | ok result' =>
        rw [other] at same
        cases same
        exact .inr ⟨result, rfl, rfl⟩
  · intro emitEmptyCode value
    have iff_toOption {text : String} :
        Json.parse text = .ok value ↔ (Json.parse text).toOption = some value := by
      cases Json.parse text <;> simp [Except.toOption]
    rw [iff_toOption, iff_toOption, write, write, Json.parse_toOption, Json.parse_toOption]
    rfl

end BlockLoom.Content
