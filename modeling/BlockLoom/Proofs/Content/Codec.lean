import BlockLoom.Proofs.Content.Document
import BlockLoom.Proofs.Content.Keyed

/-!
The text of page content holds all of it. Content whose maps hold each key once is
read back as it was written, with the entries of every map in their order: a field
that is absent, one that is empty and one that is an empty text are three things.
-/

namespace BlockLoom.Content

/-! ## Content whose maps hold each key once -/

mutual

/-- Whether every map of an element and of the elements below it holds each key once. -/
def Element.isKeyed : Element → Bool
  | ⟨_, version, _, _, _, component, properties, bindings, styles, _, code, actions, children⟩ =>
    version.all Json.isSettled && component.all (fun use => (Json.object use.options).isSettled) &&
      properties.all (fun members => (Json.object members).isSettled) &&
      decide (Fields.Distinct bindings) &&
      styles.all (fun buckets => (Json.object (Fields.mapValues Json.object buckets)).isSettled) &&
      decide (Fields.Distinct code.actions ∧ Fields.Distinct code.bindings) &&
      decide (Fields.Distinct actions) && Element.areKeyed children

def Element.areKeyed : List Element → Bool
  | [] => true
  | element :: elements => Element.isKeyed element && Element.areKeyed elements

end

/-- Whether every map of page content holds each key once. -/
def isKeyed (content : Content) : Bool :=
  content.inputs.all (fun input => (Json.object input.metadata).isSettled &&
      input.defaultValue.all Json.isSettled) &&
    Element.areKeyed content.blocks

theorem settled_of_isSettled_styles {styles : Style.Literals}
    (h : (Json.object (Fields.mapValues Json.object styles)).isSettled = true) :
    styles.Settled := by
  obtain ⟨distinct, buckets⟩ := Json.isSettled_object.mp h
  refine ⟨?_, fun entry member => ?_⟩
  · rwa [Fields.Distinct, Fields.names_mapValues] at distinct
  · exact Json.haveSettled_iff.mp buckets _ (List.mem_map_of_mem member)

mutual

theorem Element.keyed_of_isKeyed (element : Element) (h : element.isKeyed = true) :
    element.Keyed := by
  match element with
  | ⟨type, version, id, tagName, layerName, component, properties, bindings, styles, repetition,
      code, actions, children⟩ =>
    simp only [Element.isKeyed, Bool.and_eq_true, decide_eq_true_eq, Option.all_eq_true] at h
    obtain ⟨⟨⟨⟨⟨⟨⟨version, options⟩, properties⟩, bindings⟩, styles⟩, code⟩, actions⟩, inner⟩ := h
    exact ⟨version, options, properties, bindings,
      fun buckets given => settled_of_isSettled_styles (styles buckets given), code, actions,
      Element.settled_of_areKeyed children inner⟩

/-- The data of elements whose maps hold each key once repeat no member. -/
theorem Element.settled_of_areKeyed (elements : List Element)
    (h : Element.areKeyed elements = true) :
    Json.areSettled (Element.listToJson elements) = true := by
  match elements with
  | [] => rfl
  | element :: elements =>
    rw [Element.areKeyed, Bool.and_eq_true] at h
    rw [Element.listToJson, Json.areSettled,
      (Element.keyed_of_isKeyed element h.1).isSettled_toJson,
      Element.settled_of_areKeyed elements h.2]
    rfl

end

/-! ## Versions -/

mutual

def Element.isVersioned : Element → Bool
  | ⟨_, version, _, _, _, _, _, _, _, _, _, _, children⟩ =>
    version.all (fun value => !value.isNull) && Element.areVersioned children

def Element.areVersioned : List Element → Bool
  | [] => true
  | element :: elements => Element.isVersioned element && Element.areVersioned elements

end

mutual

/-- A reader takes an element as it is if no version is `null`. -/
theorem Element.stripped_of_isVersioned (element : Element) (h : element.isVersioned = true) :
    element.stripped = element := by
  match element with
  | ⟨type, version, id, tagName, layerName, component, properties, bindings, styles, repetition,
      code, actions, children⟩ =>
    rw [Element.isVersioned, Bool.and_eq_true, Option.all_eq_true] at h
    have kept : version.filter (fun value => !value.isNull) = version := by
      cases version with
      | none => rfl
      | some value => exact Option.filter_some_pos (h.1 value rfl)
    rw [Element.stripped, kept, Element.strippedList_of_areVersioned children h.2]

theorem Element.strippedList_of_areVersioned (elements : List Element)
    (h : Element.areVersioned elements = true) : Element.strippedList elements = elements := by
  match elements with
  | [] => rfl
  | element :: elements =>
    rw [Element.areVersioned, Bool.and_eq_true] at h
    rw [Element.strippedList, Element.stripped_of_isVersioned element h.1,
      Element.strippedList_of_areVersioned elements h.2]

end

/-! ## Documents -/

theorem isSettled_inputToJson {input : Input} (faithful : Faithful input)
    (metadata : (Json.object input.metadata).isSettled = true)
    (default : input.defaultValue.all Json.isSettled = true) :
    (inputToJson input).isSettled = true := by
  obtain ⟨distinct, values⟩ := Json.isSettled_object.mp metadata
  rw [inputToJson_eq, Json.isSettled_object, Json.haveSettled_append, Bool.and_eq_true]
  refine ⟨faithful.distinct distinct, Json.haveSettled_present ?_, values⟩
  simp only [inputHead, List.forall_mem_cons, List.not_mem_nil, false_implies, implies_true,
    and_true, Option.some.injEq, forall_eq']
  exact ⟨rfl, fun value given => by simpa [given] using default⟩

/-- Inputs that are read back as they are have their shape. -/
theorem fitItems_faithful {inputs : List Input}
    (keyed : ∀ input ∈ inputs, (Json.object input.metadata).isSettled = true ∧
      input.defaultValue.all Json.isSettled = true)
    (faithful : ∀ input ∈ inputs, Faithful input) :
    Json.fitItems schema inputShape (inputs.map fun input => (inputToJson input).settled) =
      .ok (inputs.map inputToJson) := by
  induction inputs with
  | nil => rfl
  | cons input inputs ih =>
    rw [List.forall_mem_cons] at faithful keyed
    obtain ⟨metadata, default⟩ := keyed.1
    have settled := Json.settled_of_isSettled _ (isSettled_inputToJson faithful.1 metadata default)
    have fits := fit_input faithful.1 (Json.isSettled_object.mp metadata).1
    simp only [List.map_cons, Json.fitItems, settled, fits, ih keyed.2 faithful.2]

/-- What is read for inputs is the inputs again. -/
theorem map_inputOfJson {inputs : List Input} (faithful : ∀ input ∈ inputs, Faithful input) :
    (inputs.map inputToJson).map inputOfJson = inputs := by
  rw [List.map_map]
  exact (List.map_congr_left fun input member =>
    inputOfJson_inputToJson (faithful input member)).trans (List.map_id _)

theorem fit_faithfulInputs {content : Content} (keyed : content.isKeyed = true)
    (faithful : ∀ input ∈ content.inputs, Faithful input) :
    Json.fitItems schema inputShape (settledInputs content) =
      .ok (content.inputs.map inputToJson) := by
  rw [isKeyed, Bool.and_eq_true, List.all_eq_true] at keyed
  exact fitItems_faithful (fun input member => by simpa using keyed.1 input member) faithful

/-- Page content is read from its text as it was written, versions that are `null` aside. -/
theorem read_render_faithful (layout : Json.Layout) {content : Content}
    (keyed : content.isKeyed = true) (faithful : ∀ input ∈ content.inputs, Faithful input)
    (integral : content.toJson.isIntegral = true)
    (deep : content.toJson.nesting ≤ Json.maxDepth) :
    read (Json.render layout 0 content.toJson) =
      .ok { content with blocks := Element.strippedList content.blocks } := by
  have fits := fit_faithfulInputs keyed faithful
  have inputs : (content.inputs.map inputToJson).map inputOfJson = content.inputs :=
    map_inputOfJson faithful
  rw [isKeyed, Bool.and_eq_true] at keyed
  have settled := Element.settled_of_areKeyed content.blocks keyed.2
  rw [read_render layout integral deep settled fits, inputs]

/-- Page content is read from its text as it was written, in either layout: with every field it has
and no other, and with the entries of its maps in their order. What is asked of it is that the text
can tell its parts apart. -/
theorem read_render_keyed (layout : Json.Layout) {content : Content}
    (keyed : content.isKeyed = true) (versioned : Element.areVersioned content.blocks = true)
    (faithful : ∀ input ∈ content.inputs, Faithful input)
    (integral : content.toJson.isIntegral = true)
    (deep : content.toJson.nesting ≤ Json.maxDepth) :
    read (Json.render layout 0 content.toJson) = .ok content := by
  rw [read_render_faithful layout keyed faithful integral deep,
    Element.strippedList_of_areVersioned content.blocks versioned]

/-- A page that has every field somewhere, and some of them absent, empty and an empty text. -/
def catalogPage : Content :=
  { name := some ""
    css := some ".card \x7b\x7d"
    typedCode := some ""
    inputs :=
      [{ name := "title", defaultValue := some (.string "") },
       { name := "size", metadata := [("type", .string "number"), ("enum", .array [.null])] }]
    blocks :=
      [{ version := some (.ofInt 2)
         id := some "builder-1"
         tagName := some ""
         properties := some []
         styles := some [("large", [("margin", .string "0")]), ("small", [])]
         children :=
           [{ layerName := some "Card"
              component := some
                { name := "Card"
                  options := [("title", .object [("b", .bool true), ("a", .ofInt (-7))]),
                    ("", .string "")] }
              bindings := [("style.color", "state.color"), ("component.options.text", "")]
              repetition := some ⟨"state.cards", some "card", none⟩
              code := { bindings := [("style.color", "state.color!")] }
              actions := [("click", "open(card)")] },
            { type := "", styles := some [] }] },
       {}] }

theorem catalogPage_read_back :
    catalogPage.isKeyed = true ∧ Element.areVersioned catalogPage.blocks = true ∧
      (∀ input ∈ catalogPage.inputs, Faithful input) ∧
      catalogPage.toJson.isIntegral = true ∧ catalogPage.toJson.nesting ≤ Json.maxDepth ∧
      read (Json.render .compact 0 catalogPage.toJson) = .ok catalogPage ∧
      read (Json.render .indented 0 catalogPage.toJson) = .ok catalogPage := by
  have keyed : catalogPage.isKeyed = true := by decide
  have versioned : Element.areVersioned catalogPage.blocks = true := by decide
  have faithful : ∀ input ∈ catalogPage.inputs, Faithful input := by
    simp [catalogPage, Faithful, Json.isNull]
  have integral : catalogPage.toJson.isIntegral = true := by decide
  have deep : catalogPage.toJson.nesting ≤ Json.maxDepth := by decide
  exact ⟨keyed, versioned, faithful, integral, deep,
    read_render_keyed .compact keyed versioned faithful integral deep,
    read_render_keyed .indented keyed versioned faithful integral deep⟩

end BlockLoom.Content
