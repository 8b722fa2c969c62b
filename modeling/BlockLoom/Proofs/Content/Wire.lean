import BlockLoom.Content.Json
import BlockLoom.Proofs.Json.Shape

/-!
Page content as data, back and forth. An element whose maps hold each key once
is read from its data as it was, apart from a version that is `null`.
-/

namespace BlockLoom.Content

open BlockLoom.Json (Shape present FitsField optionalMember)

/-! ## Elements as data -/

def Element.entries (element : Element) : List (String × Option Json) :=
  [("@type", some (.string element.type)), ("@version", element.version),
    ("id", element.id.map Json.string), ("tagName", element.tagName.map Json.string),
    ("layerName", element.layerName.map Json.string),
    ("component", element.component.map Use.toJson),
    ("properties", element.properties.map Json.object),
    ("bindings", some (textsToJson element.bindings)),
    ("responsiveStyles",
      element.styles.map fun styles => .object (Fields.mapValues Json.object styles)),
    ("repeat", element.repetition.map Repetition.toJson),
    ("code", some element.code.toJson), ("actions", some (textsToJson element.actions)),
    ("children", some (.array (Element.listToJson element.children)))]

theorem Element.toJson_eq (element : Element) :
    element.toJson = .object (present element.entries) := by
  cases element
  simp [Element.toJson, Element.entries, present, optionalMember]

theorem Element.distinct_entries (element : Element) : Fields.Distinct element.entries := by
  have keys : Fields.names element.entries = ["@type", "@version", "id", "tagName", "layerName",
    "component", "properties", "bindings", "responsiveStyles", "repeat", "code", "actions",
    "children"] := rfl
  rw [Fields.Distinct, keys]
  decide

theorem Element.get?_toJson (element : Element) (key : String) :
    element.toJson.get? key = (Fields.get? element.entries key).join := by
  rw [Element.toJson_eq]
  exact Json.get?_present element.distinct_entries key

theorem textsOfMembers_mapValues (texts : Fields String) :
    textsOfMembers (Fields.mapValues Json.string texts) = texts := by
  simp [textsOfMembers, Fields.mapValues, Function.comp_def, Json.string?]

theorem Element.childrenIn_eq (members : List (String × Json)) :
    Element.childrenIn members =
      ((Fields.get? members "children").map Element.listOfJson).getD [] := by
  induction members with
  | nil => rfl
  | cons member members ih =>
    obtain ⟨key, value⟩ := member
    rw [Element.childrenIn, Fields.get?_cons]
    split
    · rfl
    · exact ih

theorem Use.ofJson_toJson (use : Use) : Use.ofJson use.toJson = use := rfl

theorem Repetition.ofJson_toJson (repetition : Repetition) :
    Repetition.ofJson repetition.toJson = repetition := by
  obtain ⟨collection, itemName, indexName⟩ := repetition
  cases itemName <;> cases indexName <;> rfl

theorem Code.ofJson_toJson (code : Code) : Code.ofJson code.toJson = code := by
  obtain ⟨actions, bindings⟩ := code
  have first : textsOfMembers ((Code.toJson ⟨actions, bindings⟩).membersAt "actions") = actions :=
    textsOfMembers_mapValues actions
  have second : textsOfMembers ((Code.toJson ⟨actions, bindings⟩).membersAt "bindings") =
      bindings := textsOfMembers_mapValues bindings
  rw [Code.ofJson, first, second]

private theorem map_comp_self {α β : Type} {write : α → β} {read : β → α}
    (inverse : ∀ value, read (write value) = value) (value : Option α) :
    (value.map write).map read = value := by
  cases value with
  | none => rfl
  | some value => exact congrArg some (inverse value)

private theorem bind_comp_self {α β : Type} (write : α → β) {read : β → Option α}
    (inverse : ∀ value, read (write value) = some value) (value : Option α) :
    (value.map write).bind read = value := by
  cases value with
  | none => rfl
  | some value => exact inverse value

private theorem stylesOfMembers (styles : List (String × List (String × Json))) :
    Fields.mapValues (fun bucket => bucket.members?.getD [])
      (Fields.mapValues Json.object styles) = styles := by
  simp [Fields.mapValues, Function.comp_def, Json.members?]

theorem Element.textAt?_toJson (element : Element) {key : String} (value : Option String)
    (h : Fields.get? element.entries key = some (value.map Json.string)) :
    element.toJson.textAt? key = value := by
  rw [Json.textAt?, Element.get?_toJson, h]
  exact bind_comp_self Json.string (fun _ => rfl) value

theorem Element.textsAt_toJson (element : Element) {key : String} {texts : Fields String}
    (h : Fields.get? element.entries key = some (some (textsToJson texts))) :
    textsOfMembers (element.toJson.membersAt key) = texts := by
  rw [Json.membersAt, Element.get?_toJson, h]
  exact textsOfMembers_mapValues texts

mutual

/-- The data of an element stands for the element. -/
theorem Element.ofJson_toJson (element : Element) : Element.ofJson element.toJson = element := by
  match element with
  | ⟨type, version, id, tagName, layerName, component, properties, bindings, styles, repetition,
      code, actions, children⟩ =>
    generalize whole : Element.mk type version id tagName layerName component properties bindings
      styles repetition code actions children = element
    have data := element.toJson_eq
    rw [data, Element.ofJson, ← data]
    subst whole
    simp only [Element.mk.injEq]
    refine ⟨?_, ?_, ?_, ?_, ?_, ?_, ?_, ?_, ?_, ?_, ?_, ?_, ?_⟩
    · rw [Element.textAt?_toJson _ (some type) rfl]
      rfl
    · rw [Element.get?_toJson]
      rfl
    · exact Element.textAt?_toJson _ _ rfl
    · exact Element.textAt?_toJson _ _ rfl
    · exact Element.textAt?_toJson _ _ rfl
    · rw [Element.get?_toJson]
      exact map_comp_self Use.ofJson_toJson component
    · rw [Element.get?_toJson]
      exact bind_comp_self Json.object (fun _ => rfl) properties
    · exact Element.textsAt_toJson _ rfl
    · rw [Element.get?_toJson]
      cases styles with
      | none => rfl
      | some styles => exact congrArg some (stylesOfMembers styles)
    · rw [Element.get?_toJson]
      exact map_comp_self Repetition.ofJson_toJson repetition
    · rw [Element.get?_toJson]
      exact Code.ofJson_toJson code
    · exact Element.textsAt_toJson _ rfl
    · rw [Element.childrenIn_eq, Json.get?_present (Element.distinct_entries _)]
      exact Element.ofItems_listToJson children

theorem Element.ofItems_listToJson (elements : List Element) :
    Element.ofItems (Element.listToJson elements) = elements := by
  match elements with
  | [] => rfl
  | element :: elements =>
    rw [Element.listToJson, Element.ofItems, Element.ofJson_toJson element,
      Element.ofItems_listToJson elements]

end

/-! ## Reading elements in their shape -/

mutual

/-- An element without versions that are `null`, which is how a reader takes it. -/
def Element.stripped : Element → Element
  | ⟨type, version, id, tagName, layerName, component, properties, bindings, styles, repetition,
      code, actions, children⟩ =>
    ⟨type, version.filter fun value => !value.isNull, id, tagName, layerName, component,
      properties, bindings, styles, repetition, code, actions, Element.strippedList children⟩

def Element.strippedList : List Element → List Element
  | [] => []
  | element :: elements => element.stripped :: Element.strippedList elements

end

theorem Element.isSettled_entry {element : Element} (h : element.toJson.isSettled = true)
    (key : String) {value : Json} (found : Fields.get? element.entries key = some (some value)) :
    value.isSettled = true := by
  rw [Element.toJson_eq, Json.isSettled_object, Json.haveSettled_iff] at h
  have stored : Fields.get? (present element.entries) key = some value := by
    rw [Json.get?_present element.distinct_entries, found]
    rfl
  exact h.2 (key, value) (Fields.mem_of_get? stored)

theorem fit_texts {texts : Fields String} (h : (textsToJson texts).isSettled = true) :
    (Shape.map .string).fit schema (textsToJson texts) = .ok (textsToJson texts) := by
  apply Shape.fit_map (Json.isSettled_object.mp h).1
  intro entry member
  obtain ⟨text, _, rfl⟩ := List.mem_map.mp member
  exact Shape.fit_string text.2

theorem fit_styles {styles : List (String × List (String × Json))}
    (h : (Json.object (Fields.mapValues Json.object styles)).isSettled = true) :
    (Shape.map (.map .any)).fit schema (.object (Fields.mapValues Json.object styles)) =
      .ok (.object (Fields.mapValues Json.object styles)) := by
  obtain ⟨distinct, inner⟩ := Json.isSettled_object.mp h
  apply Shape.fit_map distinct
  intro entry member
  have settled := Json.haveSettled_iff.mp inner entry member
  obtain ⟨bucket, _, rfl⟩ := List.mem_map.mp member
  exact Shape.fit_map_any (Json.isSettled_object.mp settled).1

/-- The fields of one of the records of page content. -/
abbrev fieldsOf (name : String) : String → Option Json.Field :=
  (Json.Schema.record schema name).fieldAt?

theorem fitsField_text {name key : String} {field : Json.Field}
    (known : fieldsOf name key = some field) (shape : field.shape = .string)
    (text : Option String) :
    FitsField schema (fieldsOf name) (key, text.map Json.string) (key, text.map Json.string) := by
  cases text with
  | none => exact .absent key
  | some text => exact .given known (Bool.and_false _) (shape ▸ Shape.fit_string text)

theorem Use.fit_toJson {use : Use} (h : use.toJson.isSettled = true) :
    (Shape.record "BuilderComponent").fit schema use.toJson = .ok use.toJson := by
  have options : (Json.object use.options).isSettled = true :=
    Json.haveSettled_iff.mp (Json.isSettled_object.mp h).2 ("options", .object use.options)
      (List.mem_cons_of_mem _ List.mem_cons_self)
  have fits : List.Forall₂ (FitsField schema (fieldsOf "BuilderComponent"))
      [("name", some (.string use.name)), ("options", some (.object use.options))]
      [("name", some (.string use.name)), ("options", some (.object use.options))] :=
    .cons (fitsField_text rfl rfl (some use.name))
      (.cons (.given rfl rfl (Shape.fit_map_any (Json.isSettled_object.mp options).1)) .nil)
  exact Shape.fit_record_present rfl fits rfl rfl (by decide)

theorem Repetition.fit_toJson (repetition : Repetition) :
    (Shape.record "BuilderRepeat").fit schema repetition.toJson = .ok repetition.toJson := by
  have fits : List.Forall₂ (FitsField schema (fieldsOf "BuilderRepeat"))
      [("collection", some (.string repetition.collection)),
        ("itemName", repetition.itemName.map Json.string),
        ("indexName", repetition.indexName.map Json.string)]
      [("collection", some (.string repetition.collection)),
        ("itemName", repetition.itemName.map Json.string),
        ("indexName", repetition.indexName.map Json.string)] :=
    .cons (fitsField_text rfl rfl (some repetition.collection))
      (.cons (fitsField_text rfl rfl repetition.itemName)
        (.cons (fitsField_text rfl rfl repetition.indexName) .nil))
  have whole := Shape.fit_record_present rfl fits rfl rfl (by decide)
  simpa [present, Repetition.toJson, optionalMember] using whole

theorem Code.fit_toJson {code : Code} (h : code.toJson.isSettled = true) :
    (Shape.record "BuilderCode").fit schema code.toJson = .ok code.toJson := by
  have inner := Json.haveSettled_iff.mp (Json.isSettled_object.mp h).2
  have actions : (textsToJson code.actions).isSettled = true :=
    inner ("actions", textsToJson code.actions) List.mem_cons_self
  have bindings : (textsToJson code.bindings).isSettled = true :=
    inner ("bindings", textsToJson code.bindings) (List.mem_cons_of_mem _ List.mem_cons_self)
  have fits : List.Forall₂ (FitsField schema (fieldsOf "BuilderCode"))
      [("actions", some (textsToJson code.actions)), ("bindings", some (textsToJson code.bindings))]
      [("actions", some (textsToJson code.actions)),
        ("bindings", some (textsToJson code.bindings))] :=
    .cons (.given rfl rfl (fit_texts actions)) (.cons (.given rfl rfl (fit_texts bindings)) .nil)
  exact Shape.fit_record_present rfl fits rfl rfl (by decide)

theorem fitsField_object {name key : String} {field : Json.Field} {value : Option Json}
    (known : fieldsOf name key = some field)
    (fits : ∀ read, value = some read → read.isNull = false ∧
      field.shape.fit schema read = .ok read) :
    FitsField schema (fieldsOf name) (key, value) (key, value) := by
  cases value with
  | none => exact .absent key
  | some read =>
    obtain ⟨given, fits⟩ := fits read rfl
    exact .given known (by rw [given, Bool.and_false]) fits

/-- A version is kept unless it is `null`. -/
theorem fitsField_version (version : Option Json) :
    FitsField schema (fieldsOf "BuilderElement") ("@version", version)
      ("@version", version.filter fun value => !value.isNull) := by
  cases version with
  | none => exact .absent _
  | some value =>
    cases value with
    | null => exact .null rfl rfl
    | _ => exact .given rfl rfl (Shape.fit_any _)

mutual

theorem Element.fit_toJson (element : Element) (h : element.toJson.isSettled = true) :
    elementShape.fit schema element.toJson = .ok element.stripped.toJson := by
  match element with
  | ⟨type, version, id, tagName, layerName, component, properties, bindings, styles, repetition,
      code, actions, children⟩ =>
    generalize whole : Element.mk type version id tagName layerName component properties bindings
      styles repetition code actions children = element
    rw [Element.toJson_eq]
    have fits : List.Forall₂ (FitsField schema (fieldsOf "BuilderElement")) element.entries
        element.stripped.entries := by
      subst whole
      refine .cons (fitsField_text rfl rfl (some type)) <| .cons (fitsField_version version) <|
        .cons (fitsField_text rfl rfl id) <| .cons (fitsField_text rfl rfl tagName) <|
        .cons (fitsField_text rfl rfl layerName) <| .cons (fitsField_object rfl ?component) <|
        .cons (fitsField_object rfl ?properties) <| .cons (fitsField_object rfl ?bindings) <|
        .cons (fitsField_object rfl ?styles) <| .cons (fitsField_object rfl ?repetition) <|
        .cons (fitsField_object rfl ?code) <| .cons (fitsField_object rfl ?actions) <|
        .cons (.given rfl rfl (Shape.fit_list (Element.fitItems_listToJson children ?children)))
          .nil
      case component =>
        rintro read given
        obtain ⟨use, rfl, rfl⟩ := Option.map_eq_some_iff.mp given
        exact ⟨rfl, Use.fit_toJson (Element.isSettled_entry h "component" rfl)⟩
      case properties =>
        rintro read given
        obtain ⟨members, rfl, rfl⟩ := Option.map_eq_some_iff.mp given
        have settled := Element.isSettled_entry h "properties" rfl
        exact ⟨rfl, Shape.fit_map_any (Json.isSettled_object.mp settled).1⟩
      case bindings =>
        rintro read ⟨⟩
        exact ⟨rfl, fit_texts (Element.isSettled_entry h "bindings" rfl)⟩
      case styles =>
        rintro read given
        obtain ⟨buckets, rfl, rfl⟩ := Option.map_eq_some_iff.mp given
        exact ⟨rfl, fit_styles (Element.isSettled_entry h "responsiveStyles" rfl)⟩
      case repetition =>
        rintro read given
        obtain ⟨repetition, rfl, rfl⟩ := Option.map_eq_some_iff.mp given
        exact ⟨rfl, Repetition.fit_toJson repetition⟩
      case code =>
        rintro read ⟨⟩
        exact ⟨rfl, Code.fit_toJson (Element.isSettled_entry h "code" rfl)⟩
      case actions =>
        rintro read ⟨⟩
        exact ⟨rfl, fit_texts (Element.isSettled_entry h "actions" rfl)⟩
      case children => exact Element.isSettled_entry h "children" rfl
    rw [elementShape, Shape.fit_record_present rfl fits rfl rfl (by decide), ← Element.toJson_eq]

theorem Element.fitItems_listToJson (elements : List Element)
    (h : Json.areSettled (Element.listToJson elements) = true) :
    Json.fitItems schema elementShape (Element.listToJson elements) =
      .ok (Element.listToJson (Element.strippedList elements)) := by
  match elements with
  | [] => rfl
  | element :: elements =>
    rw [Element.listToJson, Json.areSettled, Bool.and_eq_true] at h
    rw [Element.listToJson, Json.fitItems, Element.fit_toJson element h.1]
    simp only [Element.fitItems_listToJson elements h.2, Element.strippedList, Element.listToJson]

end

end BlockLoom.Content
