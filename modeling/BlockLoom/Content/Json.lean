import BlockLoom.Content.Element

/-!
Page content as JSON. Fields without a value are left out, apart from the
bindings, the code, the actions and the children of an element, which are always
written. A reader accepts elements without any of these fields.
-/

namespace BlockLoom.Content

open BlockLoom.Json (Schema Shape optionalMember)

/-! ## Shapes -/

/-- The records that make up page content. -/
def schema : Schema :=
  [ { name := "BuilderContent"
      fields :=
        [⟨"name", .string, .optional⟩, ⟨"data", .record "BuilderData", .defaulted⟩] },
    { name := "BuilderData"
      fields :=
        [⟨"cssCode", .string, .optional⟩, ⟨"jsCode", .string, .optional⟩,
          ⟨"tsCode", .string, .optional⟩,
          ⟨"inputs", .list (.record "BuilderInput"), .defaulted⟩,
          ⟨"blocks", .list (.record "BuilderElement"), .defaulted⟩] },
    { name := "BuilderElement"
      fields :=
        [⟨"@type", .string, .defaulted⟩, ⟨"@version", .any, .optional⟩,
          ⟨"id", .string, .optional⟩, ⟨"tagName", .string, .optional⟩,
          ⟨"layerName", .string, .optional⟩,
          ⟨"component", .record "BuilderComponent", .optional⟩,
          ⟨"properties", .map .any, .optional⟩, ⟨"bindings", .map .string, .defaulted⟩,
          ⟨"responsiveStyles", .map (.map .any), .optional⟩,
          ⟨"repeat", .record "BuilderRepeat", .optional⟩,
          ⟨"code", .record "BuilderCode", .defaulted⟩,
          ⟨"actions", .map .string, .defaulted⟩,
          ⟨"children", .list (.record "BuilderElement"), .defaulted⟩] },
    { name := "BuilderComponent"
      fields := [⟨"name", .string, .required⟩, ⟨"options", .map .any, .defaulted⟩] },
    { name := "BuilderRepeat"
      fields :=
        [⟨"collection", .string, .required⟩, ⟨"itemName", .string, .optional⟩,
          ⟨"indexName", .string, .optional⟩] },
    { name := "BuilderCode"
      fields :=
        [⟨"actions", .map .string, .defaulted⟩, ⟨"bindings", .map .string, .defaulted⟩] },
    { name := "BuilderInput"
      fields := [⟨"name", .string, .required⟩, ⟨"defaultValue", .any, .optional⟩]
      isOpen := true } ]

def shape : Shape := .record "BuilderContent"

def elementShape : Shape := .record "BuilderElement"

def inputShape : Shape := .record "BuilderInput"

/-! ## Writing -/

def textsToJson (texts : Fields String) : Json :=
  .object (Fields.mapValues Json.string texts)

def Use.toJson (use : Use) : Json :=
  .object [("name", .string use.name), ("options", .object use.options)]

def Repetition.toJson (repetition : Repetition) : Json :=
  .object
    ([("collection", .string repetition.collection)] ++
      optionalMember "itemName" (repetition.itemName.map Json.string) ++
      optionalMember "indexName" (repetition.indexName.map Json.string))

def Code.toJson (code : Code) : Json :=
  .object [("actions", textsToJson code.actions), ("bindings", textsToJson code.bindings)]

mutual

def Element.toJson : Element → Json
  | ⟨type, version, id, tagName, layerName, component, properties, bindings, styles, repetition,
      code, actions, children⟩ =>
    .object
      ([("@type", .string type)] ++ optionalMember "@version" version ++
        optionalMember "id" (id.map Json.string) ++
        optionalMember "tagName" (tagName.map Json.string) ++
        optionalMember "layerName" (layerName.map Json.string) ++
        optionalMember "component" (component.map Use.toJson) ++
        optionalMember "properties" (properties.map Json.object) ++
        [("bindings", textsToJson bindings)] ++
        optionalMember "responsiveStyles"
          (styles.map fun styles => .object (Fields.mapValues Json.object styles)) ++
        optionalMember "repeat" (repetition.map Repetition.toJson) ++
        [("code", code.toJson), ("actions", textsToJson actions),
          ("children", .array (Element.listToJson children))])

def Element.listToJson : List Element → List Json
  | [] => []
  | element :: elements => element.toJson :: Element.listToJson elements

end

/-- An input with its further fields beside the known ones. -/
def inputToJson (input : Input) : Json :=
  .object
    ([("name", .string input.name)] ++ optionalMember "defaultValue" input.defaultValue ++
      input.metadata)

end Content

namespace Content

def toJson (content : Content) : Json :=
  .object
    (Json.optionalMember "name" (content.name.map Json.string) ++
      [("data",
        .object
          (Json.optionalMember "cssCode" (content.css.map Json.string) ++
            Json.optionalMember "jsCode" (content.plainCode.map Json.string) ++
            Json.optionalMember "tsCode" (content.typedCode.map Json.string) ++
            (if content.inputs.isEmpty then []
              else [("inputs", .array (content.inputs.map inputToJson))]) ++
            [("blocks", .array (Element.listToJson content.blocks))]))])

/-! ## Reading

The functions below read data that is known to have the right shape. -/

def textsOfMembers (members : List (String × Json)) : Fields String :=
  Fields.mapValues (fun value => value.string?.getD "") members

def Use.ofJson (json : Json) : Use where
  name := json.textAt "name"
  options := json.membersAt "options"

def Repetition.ofJson (json : Json) : Repetition where
  collection := json.textAt "collection"
  itemName := json.textAt? "itemName"
  indexName := json.textAt? "indexName"

def Code.ofJson (json : Json) : Code where
  actions := textsOfMembers (json.membersAt "actions")
  bindings := textsOfMembers (json.membersAt "bindings")

mutual

def Element.ofJson : Json → Element
  | .object members =>
    let json := Json.object members
    { type := (json.textAt? "@type").getD elementType
      version := json.get? "@version"
      id := json.textAt? "id"
      tagName := json.textAt? "tagName"
      layerName := json.textAt? "layerName"
      component := (json.get? "component").map Use.ofJson
      properties := (json.get? "properties").bind Json.members?
      bindings := textsOfMembers (json.membersAt "bindings")
      styles :=
        ((json.get? "responsiveStyles").bind Json.members?).map
          (Fields.mapValues fun bucket => bucket.members?.getD [])
      repetition := (json.get? "repeat").map Repetition.ofJson
      code := ((json.get? "code").map Code.ofJson).getD {}
      actions := textsOfMembers (json.membersAt "actions")
      children := Element.childrenIn members }
  | _ => {}

def Element.listOfJson : Json → List Element
  | .array items => Element.ofItems items
  | _ => []

def Element.ofItems : List Json → List Element
  | [] => []
  | item :: items => Element.ofJson item :: Element.ofItems items

def Element.childrenIn : List (String × Json) → List Element
  | [] => []
  | (key, value) :: members =>
    if key = "children" then Element.listOfJson value else Element.childrenIn members

end

/-- An input of which all fields but the known ones are kept as they are. -/
def inputOfJson (json : Json) : Input where
  name := json.textAt "name"
  defaultValue := json.get? "defaultValue"
  metadata :=
    (json.members?.getD []).filter fun entry => entry.1 ≠ "name" ∧ entry.1 ≠ "defaultValue"

def ofJson (json : Json) : Content :=
  let data := (json.get? "data").getD (.object [])
  { name := json.textAt? "name"
    css := data.textAt? "cssCode"
    plainCode := data.textAt? "jsCode"
    typedCode := data.textAt? "tsCode"
    inputs := (data.itemsAt "inputs").map inputOfJson
    blocks := Element.ofItems (data.itemsAt "blocks") }

def Element.fromJson (value : Json) : Except String Element :=
  match elementShape.fit schema value with
  | .ok read => .ok (Element.ofJson read)
  | .error problem => .error problem.describe

def Element.read (source : String) : Except String Element :=
  (elementShape.parse schema source).map Element.ofJson

def readInput (source : String) : Except String Input :=
  (inputShape.parse schema source).map inputOfJson

/-- Reads the text of a document whose duplicate fields are refused. -/
def readStrict (source : String) : Except String Content :=
  (shape.parse schema source).map ofJson

/-- Reads the text of a document. Of duplicate fields the last one counts. -/
def read (source : String) : Except String Content :=
  match Json.parse source with
  | .error message => .error message
  | .ok value =>
    match shape.fit schema value with
    | .ok read => .ok (ofJson read)
    | .error problem => .error problem.describe

/-! ## Depth -/

mutual

theorem Element.depth_ofJson (json : Json) : (Element.ofJson json).depth ≤ json.depth := by
  match json with
  | .object members =>
    rw [Element.ofJson, Element.depth]
    apply Nat.max_le.mpr
    constructor
    · cases h : (Json.object members).get? "component" with
      | none => exact Nat.zero_le _
      | some found =>
        have := Json.depth_get? h
        have := Json.depthMembers_membersAt found "options"
        simp only [Option.map_some, Option.getD_some, Use.ofJson]
        omega
    · exact Element.depth_childrenIn members
  | .null | .bool _ | .number _ | .string _ | .array _ => exact Nat.zero_le _

theorem Element.depth_listOfJson (json : Json) :
    Element.depthList (Element.listOfJson json) ≤ json.depth := by
  match json with
  | .array items => exact Element.depth_ofItems items
  | .null | .bool _ | .number _ | .string _ | .object _ => exact Nat.zero_le _

theorem Element.depth_ofItems (items : List Json) :
    Element.depthList (Element.ofItems items) ≤ Json.depthItems items := by
  match items with
  | [] => exact Nat.zero_le _
  | item :: items =>
    rw [Element.ofItems, Element.depthList, Json.depthItems]
    have := Element.depth_ofJson item
    have := Element.depth_ofItems items
    omega

theorem Element.depth_childrenIn (members : List (String × Json)) :
    Element.depthList (Element.childrenIn members) ≤ Json.depthMembers members := by
  match members with
  | [] => exact Nat.zero_le _
  | (key, value) :: members =>
    rw [Element.childrenIn, Json.depthMembers]
    split
    · have := Element.depth_listOfJson value; omega
    · have := Element.depth_childrenIn members; omega

end

/-- An element is no deeper than the value it is read from. -/
theorem Element.depth_fromJson {value : Json} {element : Element}
    (h : Element.fromJson value = .ok element) : element.depth ≤ value.depth := by
  rw [Element.fromJson] at h
  split at h
  · next read hread =>
    cases h
    exact Nat.le_trans (Element.depth_ofJson read) (Json.Shape.depth_fit _ _ _ _ hread)
  · cases h

end BlockLoom.Content
