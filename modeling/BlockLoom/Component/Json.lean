import BlockLoom.Component.Basic
import BlockLoom.Json.Shape

/-!
Components as JSON. Empty scopes and absent values are left out when a component
is written and may be left out when it is read; a reader also accepts components
that leave out any other field but names and sources.
-/

namespace BlockLoom

/-! ## Names of choices -/

def BindingUse.name : BindingUse → String
  | .expression => "expression"
  | .property => "property"

def BindingUse.ofName (name : String) : BindingUse :=
  if name = "property" then .property else .expression

def BindingExtent.name : BindingExtent → String
  | .single => "single"
  | .spread => "spread"

def BindingExtent.ofName (name : String) : BindingExtent :=
  if name = "spread" then .spread else .single

def StateKind.name : StateKind → String
  | .property => "property"
  | .function => "function"
  | .method => "method"
  | .getter => "getter"

def StateKind.ofName (name : String) : StateKind :=
  if name = "function" then .function
  else if name = "method" then .method
  else if name = "getter" then .getter
  else .property

/-! ## Shapes -/

namespace Component

open Json (Schema Shape)

def schema : Schema :=
  [ { name := "MitosisComponent"
      fields :=
        [⟨"name", .string, .required⟩,
          ⟨"state", .map (.record "StateValue"), .defaulted⟩,
          ⟨"inputs", .list (.record "ComponentInput"), .defaulted⟩,
          ⟨"hooks", .record "Hooks", .defaulted⟩,
          ⟨"children", .list (.record "MitosisNode"), .defaulted⟩,
          ⟨"meta", .map .any, .defaulted⟩] },
    { name := "MitosisNode"
      fields :=
        [⟨"name", .string, .required⟩,
          ⟨"properties", .map .any, .defaulted⟩,
          ⟨"bindings", .map (.record "Binding"), .defaulted⟩,
          ⟨"children", .list (.record "MitosisNode"), .defaulted⟩,
          ⟨"slots", .map (.list (.record "MitosisNode")), .defaulted⟩,
          ⟨"scope", .record "Scope", .defaulted⟩,
          ⟨"meta", .map .any, .defaulted⟩] },
    { name := "Binding"
      fields :=
        [⟨"code", .string, .required⟩,
          ⟨"bindingType", .choice "BindingType" ["expression", "property"], .defaulted⟩,
          ⟨"type", .choice "BindingKind" ["single", "spread"], .defaulted⟩] },
    { name := "Scope"
      fields := [⟨"forName", .string, .optional⟩, ⟨"indexName", .string, .optional⟩] },
    { name := "StateValue"
      fields :=
        [⟨"code", .string, .required⟩,
          ⟨"type", .choice "StateKind" ["property", "function", "method", "getter"],
            .defaulted⟩] },
    { name := "ComponentInput"
      fields :=
        [⟨"name", .string, .required⟩, ⟨"defaultValue", .any, .optional⟩,
          ⟨"meta", .map .any, .defaulted⟩] },
    { name := "Hooks"
      fields := [⟨"onMount", .string, .optional⟩] } ]

def shape : Shape := .record "MitosisComponent"

def nodeShape : Shape := .record "MitosisNode"

end Component

/-! ## Writing -/

def Binding.toJson (binding : Binding) : Json :=
  .object
    [("code", .string binding.code), ("bindingType", .string binding.use.name),
      ("type", .string binding.extent.name)]

def Scope.toJson (scope : Scope) : Json :=
  .object
    (Json.optionalMember "forName" (scope.itemName.map Json.string) ++
      Json.optionalMember "indexName" (scope.indexName.map Json.string))

mutual

def Node.toJson : Node → Json
  | ⟨name, properties, bindings, children, slots, scope, metadata⟩ =>
    .object
      ([("name", .string name), ("properties", .object properties),
        ("bindings", .object (Fields.mapValues Binding.toJson bindings)),
        ("children", .array (Node.listToJson children)),
        ("slots", .object (Node.slotsToJson slots))] ++
        (if scope.isEmpty then [] else [("scope", scope.toJson)]) ++
        [("meta", .object metadata)])

def Node.listToJson : List Node → List Json
  | [] => []
  | node :: nodes => node.toJson :: Node.listToJson nodes

def Node.slotsToJson : List (String × List Node) → List (String × Json)
  | [] => []
  | (key, nodes) :: slots => (key, .array (Node.listToJson nodes)) :: Node.slotsToJson slots

end

def StateMember.toJson (member : StateMember) : Json :=
  .object [("code", .string member.code), ("type", .string member.kind.name)]

def State.toJson (state : State) : Json :=
  .object (Fields.mapValues StateMember.toJson state)

def Input.toJson (input : Input) : Json :=
  .object
    ([("name", .string input.name)] ++ Json.optionalMember "defaultValue" input.defaultValue ++
      (if input.metadata.isEmpty then [] else [("meta", .object input.metadata)]))

def Component.toJson (component : Component) : Json :=
  .object
    [("name", .string component.name), ("state", component.state.toJson),
      ("inputs", .array (component.inputs.map Input.toJson)),
      ("hooks", .object (Json.optionalMember "onMount" (component.onMount.map Json.string))),
      ("children", .array (Node.listToJson component.children)),
      ("meta", .object component.metadata)]

/-! ## Reading

The functions below read data that is known to have the right shape. -/

def Binding.ofJson (json : Json) : Binding where
  code := json.textAt "code"
  use := .ofName (json.textAt "bindingType")
  extent := .ofName (json.textAt "type")

def Scope.ofJson (json : Json) : Scope where
  itemName := json.textAt? "forName"
  indexName := json.textAt? "indexName"

mutual

def Node.ofJson : Json → Node
  | .object members =>
    let json := Json.object members
    { name := json.textAt "name"
      properties := json.membersAt "properties"
      bindings := Fields.mapValues Binding.ofJson (json.membersAt "bindings")
      children := Node.childrenIn members
      slots := Node.slotsIn members
      scope := ((json.get? "scope").map Scope.ofJson).getD {}
      metadata := json.membersAt "meta" }
  | _ => Node.named ""

def Node.listOfJson : Json → List Node
  | .array items => Node.ofItems items
  | _ => []

def Node.ofItems : List Json → List Node
  | [] => []
  | item :: items => Node.ofJson item :: Node.ofItems items

def Node.childrenIn : List (String × Json) → List Node
  | [] => []
  | (key, value) :: members =>
    if key = "children" then Node.listOfJson value else Node.childrenIn members

def Node.slotsIn : List (String × Json) → List (String × List Node)
  | [] => []
  | (key, value) :: members =>
    if key = "slots" then Node.slotsOfJson value else Node.slotsIn members

def Node.slotsOfJson : Json → List (String × List Node)
  | .object members => Node.slotsOfMembers members
  | _ => []

def Node.slotsOfMembers : List (String × Json) → List (String × List Node)
  | [] => []
  | (key, value) :: members => (key, Node.listOfJson value) :: Node.slotsOfMembers members

end

def StateMember.ofJson (json : Json) : StateMember where
  code := json.textAt "code"
  kind := .ofName (json.textAt "type")

def State.ofMembers (members : List (String × Json)) : State :=
  Fields.mapValues StateMember.ofJson members

def Input.ofJson (json : Json) : Input where
  name := json.textAt "name"
  defaultValue := json.get? "defaultValue"
  metadata := json.membersAt "meta"

def Component.ofJson (json : Json) : Component where
  name := json.textAt "name"
  state := State.ofMembers (json.membersAt "state")
  inputs := (json.itemsAt "inputs").map Input.ofJson
  onMount := (json.get? "hooks").bind fun hooks => hooks.textAt? "onMount"
  children := Node.ofItems (json.itemsAt "children")
  metadata := json.membersAt "meta"

def Node.read (source : String) : Except String Node :=
  (Component.nodeShape.parse Component.schema source).map Node.ofJson

def Node.readList (source : String) : Except String (List Node) :=
  ((Json.Shape.list Component.nodeShape).parse Component.schema source).map Node.listOfJson

def Component.read (source : String) : Except String Component :=
  (Component.shape.parse Component.schema source).map Component.ofJson

def State.read (source : String) : Except String State :=
  ((Json.Shape.map (.record "StateValue")).parse Component.schema source).map fun json =>
    State.ofMembers (json.members?.getD [])

def Component.write (pretty : Bool) (component : Component) : String :=
  component.toJson.render (.ofPretty pretty) 0

end BlockLoom
