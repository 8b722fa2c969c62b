import BlockLoom.Component.Json
import BlockLoom.Proofs.Json.Record

/-!
Components as data, back and forth. The data of a component stand for the component,
and the shape of a component keeps them: nothing is added, dropped or reordered when
their text is read, as long as they can be read at all.
-/

namespace BlockLoom

open Json (Shape Field Readable present)

/-! ## Fields of the data -/

namespace Node

def entries (node : Node) : List (String × Option Json) :=
  [("name", some (.string node.name)), ("properties", some (.object node.properties)),
    ("bindings", some (.object (Fields.mapValues Binding.toJson node.bindings))),
    ("children", some (.array (listToJson node.children))),
    ("slots", some (.object (slotsToJson node.slots))),
    ("scope", if node.scope.isEmpty then none else some node.scope.toJson),
    ("meta", some (.object node.metadata))]

theorem toJson_eq (node : Node) : node.toJson = .object (present node.entries) := by
  cases node with
  | mk name properties bindings children slots scope metadata =>
    rw [toJson, entries]
    cases scope.isEmpty <;> rfl

theorem distinct_entries (node : Node) : Fields.Distinct node.entries := by
  have keys : Fields.names node.entries =
    ["name", "properties", "bindings", "children", "slots", "scope", "meta"] := rfl
  rw [Fields.Distinct, keys]
  decide

theorem get?_toJson (node : Node) (key : String) :
    node.toJson.get? key = (Fields.get? node.entries key).join := by
  rw [toJson_eq]
  exact Json.get?_present node.distinct_entries key

theorem childrenIn_eq (members : List (String × Json)) :
    childrenIn members = ((Fields.get? members "children").map listOfJson).getD [] := by
  induction members with
  | nil => rfl
  | cons member members ih =>
    obtain ⟨key, value⟩ := member
    rw [childrenIn, Fields.get?_cons]
    split
    · rfl
    · exact ih

theorem slotsIn_eq (members : List (String × Json)) :
    slotsIn members = ((Fields.get? members "slots").map slotsOfJson).getD [] := by
  induction members with
  | nil => rfl
  | cons member members ih =>
    obtain ⟨key, value⟩ := member
    rw [slotsIn, Fields.get?_cons]
    split
    · rfl
    · exact ih

theorem slotsToJson_eq (slots : List (String × List Node)) :
    slotsToJson slots = Fields.mapValues (fun nodes => .array (listToJson nodes)) slots := by
  induction slots with
  | nil => rfl
  | cons slot slots ih => exact congrArg (_ :: ·) ih

end Node

def Input.entries (input : Input) : List (String × Option Json) :=
  [("name", some (.string input.name)), ("defaultValue", input.defaultValue),
    ("meta", if input.metadata.isEmpty then none else some (.object input.metadata))]

theorem Input.toJson_eq (input : Input) : input.toJson = .object (present input.entries) := by
  rw [Input.toJson, Input.entries]
  cases input.metadata.isEmpty <;> simp [present, Json.optionalMember]

theorem Input.distinct_entries (input : Input) : Fields.Distinct input.entries := by
  have keys : Fields.names input.entries = ["name", "defaultValue", "meta"] := rfl
  rw [Fields.Distinct, keys]
  decide

theorem Input.get?_toJson (input : Input) (key : String) :
    input.toJson.get? key = (Fields.get? input.entries key).join := by
  rw [Input.toJson_eq]
  exact Json.get?_present input.distinct_entries key

/-! ## Data stand for what they are the data of -/

theorem Binding.ofJson_toJson (binding : Binding) : Binding.ofJson binding.toJson = binding := by
  obtain ⟨code, use, extent⟩ := binding
  cases use <;> cases extent <;> rfl

theorem Scope.ofJson_toJson (scope : Scope) : Scope.ofJson scope.toJson = scope := by
  obtain ⟨itemName, indexName⟩ := scope
  cases itemName <;> cases indexName <;> rfl

theorem StateMember.ofJson_toJson (member : StateMember) :
    StateMember.ofJson member.toJson = member := by
  obtain ⟨code, kind⟩ := member
  cases kind <;> rfl

/-- Converting the values of a map and back changes nothing. -/
theorem Fields.mapValues_mapValues {α β : Type} {write : α → β} {read : β → α}
    (inverse : ∀ value, read (write value) = value) (fields : Fields α) :
    Fields.mapValues read (Fields.mapValues write fields) = fields := by
  simp [Fields.mapValues, Function.comp_def, inverse]

theorem Input.ofJson_toJson (input : Input) : Input.ofJson input.toJson = input := by
  have name : input.toJson.textAt "name" = input.name := by
    rw [Json.textAt, Json.textAt?, Input.get?_toJson]
    rfl
  have default : input.toJson.get? "defaultValue" = input.defaultValue := by
    rw [Input.get?_toJson]
    rfl
  have metadata : input.toJson.membersAt "meta" = input.metadata := by
    rw [Json.membersAt, Input.get?_toJson]
    change (((if input.metadata.isEmpty then none else some (.object input.metadata) :
      Option Json).bind Json.members?).getD []) = _
    split
    · next none => exact (List.isEmpty_iff.mp none).symm
    · rfl
  rw [Input.ofJson, name, default, metadata]

mutual

/-- The data of a node stand for the node. -/
theorem Node.ofJson_toJson (node : Node) : Node.ofJson node.toJson = node := by
  match node with
  | ⟨name, properties, bindings, children, slots, scope, metadata⟩ =>
    generalize whole : Node.mk name properties bindings children slots scope metadata = node
    have data := node.toJson_eq
    rw [data, Node.ofJson, ← data]
    subst whole
    simp only [Node.mk.injEq]
    refine ⟨?_, ?_, ?_, ?_, ?_, ?_, ?_⟩
    · rw [Json.textAt, Json.textAt?, Node.get?_toJson]
      rfl
    · rw [Json.membersAt, Node.get?_toJson]
      rfl
    · rw [Json.membersAt, Node.get?_toJson]
      exact Fields.mapValues_mapValues Binding.ofJson_toJson bindings
    · rw [Node.childrenIn_eq, Json.get?_present (Node.distinct_entries _)]
      exact Node.ofItems_listToJson children
    · rw [Node.slotsIn_eq, Json.get?_present (Node.distinct_entries _)]
      exact Node.slotsOfMembers_slotsToJson slots
    · rw [Node.get?_toJson]
      change ((if scope.isEmpty then none else some scope.toJson : Option Json).map
        Scope.ofJson).getD {} = _
      split
      · next none =>
        obtain ⟨itemName, indexName⟩ := scope
        simp_all [Scope.isEmpty]
      · exact Scope.ofJson_toJson scope
    · rw [Json.membersAt, Node.get?_toJson]
      rfl

theorem Node.ofItems_listToJson (nodes : List Node) :
    Node.ofItems (Node.listToJson nodes) = nodes := by
  match nodes with
  | [] => rfl
  | node :: nodes =>
    rw [Node.listToJson, Node.ofItems, Node.ofJson_toJson node, Node.ofItems_listToJson nodes]

theorem Node.slotsOfMembers_slotsToJson (slots : List (String × List Node)) :
    Node.slotsOfMembers (Node.slotsToJson slots) = slots := by
  match slots with
  | [] => rfl
  | (key, nodes) :: slots =>
    rw [Node.slotsToJson, Node.slotsOfMembers, Node.listOfJson, Node.ofItems_listToJson nodes,
      Node.slotsOfMembers_slotsToJson slots]

end

/-- The data of a component stand for the component. -/
theorem Component.ofJson_toJson (component : Component) :
    Component.ofJson component.toJson = component := by
  obtain ⟨name, state, inputs, onMount, children, metadata⟩ := component
  have members : State.ofMembers (Fields.mapValues StateMember.toJson state) = state :=
    Fields.mapValues_mapValues StateMember.ofJson_toJson state
  have declared : (inputs.map Input.toJson).map Input.ofJson = inputs := by
    simp [Function.comp_def, Input.ofJson_toJson]
  have mounted : (Json.object (Json.optionalMember "onMount" (onMount.map Json.string))).textAt?
      "onMount" = onMount := by
    cases onMount <;> rfl
  change Component.mk name (State.ofMembers (Fields.mapValues StateMember.toJson state))
    ((inputs.map Input.toJson).map Input.ofJson) ((Json.object (Json.optionalMember "onMount"
      (onMount.map Json.string))).textAt? "onMount") (Node.ofItems (Node.listToJson children))
    metadata = _
  rw [members, declared, mounted, Node.ofItems_listToJson]

/-! ## Maps that hold each key once -/

namespace Node

mutual

/-- Whether every map of a node and of the nodes in it holds each key once. -/
def isKeyed : Node → Bool
  | ⟨_, properties, bindings, children, slots, _, metadata⟩ =>
    (Json.object properties).isSettled && decide (Fields.Distinct bindings) &&
      areKeyed children && decide (Fields.Distinct slots) && haveKeyed slots &&
      (Json.object metadata).isSettled

def areKeyed : List Node → Bool
  | [] => true
  | node :: nodes => isKeyed node && areKeyed nodes

def haveKeyed : List (String × List Node) → Bool
  | [] => true
  | (_, nodes) :: slots => areKeyed nodes && haveKeyed slots

end

/-- What it means for the maps of a node to hold each key once. -/
structure Keyed (node : Node) : Prop where
  properties : (Json.object node.properties).isSettled = true
  bindings : Fields.Distinct node.bindings
  children : areKeyed node.children = true
  slotNames : Fields.Distinct node.slots
  slots : haveKeyed node.slots = true
  metadata : (Json.object node.metadata).isSettled = true

theorem keyed_of_isKeyed {node : Node} (h : node.isKeyed = true) : node.Keyed := by
  cases node
  simp only [isKeyed, Bool.and_eq_true, decide_eq_true_eq] at h
  obtain ⟨⟨⟨⟨⟨properties, bindings⟩, children⟩, slotNames⟩, slots⟩, metadata⟩ := h
  exact ⟨properties, bindings, children, slotNames, slots, metadata⟩

theorem areKeyed_iff {nodes : List Node} :
    areKeyed nodes = true ↔ ∀ node ∈ nodes, node.isKeyed = true := by
  induction nodes with
  | nil => simp [areKeyed]
  | cons node nodes ih => rw [areKeyed, Bool.and_eq_true, ih, List.forall_mem_cons]

theorem haveKeyed_iff {slots : List (String × List Node)} :
    haveKeyed slots = true ↔ ∀ slot ∈ slots, areKeyed slot.2 = true := by
  induction slots with
  | nil => simp [haveKeyed]
  | cons slot slots ih => rw [haveKeyed, Bool.and_eq_true, ih, List.forall_mem_cons]

end Node

/-- Whether every map of a component holds each key once. -/
def Component.isKeyed (component : Component) : Bool :=
  decide (Fields.Distinct component.state) && Node.areKeyed component.children &&
    component.inputs.all (fun input => (Json.object input.metadata).isSettled &&
      input.defaultValue.all Json.isSettled) &&
    (Json.object component.metadata).isSettled

mutual

/-- The data of a node whose maps hold each key once repeat no member. -/
theorem Node.isSettled_toJson (node : Node) (h : node.isKeyed = true) :
    node.toJson.isSettled = true := by
  match node with
  | ⟨name, properties, bindings, children, slots, scope, metadata⟩ =>
    have keyed := Node.keyed_of_isKeyed h
    rw [Node.toJson_eq, Json.isSettled_object]
    refine ⟨Json.distinct_present (Node.distinct_entries _), Json.haveSettled_present ?_⟩
    simp only [Node.entries, List.forall_mem_cons, List.not_mem_nil, false_implies, implies_true,
      and_true, Option.some.injEq, forall_eq']
    refine ⟨rfl, keyed.properties, ?_, Node.areSettled_listToJson children keyed.children, ?_, ?_,
      keyed.metadata⟩
    · rw [Json.isSettled_object, Json.haveSettled_iff]
      refine ⟨keyed.bindings.mapValues _, fun member stored => ?_⟩
      obtain ⟨binding, -, rfl⟩ := List.mem_map.mp stored
      rfl
    · rw [Json.isSettled_object, Node.slotsToJson_eq]
      exact ⟨keyed.slotNames.mapValues _,
        Node.slotsToJson_eq slots ▸ Node.haveSettled_slotsToJson slots keyed.slots⟩
    · intro read written
      split at written
      · cases written
      · cases written
        obtain ⟨itemName, indexName⟩ := scope
        cases itemName <;> cases indexName <;> rfl

theorem Node.areSettled_listToJson (nodes : List Node) (h : Node.areKeyed nodes = true) :
    Json.areSettled (Node.listToJson nodes) = true := by
  match nodes with
  | [] => rfl
  | node :: nodes =>
    rw [Node.areKeyed, Bool.and_eq_true] at h
    rw [Node.listToJson, Json.areSettled, Node.isSettled_toJson node h.1,
      Node.areSettled_listToJson nodes h.2]
    rfl

theorem Node.haveSettled_slotsToJson (slots : List (String × List Node))
    (h : Node.haveKeyed slots = true) : Json.haveSettled (Node.slotsToJson slots) = true := by
  match slots with
  | [] => rfl
  | (key, nodes) :: slots =>
    rw [Node.haveKeyed, Bool.and_eq_true] at h
    rw [Node.slotsToJson, Json.haveSettled, Json.isSettled, Node.areSettled_listToJson nodes h.1,
      Node.haveSettled_slotsToJson slots h.2]
    rfl

end

theorem Input.isSettled_toJson {input : Input}
    (default : input.defaultValue.all Json.isSettled = true)
    (metadata : (Json.object input.metadata).isSettled = true) :
    input.toJson.isSettled = true := by
  rw [Input.toJson_eq, Json.isSettled_object]
  refine ⟨Json.distinct_present input.distinct_entries, Json.haveSettled_present ?_⟩
  simp only [Input.entries, List.forall_mem_cons, List.not_mem_nil, false_implies, implies_true,
    and_true, Option.some.injEq, forall_eq']
  refine ⟨rfl, fun read given => ?_, fun read written => ?_⟩
  · rw [given] at default
    exact default
  · split at written
    · cases written
    · cases written
      exact metadata

/-- The data of a component whose maps hold each key once repeat no member. -/
theorem Component.isSettled_toJson {component : Component} (h : component.isKeyed = true) :
    component.toJson.isSettled = true := by
  simp only [Component.isKeyed, Bool.and_eq_true, decide_eq_true_eq, List.all_eq_true] at h
  obtain ⟨⟨⟨state, children⟩, inputs⟩, metadata⟩ := h
  have members : component.state.toJson.isSettled = true := by
    rw [State.toJson, Json.isSettled_object, Json.haveSettled_iff]
    refine ⟨state.mapValues _, fun member stored => ?_⟩
    obtain ⟨entry, -, rfl⟩ := List.mem_map.mp stored
    rfl
  have declared : Json.areSettled (component.inputs.map Input.toJson) = true := by
    rw [Json.areSettled_iff]
    intro item member
    obtain ⟨input, among, rfl⟩ := List.mem_map.mp member
    exact Input.isSettled_toJson (inputs input among).2 (inputs input among).1
  have hooks : (Json.object (Json.optionalMember "onMount"
      (component.onMount.map Json.string))).isSettled = true := by
    cases component.onMount <;> rfl
  have keys : Fields.names (component.toJson.members?.getD []) =
    ["name", "state", "inputs", "hooks", "children", "meta"] := rfl
  rw [Component.toJson, Json.isSettled_object, Json.haveSettled_iff]
  refine ⟨?_, ?_⟩
  · change (Fields.names (component.toJson.members?.getD [])).Nodup
    rw [keys]
    decide
  · simp only [List.forall_mem_cons, List.not_mem_nil, false_implies, implies_true, and_true]
    exact ⟨rfl, members, declared, hooks, Node.areSettled_listToJson component.children children,
      metadata⟩

/-! ## The shape of a component keeps its data -/

variable {limit : Nat}

abbrev Component.fieldsOf (name : String) : List Field :=
  (Component.schema.record name).fields

theorem keeps_text {field : Field} (shape : field.shape = .string)
    (free : field.presence ≠ .required) (text : Option String) :
    Field.Keeps Component.schema limit field (field.name, text.map Json.string) := by
  cases text with
  | none => exact .absent free
  | some text => exact .given (fun _ => rfl) (shape ▸ Shape.keeps_string limit text)

theorem Binding.keeps_toJson (binding : Binding) :
    (Shape.record "Binding").Keeps Component.schema (limit + 1) binding.toJson := by
  have use : binding.use.name ∈ ["expression", "property"] := by cases binding.use <;> decide
  have extent : binding.extent.name ∈ ["single", "spread"] := by cases binding.extent <;> decide
  have kept : List.Forall₂ (Field.Keeps Component.schema limit) (Component.fieldsOf "Binding")
      [("code", some (.string binding.code)), ("bindingType", some (.string binding.use.name)),
        ("type", some (.string binding.extent.name))] :=
    .cons (.given nofun (Shape.keeps_string limit binding.code))
      (.cons (.given nofun (Shape.keeps_choice limit _ use))
        (.cons (.given nofun (Shape.keeps_choice limit _ extent)) .nil))
  exact Shape.keeps_record rfl (by decide) kept

theorem Scope.keeps_toJson (scope : Scope) :
    (Shape.record "Scope").Keeps Component.schema (limit + 1) scope.toJson := by
  have kept : List.Forall₂ (Field.Keeps Component.schema limit) (Component.fieldsOf "Scope")
      [("forName", scope.itemName.map Json.string),
        ("indexName", scope.indexName.map Json.string)] :=
    .cons (keeps_text rfl (by decide) scope.itemName)
      (.cons (keeps_text rfl (by decide) scope.indexName) .nil)
  have whole := Shape.keeps_record rfl (by decide) kept
  simpa [present, Scope.toJson] using whole

theorem StateMember.keeps_toJson (member : StateMember) :
    (Shape.record "StateValue").Keeps Component.schema (limit + 1) member.toJson := by
  have kind : member.kind.name ∈ ["property", "function", "method", "getter"] := by
    cases member.kind <;> decide
  have kept : List.Forall₂ (Field.Keeps Component.schema limit) (Component.fieldsOf "StateValue")
      [("code", some (.string member.code)), ("type", some (.string member.kind.name))] :=
    .cons (.given nofun (Shape.keeps_string limit member.code))
      (.cons (.given nofun (Shape.keeps_choice limit _ kind)) .nil)
  exact Shape.keeps_record rfl (by decide) kept

/-- A map of free data is kept. -/
theorem keeps_data {members : List (String × Json)} (h : Readable limit (.object members)) :
    (Shape.map .any).Keeps Component.schema limit (.object members) := by
  obtain ⟨inner, rfl, readable⟩ := h.members
  exact Shape.keeps_map h.distinct fun member stored => Shape.keeps_any (readable member stored)

/-- A map is kept if the values in it are, however deep they are read. -/
theorem keeps_values {α : Type} {shape : Shape} {write : α → Json} {fields : Fields α}
    (h : Readable limit (.object (Fields.mapValues write fields)))
    (keeps : ∀ inner, ∀ entry ∈ fields, Readable inner (write entry.2) →
      shape.Keeps Component.schema inner (write entry.2)) :
    (Shape.map shape).Keeps Component.schema limit (.object (Fields.mapValues write fields)) := by
  obtain ⟨inner, rfl, readable⟩ := h.members
  refine Shape.keeps_map h.distinct fun member stored => ?_
  have inside := readable member stored
  obtain ⟨entry, among, rfl⟩ := List.mem_map.mp stored
  exact keeps inner entry among inside

theorem Input.keeps_toJson {input : Input} (h : Readable limit input.toJson)
    (given : input.defaultValue ≠ some .null) :
    (Shape.record "ComponentInput").Keeps Component.schema limit input.toJson := by
  rw [Input.toJson_eq] at h ⊢
  obtain ⟨inner, rfl, readable⟩ := h.fields
  have default : Field.Keeps Component.schema inner ⟨"defaultValue", .any, .optional⟩
      ("defaultValue", input.defaultValue) := by
    cases found : input.defaultValue with
    | none => exact .absent nofun
    | some value =>
      have whole : value.isNull = false := by
        cases value with
        | null => exact absurd found given
        | _ => rfl
      have inside := readable "defaultValue" value (by simp [Input.entries, found])
      exact .given (fun _ => whole)
        (Shape.keeps_any inside)
  have metadata : Field.Keeps Component.schema inner ⟨"meta", .map .any, .defaulted⟩
      ("meta", if input.metadata.isEmpty then none else some (.object input.metadata)) := by
    split
    · exact .absent nofun
    · next filled =>
      have inside := readable "meta" (.object input.metadata) (by simp [Input.entries, filled])
      exact .given nofun (keeps_data inside)
  have kept : List.Forall₂ (Field.Keeps Component.schema inner)
      (Component.fieldsOf "ComponentInput") input.entries :=
    .cons (.given nofun (Shape.keeps_string inner input.name))
      (.cons default (.cons metadata .nil))
  exact Shape.keeps_record rfl (by decide) kept

mutual

theorem Node.keeps_toJson (node : Node) {limit : Nat} (h : Readable limit node.toJson) :
    Component.nodeShape.Keeps Component.schema limit node.toJson := by
  match node with
  | ⟨name, properties, bindings, children, slots, scope, metadata⟩ =>
    generalize whole : Node.mk name properties bindings children slots scope metadata = node at h ⊢
    rw [Node.toJson_eq] at h ⊢
    obtain ⟨inner, rfl, readable⟩ := h.fields
    subst whole
    have readBindings := readable "bindings" (.object (Fields.mapValues Binding.toJson bindings))
      (by simp [Node.entries])
    have readChildren := readable "children" (.array (Node.listToJson children))
      (by simp [Node.entries])
    have readSlots := readable "slots" (.object (Node.slotsToJson slots)) (by simp [Node.entries])
    have written : Field.Keeps Component.schema inner ⟨"scope", .record "Scope", .defaulted⟩
        ("scope", if scope.isEmpty then none else some scope.toJson) := by
      split
      · exact .absent nofun
      · next filled =>
        have inside := readable "scope" scope.toJson (by simp [Node.entries, filled])
        obtain ⟨deeper, rfl, -⟩ := inside.members
        exact .given nofun scope.keeps_toJson
    have nested : (Shape.list Component.nodeShape).Keeps Component.schema inner
        (.array (Node.listToJson children)) := by
      obtain ⟨deeper, rfl, items⟩ := readChildren.items
      exact Shape.keeps_list fun item among =>
        Node.keeps_listToJson children among (items item among)
    have placed : (Shape.map (.list Component.nodeShape)).Keeps Component.schema inner
        (.object (Node.slotsToJson slots)) := by
      obtain ⟨deeper, rfl, members⟩ := readSlots.members
      exact Shape.keeps_map readSlots.distinct fun slot among =>
        Node.keeps_slotsToJson slots among (members slot among)
    have kept : List.Forall₂ (Field.Keeps Component.schema inner) (Component.fieldsOf "MitosisNode")
        (Node.mk name properties bindings children slots scope metadata).entries :=
      .cons (.given nofun (Shape.keeps_string inner name)) <|
      .cons (.given nofun (keeps_data (readable "properties" _ (by simp [Node.entries])))) <|
      .cons (.given nofun (keeps_values readBindings fun _ _ _ readable => by
        obtain ⟨deeper, rfl, -⟩ := readable.members
        exact Binding.keeps_toJson _)) <|
      .cons (.given nofun nested) <|
      .cons (.given nofun placed) <|
      .cons written <|
      .cons (.given nofun (keeps_data (readable "meta" _ (by simp [Node.entries])))) .nil
    exact Shape.keeps_record rfl (by decide) kept

theorem Node.keeps_listToJson (nodes : List Node) {limit : Nat} {item : Json}
    (member : item ∈ Node.listToJson nodes) (h : Readable limit item) :
    Component.nodeShape.Keeps Component.schema limit item := by
  match nodes with
  | [] => cases member
  | node :: nodes =>
    rw [Node.listToJson] at member
    rcases List.mem_cons.mp member with rfl | member
    · exact Node.keeps_toJson node h
    · exact Node.keeps_listToJson nodes member h

theorem Node.keeps_slotsToJson (slots : List (String × List Node)) {limit : Nat}
    {slot : String × Json} (member : slot ∈ Node.slotsToJson slots) (h : Readable limit slot.2) :
    (Shape.list Component.nodeShape).Keeps Component.schema limit slot.2 := by
  match slots with
  | [] => cases member
  | (key, nodes) :: slots =>
    rw [Node.slotsToJson] at member
    rcases List.mem_cons.mp member with rfl | member
    · obtain ⟨inner, rfl, readable⟩ := h.items
      exact Shape.keeps_list fun item among => Node.keeps_listToJson nodes among (readable item among)
    · exact Node.keeps_slotsToJson slots member h

end

theorem Component.keeps_toJson {component : Component} (h : Readable limit component.toJson)
    (given : ∀ input ∈ component.inputs, input.defaultValue ≠ some .null) :
    Component.shape.Keeps Component.schema limit component.toJson := by
  obtain ⟨name, state, inputs, onMount, children, metadata⟩ := component
  obtain ⟨inner, rfl, readable⟩ := h.members
  simp only [List.forall_mem_cons, List.not_mem_nil, false_implies, implies_true, and_true]
    at readable
  obtain ⟨-, readState, readInputs, readHooks, readChildren, readMetadata⟩ := readable
  have members : (Shape.map (.record "StateValue")).Keeps Component.schema inner
      (State.toJson state) :=
    keeps_values readState fun _ _ _ readable => by
      obtain ⟨deeper, rfl, -⟩ := readable.members
      exact StateMember.keeps_toJson _
  have declared : (Shape.list (.record "ComponentInput")).Keeps Component.schema inner
      (.array (inputs.map Input.toJson)) := by
    obtain ⟨deeper, rfl, items⟩ := readInputs.items
    refine Shape.keeps_list fun item among => ?_
    have readable := items item among
    obtain ⟨input, stored, rfl⟩ := List.mem_map.mp among
    exact Input.keeps_toJson readable (given input stored)
  have hooks : (Shape.record "Hooks").Keeps Component.schema inner
      (.object (Json.optionalMember "onMount" (onMount.map Json.string))) := by
    obtain ⟨deeper, rfl, -⟩ := readHooks.members
    have kept : List.Forall₂ (Field.Keeps Component.schema deeper) (Component.fieldsOf "Hooks")
        [("onMount", onMount.map Json.string)] := .cons (keeps_text rfl (by decide) onMount) .nil
    have whole := Shape.keeps_record rfl (by decide) kept
    simpa [present] using whole
  have nodes : (Shape.list Component.nodeShape).Keeps Component.schema inner
      (.array (Node.listToJson children)) := by
    obtain ⟨deeper, rfl, items⟩ := readChildren.items
    exact Shape.keeps_list fun item among =>
      Node.keeps_listToJson children among (items item among)
  have kept : List.Forall₂ (Field.Keeps Component.schema inner)
      (Component.fieldsOf "MitosisComponent")
      [("name", some (.string name)), ("state", some (State.toJson state)),
        ("inputs", some (.array (inputs.map Input.toJson))),
        ("hooks", some (.object (Json.optionalMember "onMount" (onMount.map Json.string)))),
        ("children", some (.array (Node.listToJson children))),
        ("meta", some (.object metadata))] :=
    .cons (.given nofun (Shape.keeps_string inner name)) <| .cons (.given nofun members) <|
    .cons (.given nofun declared) <| .cons (.given nofun hooks) <| .cons (.given nofun nodes) <|
    .cons (.given nofun (keeps_data readMetadata)) .nil
  exact Shape.keeps_record rfl (by decide) kept

/-- A component is read from its text as it was written, in either layout, if no map of it repeats a
key and its numbers can be read back. -/
theorem Component.read_render {component : Component} (keyed : component.isKeyed = true)
    (integral : component.toJson.isIntegral = true) (deep : component.toJson.nesting ≤ Json.maxDepth)
    (given : ∀ input ∈ component.inputs, input.defaultValue ≠ some .null) (layout : Json.Layout) :
    Component.read (component.toJson.render layout 0) = .ok component := by
  have readable : Readable Json.maxDepth component.toJson :=
    ⟨integral, Component.isSettled_toJson keyed, deep⟩
  have keeps := Component.keeps_toJson readable given
  rw [Component.read, Shape.parse_of_takes integral (keeps.takes layout 0)]
  exact congrArg Except.ok component.ofJson_toJson

end BlockLoom
