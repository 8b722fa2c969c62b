import BlockLoom.Proofs.Component.Wire
import Mathlib.Data.List.Forall2

/-!
When two nodes are the same up to the order of their maps. A map agrees with any map that
gives the same values under the same keys, as long as both hold each key once; so nodes are
the same if their fields, their slots and their metadata are looked up alike and their
children are the same one by one. Data are only compared where all numbers are integers,
since floating-point numbers have their own equality.
-/

namespace BlockLoom

/-! ## Maps -/

/-- Maps with the same look-ups agree, if every value is the same as itself. -/
theorem Fields.agree_of_get? {α : Type} {same : α → α → Bool} {left right : Fields α}
    (h : Distinct left) (h' : Distinct right)
    (alike : ∀ key, get? left key = get? right key)
    (self : ∀ entry ∈ left, same entry.2 entry.2 = true) : agree same left right = true := by
  rw [agree, Bool.and_eq_true, List.all_eq_true]
  refine ⟨beq_iff_eq.mpr (perm_of_get? h h' alike).length_eq, fun entry member => ?_⟩
  rw [← alike, (get?_eq_some_iff h).mpr member]
  exact self entry member

/-! ## Data -/

namespace Json

mutual

/-- A value is the same as itself: of its members each is found where it stands. -/
theorem same_self (value : Json) (settled : value.isSettled = true)
    (integral : value.isIntegral = true) : value.same value = true := by
  match value with
  | .null => rfl
  | .bool _ | .string _ => rw [same, beq_self_eq_true]
  | .number (.integer _) => rw [same, Number.same, beq_self_eq_true]
  | .number (.binary _) =>
    rw [isIntegral, decide_eq_true_eq] at integral
    exact integral.elim
  | .array items => exact sameItems_self items settled integral
  | .object members =>
    obtain ⟨distinct, values⟩ := isSettled_object.mp settled
    rw [same, beq_self_eq_true, Bool.true_and]
    exact sameMembers_found members members values integral fun entry member =>
      (Fields.get?_eq_some_iff distinct).mpr member

theorem sameItems_self (items : List Json) (settled : areSettled items = true)
    (integral : areIntegral items = true) : sameItems items items = true := by
  match items with
  | [] => rfl
  | item :: items =>
    rw [areSettled, Bool.and_eq_true] at settled
    rw [areIntegral, Bool.and_eq_true] at integral
    rw [sameItems, same_self item settled.1 integral.1,
      sameItems_self items settled.2 integral.2]
    rfl

theorem sameMembers_found (members all : List (String × Json)) (settled : haveSettled members = true)
    (integral : haveIntegral members = true)
    (found : ∀ entry ∈ members, Fields.get? all entry.1 = some entry.2) :
    sameMembers members all = true := by
  match members with
  | [] => rfl
  | (key, value) :: members =>
    rw [haveSettled, Bool.and_eq_true] at settled
    rw [haveIntegral, Bool.and_eq_true] at integral
    have here := found (key, value) List.mem_cons_self
    have rest := sameMembers_found members all settled.2 integral.2 fun entry member =>
      found entry (List.mem_cons_of_mem _ member)
    simp only [sameMembers, here, rest, same_self value settled.1 integral.1, Bool.and_self]

end

theorem agree_of_get? {members others : Fields Json}
    (settled : (Json.object members).isSettled = true) (distinct : Fields.Distinct others)
    (integral : haveIntegral others = true)
    (alike : ∀ key, Fields.get? members key = Fields.get? others key) :
    Fields.agree same members others = true := by
  obtain ⟨apart, values⟩ := isSettled_object.mp settled
  refine Fields.agree_of_get? apart distinct alike fun entry member => ?_
  have there : entry ∈ others := by
    rw [← Fields.get?_eq_some_iff distinct, ← alike]
    exact (Fields.get?_eq_some_iff apart).mpr member
  exact same_self _ (haveSettled_iff.mp values entry member) (haveIntegral_iff.mp integral entry there)

end Json

/-! ## Nodes -/

namespace Node

theorem sameList_iff {lefts rights : List Node} :
    sameList lefts rights = true ↔
      List.Forall₂ (fun left right => left.same right = true) lefts rights := by
  induction lefts generalizing rights with
  | nil => cases rights <;> simp [sameList]
  | cons left lefts ih => cases rights <;> simp [sameList, ih]

/-- Slots are found if each has the same nodes under its key. -/
theorem sameSlots_of_get? {slots all : List (String × List Node)}
    (h : ∀ slot ∈ slots, ∃ nodes, Fields.get? all slot.1 = some nodes ∧
      sameList slot.2 nodes = true) : sameSlots slots all = true := by
  induction slots with
  | nil => rfl
  | cons slot slots ih =>
    obtain ⟨nodes, found, same⟩ := h slot List.mem_cons_self
    rw [sameSlots, found]
    simp only [same, Bool.true_and]
    exact ih fun other member => h other (List.mem_cons_of_mem _ member)

theorem integral_of_listToJson {nodes : List Node}
    (h : Json.areIntegral (listToJson nodes) = true) :
    ∀ child ∈ nodes, child.toJson.isIntegral = true := by
  induction nodes with
  | nil => exact fun _ member => nomatch member
  | cons node nodes ih =>
    rw [listToJson, Json.areIntegral, Bool.and_eq_true] at h
    exact List.forall_mem_cons.mpr ⟨h.1, ih h.2⟩

/-- The numbers of a node are integers if those of its data are. -/
theorem isIntegral_parts {node : Node} (h : node.toJson.isIntegral = true) :
    Json.haveIntegral node.properties = true ∧ Json.haveIntegral node.metadata = true ∧
      (∀ child ∈ node.children, child.toJson.isIntegral = true) ∧
      ∀ slot ∈ node.slots, ∀ child ∈ slot.2, child.toJson.isIntegral = true := by
  rw [toJson_eq, Json.isIntegral, Json.haveIntegral_iff] at h
  have entry (key : String) (value : Json) (given : Fields.get? node.entries key = some (some value)) :
      value.isIntegral = true := by
    refine h (key, value) (Fields.mem_of_get? ?_)
    rw [Json.get?_present node.distinct_entries, given]
    rfl
  refine ⟨entry "properties" _ rfl, entry "meta" _ rfl, ?_, fun slot member => ?_⟩
  · exact integral_of_listToJson (entry "children" (.array (listToJson node.children)) rfl)
  · have slots := entry "slots" _ rfl
    rw [slotsToJson_eq, Json.isIntegral, Json.haveIntegral_iff] at slots
    exact integral_of_listToJson (slots _ (List.mem_map_of_mem member))
/-- What it means for two nodes to give the same fields and metadata, whatever their order, and
to hold the same nodes. -/
structure Agrees (left right : Node) : Prop where
  name : left.name = right.name
  properties : ∀ key, Fields.get? left.properties key = Fields.get? right.properties key
  bindings : ∀ key, Fields.get? left.bindings key = Fields.get? right.bindings key
  children : sameList left.children right.children = true
  slotNames : ∀ key, key ∈ Fields.names left.slots ↔ key ∈ Fields.names right.slots
  slots : ∀ key nodes others, Fields.get? left.slots key = some nodes →
    Fields.get? right.slots key = some others → sameList nodes others = true
  scope : left.scope = right.scope
  metadata : ∀ key, Fields.get? left.metadata key = Fields.get? right.metadata key

/-- Maps with the same keys are of the same length. -/
theorem length_of_mem_names {α : Type} {fields others : Fields α} (h : Fields.Distinct fields)
    (h' : Fields.Distinct others)
    (names : ∀ key, key ∈ Fields.names fields ↔ key ∈ Fields.names others) :
    fields.length = others.length := by
  have perm : (Fields.names fields).Perm (Fields.names others) :=
    (List.perm_ext_iff_of_nodup h h').mpr names
  simpa [Fields.names] using perm.length_eq

theorem same_eq (left right : Node) :
    left.same right =
      (left.name == right.name && Fields.agree Json.same left.properties right.properties &&
        Fields.agree (· == ·) left.bindings right.bindings &&
        sameList left.children right.children && left.slots.length == right.slots.length &&
        sameSlots left.slots right.slots && left.scope == right.scope &&
        Fields.agree Json.same left.metadata right.metadata) := by
  cases left
  rw [same]

/-- Nodes that agree are the same. -/
theorem Agrees.same {left right : Node} (h : left.Agrees right) (keyed : left.Keyed)
    (keyed' : right.Keyed) (integral : right.toJson.isIntegral = true) :
    left.same right = true := by
  obtain ⟨properties, metadata, -, -⟩ := isIntegral_parts integral
  have sameProperties := Json.agree_of_get? keyed.properties
    (Json.isSettled_object.mp keyed'.properties).1 properties h.properties
  have sameMetadata := Json.agree_of_get? keyed.metadata
    (Json.isSettled_object.mp keyed'.metadata).1 metadata h.metadata
  have sameBindings : Fields.agree (· == ·) left.bindings right.bindings = true :=
    Fields.agree_of_get? keyed.bindings keyed'.bindings h.bindings fun _ _ => beq_self_eq_true _
  have length := length_of_mem_names keyed.slotNames keyed'.slotNames h.slotNames
  have slots : sameSlots left.slots right.slots = true := by
    refine sameSlots_of_get? fun slot member => ?_
    have there := (h.slotNames slot.1).mp (Fields.mem_names_of_mem member)
    obtain ⟨nodes, found⟩ := Option.isSome_iff_exists.mp (Fields.has_iff.mpr there)
    exact ⟨nodes, found, h.slots slot.1 slot.2 nodes
      ((Fields.get?_eq_some_iff keyed.slotNames).mpr member) found⟩
  rw [same_eq, sameProperties, sameBindings, h.children, slots, sameMetadata]
  simp only [h.name, h.scope, length, beq_self_eq_true, Bool.and_true]

end Node

/-! ## Components -/

theorem Input.same_self {input : Input} (default : input.defaultValue.all Json.isSettled = true)
    (metadata : (Json.object input.metadata).isSettled = true)
    (integral : input.toJson.isIntegral = true) : input.same input = true := by
  rw [Input.toJson_eq, Json.isIntegral, Json.haveIntegral_iff] at integral
  have entry (key : String) (value : Json)
      (given : Fields.get? input.entries key = some (some value)) : value.isIntegral = true := by
    refine integral (key, value) (Fields.mem_of_get? ?_)
    rw [Json.get?_present input.distinct_entries, given]
    rfl
  have further : Fields.agree Json.same input.metadata input.metadata = true := by
    refine Json.agree_of_get? metadata (Json.isSettled_object.mp metadata).1 ?_ fun _ => rfl
    cases empty : input.metadata.isEmpty with
    | true => rw [List.isEmpty_iff.mp empty]; rfl
    | false => exact entry "meta" (.object input.metadata) (by simp [Input.entries, Fields.get?, empty])
  rw [Input.same, further, beq_self_eq_true]
  cases given : input.defaultValue with
  | none => rfl
  | some value =>
    rw [given, Option.all_some] at default
    simp only [Json.same_self value default
      (entry "defaultValue" value (by simp [Input.entries, Fields.get?, given]))]
    rfl

/-- A component with the same nodes in place of its own is the same. -/
theorem Component.same_of_children {component : Component} {children : List Node}
    (keyed : component.isKeyed = true) (integral : component.toJson.isIntegral = true)
    (h : Node.sameList children component.children = true) :
    ({ component with children } : Component).same component = true := by
  simp only [Component.isKeyed, Bool.and_eq_true, decide_eq_true_eq, List.all_eq_true] at keyed
  obtain ⟨⟨⟨state, -⟩, inputs⟩, metadata⟩ := keyed
  simp only [Component.toJson, Json.isIntegral, Json.haveIntegral, Bool.and_eq_true] at integral
  have sameState : Fields.agree (· == ·) component.state component.state = true :=
    Fields.agree_of_get? state state (fun _ => rfl) fun _ _ => beq_self_eq_true _
  have sameMetadata := Json.agree_of_get? metadata (Json.isSettled_object.mp metadata).1
    integral.2.2.2.2.2.1 fun _ => rfl
  have sameInputs : (component.inputs.zip component.inputs).all
      (fun pair => pair.1.same pair.2) = true := by
    rw [List.all_eq_true]
    intro pair member
    rw [List.zip_eq_zipWith, List.zipWith_self, List.mem_map] at member
    obtain ⟨input, listed, rfl⟩ := member
    exact Input.same_self (inputs input listed).2 (inputs input listed).1
      (Json.areIntegral_iff.mp integral.2.2.1 _ (List.mem_map_of_mem listed))
  rw [Component.same, sameState, sameInputs, h, sameMetadata]
  simp only [beq_self_eq_true, Bool.and_true]

end BlockLoom
