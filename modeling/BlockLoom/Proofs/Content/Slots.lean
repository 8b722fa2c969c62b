import BlockLoom.Proofs.Content.Imported

/-!
The slots of a component after its export and import. A slot with nodes in it comes
back under its name, with what each of its nodes is imported as, in order. An empty
list says nothing about what it was: an empty slot is imported as a literal, and a
literal list of elements as a slot.
-/

namespace BlockLoom.Content

variable {settings : ImportSettings}

/-! ## Exported slots -/

theorem strippedList_eq_map (elements : List Element) :
    Element.strippedList elements = elements.map Element.stripped := by
  induction elements with
  | nil => rfl
  | cons element elements ih => exact congrArg (element.stripped :: ·) ih

/-- The data of exported elements stand for these elements and for nothing else. -/
theorem standFor_listToJson_iff {elements others : List Element}
    (h : ∀ element ∈ elements, element.Exported) :
    List.Forall₂ StandsFor (Element.listToJson elements) others ↔
      others = Element.strippedList elements := by
  induction elements generalizing others with
  | nil => exact List.forall₂_nil_left_iff
  | cons element elements ih =>
    obtain ⟨first, rest⟩ := List.forall_mem_cons.mp h
    rw [Element.listToJson, Element.strippedList, List.forall₂_cons_left_iff]
    constructor
    · rintro ⟨other, others, stands, stand, rfl⟩
      rw [stands.unique (standsFor_toJson first), (ih rest).mp stand]
    · rintro rfl
      exact ⟨_, _, standsFor_toJson first, (ih rest).mpr rfl, rfl⟩

theorem isSlotOption_exportNodes {grouping : Option Grouping} {key : String}
    (free : Grouping.claims grouping key = false) {nodes : List Node}
    (keyed : Node.areKeyed nodes = true) :
    isSlotOption grouping (key, .array (Element.listToJson (exportNodes nodes))) = true ↔
      nodes ≠ [] := by
  rw [isSlotOption, free]
  cases nodes with
  | nil => simp [exportNodes, Element.listToJson, Json.items?]
  | cons node nodes =>
    have first := exported_exportNodes (node :: nodes) keyed (exportNode node) List.mem_cons_self
    simp [exportNodes, Element.listToJson, Json.items?, Element.isElement_toJson first.marked]

/-- A slot of imported nodes comes from nodes that they are imported from in order. -/
theorem SlotOf.imported {key : String} {nodes others : List Node}
    (keyed : Node.areKeyed nodes = true)
    (h : SlotOf settings (key, .array (Element.listToJson (exportNodes nodes))) (key, others)) :
    List.Forall₂ (fun inner other => (exportNode inner).stripped.ImportsTo settings other)
      nodes others := by
  obtain ⟨items, elements, data, stand, imports⟩ := h.nodes
  cases data
  rw [standFor_listToJson_iff (exported_exportNodes nodes keyed)] at stand
  rw [stand, strippedList_eq_map, exportNodes_eq_map, List.map_map,
    List.forall₂_map_left_iff] at imports
  exact imports

/-! ## Component nodes -/

theorem claims_none (key : String) : Grouping.claims none key = false := rfl

/-- A component that is none of those with groups is not exported as one of them. -/
theorem grouping_of_imported {name : String} (h : importedGrouping settings name = none) :
    Grouping.of? name = none := by
  cases named : Grouping.of? name with
  | none => rfl
  | some grouping =>
    have imported := @importedGrouping_of_some settings { name } grouping named
    cases h.symm.trans imported

/-- The options of the element for a component node: its slots, and the literals
that have not the name of a slot. -/
theorem get?_options_exportNode {node : Node} (keyed : node.Keyed) (component : node.isTag = false)
    (loop : Loop.head? node = none) (ungrouped : Grouping.of? node.name = none) (key : String) :
    Fields.get? (exportNode node).options key =
      ((Fields.get? node.slots key).map fun nodes =>
        .array (Element.listToJson (exportNodes nodes))).or
      (Fields.get? (exportedOptions node) key) := by
  have slots : Fields.Distinct (exportSlots node.slots) := by
    rw [Fields.Distinct, names_exportSlots]
    exact keyed.slotNames
  rw [exportNode_plain loop, ungrouped, (@assemble_component {} _ keyed component _).1,
    get?_writtenOptions node slots, ungrouped, exportSlots_eq, Fields.get?_mapValues]
  rfl

theorem distinct_options_exportNode {node : Node} (keyed : node.Keyed)
    (component : node.isTag = false) (loop : Loop.head? node = none) :
    Fields.Distinct (exportNode node).options := by
  rw [exportNode_plain loop, (@assemble_component {} _ keyed component _).1]
  exact distinct_writtenOptions keyed _

theorem isSlotOption_none_iff {key : String} {value : Json} :
    isSlotOption none (key, value) = true ↔ ¬IsPlain value := by
  rw [isSlotOption, claims_none, Bool.not_false, Bool.true_and, IsPlain]
  cases value with
  | array items => simp [Json.items?]
  | _ => simp [Json.items?]

theorem grouping_exportNode {node : Node} (keyed : node.Keyed) (component : node.isTag = false)
    (loop : Loop.head? node = none) (ungrouped : importedGrouping settings node.name = none) :
    Grouping.of? ((exportNode node).nodeName settings) = none := by
  rw [exportNode_plain loop, (assemble_component keyed component _).2.2, ungrouped]

/-- The slots of the node that the element for a component node is imported as come
from the options that are lists with elements in them. -/
theorem slots_of_importsTo {node imported : Node} (keyed : node.Keyed)
    (component : node.isTag = false) (loop : Loop.head? node = none)
    (ungrouped : importedGrouping settings node.name = none)
    (h : (exportNode node).ImportsTo settings imported) :
    List.Forall₂ (SlotOf settings) ((exportNode node).options.filter (isSlotOption none))
      imported.slots := by
  obtain ⟨parts, children, rfl, -, slots⟩ := body_of_importsTo (repetition_exportNode loop) h
  rw [grouping_exportNode keyed component loop ungrouped] at slots
  rwa [(frame_body settings _ parts children).2.1]

theorem mem_names_slotOptions {options : Fields Json} (distinct : Fields.Distinct options)
    {key : String} :
    key ∈ Fields.names (options.filter (isSlotOption none)) ↔
      ∃ value, Fields.get? options key = some value ∧ ¬IsPlain value := by
  simp only [Fields.mem_names, List.mem_filter, isSlotOption_none_iff,
    Fields.get?_eq_some_iff distinct]

/-! ## Components with one node -/

/-- A component node that comes back from its export has the slots it had that were not
empty, each with what its nodes are imported as, in order. It has another slot for each
list with elements in it among the literals that are written as options. -/
theorem slots_toComponent_ofComponent {writing : ExportSettings} {component result : Component}
    {node : Node} (single : component.children = [node]) (keyed : node.isKeyed = true)
    (untagged : node.isTag = false) (other : node.name ≠ Loop.wrapperName)
    (ungrouped : importedGrouping settings node.name = none)
    (h : toComponent settings (ofComponent writing component) = .ok result) :
    ∃ imported, result.children = [imported] ∧ Fields.Distinct imported.slots ∧
      (∀ key, key ∈ Fields.names imported.slots ↔
        (∃ nodes, Fields.get? node.slots key = some nodes ∧ nodes ≠ []) ∨
          key ∉ Fields.names node.slots ∧
            ∃ value, Fields.get? (exportedOptions node) key = some value ∧ ¬IsPlain value) ∧
      ∀ key nodes, Fields.get? node.slots key = some nodes → nodes ≠ [] →
        ∃ others, Fields.get? imported.slots key = some others ∧
          List.Forall₂ (fun inner other => (exportNode inner).stripped.ImportsTo settings other)
            nodes others := by
  have maps := Node.keyed_of_isKeyed keyed
  have loop := head?_eq_none other
  obtain ⟨imported, children, imports⟩ := toComponent_single single h
  have slots := slots_of_importsTo maps untagged loop ungrouped imports
  have distinct := distinct_options_exportNode maps untagged loop
  have found := get?_options_exportNode maps untagged loop (grouping_of_imported ungrouped)
  have inner (key : String) (nodes : List Node) (given : Fields.get? node.slots key = some nodes) :
      Node.areKeyed nodes = true :=
    Node.haveKeyed_iff.mp maps.slots (key, nodes) (Fields.mem_of_get? given)
  refine ⟨imported, children, ?distinct, fun key => ?names, fun key nodes given filled => ?nodes⟩
  case distinct =>
    rw [Fields.Distinct, names_of_slotOf slots]
    exact distinct.filter _
  case names =>
    rw [names_of_slotOf slots, mem_names_slotOptions distinct, found]
    cases given : Fields.get? node.slots key with
    | none => simp [Fields.get?_eq_none_iff.mp given]
    | some nodes =>
      have list := @isSlotOption_exportNodes none key rfl nodes (inner key nodes given)
      rw [isSlotOption_none_iff] at list
      have named : key ∈ Fields.names node.slots :=
        Fields.mem_names_of_mem (Fields.mem_of_get? given)
      simp [named, list]
  case nodes =>
    have slot : Fields.get? ((exportNode node).options.filter (isSlotOption none)) key =
        some (.array (Element.listToJson (exportNodes nodes))) := by
      rw [Fields.get?_eq_some_iff (distinct.filter _), List.mem_filter,
        isSlotOption_exportNodes rfl (inner key nodes given), ← Fields.get?_eq_some_iff distinct,
        found, given]
      exact ⟨rfl, filled⟩
    obtain ⟨others, there, stands⟩ := get?_of_slotOf slots slot
    exact ⟨others, there, stands.imported (inner key nodes given)⟩

/-- A card with two nodes in its header, one of which has a slot of its own, and an
empty footer. -/
def pricingCard : Component :=
  { name := "Pricing"
    children :=
      [{ name := "Card"
         properties := [("header", .string "Plans"), ("rows", .array [.null])]
         slots :=
           [("header",
              [{ name := "h1" }, { name := "Price", slots := [("old", [{ name := "s" }])] }]),
            ("footer", [])] }] }

theorem importable_pricingCard :
    ∃ result, toComponent {} (ofComponent {} pricingCard) = .ok result := by
  have tag (name : String) (h : Node.isTagName name = true) : Exportable {} { name } := by
    rw [exportable_iff, Node.isTag, h, Bool.or_true]
    trivial
  have price : Exportable {} { name := "Price", slots := [("old", [{ name := "s" }])] } :=
    (exportable_iff _).mpr ⟨by rintro entry ⟨⟩, ⟨fun _ => ⟨tag "s" rfl, trivial⟩, trivial⟩, trivial⟩
  refine (toComponent_single_ok_iff rfl (by decide)).mpr ?_
  refine (exportable_iff _).mpr ⟨?_, ⟨fun _ => ⟨tag "h1" rfl, price, trivial⟩,
    fun _ => trivial, trivial⟩, trivial⟩
  intro entry member _
  rcases List.mem_pair.mp member with rfl | rfl
  · exact .plain rfl (by rintro items ⟨⟩)
  · exact .plain rfl (by rintro items ⟨⟩; rfl)

theorem pricingCard_header_imported :
    ∃ result imported others, toComponent {} (ofComponent {} pricingCard) = .ok result ∧
      result.children = [imported] ∧ "footer" ∉ Fields.names imported.slots ∧
      "rows" ∉ Fields.names imported.slots ∧
      Fields.get? imported.slots "header" = some others ∧
      List.Forall₂ (fun inner other => (exportNode inner).stripped.ImportsTo {} other)
        [{ name := "h1" }, { name := "Price", slots := [("old", [{ name := "s" }])] }] others := by
  obtain ⟨result, made⟩ := importable_pricingCard
  obtain ⟨imported, children, -, names, nodes⟩ :=
    slots_toComponent_ofComponent rfl (by decide) rfl (by decide) rfl made
  obtain ⟨others, header, inner⟩ := nodes "header" _ rfl (by simp)
  refine ⟨result, imported, others, made, children, ?_, ?_, header, inner⟩
  · rw [names]
    simp [Fields.get?_cons]
  · rw [names]
    rintro (⟨_, ⟨⟩, _⟩ | ⟨-, value, found, list⟩)
    cases found
    exact list (by rintro items ⟨⟩; rfl)

def emptyHeader : Component :=
  { name := "MyComponent", children := [{ name := "Card", slots := [("header", [])] }] }

/-- An empty slot does not come back: nothing tells its data from an empty list. -/
theorem emptyHeader_dropped :
    emptyHeader.check = .ok () ∧ emptyHeader.isKeyed = true ∧
      ∃ result imported, toComponent {} (ofComponent {} emptyHeader) = .ok result ∧
        result.children = [imported] ∧ "header" ∉ Fields.names imported.slots := by
  have keyed : ({ name := "Card", slots := [("header", [])] } : Node).isKeyed = true := by decide
  obtain ⟨result, made⟩ : ∃ result, toComponent {} (ofComponent {} emptyHeader) = .ok result :=
    (toComponent_single_ok_iff rfl keyed).mpr <|
      (exportable_iff _).mpr ⟨by rintro entry ⟨⟩, ⟨fun _ => trivial, trivial⟩, trivial⟩
  obtain ⟨imported, children, imports⟩ := toComponent_single rfl made
  have slots := slots_of_importsTo (Node.keyed_of_isKeyed keyed) rfl rfl rfl imports
  refine ⟨rfl, by decide, result, imported, made, children, ?_⟩
  rw [names_of_slotOf slots]
  decide

end BlockLoom.Content
