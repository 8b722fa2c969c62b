import BlockLoom.Proofs.Component.Same
import BlockLoom.Proofs.Content.Loops
import BlockLoom.Proofs.Content.SteadyRecords

/-!
Nodes that come back from their export. The node for a steady element is written as an element
that is imported as the same node again, if the nodes come back that it is made of: those for
its children, in its slots and in its groups. What is made of them is the same, since fields and
metadata are taken from the same sources.
-/

namespace BlockLoom.Content

variable {settings : ImportSettings}

/-! ## Nodes that come back -/

/-- What it means for a node to come back: what it is written as is imported as the same node,
as long as all numbers in it are integers. -/
structure Returns (settings : ImportSettings) (node : Node) : Prop where
  keyed : node.isKeyed = true
  versioned : (exportNode node).isVersioned = true
  again : ∃ other, (exportNode node).ImportsTo settings other ∧
    (node.toJson.isIntegral = true → other.same node = true)

namespace Returns

variable {node : Node} {nodes : List Node}

theorem decoded (h : Returns settings node) : (exportNode node).Decoded :=
  ⟨(exported_exportNode node h.keyed).keyed, h.versioned⟩

theorem importable (h : Returns settings node) : Importable settings (exportNode node) := by
  obtain ⟨other, imports, -⟩ := h.again
  exact (importElement_ok_iff "" _).mp ⟨other, imports ""⟩

/-- Whatever the element for the node is imported as is the same node. -/
theorem same (h : Returns settings node) {other : Node}
    (imports : (exportNode node).ImportsTo settings other)
    (integral : node.toJson.isIntegral = true) : other.same node = true := by
  obtain ⟨again, found, same⟩ := h.again
  cases (found "").symm.trans (imports "")
  exact same integral

theorem areKeyed (h : ∀ node ∈ nodes, Returns settings node) : Node.areKeyed nodes = true :=
  Node.areKeyed_iff.mpr fun node member => (h node member).keyed

theorem areVersioned (h : ∀ node ∈ nodes, Returns settings node) :
    Element.areVersioned (exportNodes nodes) = true := by
  rw [exportNodes_eq_map, Element.areVersioned_iff, List.forall_mem_map]
  exact fun node member => (h node member).versioned

theorem allImportable (h : ∀ node ∈ nodes, Returns settings node) :
    ∀ element ∈ exportNodes nodes, Importable settings element := by
  rw [exportNodes_eq_map, List.forall_mem_map]
  exact fun node member => (h node member).importable

/-- The data of nodes that come back stand for the elements that they are written as. -/
theorem standFor (h : ∀ node ∈ nodes, Returns settings node) :
    List.Forall₂ StandsFor (Element.listToJson (exportNodes nodes)) (exportNodes nodes) := by
  rw [standFor_listToJson_iff (exported_exportNodes nodes (areKeyed h)),
    Element.strippedList_of_areVersioned _ (areVersioned h)]

/-- What a slot of nodes that come back is imported as. -/
theorem imported (h : ∀ node ∈ nodes, Returns settings node) {key : String} {others : List Node}
    (slot : SlotOf settings (key, .array (Element.listToJson (exportNodes nodes))) (key, others)) :
    List.Forall₂ (Element.ImportsTo settings) (exportNodes nodes) others := by
  obtain ⟨items, elements, data, stand, imports⟩ := slot.nodes
  cases data
  rw [standFor_listToJson_iff (exported_exportNodes nodes (areKeyed h)),
    Element.strippedList_of_areVersioned _ (areVersioned h)] at stand
  rwa [stand] at imports

theorem othersKeyed (h : ∀ node ∈ nodes, Returns settings node) {others : List Node}
    (imports : List.Forall₂ (Element.ImportsTo settings) (exportNodes nodes) others) :
    Node.areKeyed others = true := by
  rw [Node.areKeyed_iff]
  intro other member
  obtain ⟨element, listed, made⟩ := exists_of_forall₂ imports member
  rw [exportNodes_eq_map] at listed
  obtain ⟨node, among, rfl⟩ := List.mem_map.mp listed
  exact isKeyed_importElement (h node among).decoded made

theorem sameList (h : ∀ node ∈ nodes, Returns settings node) {others : List Node}
    (imports : List.Forall₂ (Element.ImportsTo settings) (exportNodes nodes) others)
    (integral : ∀ node ∈ nodes, node.toJson.isIntegral = true) :
    Node.sameList others nodes = true := by
  rw [exportNodes_eq_map, List.forall₂_map_left_iff] at imports
  rw [Node.sameList_iff]
  have each := (List.forall₂_and_left _ _).mpr
    ⟨fun node member => And.intro (h node member) (integral node member), imports⟩
  exact List.Forall₂.flip (each.imp fun node other found =>
    found.1.1.same found.2 found.1.2)

end Returns

/-! ## Nodes around the same nodes -/

/-- A node with the same nodes in place of its children is the same. -/
theorem same_of_sameList {node : Node} {others : List Node} (keyed : node.Keyed)
    (slots : node.slots = []) (othersKeyed : Node.areKeyed others = true)
    (integral : node.toJson.isIntegral = true) (h : Node.sameList others node.children = true) :
    ({ node with children := others } : Node).same node = true := by
  have agrees : Node.Agrees { node with children := others } node :=
    { name := rfl
      properties := fun _ => rfl
      bindings := fun _ => rfl
      children := h
      slotNames := fun _ => Iff.rfl
      slots := fun key nodes _ found => by
        rw [slots] at found
        cases found
      scope := rfl
      metadata := fun _ => rfl }
  exact agrees.same { keyed with children := othersKeyed } keyed integral

/-- So is the node for a group around the same nodes, -/
theorem same_groupNode {grouping : Grouping} {group : Group} {blocks others : List Node}
    (distinct : Fields.Distinct group.fields) (keyed : (grouping.node group blocks).Keyed)
    (othersKeyed : Node.areKeyed others = true)
    (integral : (grouping.node group blocks).toJson.isIntegral = true)
    (h : Node.sameList others blocks = true) :
    (grouping.node group others).same (grouping.node group blocks) = true := by
  rw [grouping.node_eq distinct] at keyed integral ⊢
  rw [grouping.node_eq distinct]
  have same := same_of_sameList keyed rfl othersKeyed integral h
  exact same

theorem sameList_ownChildren (name : String) {nodes others : List Node}
    (keyed : ∀ node ∈ ownChildren name nodes, node.isKeyed = true)
    (othersKeyed : Node.areKeyed others = true)
    (integral : ∀ node ∈ ownChildren name nodes, node.toJson.isIntegral = true)
    (h : (∀ node ∈ nodes, node.toJson.isIntegral = true) → Node.sameList others nodes = true) :
    Node.sameList (ownChildren name others) (ownChildren name nodes) = true := by
  rw [ownChildren] at keyed integral
  rw [ownChildren, ownChildren]
  split at keyed
  · next container =>
    rw [if_pos container] at integral ⊢
    rw [if_pos container]
    cases nodes with
    | nil =>
      have nothing := Node.sameList_iff.mp (h (List.forall_mem_nil _))
      rw [List.forall₂_nil_right_iff] at nothing
      rw [nothing]
      rfl
    | cons node nodes =>
      have whole := integral _ List.mem_cons_self
      have same := h (Node.isIntegral_parts whole).2.2.1
      cases others with
      | nil => cases same
      | cons other others =>
        have first : Node.same _ _ = true :=
          same_of_sameList (Node.keyed_of_isKeyed (keyed _ List.mem_cons_self)) rfl othersKeyed
            whole same
        exact Bool.and_eq_true_iff.mpr ⟨first, rfl⟩
  · next other =>
    rw [if_neg other] at integral ⊢
    rw [if_neg other]
    exact h integral

/-! ## Groups of the exported element -/

def writtenGroup (node : Node) : Group :=
  ⟨node.properties, exportNodes node.children⟩

structure Grouping.Makes (grouping : Grouping) (node : Node) : Prop where
  distinct : Fields.Distinct node.properties
  free : Group.blocksKey ∉ Fields.names node.properties
  whole : grouping.node (writtenGroup node) node.children = node

theorem makes_groupNode {grouping : Grouping} {group : Group}
    (distinct : Fields.Distinct group.fields) (free : Group.blocksKey ∉ Fields.names group.fields)
    (blocks : List Node) : grouping.Makes (grouping.node group blocks) := by
  rw [grouping.node_eq distinct]
  exact ⟨distinct, free, grouping.node_eq distinct _⟩

theorem Grouping.Makes.standsFor {grouping : Grouping} {node : Node} (h : grouping.Makes node)
    (inside : ∀ child ∈ node.children, Returns settings child) :
    Group.StandsFor (grouping.entry node (Element.listToJson (exportNodes node.children)))
      (writtenGroup node) := by
  obtain ⟨members, object, fields, found⟩ :=
    @entry_node grouping (writtenGroup node) h.distinct h.free node.children
      (Element.listToJson (exportNodes node.children))
  rw [h.whole] at object
  exact ⟨members, object, fields.symm, .inr ⟨_, found, Returns.standFor inside⟩⟩

theorem exportGroups_of_groups {grouping : Grouping} {nodes : List Node}
    (h : ∀ node ∈ nodes, grouping.isGroup node = true) :
    (exportGroups grouping nodes).1 = nodes.map fun node =>
      grouping.entry node (Element.listToJson (exportNodes node.children)) := by
  induction nodes with
  | nil => rw [exportGroups_nil]; rfl
  | cons node nodes ih =>
    rw [List.forall_mem_cons] at h
    rw [exportGroups_groups_cons h.1, ih h.2, List.map_cons]

/-- What it means for all nodes that a node is made of to come back. -/
structure PartsReturn (settings : ImportSettings) (parts : OptionParts) (children : List Node) :
    Prop where
  own : ∀ child ∈ children, Returns settings child
  slots : ∀ slot ∈ parts.slots, ∀ child ∈ slot.2, Returns settings child
  groups : ∀ group ∈ parts.groups, ∀ child ∈ group.children, Returns settings child

theorem scope_body (settings : ImportSettings) (element : Element) (parts : OptionParts)
    (children : List Node) : (element.body settings parts children).scope = {} := by
  have kept : Kept fun node => node.scope = {} :=
    ⟨fun _ _ _ h => h, fun _ _ _ h => h, fun _ _ _ h => h⟩
  exact kept.body rfl

section body

variable {element : Element} {parts : OptionParts} {children : List Node} {key : String}
  (h : element.Stays settings parts children)

include h

section grouping

variable {grouping : Grouping}
  (known : Grouping.of? (element.nodeName settings) = some grouping)

include known

theorem makes_of_stays : ∀ node ∈ parts.groups, grouping.Makes node := by
  intro node member
  obtain ⟨group, listed, _, blocks, -, rfl⟩ := exists_of_forall₂ (groups_of_stays h known) member
  obtain ⟨distinct, free⟩ := fields_of_stays h grouping group listed
  exact makes_groupNode distinct free blocks

/-- The data that the groups of a node are written as stand for these groups. -/
theorem standFor_groups
    (inside : ∀ group ∈ parts.groups, ∀ child ∈ group.children, Returns settings child) :
    List.Forall₂ Group.StandsFor (exportGroups grouping parts.groups).1
      (parts.groups.map writtenGroup) := by
  rw [exportGroups_of_groups (exportGroups_of_stays h known).1, List.forall₂_map_left_iff,
    List.forall₂_map_right_iff, List.forall₂_same]
  exact fun node member => (makes_of_stays h known node member).standsFor (inside node member)

theorem groupOption_body :
    groupOption (element.body settings parts children) =
      if parts.groups = [] then []
      else [(grouping.optionKey, .array (exportGroups grouping parts.groups).1)] := by
  have filled := isEmpty_exportGroups grouping (element.body settings parts children).children
  rw [exportGroups_body h known, exportGroups_of_groups (exportGroups_of_stays h known).1] at filled
  rw [groupOption, (frame_body settings element parts children).1, known]
  dsimp only
  rw [exportGroups_body h known]
  cases groups : parts.groups with
  | nil =>
    rw [groups, List.map_nil, List.isEmpty_nil, eq_comm, Bool.not_eq_true'] at filled
    rw [filled]
    rfl
  | cons group others =>
    rw [groups, List.map_cons, List.isEmpty_cons, eq_comm, Bool.not_eq_false'] at filled
    rw [filled]
    rfl

/-- A component with groups has no other option of that name. -/
theorem get?_groups_exported :
    Fields.get? (exportNode (element.body settings parts children)).options grouping.optionKey =
      if parts.groups = [] then none
      else some (.array (exportGroups grouping parts.groups).1) := by
  have component : Node.isTagName (element.nodeName settings) = false := by
    rw [← container_of_of? known]
    cases grouping <;> rfl
  have unslotted := (placeable_body h).option grouping
    (by rw [(frame_body settings element parts children).1]; exact known)
  have literal : Fields.get? (exportedOptions (element.body settings parts children))
      grouping.optionKey = none := by
    cases found : Fields.get? (exportedOptions (element.body settings parts children))
        grouping.optionKey with
    | none => rfl
    | some value =>
      have plain := plain_exportedOptions h found
      rw [known, isPlainOption, claims_self] at plain
      cases plain
  rw [get?_options_exported h component, literal, Option.or_none, Fields.get?_append,
    Fields.get?_eq_none_iff.mpr (by rw [names_exportSlots]; exact unslotted), Option.none_or,
    groupOption_body h known]
  split
  · rfl
  · exact Fields.get?_cons_self _ _ _

theorem groups_exported_eq
    (inside : ∀ group ∈ parts.groups, ∀ child ∈ group.children, Returns settings child) :
    groupsIn grouping (exportNode (element.body settings parts children)).options =
      parts.groups.map writtenGroup := by
  have found := get?_groups_exported h known
  split at found
  · next none =>
    rw [groupsIn, found, none]
    rfl
  · exact groupsIn_of_readList found
      ((@Group.readList_iff "" _ _).mpr ⟨_, rfl, standFor_groups h known inside⟩)

end grouping

theorem groups_exported_body
    (inside : ∀ group ∈ parts.groups, ∀ child ∈ group.children, Returns settings child) :
    (exportNode (element.body settings parts children)).groups settings =
      parts.groups.map writtenGroup := by
  rw [Element.groups, nodeName_exported h]
  cases known : Grouping.of? (element.nodeName settings) with
  | none => rw [groups_of_ungrouped h known]; rfl
  | some grouping => exact groups_exported_eq h known inside

/-! ## Slots of the exported element -/

/-- The nodes of a slot, of which there are some, stand under a key that no groups are expected
under. -/
theorem slot_of_stays {slot : String × List Node} (member : slot ∈ parts.slots) :
    Grouping.claims (Grouping.of? (element.nodeName settings)) slot.1 = false ∧ slot.2 ≠ [] := by
  obtain ⟨option, among, slotOf⟩ := exists_of_forall₂ h.imports.slots member
  obtain ⟨-, marked⟩ := List.mem_filter.mp among
  rw [isSlotOption, Bool.and_eq_true, Bool.not_eq_true', slotOf.key] at marked
  obtain ⟨items, elements, list, stand, imports⟩ := slotOf.nodes
  refine ⟨marked.1, ?_⟩
  rintro empty
  rw [empty, List.forall₂_nil_right_iff] at imports
  rw [imports, List.forall₂_nil_right_iff] at stand
  rw [list, stand] at marked
  cases marked.2

/-- A slot is written as the option of its name. -/
theorem get?_slot_exported {nodes : List Node} (found : Fields.get? parts.slots key = some nodes) :
    Fields.get? (exportNode (element.body settings parts children)).options key =
      some (.array (Element.listToJson (exportNodes nodes))) := by
  have component : Node.isTagName (element.nodeName settings) = false := by
    apply h.untagged
    rintro empty
    have slots := h.imports.slots
    rw [empty, List.filter_nil, List.forall₂_nil_left_iff] at slots
    rw [slots] at found
    cases found
  rw [get?_options_exported h component, Fields.get?_append, exportSlots_eq,
    (frame_body settings element parts children).2.1, Fields.get?_mapValues, found]
  rfl

/-- What an option of the exported element can be: a slot of the node, its groups, or plain data. -/
theorem option_exported {value : Json}
    (found : Fields.get? (exportNode (element.body settings parts children)).options key =
      some value) :
    (∃ nodes, Fields.get? parts.slots key = some nodes) ∨
      (∃ grouping, Grouping.of? (element.nodeName settings) = some grouping ∧
        key = grouping.optionKey) ∨
      isPlainOption (Grouping.of? (element.nodeName settings)) (key, value) = true := by
  cases component : Node.isTagName (element.nodeName settings) with
  | true =>
    rw [options_exported_of_tag h component] at found
    cases found
  | false =>
    rw [get?_options_exported h component, Option.or_eq_some_iff] at found
    rcases found with written | ⟨-, literal⟩
    · have named := Fields.mem_names_of_mem (Fields.mem_of_get? written)
      rw [Fields.names_append, List.mem_append, names_exportSlots,
        (frame_body settings element parts children).2.1] at named
      rcases named with slot | group
      · exact .inl (Option.isSome_iff_exists.mp (Fields.has_iff.mpr slot))
      · obtain ⟨grouping, known, same, -⟩ := mem_names_groupOption.mp group
        rw [(frame_body settings element parts children).1] at known
        exact .inr (.inl ⟨grouping, known, same.symm⟩)
    · exact .inr (.inr (plain_exportedOptions h literal))

/-! ## Import of the exported element -/

theorem children_exported :
    (exportNode (element.body settings parts children)).children = exportNodes children := by
  rw [exportNode_plain h.loop, children_assemble, (frame_body settings element parts children).1]
  cases known : Grouping.of? (element.nodeName settings) with
  | none =>
    have other : element.nodeName settings ≠ Grouping.variants.container := by
      rintro same
      rw [same] at known
      cases known
    dsimp only
    rw [(frame_body settings element parts children).2.2, groups_of_ungrouped h known, ownChildren,
      if_neg other, List.nil_append]
  | some grouping => exact congrArg Prod.snd (exportGroups_body h known)

variable (inside : PartsReturn settings parts children)

include inside

theorem importable_exported :
    Importable settings (exportNode (element.body settings parts children)) := by
  rw [importable_iff, children_exported h, nodeName_exported h]
  refine ⟨fun entry member => ?_, Returns.allImportable inside.own⟩
  obtain ⟨key, value⟩ := entry
  have distinct := Element.distinct_options (keyed_exported h)
  have found := (Fields.get?_eq_some_iff distinct).mpr member
  rcases option_exported h found with ⟨nodes, slot⟩ | ⟨grouping, known, rfl⟩ | plain
  · have listed := Fields.mem_of_get? slot
    rw [get?_slot_exported h slot] at found
    cases found
    have nodes := inside.slots _ listed
    exact (admitted_free_listToJson (slot_of_stays h listed).1
      (exported_exportNodes _ (Returns.areKeyed nodes))).mpr (Returns.allImportable nodes)
  · rw [get?_groups_exported h known] at found
    split at found
    · cases found
    · cases found
      have stand := standFor_groups h known inside.groups
      refine .groups (by rw [known]; exact claims_self grouping)
        (admittedGroups_iff.mpr ⟨_, stand, ?_⟩)
      rw [List.forall_mem_map]
      exact fun group listed => Returns.allImportable (inside.groups group listed)
  · rw [isPlainOption, Bool.and_eq_true, Bool.not_eq_true', Bool.not_eq_true'] at plain
    refine .plain plain.1 ?_
    rintro items rfl
    exact plain.2

theorem versioned_exported (versioned : element.isVersioned = true) :
    (exportNode (element.body settings parts children)).isVersioned = true := by
  rw [Element.isVersioned_iff, (identity_exported h).2.1, children_exported h]
  exact ⟨(Element.isVersioned_iff.mp versioned).1, Returns.areVersioned inside.own⟩

/-- The slots that the exported element is imported with are found under the same keys. -/
theorem get?_slotOption_exported {nodes : List Node}
    (found : Fields.get? parts.slots key = some nodes) :
    Fields.get? ((exportNode (element.body settings parts children)).options.filter
        (isSlotOption (Grouping.of? (element.nodeName settings)))) key =
      some (.array (Element.listToJson (exportNodes nodes))) := by
  have distinct := Element.distinct_options (keyed_exported h)
  have listed := Fields.mem_of_get? found
  obtain ⟨free, filled⟩ := slot_of_stays h listed
  rw [Fields.get?_eq_some_iff (distinct.filter _), List.mem_filter]
  exact ⟨Fields.mem_of_get? (get?_slot_exported h found),
    (isSlotOption_exportNodes free (Returns.areKeyed (inside.slots _ listed))).mpr filled⟩

/-! ## The same node again -/

section again

variable {others : OptionParts} {nodes : List Node}
  (imports : (exportNode (element.body settings parts children)).Imports settings others nodes)

include imports

omit inside in
/-- A field other than that for the styles is filled from the same source. -/
theorem fields_again (other : key ≠ styleKey) :
    ((exportNode (element.body settings parts children)).body settings others nodes).HasField key
        (element.source? settings key) ∧
      (element.body settings parts children).HasField key (element.source? settings key) := by
  have again := Element.hasField_body (keyed_exported h) imports.plain nodes other
  rw [source?_exported h other] at again
  exact ⟨again, Element.hasField_body h.keyed h.imports.plain children other⟩

theorem slotNames_again : key ∈ Fields.names others.slots ↔ key ∈ Fields.names parts.slots := by
  have slots := imports.slots
  rw [nodeName_exported h] at slots
  rw [names_of_slotOf slots]
  constructor
  · intro named
    obtain ⟨value, member⟩ := Fields.mem_names.mp named
    obtain ⟨member, marked⟩ := List.mem_filter.mp member
    have distinct := Element.distinct_options (keyed_exported h)
    rcases option_exported h ((Fields.get?_eq_some_iff distinct).mpr member) with
      ⟨nodes, found⟩ | ⟨grouping, known, rfl⟩ | plain
    · exact Fields.mem_names_of_mem (Fields.mem_of_get? found)
    · rw [isSlotOption, known, claims_self] at marked
      cases marked
    · rw [isPlainOption_of_isSlotOption marked] at plain
      cases plain
  · intro named
    obtain ⟨nodes, found⟩ := Option.isSome_iff_exists.mp (Fields.has_iff.mpr named)
    exact Fields.mem_names_of_mem (Fields.mem_of_get? (get?_slotOption_exported h inside found))

variable (integral : (element.body settings parts children).toJson.isIntegral = true)

include integral

theorem sameList_own : Node.sameList (ownChildren (element.nodeName settings) nodes)
    (ownChildren (element.nodeName settings) children) = true := by
  have made := imports.children
  rw [children_exported h] at made
  have keyed := Node.areKeyed_iff.mp h.body.children
  have numbers := (Node.isIntegral_parts integral).2.2.1
  rw [(frame_body settings element parts children).2.2] at keyed numbers
  exact sameList_ownChildren _ (fun node member => keyed node (List.mem_append_right _ member))
    (Returns.othersKeyed inside.own made)
    (fun node member => numbers node (List.mem_append_right _ member))
    (Returns.sameList inside.own made)

theorem sameList_groups : Node.sameList others.groups parts.groups = true := by
  have keyed := Node.areKeyed_iff.mp h.body.children
  have numbers := (Node.isIntegral_parts integral).2.2.1
  have made := imports.groups
  rw [(frame_body settings element parts children).2.2] at keyed numbers
  rw [nodeName_exported h, groups_exported_body h inside.groups, List.forall₂_map_left_iff] at made
  rw [Node.sameList_iff]
  refine List.Forall₂.flip (((List.forall₂_and_left _ _).mpr ⟨fun _ member => member, made⟩).imp ?_)
  rintro group other ⟨member, grouping, known, path, blocks, read, rfl⟩
  have makes := makes_of_stays h known group member
  have numbered := numbers group (List.mem_append_left _ member)
  have groupKeyed := Node.keyed_of_isKeyed (keyed group (List.mem_append_left _ member))
  have found : List.Forall₂ (Element.ImportsTo settings) (exportNodes group.children) blocks :=
    forall₂_of_importElements read
  have blocksKeyed := Returns.othersKeyed (inside.groups group member) found
  have same := Returns.sameList (inside.groups group member) found
    (Node.isIntegral_parts numbered).2.2.1
  have whole := makes.whole
  rw [← whole] at numbered groupKeyed
  have again := same_groupNode makes.distinct groupKeyed blocksKeyed numbered same
  rwa [whole] at again

theorem sameList_slots {first last : List Node} (found : Fields.get? others.slots key = some first)
    (given : Fields.get? parts.slots key = some last) : Node.sameList first last = true := by
  have slots := imports.slots
  rw [nodeName_exported h] at slots
  have listed := Fields.mem_of_get? given
  have returns := inside.slots _ listed
  obtain ⟨again, at_, slotOf⟩ := get?_of_slotOf slots (get?_slotOption_exported h inside given)
  cases found.symm.trans at_
  have numbers := (Node.isIntegral_parts integral).2.2.2
  rw [(frame_body settings element parts children).2.1] at numbers
  exact Returns.sameList returns (Returns.imported returns slotOf) (numbers _ listed)

/-- The exported element is imported as a node that agrees with the one it was written for. -/
theorem agrees_again :
    Node.Agrees ((exportNode (element.body settings parts children)).body settings others nodes)
      (element.body settings parts children) where
  name := by
    rw [(frame_body settings _ others nodes).1, (frame_body settings element parts children).1,
      nodeName_exported h]
  properties key := by
    by_cases style : key = styleKey
    · rw [style, get?_properties_style, get?_properties_style]
    · rw [(fields_again h imports style).1.literal, (fields_again h imports style).2.literal]
  bindings key := by
    by_cases style : key = styleKey
    · rw [style, (Element.hasField_style settings _ others nodes).binding,
        (Element.hasField_style settings element parts children).binding]
      exact congrArg (fun merged => bindingOf? (Option.map _ merged)) (merged?_exported h)
    · rw [(fields_again h imports style).1.binding, (fields_again h imports style).2.binding]
  children := by
    rw [(frame_body settings _ others nodes).2.2, (frame_body settings element parts children).2.2,
      nodeName_exported h, Node.sameList_iff]
    exact List.rel_append (Node.sameList_iff.mp (sameList_groups h inside imports integral))
      (Node.sameList_iff.mp (sameList_own h inside imports integral))
  slotNames key := by
    rw [(frame_body settings _ others nodes).2.1, (frame_body settings element parts children).2.1]
    exact slotNames_again h inside imports
  slots key first last found given := by
    rw [(frame_body settings _ others nodes).2.1] at found
    rw [(frame_body settings element parts children).2.1] at given
    exact sameList_slots h inside imports integral found given
  scope :=
    (scope_body settings _ others nodes).trans (scope_body settings element parts children).symm
  metadata key := by
    rw [metadata_body (keyed_exported h) imports.plain,
      metadata_body h.keyed h.imports.plain, bodyRecords_exported h imports.plain]

end again

/-- A node comes back if the nodes do that it is made of. -/
theorem returns_body (versioned : element.isVersioned = true) :
    Returns settings (element.body settings parts children) := by
  have decoded : (exportNode (element.body settings parts children)).Decoded :=
    ⟨keyed_exported h, versioned_exported h inside versioned⟩
  obtain ⟨other, made⟩ := (importElement_ok_iff "" _).mpr (importable_exported h inside)
  obtain ⟨others, nodes, whole, imports⟩ := imports_of_importElement decoded.keyed made
  rw [Element.repeated, repetition_exportNode h.loop] at whole
  obtain rfl : other = _ := whole
  have imported : (exportNode (element.body settings parts children)).ImportsTo settings _ :=
    fun place => importElement_elsewhere made place
  refine ⟨isKeyed_of_keyed h.body, decoded.versioned, _, imported, fun integral => ?_⟩
  exact (agrees_again h inside imports integral).same
    (Node.keyed_of_isKeyed (isKeyed_importElement decoded imported)) h.body integral

end body

/-! ## Loops that come back -/

theorem defaultItemName_ne_empty (collection : String) :
    Loop.defaultItemName collection ≠ "" := by
  unfold Loop.defaultItemName
  dsimp only
  split
  · intro empty
    have length := congrArg String.length empty
    simp at length
  · decide

theorem nameOr_ne_empty {default : String} (named : default ≠ "") (given : Option String) :
    some (Loop.nameOr given default) ≠ some "" := by
  rw [Ne, Option.some.injEq]
  cases given with
  | none => exact named
  | some name =>
    unfold Loop.nameOr
    by_cases empty : name = ""
    · simpa [empty] using named
    · simp [empty]

/-- The wrapper that an import puts around a node is a loop. -/
theorem isLoop_wrap {collection : String} (filled : Text.isBlankText collection = false)
    (body : Node) (itemName indexName : Option String) :
    IsLoop (Loop.wrap body collection itemName indexName) collection where
  named := rfl
  bound := ⟨_, rfl, rfl⟩
  filled := filled
  itemName := nameOr_ne_empty (defaultItemName_ne_empty collection) itemName
  indexName := nameOr_ne_empty (by decide) indexName

theorem isVersioned_repeated (element : Element) (repetition : Option Repetition) :
    ({ element with repetition } : Element).isVersioned = element.isVersioned := by
  cases element
  rfl

/-- A repeated node comes back if the node does and is no loop itself. -/
theorem returns_wrap {body : Node} (h : Returns settings body) (single : Loop.head? body = none)
    {collection : String} (filled : Text.isBlankText collection = false)
    (itemName indexName : Option String)
    (keyed : (Loop.wrap body collection itemName indexName).isKeyed = true) :
    Returns settings (Loop.wrap body collection itemName indexName) := by
  have loop := isLoop_wrap filled body itemName indexName
  obtain ⟨other, imports, same⟩ := h.again
  refine ⟨keyed, ?_, loopNode (Loop.wrap body collection itemName indexName) collection other,
    fun place => ?_, fun integral => ?_⟩
  · rw [exportNode_loop (repetition_exportNode single) loop.head rfl, isVersioned_repeated]
    exact h.versioned
  · rw [loop.importElement_single rfl single, imports]
    rfl
  · have inner := (Node.isIntegral_parts integral).2.2.1 body List.mem_cons_self
    have othersKeyed : Node.areKeyed [other] = true :=
      Node.areKeyed_iff.mpr fun _ member => by
        rw [List.mem_singleton.mp member]
        exact isKeyed_importElement h.decoded imports
    have list : Node.sameList [other] [body] = true :=
      Bool.and_eq_true_iff.mpr ⟨same inner, rfl⟩
    have whole := same_of_sameList (Node.keyed_of_isKeyed keyed) rfl othersKeyed integral list
    exact whole

/-! ## Imported nodes -/

/-- The node for an element comes back if the element is steady, and all elements in it are. The
induction is on the depth of the element, through its options and its children. -/
theorem returns_importElement {element : Element} (decoded : element.Decoded)
    (steady : element.All settings (Element.Steady settings)) {node : Node}
    (imports : element.ImportsTo settings node) : Returns settings node := by
  refine importElement_induction ?_ decoded steady imports
  intro element parts children decoded steady imports own slots groups
  have body := keyed_body decoded.keyed imports (fun child member => (own child member).keyed)
    (fun slot listed child member => (slots slot listed child member).keyed)
    (fun group listed child member => (groups group listed child member).keyed)
  have stays : element.Stays settings parts children := ⟨decoded.keyed, steady, imports, body⟩
  have returns := returns_body stays ⟨own, slots, groups⟩ decoded.versioned
  have keyed := isKeyed_repeated element returns.keyed
  rw [Element.repeated] at keyed ⊢
  split
  · next repetition repeated =>
    rw [repeated] at keyed
    have filled := (Option.filter_eq_some_iff.mp repeated).2
    rw [Bool.not_eq_true'] at filled
    exact returns_wrap returns stays.loop filled _ _ keyed
  · exact returns

end BlockLoom.Content
