import BlockLoom.Proofs.Content.Reached
import BlockLoom.Proofs.Content.Slots

/-!
Where the parts of a node stand in its element. As long as nothing is in the place of
something else, the literals that are written, the slots and the groups are the options,
and all other children are the children; each list of nodes is one array, in its order.
-/

namespace BlockLoom.Content

/-- Whether a node has the name of the groups of the component that it is a child of. -/
def isGroupOf (outer : Option Grouping) (node : Node) : Bool :=
  outer.any fun grouping => decide (node.name = grouping.nodeName)

/-- What keeps the nodes in a node from being left out: slots are only on nodes that are
written as components, none is in the place of the groups, and no field of a column is in
the place of its blocks. -/
structure Placeable (node : Node) : Prop where
  slots : node.slots ≠ [] → Loop.head? node = none ∧ node.isTag = false
  groups : ∀ child ∈ node.children, isGroupOf (Grouping.of? node.name) child = true →
    child.slots = []
  option : ∀ grouping, Grouping.of? node.name = some grouping →
    grouping.optionKey ∉ Fields.names node.slots
  blocks : Grouping.of? node.name = some .columns → ∀ child ∈ node.children,
    child.name = Grouping.columns.nodeName →
      Group.blocksKey ∉ Fields.names child.properties ∧
        Group.blocksKey ∉ Fields.names child.bindings

/-- The elements that the literal options of a node hold, as far as these are written. -/
def literalElements (node : Node) : List Element :=
  if node.isTag then []
  else
    ((exportedOptions node).filter fun entry => !isOverwritten node entry.1).flatMap
      (heldIn (Grouping.of? node.name))

theorem Placeable.of_plain {node : Node} (slots : node.slots = [])
    (ungrouped : Grouping.of? node.name = none) : Placeable node := by
  refine ⟨fun filled => absurd slots filled, fun child _ group => ?_, fun grouping named => ?_,
    fun named => ?_⟩
  · rw [ungrouped] at group
    cases group
  · cases ungrouped.symm.trans named
  · cases ungrouped.symm.trans named

/-- A node without slots is laid out as it should be if its children are. -/
theorem Placeable.all {node : Node} (h : Placeable node) (unslotted : node.slots = [])
    (below : ∀ child ∈ node.children, child.All Placeable) : node.All Placeable :=
  Node.all_iff.mpr ⟨h, below, by simp [unslotted]⟩

/-! ## Parts of an exported element -/

theorem heldIn_exportNodes {grouping : Option Grouping} {key : String}
    (free : Grouping.claims grouping key = false) {nodes : List Node}
    (keyed : Node.areKeyed nodes = true) :
    heldIn grouping (key, .array (Element.listToJson (exportNodes nodes))) =
      Element.strippedList (exportNodes nodes) := by
  have stand := (standFor_listToJson_iff (exported_exportNodes nodes keyed)).mpr rfl
  rw [heldIn, free, if_neg Bool.false_ne_true]
  cases nodes with
  -- An empty list is no slot, and it holds no element either.
  | nil => rfl
  | cons node nodes =>
    have marked := (isSlotOption_exportNodes free keyed).mpr (List.cons_ne_nil node nodes)
    rw [isSlotOption, free, Bool.not_false, Bool.true_and] at marked
    have read : readOption "" (.array (Element.listToJson (exportNodes (node :: nodes)))) =
        .ok (.slot (Element.strippedList (exportNodes (node :: nodes)))) :=
      readOption_slot_iff.mpr ⟨_, rfl, marked, stand⟩
    simp only [read]

/-- The groups among nodes are written in order, each with the elements for its children. -/
theorem exportGroups_fst (grouping : Grouping) (nodes : List Node) :
    (exportGroups grouping nodes).1 = (nodes.filter grouping.isGroup).map fun child =>
      grouping.entry child (Element.listToJson (exportNodes child.children)) := by
  induction nodes with
  | nil => rw [exportGroups_nil]; rfl
  | cons node nodes ih =>
    rw [exportGroups_cons, List.filter_cons]
    split
    · rw [List.map_cons, ← ih]
    · split
      · exact ih
      · exact ih

/-- The nodes that are written beside the groups: those in default variants in place of these. -/
def beside (grouping : Grouping) (nodes : List Node) : List Node :=
  nodes.flatMap fun node =>
    if grouping.isGroup node then []
    else if grouping = .variants ∧ isDefaultVariant node then node.children
    else [node]

theorem exportGroups_snd (grouping : Grouping) (nodes : List Node) :
    (exportGroups grouping nodes).2 = exportNodes (beside grouping nodes) := by
  induction nodes with
  | nil => rw [exportGroups_nil]; rfl
  | cons node nodes ih =>
    rw [exportGroups_cons, beside, List.flatMap_cons, ← beside, exportNodes_append, ← ih]
    split
    · rfl
    · split <;> rfl

theorem isGroupOf_of_isGroup {grouping : Grouping} {node : Node}
    (h : grouping.isGroup node = true) : node.name = grouping.nodeName := by
  cases grouping with
  | columns => exact of_decide_eq_true h
  | variants => exact of_decide_eq_true (Bool.and_eq_true_iff.mp h).2

theorem names_literalFields {node : Node} {key : String}
    (h : key ∈ Fields.names node.literalFields) :
    key ∈ Fields.names node.properties ∨ key ∈ Fields.names node.bindings := by
  revert h
  rw [Node.literalFields]
  refine List.foldlRecOn (motive := fun fields : Fields Json => key ∈ Fields.names fields →
    key ∈ Fields.names node.properties ∨ key ∈ Fields.names node.bindings) node.bindings _
    (fun h => .inl (Fields.mem_names_ofEntries.mp h)) fun fields earlier entry stored h => ?_
  split at h
  · rcases Fields.mem_names_put.mp h with rfl | h
    · exact .inr (Fields.mem_names_of_mem stored)
    · exact earlier h
  · exact earlier h

theorem Placeable.ownBlocks {node : Node} (h : Placeable node) {grouping : Grouping}
    (named : Grouping.of? node.name = some grouping) {child : Node} (member : child ∈ node.children)
    (group : grouping.isGroup child = true) : grouping.ownBlocks? child = none := by
  cases grouping with
  | variants => rfl
  | columns =>
    obtain ⟨property, binding⟩ := h.blocks named child member (isGroupOf_of_isGroup group)
    rw [Grouping.ownBlocks?, Fields.get?_eq_none_iff]
    exact fun literal => (names_literalFields literal).elim property binding

/-- The blocks of an exported group are the elements for its children. -/
theorem standsFor_entry {grouping : Grouping} {child : Node} (keyed : child.isKeyed = true)
    (own : grouping.ownBlocks? child = none) :
    ∃ group, Group.StandsFor
        (grouping.entry child (Element.listToJson (exportNodes child.children))) group ∧
      group.blocks = Element.strippedList (exportNodes child.children) := by
  have maps := Node.keyed_of_isKeyed keyed
  obtain ⟨members, data, found⟩ := get?_blocks_entry grouping maps.properties
    (Element.listToJson (exportNodes child.children))
  rw [own] at found
  exact ⟨⟨_, _⟩, ⟨members, data, rfl, .inr ⟨_, found,
    (standFor_listToJson_iff (exported_exportNodes _ maps.children)).mpr rfl⟩⟩, rfl⟩

/-- The groups of a component hold the elements for the children of each of them. -/
theorem heldIn_exportGroups {grouping : Grouping} {nodes : List Node}
    (keyed : Node.areKeyed nodes = true)
    (own : ∀ child ∈ nodes, grouping.isGroup child = true → grouping.ownBlocks? child = none) :
    heldIn (some grouping) (grouping.optionKey, .array (exportGroups grouping nodes).1) =
      (nodes.filter grouping.isGroup).flatMap fun child =>
        Element.strippedList (exportNodes child.children) := by
  obtain ⟨groups, stand, blocks⟩ : ∃ groups,
      List.Forall₂ Group.StandsFor (exportGroups grouping nodes).1 groups ∧
        groups.flatMap Group.blocks = (nodes.filter grouping.isGroup).flatMap fun child =>
          Element.strippedList (exportNodes child.children) := by
    rw [exportGroups_fst]
    have each : ∀ child ∈ nodes.filter grouping.isGroup,
        child.isKeyed = true ∧ grouping.ownBlocks? child = none := by
      intro child member
      obtain ⟨stored, group⟩ := List.mem_filter.mp member
      exact ⟨Node.areKeyed_iff.mp keyed child stored, own child stored group⟩
    generalize nodes.filter grouping.isGroup = children at each ⊢
    induction children with
    | nil => exact ⟨[], .nil, rfl⟩
    | cons child children ih =>
      obtain ⟨first, others⟩ := List.forall_mem_cons.mp each
      obtain ⟨group, stands, inside⟩ := standsFor_entry first.1 first.2
      obtain ⟨groups, stand, blocks⟩ := ih others
      exact ⟨group :: groups, .cons stands stand, by
        rw [List.flatMap_cons, List.flatMap_cons, inside, blocks]⟩
  have read := (@Group.readList_iff "" _ _).mpr ⟨_, rfl, stand⟩
  rw [heldIn, claims_self, if_pos rfl, read]
  exact blocks

/-! ## Options of an exported element -/

def groupOption (node : Node) : Fields Json :=
  match Grouping.of? node.name with
  | some grouping =>
    if node.children.any grouping.isGroup then
      [(grouping.optionKey, .array (exportGroups grouping node.children).1)]
    else []
  | none => []

theorem mem_names_groupOption {node : Node} {key : String} :
    key ∈ Fields.names (groupOption node) ↔
      ∃ grouping, Grouping.of? node.name = some grouping ∧ grouping.optionKey = key ∧
        node.children.any grouping.isGroup = true := by
  rw [groupOption]
  cases Grouping.of? node.name with
  | none => simp
  | some grouping =>
    cases groups : node.children.any grouping.isGroup with
    | true =>
      simp only [groups, if_true, Fields.names_cons, Fields.names_nil, List.mem_singleton,
        Option.some.injEq, exists_eq_left', and_true, eq_comm]
    | false =>
      simp only [groups, Bool.false_eq_true, if_false, Fields.names_nil, List.not_mem_nil,
        Option.some.injEq, exists_eq_left', and_false]

/-- A literal option is written over just if there is a slot or a group option of its name. -/
theorem isOverwritten_eq (node : Node) (key : String) :
    isOverwritten node key = Fields.has (exportSlots node.slots ++ groupOption node) key := by
  rw [Bool.eq_iff_iff, isOverwritten, Bool.or_eq_true, Option.any_eq_true, Fields.has_iff,
    Fields.has_iff, Fields.names_append, List.mem_append, names_exportSlots, mem_names_groupOption]
  simp only [Bool.and_eq_true, decide_eq_true_eq]

theorem options_exportNode {node : Node} (keyed : node.Keyed) (component : node.isTag = false)
    (loop : Loop.head? node = none) :
    (exportNode node).options =
      Fields.merge (exportedOptions node) (exportSlots node.slots ++ groupOption node) := by
  rw [exportNode_plain loop, (@assemble_component {} _ keyed component _).1, writtenOptions,
    groupOption]
  cases Grouping.of? node.name with
  | none => rw [List.append_nil]
  | some grouping =>
    dsimp only
    rw [isEmpty_exportGroups]
    cases node.children.any grouping.isGroup with
    | true => rw [Fields.merge_append]; rfl
    | false => simp

/-- Slots and groups are written in different places. -/
theorem Placeable.distinct {node : Node} (h : Placeable node) (keyed : node.Keyed) :
    Fields.Distinct (exportSlots node.slots ++ groupOption node) := by
  rw [Fields.distinct_append, Fields.Distinct, names_exportSlots]
  refine ⟨keyed.slotNames, ?_, fun key slot group => ?_⟩
  · rw [groupOption]
    split
    · split
      · exact Fields.distinct_cons.mpr ⟨List.not_mem_nil, Fields.distinct_nil⟩
      · exact Fields.distinct_nil
    · exact Fields.distinct_nil
  · obtain ⟨grouping, named, rfl, -⟩ := mem_names_groupOption.mp group
    exact h.option grouping named slot

/-- The options of the element for a component node: its literals that are not written
over, its slots and its groups. -/
theorem options_exportNode_perm {node : Node} (keyed : node.Keyed) (component : node.isTag = false)
    (loop : Loop.head? node = none) (h : Placeable node) :
    (exportNode node).options.Perm
      (((exportedOptions node).filter fun entry => !isOverwritten node entry.1) ++
        (exportSlots node.slots ++ groupOption node)) := by
  have literals := (Json.isSettled_object.mp (isSettled_exportedOptions keyed)).1
  rw [options_exportNode keyed component loop]
  simp only [isOverwritten_eq]
  exact Fields.merge_perm literals (h.distinct keyed)

theorem grouping?_exportNode {node : Node} (component : node.isTag = false)
    (loop : Loop.head? node = none) : (exportNode node).grouping? = Grouping.of? node.name := by
  rw [exportNode_plain loop, Element.grouping?, use_assemble component]
  rfl

/-- The children of the element for a node: those for its children that are no groups. -/
theorem children_exportNode {node : Node} (loop : Loop.head? node = none) :
    (exportNode node).children =
      exportNodes (match Grouping.of? node.name with
        | none => node.children
        | some grouping => beside grouping node.children) := by
  rw [exportNode_plain loop, children_assemble]
  cases Grouping.of? node.name with
  | none => rfl
  | some grouping => exact exportGroups_snd grouping node.children

def groupBlocks (grouping : Grouping) (nodes : List Node) : List Element :=
  (nodes.filter grouping.isGroup).flatMap fun child =>
    Element.strippedList (exportNodes child.children)

theorem heldIn_groupOption {node : Node} (keyed : node.Keyed) (h : Placeable node) :
    (groupOption node).flatMap (heldIn (Grouping.of? node.name)) =
      match Grouping.of? node.name with
      | none => []
      | some grouping => groupBlocks grouping node.children := by
  rw [groupOption]
  cases named : Grouping.of? node.name with
  | none => rfl
  | some grouping =>
    dsimp only
    split
    · rw [List.flatMap_singleton]
      exact heldIn_exportGroups keyed.children fun child member => h.ownBlocks named member
    · next none =>
      rw [groupBlocks, List.filter_eq_nil_iff.mpr fun child member group =>
        none (List.any_eq_true.mpr ⟨child, member, group⟩)]
      rfl

theorem heldIn_exportSlots {node : Node} (keyed : node.Keyed) (h : Placeable node) :
    (exportSlots node.slots).flatMap (heldIn (Grouping.of? node.name)) =
      node.slots.flatMap fun slot => Element.strippedList (exportNodes slot.2) := by
  have each : ∀ slot ∈ node.slots, Node.areKeyed slot.2 = true ∧
      Grouping.claims (Grouping.of? node.name) slot.1 = false := by
    intro slot member
    refine ⟨Node.haveKeyed_iff.mp keyed.slots slot member, ?_⟩
    cases named : Grouping.of? node.name with
    | none => rfl
    | some grouping =>
      have other : grouping.optionKey ≠ slot.1 := fun same =>
        h.option grouping named (same ▸ Fields.mem_names_of_mem member)
      simp [Grouping.claims, Option.filter, other]
  generalize node.slots = slots at each
  induction slots with
  | nil => rfl
  | cons slot slots ih =>
    obtain ⟨⟨inner, free⟩, others⟩ := List.forall_mem_cons.mp each
    rw [exportSlots, List.flatMap_cons, List.flatMap_cons, ih others,
      heldIn_exportNodes free inner]

/-- What stands in the element for a component node: elements in its literals, and the
elements for the nodes of its slots, for those of its groups, and for its other children. -/
theorem parts_component {node : Node} (keyed : node.Keyed) (component : node.isTag = false)
    (loop : Loop.head? node = none) (h : Placeable node) :
    (exportNode node).parts.Perm
      (literalElements node ++
        (node.slots.flatMap fun slot => Element.strippedList (exportNodes slot.2)) ++
        (match Grouping.of? node.name with
          | none => exportNodes node.children
          | some grouping =>
            groupBlocks grouping node.children ++
              exportNodes (beside grouping node.children))) := by
  have options := (options_exportNode_perm keyed component loop h).flatMap_right
    (heldIn (Grouping.of? node.name))
  rw [List.flatMap_append, List.flatMap_append, heldIn_exportSlots keyed h,
    heldIn_groupOption keyed h] at options
  have literal : literalElements node =
      ((exportedOptions node).filter fun entry => !isOverwritten node entry.1).flatMap
        (heldIn (Grouping.of? node.name)) := if_neg (by simp [component])
  rw [Element.parts, grouping?_exportNode component loop, children_exportNode loop, literal]
  refine (options.append_right _).trans (List.Perm.of_eq ?_)
  cases Grouping.of? node.name <;> simp

/-- The element for a native tag holds nothing but its children. -/
theorem parts_tag {node : Node} (keyed : node.Keyed) (tag : node.isTag = true)
    (loop : Loop.head? node = none) : (exportNode node).parts = exportNodes node.children := by
  have options : (exportNode node).options = [] := by
    rw [exportNode_plain loop]
    exact (assemble_tag keyed tag _).1
  rw [Element.parts, options, children_exportNode loop, grouping_of_tag tag]
  rfl

/-- What stands in the element for a node that is no loop wrapper: the elements of its slots, those
of its groups, those that its literals hold, and those for its own children. -/
theorem parts_exportNode {node : Node} (keyed : node.Keyed) (loop : Loop.head? node = none)
    (h : Placeable node) :
    (exportNode node).parts.Perm
      (literalElements node ++
        (node.slots.flatMap fun slot => Element.strippedList (exportNodes slot.2)) ++
        (match Grouping.of? node.name with
          | none => exportNodes node.children
          | some grouping =>
            groupBlocks grouping node.children ++
              exportNodes (beside grouping node.children))) := by
  cases tag : node.isTag with
  | false => exact parts_component keyed tag loop h
  | true =>
    have slots : node.slots = [] := by
      by_contra filled
      cases tag.symm.trans (h.slots filled).2
    rw [parts_tag keyed tag loop, literalElements, if_pos tag, slots, grouping_of_tag tag]
    exact .refl _

/-! ## Loops -/

/-- Whether a node is a loop wrapper around anything but one node that is no loop. -/
def isWrapped (node : Node) : Bool :=
  (Loop.head? node).isSome &&
    match node.children with
    | [child] => (Loop.head? child).isSome
    | _ => true

/-- What a loop wrapper repeats is put into a fragment unless it is one node that is no loop. -/
theorem exportNode_wrapped {node : Node} (h : isWrapped node = true) :
    ∃ repetition, exportNode node =
      { Element.fragment (exportNodes node.children) with repetition } := by
  obtain ⟨given, several⟩ := Bool.and_eq_true_iff.mp h
  obtain ⟨head, loop⟩ := Option.isSome_iff_exists.mp given
  refine ⟨some ⟨head.collection, head.itemName, head.indexName⟩, ?_⟩
  rw [exportNode_of_head loop]
  unfold repeatElements
  cases children : node.children with
  | nil => rfl
  | cons first rest =>
    cases rest with
    | nil =>
      rw [children] at several
      simp only [exportNodes, isSome_repetition, several, if_true]
    | cons second rest => rfl

theorem exportNode_unwrapped {node : Node} {head : Loop.Head} (loop : Loop.head? node = some head)
    (h : isWrapped node = false) :
    ∃ child repetition, node.children = [child] ∧ Loop.head? child = none ∧
      exportNode node = { exportNode child with repetition } := by
  rw [isWrapped, loop, Option.isSome_some, Bool.true_and] at h
  split at h
  · next child children =>
    have inner : Loop.head? child = none :=
      Option.isNone_iff_eq_none.mp (Option.isSome_eq_false_iff.mp h)
    exact ⟨child, _, children, inner,
      exportNode_loop (repetition_exportNode inner) loop children⟩
  · cases h

/-! ## Layout -/

def Element.title (element : Element) : Option String :=
  (element.component.map Use.name).or element.tagName

/-- How a node that is no loop wrapper is laid out in its element: under its name, with
the elements for the nodes of each list in one array, in the order of the list, and with
one group for each of its groups. -/
structure Laid (node : Node) : Prop where
  title : (exportNode node).title = some node.name
  children : (exportNode node).children =
    (match Grouping.of? node.name with
      | none => node.children
      | some grouping => beside grouping node.children).map exportNode
  slots : ∀ key nodes, Fields.get? node.slots key = some nodes →
    Fields.get? (exportNode node).options key =
      some (.array (Element.listToJson (nodes.map exportNode)))
  groups : ∀ grouping, Grouping.of? node.name = some grouping →
    node.children.any grouping.isGroup = true →
    ∃ entries, Fields.get? (exportNode node).options grouping.optionKey = some (.array entries) ∧
      List.Forall₂ (fun child entry => ∃ members, entry = .object members ∧
          Fields.get? members Group.blocksKey =
            some (.array (Element.listToJson (child.children.map exportNode))))
        (node.children.filter grouping.isGroup) entries

theorem title_exportNode {node : Node} (keyed : node.Keyed) (loop : Loop.head? node = none) :
    (exportNode node).title = some node.name := by
  obtain ⟨component, -⟩ := boundElement_rest node keyed
  rw [exportNode_plain loop]
  cases tag : node.isTag with
  | true => simp [assemble, tag, Element.title, component]
  | false => rw [Element.title, use_assemble tag]; rfl

/-- Slots and groups are found under their options. -/
theorem get?_options_of_mem {node : Node} (keyed : node.Keyed) (component : node.isTag = false)
    (loop : Loop.head? node = none) (h : Placeable node) {key : String} {value : Json}
    (member : (key, value) ∈ exportSlots node.slots ++ groupOption node) :
    Fields.get? (exportNode node).options key = some value := by
  have distinct := h.distinct keyed
  rw [options_exportNode keyed component loop, Fields.get?_merge distinct,
    (Fields.get?_eq_some_iff distinct).mpr member, Option.some_or]

theorem laid_of_placeable {node : Node} (keyed : node.isKeyed = true)
    (loop : Loop.head? node = none) (h : Placeable node) : Laid node := by
  have maps := Node.keyed_of_isKeyed keyed
  refine ⟨title_exportNode maps loop, ?children, fun key nodes given => ?slots,
    fun grouping named some => ?groups⟩
  case children => rw [children_exportNode loop, exportNodes_eq_map]
  case slots =>
    have listed := Fields.mem_of_get? given
    have component : node.isTag = false := (h.slots (List.ne_nil_of_mem listed)).2
    apply get?_options_of_mem maps component loop h
    rw [exportSlots_eq, ← exportNodes_eq_map]
    exact List.mem_append_left _ (List.mem_map_of_mem listed)
  case groups =>
    have component : node.isTag = false := by
      by_contra tag
      cases named.symm.trans (grouping_of_tag (Bool.not_eq_false _ ▸ tag))
    refine ⟨(exportGroups grouping node.children).1, ?_, ?_⟩
    · apply get?_options_of_mem maps component loop h
      rw [groupOption, named]
      dsimp only
      rw [if_pos some]
      exact List.mem_append_right _ List.mem_cons_self
    · rw [exportGroups_fst, List.forall₂_map_right_iff, List.forall₂_same]
      intro child member
      obtain ⟨listed, group⟩ := List.mem_filter.mp member
      have inner := Node.keyed_of_isKeyed (Node.areKeyed_iff.mp maps.children child listed)
      obtain ⟨members, data, found⟩ := get?_blocks_entry grouping inner.properties
        (Element.listToJson (exportNodes child.children))
      rw [h.ownBlocks named listed group] at found
      exact ⟨members, data, exportNodes_eq_map child.children ▸ found⟩

end BlockLoom.Content
