import BlockLoom.Proofs.Content.CanonicalNode

/-!
The round trip of canonical content. The import of a canonical element gives a
node that holds every key of the element once, and the export of that node puts
every key back where it came from, whether it stands among children, in a slot or
in a group.
-/

namespace BlockLoom.Content

/-! ## Elements that are the same data -/

/-- Elements that differ in the order of members at most. -/
structure Element.Alike (element other : Element) : Prop where
  type : element.type = other.type
  version : element.version = other.version
  id : element.id = other.id
  tagName : element.tagName = other.tagName
  layerName : element.layerName = other.layerName
  component : (element.component.map Use.toJson).map Json.sorted =
    (other.component.map Use.toJson).map Json.sorted
  properties : element.properties = other.properties
  bindings : Json.Similar (textsToJson element.bindings) (textsToJson other.bindings)
  styles : element.styles = other.styles
  repetition : element.repetition = other.repetition
  code : element.code = other.code
  actions : element.actions = other.actions
  children : List.Forall₂ Json.Similar (Element.listToJson element.children)
    (Element.listToJson other.children)

theorem Element.Alike.similar {element other : Element} (h : element.Alike other) :
    Json.Similar element.toJson other.toJson := by
  rw [Element.toJson_eq, Element.toJson_eq]
  apply Json.similar_present
  rw [Element.entries, Element.entries, h.type, h.version, h.id, h.tagName, h.layerName,
    h.properties, h.styles, h.repetition, h.code, h.actions]
  refine .cons ⟨rfl, rfl⟩ <| .cons ⟨rfl, rfl⟩ <| .cons ⟨rfl, rfl⟩ <| .cons ⟨rfl, rfl⟩ <|
    .cons ⟨rfl, rfl⟩ <| .cons ⟨rfl, h.component⟩ <| .cons ⟨rfl, rfl⟩ <|
    .cons ⟨rfl, congrArg some h.bindings⟩ <| .cons ⟨rfl, rfl⟩ <| .cons ⟨rfl, rfl⟩ <|
    .cons ⟨rfl, rfl⟩ <| .cons ⟨rfl, rfl⟩ <|
    .cons ⟨rfl, congrArg some (Json.similar_array h.children)⟩ .nil

/-- What repeats an element does not matter to the rest of it. -/
theorem Element.Alike.repeated {element other : Element}
    (h : element.Alike { other with repetition := none }) :
    Element.Alike { element with repetition := other.repetition } other :=
  ⟨h.type, h.version, h.id, h.tagName, h.layerName, h.component, h.properties, h.bindings,
    h.styles, rfl, h.code, h.actions, h.children⟩

/-- Options that are the same members in another order are the same data. -/
theorem similar_options {options others : Fields Json} (h : Fields.Distinct others)
    (perm : (Fields.mapValues Json.sorted options).Perm (Fields.mapValues Json.sorted others)) :
    Json.Similar (.object options) (.object others) := by
  rw [Json.Similar, Json.sorted, Json.sorted, Json.sortedMembers_eq, Json.sortedMembers_eq]
  congr 1
  exact (Fields.sorted_eq_of_perm (h.mapValues _) perm.symm).symm

theorem similar_use (name : String) {options others : List (String × Json)}
    (h : Json.Similar (.object options) (.object others)) :
    Json.Similar (Use.toJson ⟨name, options⟩) (Use.toJson ⟨name, others⟩) := by
  have fields : List.Forall₂ (fun left right => left.1 = right.1 ∧
      left.2.map Json.sorted = right.2.map Json.sorted)
      [("name", some (.string name)), ("options", some (.object options))]
      [("name", some (.string name)), ("options", some (.object others))] :=
    .cons ⟨rfl, rfl⟩ (.cons ⟨rfl, congrArg some h⟩ .nil)
  exact Json.similar_present fields

/-- The parts of the node for a canonical element as they are written. -/
theorem exportParts_plainNode {element : Element} {parts : OptionParts} {nodes : List Node}
    (restored : Restored (Grouping.of? (element.nodeName {})) element.options parts)
    (beside : Grouping.of? (element.nodeName {}) = some .columns →
      ∀ node ∈ nodes, Grouping.columns.isGroup node = false)
    (looped : Loop.head? (element.plainNode parts nodes) = none) :
    ∃ groups, exportNode (element.plainNode parts nodes) =
        assemble (element.plainNode parts nodes)
          ⟨exportSlots parts.slots, groups, exportNodes nodes⟩ ∧
      groupMember (Grouping.of? (element.nodeName {})) parts.groups =
        match Grouping.of? (element.nodeName {}) with
        | some grouping => if groups.isEmpty then [] else [(grouping.optionKey, .array groups)]
        | none => [] := by
  have children : (element.plainNode parts nodes).children =
      parts.groups ++ ownChildren (element.nodeName {}) nodes := rfl
  have name : (element.plainNode parts nodes).name = element.nodeName {} := rfl
  rw [exportNode_plain looped, children, name]
  cases found : Grouping.of? (element.nodeName {}) with
  | none =>
    have own : ownChildren (element.nodeName {}) nodes = nodes := by
      apply if_neg
      intro variants
      rw [variants] at found
      cases found
    rw [restored.ungrouped found, own]
    exact ⟨[], rfl, rfl⟩
  | some grouping =>
    rw [found] at restored beside
    have groups := restored.groups grouping rfl
    have empty : (exportGroups grouping parts.groups).1.isEmpty = parts.groups.isEmpty := by
      rw [isEmpty_exportGroups]
      cases hparts : parts.groups with
      | nil => rfl
      | cons node rest =>
        rw [List.any_cons, groups node (hparts ▸ List.mem_cons_self)]
        rfl
    refine ⟨(exportGroups grouping parts.groups).1, ?_, ?_⟩
    · rw [← container_of_of? found]
      dsimp only
      rw [exportGroups_append groups, exportGroups_ownChildren fun columns =>
        beside (congrArg some columns), List.append_nil]
      rfl
    · dsimp only
      rw [empty]
      rfl

/-! ## Elements for the nodes of canonical elements -/

section Element

variable {element : Element} {parts : OptionParts} {nodes : List Node}

/-- The options of a canonical component are written side by side: the literals, the slots and the
groups, of which no two have a key in common. -/
theorem writtenOptions_plainNode (h : element.Explicit)
    (restored : Restored (Grouping.of? (element.nodeName {})) element.options parts)
    {groups : List Json} {children : List Element}
    (member : groupMember (Grouping.of? (element.nodeName {})) parts.groups =
      match Grouping.of? (element.nodeName {}) with
      | some grouping => if groups.isEmpty then [] else [(grouping.optionKey, .array groups)]
      | none => []) :
    writtenOptions (element.plainNode parts nodes) ⟨exportSlots parts.slots, groups, children⟩ =
      parts.plain ++ exportSlots parts.slots ++
        groupMember (Grouping.of? (element.nodeName {})) parts.groups := by
  have distinct : Fields.Distinct (parts.plain ++ exportSlots parts.slots ++
      groupMember (Grouping.of? (element.nodeName {})) parts.groups) := by
    rw [Fields.Distinct, Fields.names_append, Fields.names_append, names_exportSlots]
    apply restored.names_perm.nodup_iff.mpr
    have keys := h.nodup_keys
    rw [Element.keys] at keys
    simp only [List.nodup_append] at keys
    exact keys.1.1.1.1
  have front := (Fields.distinct_append.mp distinct).1
  have name : (element.plainNode parts nodes).name = element.nodeName {} := rfl
  rw [writtenOptions, (h.literals_plainNode restored nodes).2, name]
  dsimp only
  rw [Fields.merge_of_distinct front]
  rw [member] at distinct ⊢
  cases found : Grouping.of? (element.nodeName {}) with
  | none => exact (List.append_nil _).symm
  | some grouping =>
    rw [found] at distinct
    dsimp only at distinct ⊢
    cases empty : groups.isEmpty with
    | true => exact (List.append_nil _).symm
    | false =>
      rw [empty, if_neg Bool.false_ne_true] at distinct
      rw [if_neg Bool.false_ne_true]
      apply Fields.put_of_not_mem
      intro written
      exact (Fields.distinct_append.mp distinct).2.2 _ written List.mem_cons_self

/-- The node for a canonical element is no loop, and is written as that element,
its repetition aside. -/
theorem exportNode_plainNode (h : element.Explicit)
    (restored : Restored (Grouping.of? (element.nodeName {})) element.options parts)
    (children : List.Forall₂ Json.Similar (Element.listToJson (exportNodes nodes))
      (Element.listToJson element.children))
    (beside : Grouping.of? (element.nodeName {}) = some .columns →
      ∀ node ∈ nodes, Grouping.columns.isGroup node = false) :
    (exportNode (element.plainNode parts nodes)).Alike { element with repetition := none } := by
  have name : (element.plainNode parts nodes).name = element.nodeName {} := rfl
  have looped : Loop.head? (element.plainNode parts nodes) = none := by
    rw [Loop.head?, if_neg]
    rw [name]
    rcases h.form with tag | component
    · intro loop
      have isTag := (Element.Explicit.nodeName_tag tag).1
      rw [loop] at isTag
      cases isTag
    · obtain ⟨use, -, named, -, noLoop, -⟩ := Element.Explicit.nodeName_component component
      rw [named]
      exact noLoop
  obtain ⟨groups, exported, member⟩ := exportParts_plainNode restored beside looped
  have bindings : Json.Similar (textsToJson (paths .options (within .options element.bindings) ++
      paths .properties (within .properties element.bindings))) (textsToJson element.bindings) := by
    have keys := h.nodup_keys
    rw [Element.keys] at keys
    simp only [List.nodup_append] at keys
    apply Json.similar_of_perm
    · exact (distinct_paths_append (by decide) keys.1.1.2.1 keys.1.2.1).mapValues _
    · exact (perm_bindings fun entry given => (h.bindings entry given).1).map _
  have isTag : (element.plainNode parts nodes).isTag = Node.isTagName (element.nodeName {}) := rfl
  rw [exported, assemble, h.boundElement_eq restored, (h.literals_plainNode restored nodes).1, isTag]
  rcases h.form with tag | component
  · obtain ⟨isTagName, tagName, -, -⟩ := Element.Explicit.nodeName_tag tag
    have properties : some (element.properties.getD []) = element.properties := by
      obtain ⟨found, given⟩ := Option.isSome_iff_exists.mp tag.properties
      rw [given]
      rfl
    rw [if_pos isTagName]
    exact ⟨h.type.symm, rfl, rfl, tagName.symm, rfl, by rw [tag.component], properties, bindings,
      h.styles.symm, rfl, h.code.symm, rfl, children⟩
  · obtain ⟨use, isComponent, named, noTag, -, -⟩ := Element.Explicit.nodeName_component component
    have given : element.options = use.options := by rw [Element.options, isComponent]; rfl
    have options : Json.Similar (.object (writtenOptions (element.plainNode parts nodes)
        ⟨exportSlots parts.slots, groups, exportNodes nodes⟩)) (.object use.options) := by
      have keys := h.nodup_keys
      rw [Element.keys] at keys
      simp only [List.nodup_append] at keys
      rw [writtenOptions_plainNode h restored member, ← given]
      exact similar_options keys.1.1.1.1 restored.written
    have same : Json.Similar (Use.toJson ⟨element.nodeName {}, writtenOptions
        (element.plainNode parts nodes) ⟨exportSlots parts.slots, groups, exportNodes nodes⟩⟩)
        use.toJson := by
      rw [named]
      exact similar_use use.name options
    have properties : (if (element.properties.getD []).isEmpty then none
        else some (element.properties.getD [])) = element.properties := by
      have filled := component.properties
      cases found : element.properties with
      | none => rfl
      | some properties =>
        cases properties with
        | nil => exact absurd found filled
        | cons _ _ => rfl
    rw [if_neg (by rw [named, noTag]; exact Bool.false_ne_true)]
    refine ⟨h.type.symm, rfl, rfl, component.tagName.symm, rfl, ?_, properties, bindings,
      h.styles.symm, rfl, h.code.symm, rfl, children⟩
    rw [isComponent]
    exact congrArg some same

end Element

/-! ## Repeated elements -/

theorem nameOr_filter {given : Option String} {default : String}
    (h : ∀ name, given = some name → name ≠ "" ∧ name ≠ default) :
    (some (Loop.nameOr given default)).filter (fun name => decide (name ≠ default)) = given := by
  cases given with
  | none => simp [Loop.nameOr]
  | some name =>
    obtain ⟨filled, other⟩ := h name rfl
    simp [Loop.nameOr, filled, other]

/-- A loop around the node for an element is written as the element, repeated. -/
theorem exportNode_wrap {body : Node} (single : (exportNode body).repetition = none)
    {repetition : Repetition} (h : repetition.Explicit) :
    exportNode (Loop.wrap body repetition.collection repetition.itemName repetition.indexName) =
      { exportNode body with repetition := some repetition } := by
  have head : Loop.head? (Loop.wrap body repetition.collection repetition.itemName
      repetition.indexName) =
      some ⟨repetition.collection, repetition.itemName, repetition.indexName⟩ := by
    have itemName := nameOr_filter h.itemName
    have indexName := nameOr_filter h.indexName
    rw [Loop.head?]
    exact (if_pos rfl).trans
      (congrArg some (congrArg₂ (Loop.Head.mk repetition.collection) itemName indexName))
  exact exportNode_loop single head rfl

/-! ## Data of canonical elements -/

/-- Data that stand for canonical elements and are the data that these are written as. -/
structure ReadAs (items : List Json) (elements : List Element) : Prop where
  stand : List.Forall₂ StandsFor items elements
  same : (Element.listToJson elements).map Json.sorted = items.map Json.sorted
  canonical : ∀ element ∈ elements, CanonicalElement element

theorem readAs_of_canonical {items : List Json} (h : ∀ item ∈ items, CanonicalItem item) :
    ∃ elements, ReadAs items elements := by
  induction items with
  | nil => exact ⟨[], .nil, rfl, by simp⟩
  | cons item items ih =>
    obtain ⟨first, others⟩ := List.forall_mem_cons.mp h
    obtain ⟨elements, read⟩ := ih others
    obtain ⟨stands, same, canonical⟩ := first
    refine ⟨_ :: elements, .cons stands read.stand, ?_,
      List.forall_mem_cons.mpr ⟨canonical, read.canonical⟩⟩
    rw [Element.listToJson, List.map_cons, List.map_cons, read.same, same]

/-- Data of a group that stand for the given group. -/
structure Group.ReadAs (grouping : Grouping) (item : Json) (group : Group) : Prop where
  object : ∃ members items, item = .object members ∧ Fields.Distinct members ∧
    Fields.get? members blocksKey = some (.array items) ∧
    group.fields = Fields.remove members blocksKey ∧ Content.ReadAs items group.blocks
  named : grouping = .variants → defaultKey ∉ Fields.names group.fields

theorem Group.ReadAs.standsFor {grouping : Grouping} {item : Json} {group : Group}
    (h : Group.ReadAs grouping item group) : Group.StandsFor item group := by
  obtain ⟨members, items, rfl, -, found, fields, read⟩ := h.object
  exact ⟨members, rfl, fields, .inr ⟨items, found, read.stand⟩⟩

theorem Group.readAs_of_canonical {grouping : Grouping} {items : List Json}
    (h : ∀ item ∈ items, CanonicalGroup (some grouping) item) :
    ∃ groups, List.Forall₂ (Group.ReadAs grouping) items groups := by
  induction items with
  | nil => exact ⟨[], .nil⟩
  | cons item items ih =>
    obtain ⟨first, others⟩ := List.forall_mem_cons.mp h
    obtain ⟨groups, rest⟩ := ih others
    obtain ⟨distinct, found, named, each⟩ := first
    obtain ⟨blocks, read⟩ := Content.readAs_of_canonical each
    refine ⟨⟨_, blocks⟩ :: groups, .cons ⟨⟨_, _, rfl, distinct, found, rfl, read⟩, ?_⟩ rest⟩
    intro variants member
    apply named (congrArg some variants)
    obtain ⟨value, stored⟩ := Fields.mem_names.mp member
    exact Fields.mem_names.mpr ⟨value, List.mem_of_mem_filter stored⟩

/-- The node for a group is written as the data of the group. -/
theorem entry_similar {grouping : Grouping} {item : Json} {group : Group} {children : List Node}
    (h : Group.ReadAs grouping item group)
    (same : (Element.listToJson (exportNodes children)).map Json.sorted =
      (Element.listToJson group.blocks).map Json.sorted) :
    Json.Similar (grouping.entry (grouping.node group children)
      (Element.listToJson (exportNodes children))) item ∧
    grouping.isGroup (grouping.node group children) = true := by
  obtain ⟨members, items, rfl, distinct, found, fields, read⟩ := h.object
  have fieldKeys : Fields.Distinct group.fields := by
    rw [fields]
    exact distinct.remove _
  have blocks : Json.Similar (.array (Element.listToJson (exportNodes children))) (.array items) :=
    Json.similar_array (Json.similar_items_iff.mpr (same.trans read.same))
  have literals := grouping.literalFields_node fieldKeys children
  have rest (key : String) : Fields.get? group.fields key =
      if key = Group.blocksKey then none else Fields.get? members key := by
    rw [fields, Fields.get?_remove]
  cases grouping with
  | columns =>
    constructor
    · rw [Grouping.entry, literals]
      refine Json.similar_object (Fields.Distinct.merge ?_ _) distinct fun key => ?_
      · exact Fields.distinct_cons.mpr ⟨by simp, Fields.distinct_nil⟩
      rw [Fields.get?_merge fieldKeys, rest, Fields.get?_cons]
      by_cases here : key = Group.blocksKey
      · subst here
        rw [if_pos rfl, if_pos rfl, found]
        exact congrArg some blocks
      · rw [if_neg here, if_neg (Ne.symm here), Fields.get?_nil, Option.or_none]
    · rw [Grouping.node_eq _ fieldKeys]
      rfl
  | variants =>
    constructor
    · rw [Grouping.entry, literals]
      refine Json.similar_object (fieldKeys.put _ _) distinct fun key => ?_
      rw [Fields.get?_put, rest]
      by_cases here : key = Group.blocksKey
      · subst here
        rw [if_pos rfl, found]
        exact congrArg some blocks
      · rw [if_neg (Ne.symm here), if_neg here]
    · have marked : Fields.has group.fields defaultKey = false :=
        Fields.has_eq_false_iff.mpr (h.named rfl)
      rw [Grouping.node_eq _ fieldKeys, Grouping.isGroup, isDefaultVariant, marked, Bool.and_false]
      rfl

/-! ## The round trip -/

/-- What the import makes of a canonical element: a node that is written as the
element, of a name that tells whether the element is repeated. -/
def ReadBack (element : Element) (node : Node) : Prop :=
  Json.Similar (exportNode node).toJson element.toJson ∧ node.name = element.outerName

theorem readBack_items {elements : List Element} {nodes : List Node}
    (h : List.Forall₂ ReadBack elements nodes) :
    (Element.listToJson (exportNodes nodes)).map Json.sorted =
      (Element.listToJson elements).map Json.sorted := by
  induction h with
  | nil => rfl
  | cons first _ ih =>
    rw [exportNodes, Element.listToJson, Element.listToJson, List.map_cons, List.map_cons, ih,
      first.1]

/-- The import of a canonical element is read back if its parts are: the elements in its slots, in
its groups and among its children. -/
theorem readBack_of_parts {element : Element} {parts : OptionParts} {nodes : List Node}
    (h : element.Explicit)
    (restored : Restored (Grouping.of? (element.nodeName {})) element.options parts)
    (children : List.Forall₂ ReadBack element.children nodes)
    (beside : Grouping.of? (element.nodeName {}) = some .columns →
      ∀ child ∈ element.children, child.outerName ≠ Grouping.columns.nodeName) :
    ReadBack element (element.repeated (element.body {} parts nodes)) := by
  have apart : Grouping.of? (element.nodeName {}) = some .columns →
      ∀ node ∈ nodes, Grouping.columns.isGroup node = false := by
    intro columns node member
    obtain ⟨child, given, read⟩ : ∃ child ∈ element.children, ReadBack child node := by
      clear restored beside
      generalize element.children = elements at children
      induction children with
      | nil => cases member
      | cons first _ ih =>
        rcases List.mem_cons.mp member with rfl | later
        · exact ⟨_, List.mem_cons_self, first⟩
        · obtain ⟨child, given, read⟩ := ih later
          exact ⟨child, List.mem_cons_of_mem _ given, read⟩
    rw [Grouping.isGroup, read.2]
    exact decide_eq_false (beside columns child given)
  have alike := exportNode_plainNode h restored
    (Json.similar_items_iff.mpr (readBack_items children)) apart
  rw [h.body_eq restored, Element.repeated]
  cases given : element.repetition with
  | none =>
    have single : ({ element with repetition := none } : Element) = element := by
      rw [← given]
      cases element
      rfl
    rw [single] at alike
    refine ⟨alike.similar, ?_⟩
    rw [Element.outerName, given]
    rfl
  | some repetition =>
    have explicit := h.repetition repetition given
    have kept : (some repetition).filter (fun repetition =>
        !Text.isBlankText repetition.collection) = some repetition := by
      simp [explicit.collection]
    rw [kept]
    constructor
    · rw [exportNode_wrap alike.repetition explicit, ← given]
      exact alike.repeated.similar
    · rw [Element.outerName, given]
      rfl

theorem restored_nil (grouping : Option Grouping) : Restored grouping [] {} := by
  refine ⟨by simp, by simp, fun _ => rfl, ?_⟩
  cases grouping <;> exact .refl _

theorem Restored.plain {grouping : Option Grouping} {options : Fields Json} {parts : OptionParts}
    (h : Restored grouping options parts) (key : String) {value : Json} (literal : IsLiteral value) :
    Restored grouping ((key, value) :: options)
      { parts with plain := (key, value) :: parts.plain } :=
  ⟨List.forall_mem_cons.mpr ⟨literal, h.literals⟩, h.groups, h.ungrouped, .cons _ h.written⟩

theorem Restored.slot {grouping : Option Grouping} {options : Fields Json} {parts : OptionParts}
    (h : Restored grouping options parts) (key : String) {value : Json} {nodes : List Node}
    (same : Json.Similar (.array (Element.listToJson (exportNodes nodes))) value) :
    Restored grouping ((key, value) :: options)
      { parts with slots := (key, nodes) :: parts.slots } := by
  refine ⟨h.literals, h.groups, h.ungrouped, ?_⟩
  have moved : (Fields.mapValues Json.sorted (parts.plain ++ exportSlots ((key, nodes) ::
      parts.slots) ++ groupMember grouping parts.groups)).Perm
      ((key, value.sorted) :: Fields.mapValues Json.sorted (parts.plain ++
        exportSlots parts.slots ++ groupMember grouping parts.groups)) := by
    have member : (key, value.sorted) =
        (key, (Json.array (Element.listToJson (exportNodes nodes))).sorted) := by rw [same]
    rw [member, exportSlots, List.append_assoc, List.append_assoc]
    exact (List.perm_middle.map fun entry : String × Json => (entry.1, entry.2.sorted))
  exact moved.trans (.cons _ h.written)

/-- Groups are restored if no other option of the element holds groups. -/
theorem Restored.groups_cons {grouping : Grouping} {options : Fields Json} {parts : OptionParts}
    (h : Restored (some grouping) options parts)
    (single : grouping.optionKey ∉ Fields.names options) {value : Json} {nodes : List Node}
    (filled : nodes ≠ []) (groups : ∀ node ∈ nodes, grouping.isGroup node = true)
    (same : Json.Similar (.array (exportGroups grouping nodes).1) value) :
    Restored (some grouping) ((grouping.optionKey, value) :: options)
      { parts with groups := nodes ++ parts.groups } := by
  have noGroups : parts.groups = [] := by
    cases found : parts.groups with
    | nil => rfl
    | cons node rest =>
      exfalso
      apply single
      apply h.names_perm.mem_iff.mp
      rw [found]
      exact List.mem_append_right _ List.mem_cons_self
  have written := h.written
  have empty : nodes.isEmpty = false := List.isEmpty_eq_false_iff.mpr filled
  rw [noGroups] at written ⊢
  rw [List.append_nil]
  refine ⟨h.literals, ?_, by rintro ⟨⟩, ?_⟩
  · rintro _ ⟨⟩
    exact groups
  · have member : groupMember (some grouping) nodes =
        [(grouping.optionKey, .array (exportGroups grouping nodes).1)] := by
      rw [groupMember, empty, if_neg Bool.false_ne_true]
    have entry : (grouping.optionKey, value.sorted) =
        (grouping.optionKey, (Json.array (exportGroups grouping nodes).1).sorted) := by rw [same]
    have unwritten : groupMember (some grouping) [] = [] := rfl
    rw [unwritten, List.append_nil] at written
    have last : Fields.mapValues Json.sorted (parts.plain ++ exportSlots parts.slots ++
        groupMember (some grouping) nodes) =
        Fields.mapValues Json.sorted (parts.plain ++ exportSlots parts.slots) ++
          [(grouping.optionKey, value.sorted)] := by
      rw [member, entry]
      exact List.map_append
    have first : Fields.mapValues Json.sorted ((grouping.optionKey, value) :: options) =
        (grouping.optionKey, value.sorted) :: Fields.mapValues Json.sorted options := rfl
    rw [last, first]
    exact List.perm_append_comm.trans (.cons _ written)

/-- Groups in the options of a canonical element can be read. -/
theorem CanonicalOption.readList {grouping : Grouping} {key : String} {value : Json}
    (h : CanonicalOption (some grouping) key value)
    (claimed : Grouping.claims (some grouping) key = true) (path : Path) :
    ∃ items groups, Group.readList path value = .ok groups ∧ value = .array items ∧ items ≠ [] ∧
      List.Forall₂ (Group.ReadAs grouping) items groups := by
  rcases h with ⟨_, filled, each⟩ | ⟨free, _, _⟩ | ⟨free, _, _⟩
  · obtain ⟨groups, readAs⟩ := Group.readAs_of_canonical each
    exact ⟨_, groups, Group.readList_iff.mpr ⟨_, rfl, readAs.imp fun _ _ group => group.standsFor⟩,
      rfl, filled, readAs⟩
  · cases claimed.symm.trans free
  · cases claimed.symm.trans free

theorem CanonicalOption.readOption {grouping : Option Grouping} {key : String} {value : Json}
    (h : CanonicalOption grouping key value) (free : Grouping.claims grouping key = false)
    (path : Path) :
    (∃ items elements, readOption path value = .ok (.slot elements) ∧ value = .array items ∧
      ReadAs items elements) ∨ readOption path value = .ok (.plain value) ∧ IsLiteral value := by
  rcases h with ⟨claimed, _, _⟩ | ⟨_, filled, each⟩ | ⟨_, unmarked, literal⟩
  · cases claimed.symm.trans free
  · obtain ⟨elements, readAs⟩ := readAs_of_canonical each
    refine .inl ⟨_, elements, readOption_slot_iff.mpr ⟨_, rfl, ?_, readAs.stand⟩, rfl, readAs⟩
    rcases readAs.stand with _ | ⟨stands, _⟩
    · exact absurd rfl filled
    · rw [List.any_cons, stands.1]
      rfl
  · exact .inr ⟨readOption_plain_iff.mpr ⟨rfl, unmarked⟩, literal⟩

mutual

/-- Canonical elements can be imported, and their nodes are written as they are. -/
theorem import_canonical (path : Path) (element : Element) (h : CanonicalElement element) :
    ∃ node, importElement {} path element = .ok node ∧ ReadBack element node := by
  obtain ⟨explicit, options, children, beside⟩ := canonicalElement_iff.mp h
  have keys := explicit.nodup_keys
  rw [Element.keys] at keys
  simp only [List.nodup_append] at keys
  obtain ⟨parts, read, restored⟩ := import_canonicalOptions
    ((path.field "component").field "options") (Grouping.of? (element.nodeName {}))
    element.options keys.1.1.1.1 options
  obtain ⟨nodes, rest, inner⟩ :=
    import_canonicalList (path.field "children") 0 element.children children
  refine ⟨element.repeated (element.body {} parts nodes), ?_,
    readBack_of_parts explicit restored inner beside⟩
  rw [importElement, read]
  simp only [rest]
termination_by (element.depth, 1, 0)
decreasing_by
  all_goals first
    | exact before_of_le element.depthMembers_options (by omega)
    | exact before_of_le element.depthList_children (by omega)

theorem import_canonicalList (path : Path) (index : Nat) (elements : List Element)
    (h : ∀ element ∈ elements, CanonicalElement element) :
    ∃ nodes, importElements {} path index elements = .ok nodes ∧
      List.Forall₂ ReadBack elements nodes := by
  match elements with
  | [] => exact ⟨[], by rw [importElements], .nil⟩
  | element :: elements =>
    obtain ⟨first, others⟩ := List.forall_mem_cons.mp h
    obtain ⟨node, read, back⟩ := import_canonical (path.item index) element first
    obtain ⟨nodes, rest, backs⟩ := import_canonicalList path (index + 1) elements others
    refine ⟨node :: nodes, ?_, .cons back backs⟩
    rw [importElements, read]
    simp only [rest]
termination_by (Element.depthList elements, 0, elements.length)
decreasing_by
  · exact Prod.Lex.left _ _ (Nat.le_max_left _ _)
  · exact before_of_le (Nat.le_max_right _ _) (.inr ⟨rfl, Nat.lt_succ_self _⟩)

theorem import_canonicalGroups (path : Path) (grouping : Grouping) (index : Nat)
    (groups : List Group) {items : List Json}
    (h : List.Forall₂ (Group.ReadAs grouping) items groups) :
    ∃ nodes, importGroups {} path grouping index groups = .ok nodes ∧
      (exportGroups grouping nodes).1.map Json.sorted = items.map Json.sorted ∧
      ∀ node ∈ nodes, grouping.isGroup node = true := by
  match groups, h with
  | [], .nil =>
    refine ⟨[], by rw [importGroups], ?_, by simp⟩
    rw [exportGroups_nil]
  | group :: groups, .cons first others =>
    obtain ⟨_, _, _, _, _, _, read⟩ := first.object
    obtain ⟨blocks, imported, backs⟩ := import_canonicalList
      ((path.item index).field Group.blocksKey) 0 group.blocks read.canonical
    obtain ⟨nodes, rest, same, isGroup⟩ :=
      import_canonicalGroups path grouping (index + 1) groups others
    obtain ⟨entry, marked⟩ := entry_similar first (readBack_items backs)
    refine ⟨grouping.node group blocks :: nodes, ?_, ?_, List.forall_mem_cons.mpr ⟨marked, isGroup⟩⟩
    · rw [importGroups, imported]
      simp only [rest]
    · rw [exportGroups_groups_cons marked, (Grouping.frame_node _ _ _).2.2, List.map_cons, List.map_cons, same]
      exact congrArg (· :: _) entry
termination_by (Group.depthList groups, 0, groups.length)
decreasing_by
  all_goals first
    | exact Prod.Lex.left _ _ (Nat.le_max_left _ _)
    | exact before_of_le (Nat.le_max_right _ _) (.inr ⟨rfl, Nat.lt_succ_self _⟩)

theorem import_canonicalOptions (path : Path) (grouping : Option Grouping)
    (options : List (String × Json)) (distinct : Fields.Distinct options)
    (h : ∀ entry ∈ options, CanonicalOption grouping entry.1 entry.2) :
    ∃ parts, importOptions {} path grouping options = .ok parts ∧
      Restored grouping options parts := by
  match options with
  | [] => exact ⟨{}, by rw [importOptions], restored_nil grouping⟩
  | (key, value) :: options =>
    obtain ⟨first, others⟩ := List.forall_mem_cons.mp h
    obtain ⟨single, distinct⟩ := Fields.distinct_cons.mp distinct
    obtain ⟨parts, rest, restored⟩ := import_canonicalOptions path grouping options distinct others
    dsimp only at first
    rw [importOptions]
    cases claim : grouping.filter fun grouping => grouping.optionKey = key with
    | some found =>
      have claimed := Grouping.claims_eq_true_iff.mpr ⟨found, claim⟩
      obtain ⟨rfl, named⟩ := Option.filter_eq_some_iff.mp claim
      obtain rfl : found.optionKey = key := of_decide_eq_true named
      obtain ⟨items, groups, read, data, filled, readAs⟩ :=
        first.readList claimed (path.field found.optionKey)
      obtain ⟨nodes, imported, same, isGroup⟩ :=
        import_canonicalGroups (path.field found.optionKey) found 0 groups readAs
      have some_nodes : nodes ≠ [] := by
        rintro rfl
        rw [exportGroups_nil] at same
        exact filled (List.map_eq_nil_iff.mp same.symm)
      refine ⟨{ parts with groups := nodes ++ parts.groups }, ?_,
        restored.groups_cons single some_nodes isGroup ?_⟩
      · dsimp only
        split
        · next failed => cases read.symm.trans failed
        · next again =>
          cases read.symm.trans again
          simp only [imported, rest]
      · rw [data]
        exact Json.similar_array (Json.similar_items_iff.mpr same)
    | none =>
      rcases first.readOption (Grouping.claims_eq_false_iff.mpr claim) (path.field key) with
        ⟨items, elements, read, data, readAs⟩ | ⟨read, literal⟩
      · obtain ⟨nodes, imported, backs⟩ :=
          import_canonicalList (path.field key) 0 elements readAs.canonical
        refine ⟨{ parts with slots := (key, nodes) :: parts.slots }, ?_, restored.slot key ?_⟩
        · dsimp only
          split
          · next failed => cases read.symm.trans failed
          · next again =>
            cases read.symm.trans again
            simp only [imported, rest]
          · next other => cases read.symm.trans other
        · rw [data]
          exact Json.similar_array
            (Json.similar_items_iff.mpr ((readBack_items backs).trans readAs.same))
      · refine ⟨{ parts with plain := (key, value) :: parts.plain }, ?_,
          restored.plain key literal⟩
        dsimp only
        split
        · next failed => cases read.symm.trans failed
        · next other => cases read.symm.trans other
        · next again =>
          cases read.symm.trans again
          simp only [rest]
termination_by (Json.depthMembers options, 0, options.length)
decreasing_by
  all_goals first
    | exact before_of_le (Nat.le_max_right _ _) (.inr ⟨rfl, Nat.lt_succ_self _⟩)
    | exact Prod.Lex.left _ _ (Nat.lt_of_le_of_lt (Group.depth_readList (by assumption))
        (Nat.le_max_left _ _))
    | exact Prod.Lex.left _ _ (Nat.lt_of_le_of_lt (depth_readOption (by assumption))
        (Nat.le_max_left _ _))

end

/-! ## Documents -/

/-- Documents are the same data if they only differ in blocks that are. -/
theorem similar_document (content : Content) {blocks : List Element}
    (same : (Element.listToJson blocks).map Json.sorted =
      (Element.listToJson content.blocks).map Json.sorted) :
    Json.Similar ({ content with blocks } : Content).toJson content.toJson := by
  have data : List.Forall₂ (fun left right => left.1 = right.1 ∧
      left.2.map Json.sorted = right.2.map Json.sorted)
      (dataEntries content (content.inputs.map inputToJson) (Element.listToJson blocks))
      (dataEntries content (content.inputs.map inputToJson)
        (Element.listToJson content.blocks)) :=
    .cons ⟨rfl, rfl⟩ <| .cons ⟨rfl, rfl⟩ <| .cons ⟨rfl, rfl⟩ <| .cons ⟨rfl, rfl⟩ <|
      .cons ⟨rfl, congrArg some (Json.similar_array (Json.similar_items_iff.mpr same))⟩ .nil
  rw [toJson_eq, toJson_eq]
  exact Json.similar_present
    (.cons ⟨rfl, rfl⟩ (.cons ⟨rfl, congrArg some (Json.similar_present data)⟩ .nil))

def plainComponent (content : Content) (children : List Node) : Component where
  name := componentName {} content
  inputs := content.inputs
  children := children
  metadata :=
    Json.optionalMember Component.cssKey
      ((content.css.filter fun css => !css.isEmpty).map Json.string)

/-- What the import makes of a canonical document apart from its blocks is written back. -/
theorem ofComponent_plainComponent {content : Content} (h : content.Canonical)
    (children : List Node) :
    ofComponent {} (plainComponent content children) =
      { content with blocks := exportNodes children } := by
  obtain ⟨name, css, plainCode, typedCode, inputs, blocks⟩ := content
  obtain ⟨named, styled, plain, typed, -⟩ := h
  dsimp only at named styled plain typed
  subst plain typed
  have nameBack : (if (componentName {} ⟨name, css, some "", some "", inputs, blocks⟩).isEmpty ||
      componentName {} ⟨name, css, some "", some "", inputs, blocks⟩ == defaultComponentName
      then none else some (componentName {} ⟨name, css, some "", some "", inputs, blocks⟩)) =
      name := by
    cases name with
    | none => rfl
    | some name =>
      obtain ⟨filled, other⟩ := named name rfl
      have nonempty : name.isEmpty = false := by
        by_contra empty
        rw [Bool.not_eq_false, String.isEmpty_iff] at empty
        rw [empty] at filled
        cases filled
      simp [componentName, Option.filter, filled, nonempty, other]
  have cssBack : (Fields.get? (Json.optionalMember Component.cssKey
      ((css.filter fun css => !css.isEmpty).map Json.string)) Component.cssKey).bind
      Json.string? = css := by
    cases css with
    | none => rfl
    | some css =>
      have filled : css.isEmpty = false := by
        simpa using styled css rfl
      simp [Option.filter, filled, Json.optionalMember, Json.string?]
  rw [ofComponent, plainComponent, Component.css?, nameBack, cssBack]
  rfl

/-- Canonical content can be imported, and the component is written as the content that was read:
with the same inputs, and as the same data up to the order of members. Such content has the form
that an export gives it, so that nothing has to move on the way. -/
theorem ofComponent_toComponent {content : Content} (h : content.Canonical) :
    ∃ component, toComponent {} content = .ok component ∧
      (ofComponent {} component).inputs = content.inputs ∧
      Json.Similar (ofComponent {} component).toJson content.toJson := by
  obtain ⟨nodes, imported, backs⟩ := import_canonicalList "blocks" 0 content.blocks h.blocks
  have noCode : code? content = none := by
    rw [code?, h.plainCode, h.typedCode]
    rfl
  refine ⟨plainComponent content nodes, ?_, ?_⟩
  · rw [toComponent, imported, noCode]
    rfl
  · rw [ofComponent_plainComponent h nodes]
    exact ⟨rfl, similar_document content (readBack_items backs)⟩

def link : Element :=
  { id := some "link"
    tagName := some "a"
    properties := some [("rel", .string "next")]
    bindings := [("properties.title", "entry.title"), ("component.options.href", "entry.url")]
    repetition := some ⟨"state.entries", some "entry", none⟩
    actions := [("click", "open()")] }

def greeting : Element :=
  { version := some (.ofInt 2)
    component := some
      { name := "PersonalizationContainer"
        options := [("variants", .array [.object [("query", .array []), ("blocks", .array [])],
          .object [("blocks", .array [link.toJson])]])] }
    children := [link] }

def shop : Content :=
  { name := some "Shop"
    css := some "a"
    plainCode := some ""
    typedCode := some ""
    inputs := [{ name := "title", defaultValue := some (.string "Hi") }]
    blocks :=
      [{ component := some
          { name := "Columns"
            options := [("space", .ofInt 20), ("header", .array [link.toJson]),
              ("columns", .array [.object [("width", .ofInt 50), ("blocks", .array [link.toJson])]])] }
         properties := some [("role", .string "list")]
         bindings := [("component.options.tall", "state.tall")]
         children := [greeting] }] }

theorem explicit_link : link.Explicit where
  type := rfl
  form := .inl ⟨⟨"a", rfl, rfl⟩, rfl, rfl⟩
  code := rfl
  styles := rfl
  bindings := by
    simp only [link, List.forall_mem_cons]
    exact ⟨⟨⟨"title", by decide, rfl, .inr rfl⟩, by decide⟩,
      ⟨⟨"href", by decide, rfl, .inl rfl⟩, by decide⟩, by simp⟩
  actions := by decide
  literals := by
    intro entry member
    cases List.mem_singleton.mp member
    rfl
  keys := by decide
  repetition := by
    rintro repetition ⟨⟩
    refine ⟨by decide, ?_, by rintro name ⟨⟩⟩
    rintro name ⟨⟩
    decide

theorem canonical_link : CanonicalElement link :=
  .intro link explicit_link (by rintro entry ⟨⟩) (by rintro child ⟨⟩) (by rintro ⟨⟩)

theorem canonical_linkItem : CanonicalItem link.toJson := by
  have keyed : link.Keyed := by
    refine ⟨by rintro value ⟨⟩, by rintro use ⟨⟩, ?_, by decide, by rintro styles ⟨⟩, ?_, by decide,
      rfl⟩
    · rintro members ⟨⟩
      decide
    · exact ⟨Fields.distinct_nil, Fields.distinct_nil⟩
  exact .intro (standsFor_toJson ⟨rfl, keyed⟩) (.refl _) canonical_link

theorem canonical_linkItems : ∀ item ∈ [link.toJson], CanonicalItem item := by
  intro item member
  cases List.mem_singleton.mp member
  exact canonical_linkItem

theorem canonical_greeting : CanonicalElement greeting := by
  refine .intro greeting ?_ ?_ ?_ (by rintro ⟨⟩)
  · exact
      { type := rfl
        form := .inr ⟨⟨_, rfl, by decide, by decide, by decide⟩, rfl, by rintro ⟨⟩⟩
        code := rfl
        styles := rfl
        bindings := by rintro entry ⟨⟩
        actions := by rintro entry ⟨⟩
        literals := by rintro entry ⟨⟩
        keys := by decide
        repetition := by rintro repetition ⟨⟩ }
  · intro entry member
    cases List.mem_singleton.mp member
    refine .groups (by decide) (by simp) (List.forall_mem_cons.mpr ⟨?_, ?_⟩)
    · exact .intro (by decide) rfl (fun _ => by decide) (by simp)
    · intro item member
      cases List.mem_singleton.mp member
      exact .intro (by simp [Fields.distinct_cons, Fields.distinct_nil]) rfl
        (fun _ => by simp [defaultKey]) canonical_linkItems
  · intro child member
    cases List.mem_singleton.mp member
    exact canonical_link

theorem canonical_shop : shop.Canonical where
  name := by rintro name ⟨⟩; decide
  css := by rintro css ⟨⟩; decide
  plainCode := rfl
  typedCode := rfl
  blocks := by
    intro block member
    cases List.mem_singleton.mp member
    refine .intro _ ?_ ?_ ?_ ?_
    · exact
        { type := rfl
          form := .inr ⟨⟨_, rfl, by decide, by decide, by decide⟩, rfl, by rintro ⟨⟩⟩
          code := rfl
          styles := rfl
          bindings := by
            intro entry member
            cases List.mem_singleton.mp member
            exact ⟨⟨"tall", by decide, rfl, .inl rfl⟩, by decide⟩
          actions := by rintro entry ⟨⟩
          literals := by
            intro entry member
            cases List.mem_singleton.mp member
            rfl
          keys := by decide
          repetition := by rintro repetition ⟨⟩ }
    · simp only [Element.options, Option.map_some, Option.getD_some, List.forall_mem_cons]
      refine ⟨.plain rfl (by rintro items ⟨⟩) rfl, .slot rfl (by simp) canonical_linkItems,
        .groups rfl (by simp) ?_, by simp⟩
      intro item member
      cases List.mem_singleton.mp member
      exact .intro (by simp [Fields.distinct_cons, Fields.distinct_nil]) rfl
        (by rintro ⟨⟩) canonical_linkItems
    · intro child member
      cases List.mem_singleton.mp member
      exact canonical_greeting
    · intro _ child member
      cases List.mem_singleton.mp member
      decide

theorem shop_written : shop.Canonical ∧
    ∃ component, toComponent {} shop = .ok component ∧
      (ofComponent {} component).inputs = shop.inputs ∧
      Json.Similar (ofComponent {} component).toJson shop.toJson :=
  ⟨canonical_shop, ofComponent_toComponent canonical_shop⟩

end BlockLoom.Content
