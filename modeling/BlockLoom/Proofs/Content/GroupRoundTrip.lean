import BlockLoom.Proofs.Content.Exportable
import BlockLoom.Proofs.Content.Validity

/-!
Groups through import and export. The nodes for the groups of a component and for its
own children share one list. They are told apart again as long as no child of columns
is called like a column and no group of variants has the field that marks the default:
then every group comes back in its place with its fields and its elements, and the
children come back beside the groups.
-/

namespace BlockLoom.Content

variable {settings : ImportSettings}

/-! ## Groups of an element -/

/-- The groups among options. -/
def groupsIn (grouping : Grouping) (options : Fields Json) : List Group :=
  match Fields.get? options grouping.optionKey with
  | some value => ((Group.readList "" value).toOption).getD []
  | none => []

theorem groupsIn_of_readList {grouping : Grouping} {options : Fields Json} {path : Path}
    {value : Json} {groups : List Group}
    (found : Fields.get? options grouping.optionKey = some value)
    (read : Group.readList path value = .ok groups) : groupsIn grouping options = groups := by
  have again := (@Group.readList_iff "" value groups).mpr (Group.readList_iff.mp read)
  rw [groupsIn, found]
  simp only [again]
  rfl

/-- Groups that are read from settled options have every field once, and none for blocks. -/
theorem fields_of_groupsIn {grouping : Grouping} {options : Fields Json}
    (settled : (Json.object options).isSettled = true) {group : Group}
    (member : group ∈ groupsIn grouping options) :
    Fields.Distinct group.fields ∧ Group.blocksKey ∉ Fields.names group.fields := by
  rw [groupsIn] at member
  split at member
  · next value found =>
    have inner := Json.isSettled_found settled found
    cases read : Group.readList "" value with
    | error failure =>
      rw [read] at member
      cases member
    | ok groups =>
      rw [read] at member
      obtain ⟨items, rfl, stand⟩ := Group.readList_iff.mp read
      obtain ⟨item, listed, members, rfl, fields, -⟩ :=
        (@mem_iff_of_forall₂ _ _ Group.StandsFor (fun _ _ _ => Group.StandsFor.unique) _ _
          stand _).mp member
      have distinct := (Json.isSettled_object.mp (Json.areSettled_iff.mp inner _ listed)).1
      rw [fields]
      exact ⟨distinct.remove _, fun among => (Fields.mem_names_remove.mp among).2 rfl⟩
  · cases member

/-- The node that the import makes of a group. -/
def GroupNode (settings : ImportSettings) (grouping : Grouping) (group : Group) (node : Node) :
    Prop :=
  ∃ path blocks, importElements settings path 0 group.blocks = .ok blocks ∧
    node = grouping.node group blocks

theorem groupNode_importGroups {path : Path} {grouping : Grouping} {index : Nat}
    {groups : List Group} {nodes : List Node}
    (h : importGroups settings path grouping index groups = .ok nodes) :
    List.Forall₂ (GroupNode settings grouping) groups nodes := by
  induction groups generalizing index nodes with
  | nil =>
    rw [importGroups] at h
    cases h
    exact .nil
  | cons group groups ih =>
    rw [importGroups] at h
    split at h
    · cases h
    · next blocks first =>
      split at h
      · cases h
      · next others rest =>
        cases h
        exact .cons ⟨_, blocks, first, rfl⟩ (ih rest)

theorem claims_iff {grouping : Grouping} {key : String} :
    Grouping.claims (some grouping) key = true ↔ key = grouping.optionKey := by
  rw [Grouping.claims, Option.isSome_filter]
  simp [eq_comm]

/-- What the import of options finds: the groups under their key, and slots and plain
data under other keys. -/
structure Sorted (settings : ImportSettings) (grouping : Grouping) (options : Fields Json)
    (parts : OptionParts) : Prop where
  groups : List.Forall₂ (GroupNode settings grouping) (groupsIn grouping options) parts.groups
  slots : ∀ key ∈ Fields.names parts.slots, key ∈ Fields.names options ∧ key ≠ grouping.optionKey
  distinct : Fields.Distinct parts.slots
  plain : grouping.optionKey ∉ Fields.names parts.plain

theorem groupsIn_of_fresh {grouping : Grouping} {options : Fields Json}
    (h : grouping.optionKey ∉ Fields.names options) : groupsIn grouping options = [] := by
  rw [groupsIn, Fields.get?_eq_none_iff.mpr h]

theorem groupsIn_cons_of_ne {grouping : Grouping} {options : Fields Json} {key : String}
    (other : key ≠ grouping.optionKey) (value : Json) :
    groupsIn grouping ((key, value) :: options) = groupsIn grouping options := by
  rw [groupsIn, groupsIn, Fields.get?_cons, if_neg other]

theorem sorted_importOptions {path : Path} {grouping : Grouping} {options : List (String × Json)}
    {parts : OptionParts} (distinct : Fields.Distinct options)
    (h : importOptions settings path (some grouping) options = .ok parts) :
    Sorted settings grouping options parts := by
  induction options generalizing parts with
  | nil =>
    rw [importOptions] at h
    cases h
    exact ⟨.nil, nofun, Fields.distinct_nil, List.not_mem_nil⟩
  | cons option options ih =>
    obtain ⟨key, value⟩ := option
    obtain ⟨fresh, others'⟩ := Fields.distinct_cons.mp distinct
    rw [importOptions] at h
    cases claim : (some grouping).filter fun grouping => grouping.optionKey = key with
    | some found =>
      have same := claims_iff.mp (Grouping.claims_eq_true_iff.mpr ⟨found, claim⟩)
      subst same
      obtain rfl : grouping = found := Option.some.inj (Option.eq_some_of_filter_eq_some claim)
      rw [claim] at h
      dsimp only at h
      split at h
      · cases h
      · next groups read =>
        split at h
        · cases h
        · next nodes first =>
          split at h
          · cases h
          · next others rest =>
            cases h
            have rest := ih others' rest
            have none : others.groups = [] := by
              have none := rest.groups
              rw [groupsIn_of_fresh fresh] at none
              exact List.forall₂_nil_left_iff.mp none
            have all : groupsIn grouping ((grouping.optionKey, value) :: options) = groups :=
              groupsIn_of_readList (Fields.get?_cons_self _ _ _) read
            refine ⟨?_, ?_, rest.distinct, rest.plain⟩
            · rw [all, none, List.append_nil]
              exact groupNode_importGroups first
            · intro name member
              obtain ⟨among, apart⟩ := rest.slots name member
              exact ⟨List.mem_cons_of_mem _ among, apart⟩
    | none =>
      have other : key ≠ grouping.optionKey := fun same => by
        have free := Grouping.claims_eq_false_iff.mpr claim
        rw [same, claims_self] at free
        cases free
      rw [claim] at h
      dsimp only at h
      split at h
      · cases h
      · next elements read =>
        split at h
        · cases h
        · next nodes first =>
          split at h
          · cases h
          · next others rest =>
            cases h
            have rest := ih others' rest
            refine ⟨(groupsIn_cons_of_ne other value).symm ▸ rest.groups, ?_, ?_, rest.plain⟩
            · intro name member
              rcases List.mem_cons.mp member with rfl | member
              · exact ⟨List.mem_cons_self, other⟩
              · obtain ⟨among, apart⟩ := rest.slots name member
                exact ⟨List.mem_cons_of_mem _ among, apart⟩
            · exact Fields.distinct_cons.mpr
                ⟨fun among => fresh (rest.slots key among).1, rest.distinct⟩
      · next plain read =>
        split at h
        · cases h
        · next others rest =>
          cases h
          have rest := ih others' rest
          refine ⟨(groupsIn_cons_of_ne other value).symm ▸ rest.groups, ?_, rest.distinct, ?_⟩
          · intro name member
            obtain ⟨among, apart⟩ := rest.slots name member
            exact ⟨List.mem_cons_of_mem _ among, apart⟩
          · intro among
            rcases List.mem_cons.mp among with same | among
            · exact other same.symm
            · exact rest.plain among

/-! ## No literal stands in the place of the groups -/

theorem of?_literal {expression : Option String} {raw : Option Json} {value : Json}
    (h : FieldValue.of? raw expression = some (.literal value)) : raw.isSome = true := by
  rw [FieldValue.of?] at h
  split at h
  · cases h
  · obtain ⟨given, rfl, -⟩ := Option.map_eq_some_iff.mp h
    rfl

/-- A literal among the values of fields comes from a literal. -/
theorem mem_names_of_literal {literals : Fields Json} {bound : Fields String} {key : String}
    {value : Json} (h : (key, .literal value) ∈ fieldValues literals bound) :
    key ∈ Fields.names literals := by
  rw [fieldValues, List.mem_append, List.mem_filterMap, List.mem_filterMap] at h
  rcases h with ⟨entry, stored, made⟩ | ⟨entry, stored, made⟩
  · obtain ⟨found, -, same⟩ := Option.map_eq_some_iff.mp made
    cases same
    exact Fields.mem_names_of_mem stored
  · split at made
    · cases made
    · obtain ⟨found, made, same⟩ := Option.map_eq_some_iff.mp made
      cases same
      cases of?_literal made

/-- A literal field of a node after some fields have been written is one of these or was there. -/
theorem literal_of_addFields {styleEntry : String} {node : Node} {fields : Fields FieldValue}
    {key : String} (h : key ∈ Fields.names (addFields styleEntry node fields).properties) :
    key ∈ Fields.names node.properties ∨ ∃ value, (key, .literal value) ∈ fields := by
  induction fields generalizing node with
  | nil => exact .inl h
  | cons field fields ih =>
    rcases ih h with here | ⟨value, stored⟩
    · rw [addField] at here
      split at here
      · exact .inl here
      · obtain ⟨name, value⟩ := field
        cases value with
        | literal value =>
          rcases Fields.mem_names_put.mp here with rfl | here
          · exact .inr ⟨value, List.mem_cons_self⟩
          · exact .inl here
        | bound code => exact .inl (Fields.mem_names_remove.mp here).1
    · exact .inr ⟨value, List.mem_cons_of_mem _ stored⟩

theorem literal_of_addHandlers {node : Node} {handlers : Fields String} {key : String}
    (h : key ∈ Fields.names (addHandlers node handlers).properties) :
    key ∈ Fields.names node.properties := by
  revert h
  refine List.foldlRecOn (motive := fun reached : Node => key ∈ Fields.names reached.properties →
    key ∈ Fields.names node.properties) handlers _ id fun reached earlier handler _ h => ?_
  split at h
  · exact earlier h
  · exact earlier (Fields.mem_names_remove.mp h).1

/-- Writing a binding keeps the metadata, and so do handlers. -/
theorem metadata_addHandlers (node : Node) (handlers : Fields String) :
    (addHandlers node handlers).metadata = node.metadata := by
  refine List.foldlRecOn (motive := fun reached : Node => reached.metadata = node.metadata)
    handlers _ rfl fun reached same handler _ => ?_
  split <;> exact same

abbrev Element.bound (element : Element) : Bound :=
  Bound.of element.bindings element.code.bindings

theorem literal_of_body {element : Element} {parts : OptionParts} {children : List Node}
    {key : String} (h : key ∈ Fields.names (element.body settings parts children).properties) :
    key ∈ Fields.names parts.plain ∨
      key ∈ Fields.names (element.propertyFields element.bound) := by
  have unstyled {node : Node}
      (h : key ∈ Fields.names (addStyles element element.bound node).properties) :
      key ∈ Fields.names node.properties := by
    rw [addStyles] at h
    split at h
    · exact (Fields.mem_names_remove.mp h).1
    · exact h
  have unlisted (node : Node) :
      (recordOptions element element.bound (recordProperties element
        (element.propertyFields element.bound) node)).properties = node.properties := by
    rw [recordOptions, recordProperties]
    dsimp only
    split <;> split <;> rfl
  rw [Element.body] at h
  have filled := literal_of_addHandlers (unstyled h)
  rw [unlisted] at filled
  rcases literal_of_addFields filled with filled | ⟨value, stored⟩
  · rcases literal_of_addFields filled with none | ⟨value, stored⟩
    · cases none
    · exact .inl (mem_names_of_literal (List.mem_filter.mp stored).1)
  · exact .inr (Fields.mem_names_of_mem stored)

theorem mem_listedKeys_body {element : Element} {key : String}
    (component : element.componentName?.isSome = true)
    (among : key ∈ Fields.names (element.propertyFields element.bound)) (other : key ≠ styleKey)
    (parts : OptionParts) (children : List Node) :
    key ∈ listedKeys (element.body settings parts children) propertyKeysKey := by
  let keys := (Fields.names (element.propertyFields element.bound)).filter fun key => key ≠ styleKey
  have mem : key ∈ keys := List.mem_filter.mpr ⟨among, decide_eq_true other⟩
  have filled : keys.isEmpty = false := by
    cases found : keys with
    | nil => rw [found] at mem; cases mem
    | cons _ _ => rfl
  have recorded (node : Node) : Fields.get? (recordProperties element
      (element.propertyFields element.bound) node).metadata propertyKeysKey =
      some (.array ((keys.mergeSort fun left right => decide (left ≤ right)).map Json.string)) := by
    rw [recordProperties, if_pos (by rw [component, Bool.true_and]; exact congrArg not filled)]
    exact (Fields.get?_put _ _ _ _).trans (if_pos rfl)
  have kept (node : Node) : Fields.get? (recordOptions element element.bound node).metadata
      propertyKeysKey = Fields.get? node.metadata propertyKeysKey := by
    rw [recordOptions]
    dsimp only
    split
    · exact (Fields.get?_put _ _ _ _).trans (if_neg (by decide))
    · rfl
  have styled (node : Node) : Fields.get? (addStyles element element.bound node).metadata
      propertyKeysKey = Fields.get? node.metadata propertyKeysKey := by
    rw [addStyles]
    split
    · exact (Fields.get?_put _ _ _ _).trans (if_neg (by decide))
    · rfl
  rw [listedKeys, Element.body, styled, metadata_addHandlers, kept, recorded]
  simp only [Option.bind_some, Json.items?, Option.getD_some, List.filterMap_map,
    Function.comp_def, Json.string?, List.filterMap_some, List.mem_mergeSort]
  exact mem

theorem get?_exportedOptions_body {grouping : Grouping} {element : Element} {parts : OptionParts}
    (component : element.componentName?.isSome = true)
    (plain : grouping.optionKey ∉ Fields.names parts.plain) (children : List Node) :
    Fields.get? (exportedOptions (element.body settings parts children)) grouping.optionKey =
      none := by
  have other : grouping.optionKey ≠ styleKey := by cases grouping <;> decide
  have restored (kept : Option FieldValue) (literals : Fields Json) :
      Fields.get? (restoreLiteral kept literals) grouping.optionKey =
        Fields.get? literals grouping.optionKey := by
    rcases kept with _ | _ | _
    · rfl
    · exact (Fields.get?_put _ _ _ _).trans (if_neg (Ne.symm other))
    · rfl
  rw [exportedOptions, restored, Fields.get?_filter fun key => !isProperty _ key]
  split
  · next option =>
    refine Fields.get?_eq_none_iff.mpr fun literal => ?_
    rcases literal_of_body literal with given | among
    · exact plain given
    · have listed := @mem_listedKeys_body settings _ _ component among other parts children
      rw [isProperty, List.contains_iff_mem.mpr listed, Bool.or_true] at option
      cases option
  · rfl

/-! ## Groups that come back -/

/-- The data of a group: its fields, in their order, and as blocks the export of the import
of its elements. -/
def EntryOf (settings : ImportSettings) (group : Group) (item : Json) : Prop :=
  ∃ members path blocks, item = .object members ∧
    Fields.remove members Group.blocksKey = group.fields ∧
    importElements settings path 0 group.blocks = .ok blocks ∧
    Fields.get? members Group.blocksKey = some (.array (Element.listToJson (exportNodes blocks)))

/-- The data that the node for a group is written as are the fields of the group and the blocks,
which stand where the group had its elements. -/
theorem entry_node {grouping : Grouping} {group : Group} (distinct : Fields.Distinct group.fields)
    (free : Group.blocksKey ∉ Fields.names group.fields) (children : List Node)
    (blocks : List Json) :
    ∃ members, grouping.entry (grouping.node group children) blocks = .object members ∧
      Fields.remove members Group.blocksKey = group.fields ∧
      Fields.get? members Group.blocksKey = some (.array blocks) := by
  have literals := grouping.literalFields_node distinct children
  have kept : Fields.remove group.fields Group.blocksKey = group.fields :=
    Fields.remove_of_not_mem free
  cases grouping with
  | columns =>
    rw [Grouping.entry, literals,
      Fields.merge_of_distinct (Fields.distinct_cons.mpr ⟨free, distinct⟩)]
    exact ⟨_, rfl, kept, Fields.get?_cons_self _ _ _⟩
  | variants =>
    rw [Grouping.entry, literals, Fields.put_of_not_mem free]
    refine ⟨_, rfl, ?_, ?_⟩
    · rw [Fields.remove, List.filter_append]
      exact (List.append_nil _).trans kept
    · rw [Fields.get?_append, Fields.get?_eq_none_iff.mpr free]
      rfl

/-- The node for a group is written as the data of the group. -/
theorem entryOf_groupNode {grouping : Grouping} {group : Group} {node : Node}
    (distinct : Fields.Distinct group.fields) (free : Group.blocksKey ∉ Fields.names group.fields)
    (h : GroupNode settings grouping group node) :
    EntryOf settings group
      (grouping.entry node (Element.listToJson (exportNodes node.children))) := by
  obtain ⟨path, blocks, imported, rfl⟩ := h
  rw [(grouping.frame_node group blocks).2.2]
  obtain ⟨members, object, kept, found⟩ := entry_node distinct free blocks
    (Element.listToJson (exportNodes blocks))
  exact ⟨members, path, blocks, object, kept, imported, found⟩

theorem isGroup_groupNode {grouping : Grouping} {group : Group} {node : Node}
    (distinct : Fields.Distinct group.fields)
    (unmarked : grouping = .variants → defaultKey ∉ Fields.names group.fields)
    (h : GroupNode settings grouping group node) : grouping.isGroup node = true := by
  obtain ⟨path, blocks, -, rfl⟩ := h
  rw [grouping.node_eq distinct]
  cases grouping with
  | columns => rfl
  | variants =>
    have absent : Fields.has group.fields defaultKey = false :=
      Fields.has_eq_false_iff.mpr (unmarked rfl)
    rw [Grouping.isGroup, isDefaultVariant, absent, Bool.and_false]
    rfl

/-- The nodes for groups are all written as groups, each with its own data. -/
theorem exportGroups_groupNodes {grouping : Grouping} {groups : List Group} {nodes : List Node}
    (h : List.Forall₂ (GroupNode settings grouping) groups nodes)
    (fields : ∀ group ∈ groups,
      Fields.Distinct group.fields ∧ Group.blocksKey ∉ Fields.names group.fields)
    (unmarked : grouping = .variants → ∀ group ∈ groups, defaultKey ∉ Fields.names group.fields) :
    (∀ node ∈ nodes, grouping.isGroup node = true) ∧
      List.Forall₂ (EntryOf settings) groups (exportGroups grouping nodes).1 := by
  induction h with
  | nil =>
    rw [exportGroups_nil]
    exact ⟨nofun, .nil⟩
  | cons first _ ih =>
    obtain ⟨⟨distinct, free⟩, others⟩ := List.forall_mem_cons.mp fields
    have isGroup := isGroup_groupNode distinct
      (fun variants => unmarked variants _ List.mem_cons_self) first
    obtain ⟨groups, entries⟩ := ih others fun variants group member =>
      unmarked variants group (List.mem_cons_of_mem _ member)
    rw [exportGroups_groups_cons isGroup]
    exact ⟨List.forall_mem_cons.mpr ⟨isGroup, groups⟩,
      .cons (entryOf_groupNode distinct free first) entries⟩

def Element.importedName (settings : ImportSettings) (element : Element) : String :=
  if (element.repetition.filter fun repetition =>
    !Text.isBlankText repetition.collection).isSome then Loop.wrapperName
  else element.nodeName settings

theorem name_repeated (element : Element) (parts : OptionParts) (children : List Node) :
    (element.repeated (element.body settings parts children)).name =
      element.importedName settings := by
  rw [Element.repeated, Element.importedName]
  split
  · next found => rw [found]; rfl
  · next none =>
    rw [none]
    exact (frame_body settings element parts children).1

theorem names_importElements {path : Path} {index : Nat} {elements : List Element}
    {nodes : List Node} (h : importElements settings path index elements = .ok nodes) :
    nodes.map Node.name = elements.map (Element.importedName settings) := by
  induction elements generalizing index nodes with
  | nil =>
    rw [importElements] at h
    cases h
    rfl
  | cons element elements ih =>
    rw [importElements] at h
    split at h
    · cases h
    · next node first =>
      split at h
      · cases h
      · next others rest =>
        cases h
        rw [importElement] at first
        split at first
        · cases first
        · split at first
          · cases first
          · cases first
            rw [List.map_cons, List.map_cons, ih rest, name_repeated]

/-- The node for an element that is no loop itself is written with what its body is written
with, whether the element is repeated or not. -/
theorem exportNode_repeated (element : Element) {body : Node}
    (single : (exportNode body).repetition = none) :
    ∃ repetition, exportNode (element.repeated body) = { exportNode body with repetition } := by
  rw [Element.repeated]
  split
  · exact ⟨_, exportNode_loop single (Option.some_get rfl).symm rfl⟩
  · exact ⟨(exportNode body).repetition, by cases exportNode body; rfl⟩

/-- The groups of a container come back from import and export in their order, each with its
fields and its elements, and its own children beside them: if no child of columns is called
like a column, and no variant has the field that marks the default variant. -/
theorem groups_exported {grouping : Grouping} {element : Element} {path : Path} {node : Node}
    (component : element.componentName? = some grouping.container)
    (settled : (Json.object element.options).isSettled = true)
    (beside : grouping = .columns →
      ∀ child ∈ element.children, child.importedName settings ≠ Grouping.columns.nodeName)
    (unmarked : grouping = .variants →
      ∀ group ∈ groupsIn grouping element.options, defaultKey ∉ Fields.names group.fields)
    (h : importElement settings path element = .ok node) :
    ∃ children items,
      importElements settings (path.field "children") 0 element.children = .ok children ∧
      (exportNode node).componentName? = some grouping.container ∧
      (exportNode node).children = exportNodes children ∧
      Fields.get? (exportNode node).options grouping.optionKey =
        (if items.isEmpty then none else some (.array items)) ∧
      List.Forall₂ (EntryOf settings) (groupsIn grouping element.options) items := by
  have named : element.nodeName settings = grouping.container := by
    rw [Element.nodeName, component]
    rfl
  have known : Grouping.of? grouping.container = some grouping := by cases grouping <;> rfl
  rw [importElement, named, known] at h
  split at h
  · cases h
  · next parts readOptions =>
    split at h
    · cases h
    · next children readChildren =>
      cases h
      have sorted := sorted_importOptions (Json.isSettled_object.mp settled).1 readOptions
      obtain ⟨name, slots, all⟩ := frame_body settings element parts children
      rw [named] at name all
      have someComponent : element.componentName?.isSome = true := by rw [component]; rfl
      have literals :=
        @get?_exportedOptions_body settings _ _ _ someComponent sorted.plain children
      generalize element.body settings parts children = body at name slots all literals ⊢
      have tag : body.isTag = false := by
        rw [Node.isTag, name]
        cases grouping <;> decide
      have looped : Loop.head? body = none := by
        rw [Loop.head?, name, if_neg (by cases grouping <;> decide)]
      obtain ⟨isGroup, entries⟩ := exportGroups_groupNodes sorted.groups
        (fun group member => fields_of_groupsIn settled member) unmarked
      have own : grouping = .columns →
          ∀ child ∈ children, Grouping.columns.isGroup child = false := by
        intro columns child member
        have listed : child.name ∈ element.children.map (Element.importedName settings) :=
          names_importElements readChildren ▸ List.mem_map_of_mem member
        obtain ⟨given, among, same⟩ := List.mem_map.mp listed
        exact decide_eq_false (same ▸ beside columns given among)
      have parted : exportGroups grouping body.children =
          ((exportGroups grouping parts.groups).1, exportNodes children) := by
        rw [all, exportGroups_append isGroup, exportGroups_ownChildren own, List.append_nil]
      have whole := exportNode_plain looped
      rw [name, known] at whole
      dsimp only at whole
      rw [parted] at whole
      have single : (exportNode body).repetition = none := by
        rw [whole]
        exact repetition_assemble _ _
      obtain ⟨repetition, exported⟩ := exportNode_repeated element single
      have use : (exportNode body).component =
          some ⟨grouping.container, writtenOptions body ⟨exportSlots body.slots,
            (exportGroups grouping parts.groups).1, exportNodes children⟩⟩ := by
        rw [whole, use_assemble tag, name]
      have slotKeys : Fields.names (exportSlots body.slots) = Fields.names parts.slots := by
        rw [names_exportSlots, slots]
      have free : Fields.get? (exportSlots body.slots) grouping.optionKey = none :=
        Fields.get?_eq_none_iff.mpr fun member =>
          (sorted.slots _ (slotKeys ▸ member)).2 rfl
      refine ⟨children, (exportGroups grouping parts.groups).1, readChildren, ?_, ?_, ?_, entries⟩
      · rw [exported]
        change ((exportNode body).component.map Use.name).filter _ = _
        rw [use]
        cases grouping <;> rfl
      · rw [exported]
        change (exportNode body).children = _
        rw [whole, children_assemble]
      · rw [exported]
        change Fields.get? (((exportNode body).component.map Use.options).getD []) _ = _
        rw [use]
        change Fields.get? (writtenOptions body _) _ = _
        rw [get?_writtenOptions body (by rw [Fields.Distinct, slotKeys]; exact sorted.distinct),
          free, literals, name, known]
        cases (exportGroups grouping parts.groups).1.isEmpty <;> simp

def paragraph : Element :=
  { tagName := some "p", properties := some [("role", .string "note")] }

def besideColumns : Element :=
  { component := some
      { name := "Columns"
        options :=
          [("columns", .array
              [.object [("width", .ofInt 50), ("blocks", .array [paragraph.toJson])],
                .object [("default", .null)]]),
            ("space", .ofInt 20)] }
    properties := some [("columns", .ofInt 2)]
    repetition := some ⟨"state.rows", none, none⟩
    children := [paragraph] }

theorem exported_paragraph : paragraph.Exported := by
  refine ⟨rfl, ⟨by rintro value ⟨⟩, by rintro use ⟨⟩, ?_, by decide, by rintro styles ⟨⟩, ?_,
    by decide, rfl⟩⟩
  · rintro members ⟨⟩
    decide
  · exact ⟨Fields.distinct_nil, Fields.distinct_nil⟩

theorem importable_paragraph : Importable {} paragraph :=
  .intro paragraph nofun nofun

theorem besideColumns_exported :
    besideColumns.componentName? = some Grouping.columns.container ∧
      (Json.object besideColumns.options).isSettled = true ∧
      paragraph ∈ besideColumns.children ∧
      ∃ node, importElement {} "" besideColumns = .ok node ∧
        ∃ children items,
          importElements {} (Path.field "" "children") 0 besideColumns.children = .ok children ∧
          (exportNode node).componentName? = some Grouping.columns.container ∧
          (exportNode node).children = exportNodes children ∧
          Fields.get? (exportNode node).options Grouping.columns.optionKey =
            (if items.isEmpty then none else some (.array items)) ∧
          List.Forall₂ (EntryOf {}) (groupsIn .columns besideColumns.options) items := by
  have settled : (Json.object besideColumns.options).isSettled = true := by decide
  have blocks : ∀ item ∈ [paragraph.toJson], AdmittedElement {} item :=
    List.forall_mem_singleton.mpr
      ((admittedElement_toJson exported_paragraph).mpr importable_paragraph)
  have importable : Importable {} besideColumns := by
    refine .intro _ ?_ (List.forall_mem_singleton.mpr importable_paragraph)
    refine List.forall_mem_cons.mpr ⟨.groups rfl ?_, List.forall_mem_singleton.mpr
      (.plain rfl (by rintro items ⟨⟩))⟩
    exact List.forall_mem_cons.mpr ⟨.filled rfl blocks, List.forall_mem_singleton.mpr (.bare rfl)⟩
  obtain ⟨node, imported⟩ := (importElement_ok_iff "" besideColumns).mpr importable
  refine ⟨rfl, settled, List.mem_cons_self, node, imported, ?_⟩
  refine @groups_exported {} .columns besideColumns "" node rfl settled (fun _ => ?_) nofun imported
  exact List.forall_mem_singleton.mpr (by decide)

/-- A variant with a field of the name that marks the default variant. -/
def markedVariant : Element :=
  { component := some
      { name := "PersonalizationContainer"
        options := [("variants", .array [.object [("default", .bool true)]])] } }

def markedGroup : Node :=
  Grouping.variants.node ⟨[("default", .bool true)], []⟩ []

theorem importOptions_markedVariant (path : Path) :
    importOptions {} path (some .variants) markedVariant.options =
      .ok { groups := [markedGroup] } := by
  have groups (path : Path) (fields : Fields Json) :
      importGroups {} path .variants 0 [⟨fields, []⟩] =
        .ok [Grouping.variants.node ⟨fields, []⟩ []] := by
    rw [importGroups, importElements, importGroups]
  change importOptions {} path (some .variants)
    [("variants", .array [.object [("default", .bool true)]])] = _
  rw [importOptions]
  split
  · next grouping claim =>
    obtain rfl : Grouping.variants = grouping :=
      Option.some.inj (Option.eq_some_of_filter_eq_some claim)
    split
    · next failed => cases failed
    · next read =>
      cases read
      rw [groups]
      simp only [importOptions, List.append_nil]
      rfl
  · next free => cases free

/-- A variant is lost if one of its fields is called like the mark of the default. -/
theorem markedVariant_lost :
    (groupsIn .variants markedVariant.options).length = 1 ∧
      ∃ node, importElement {} "" markedVariant = .ok node ∧
        Fields.get? (exportNode node).options Grouping.variants.optionKey = none := by
  refine ⟨rfl, markedVariant.repeated (markedVariant.body {} { groups := [markedGroup] } []),
    ?_, ?_⟩
  · have children (path : Path) : importElements {} path 0 [] = .ok [] := by
      rw [importElements]
    have grouping : Grouping.of? (markedVariant.nodeName {}) = some .variants := rfl
    have childless : markedVariant.children = [] := rfl
    rw [importElement, grouping, importOptions_markedVariant]
    dsimp only
    rw [childless, children]
  · rfl

end BlockLoom.Content
