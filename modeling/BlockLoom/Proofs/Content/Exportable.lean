import BlockLoom.Component.Validity
import BlockLoom.Proofs.Content.Assembled
import BlockLoom.Proofs.Content.Document
import BlockLoom.Proofs.Content.Importable
import BlockLoom.Proofs.Content.Keyed

/-!
Which components can be imported from their own export. The export writes literal
fields as they are, and a literal can be what the import refuses: under the name
of an option that holds groups, under the name of the blocks of a column, or as a
list of which some items are marked as elements. Nothing else stands in the way.
-/

namespace BlockLoom.Content

/-! ## Components that can be imported again -/

/-- The literal that takes the place of the blocks of a group, if there is one. -/
def Grouping.ownBlocks? (grouping : Grouping) (node : Node) : Option Json :=
  match grouping with
  | .columns => Fields.get? node.literalFields Group.blocksKey
  | .variants => none

/-- The grouping that the import takes a component of the given name for. -/
def importedGrouping (settings : ImportSettings) (name : String) : Option Grouping :=
  Grouping.of? (if name.isEmpty then settings.placeholderTag else name)

/-- Whether something else is written in the place of a literal option. -/
def isOverwritten (node : Node) (key : String) : Bool :=
  Fields.has node.slots key ||
    ((Grouping.of? node.name).any fun grouping =>
      decide (grouping.optionKey = key) && node.children.any grouping.isGroup)

/-- Whether the import takes the literal options of a node that are written. -/
def LiteralsAdmitted (settings : ImportSettings) (node : Node) : Prop :=
  ∀ entry ∈ exportedOptions node, isOverwritten node entry.1 = false →
    Admitted settings (importedGrouping settings node.name) entry.1 entry.2

def BlocksAdmitted (settings : ImportSettings) (value : Json) : Prop :=
  ∃ items, value = .array items ∧ ∀ item ∈ items, AdmittedElement settings item

mutual

/-- Whether the import takes what a node is written as: its literal options where nothing else is
written in their place, its slots where no groups are expected, its groups, and all nodes in it. -/
def Exportable (settings : ImportSettings) : Node → Prop
  | ⟨name, properties, bindings, children, slots, scope, metadata⟩ =>
    let node : Node := ⟨name, properties, bindings, children, slots, scope, metadata⟩
    if (Loop.head? node).isSome || node.isTag then AllExportable settings children
    else
      LiteralsAdmitted settings node ∧
        SlotsExportable settings (importedGrouping settings name) slots ∧
        match Grouping.of? name with
        | none => AllExportable settings children
        | some grouping => GroupsExportable settings grouping children

def AllExportable (settings : ImportSettings) : List Node → Prop
  | [] => True
  | node :: nodes => Exportable settings node ∧ AllExportable settings nodes

/-- The nodes of a slot do not matter where the import expects groups. -/
def SlotsExportable (settings : ImportSettings) (grouping : Option Grouping) :
    List (String × List Node) → Prop
  | [] => True
  | (key, nodes) :: slots =>
    (Grouping.claims grouping key = false → AllExportable settings nodes) ∧
      SlotsExportable settings grouping slots

/-- Whether the import takes the groups among nodes and the nodes beside them. -/
def GroupsExportable (settings : ImportSettings) (grouping : Grouping) : List Node → Prop
  | [] => True
  | ⟨name, properties, bindings, children, slots, scope, metadata⟩ :: nodes =>
    let node : Node := ⟨name, properties, bindings, children, slots, scope, metadata⟩
    (if grouping.isGroup node then
      match grouping.ownBlocks? node with
      | some blocks => BlocksAdmitted settings blocks
      | none => AllExportable settings children
    else if grouping = .variants ∧ isDefaultVariant node then AllExportable settings children
    else Exportable settings node) ∧ GroupsExportable settings grouping nodes

end

/-! ## Exported elements as data -/

/-- What every exported element is: marked as one, with maps that hold each key once. -/
structure Element.Exported (element : Element) : Prop where
  marked : element.type = elementType
  keyed : element.Keyed

theorem Element.isElement_toJson {element : Element} (h : element.type = elementType) :
    isElement element.toJson = true := by
  rw [isElement, Element.textAt?_toJson element (some element.type) rfl, h, beq_self_eq_true]

theorem Element.fromJson_toJson {element : Element} (h : element.Keyed) :
    Element.fromJson element.toJson = .ok element.stripped := by
  rw [Element.fromJson, Element.fit_toJson element h.isSettled_toJson]
  simp only [Element.ofJson_toJson]

theorem standsFor_toJson {element : Element} (h : element.Exported) :
    StandsFor element.toJson element.stripped :=
  ⟨Element.isElement_toJson h.marked, Element.fromJson_toJson h.keyed⟩

variable {settings : ImportSettings}

mutual

/-- A version that is `null` does not matter to the import. -/
theorem importable_stripped (element : Element) :
    Importable settings element.stripped ↔ Importable settings element := by
  match element with
  | ⟨type, version, id, tagName, layerName, component, properties, bindings, styles, repetition,
      code, actions, children⟩ =>
    rw [importable_iff, importable_iff]
    exact and_congr Iff.rfl (importable_strippedList children)

theorem importable_strippedList (elements : List Element) :
    (∀ element ∈ Element.strippedList elements, Importable settings element) ↔
      ∀ element ∈ elements, Importable settings element := by
  match elements with
  | [] => rfl
  | element :: elements =>
    rw [Element.strippedList, List.forall_mem_cons, List.forall_mem_cons,
      importable_stripped element, importable_strippedList elements]

end

theorem admittedElement_toJson {element : Element} (h : element.Exported) :
    AdmittedElement settings element.toJson ↔ Importable settings element := by
  rw [admittedElement_iff, ← importable_stripped]
  constructor
  · rintro ⟨read, stands, importable⟩
    cases stands.2.symm.trans (standsFor_toJson h).2
    exact importable
  · exact fun importable => ⟨_, standsFor_toJson h, importable⟩

theorem admittedElements_listToJson {elements : List Element}
    (h : ∀ element ∈ elements, element.Exported) :
    (∀ item ∈ Element.listToJson elements, AdmittedElement settings item) ↔
      ∀ element ∈ elements, Importable settings element := by
  induction elements with
  | nil => simp [Element.listToJson]
  | cons element elements ih =>
    obtain ⟨first, others⟩ := List.forall_mem_cons.mp h
    rw [Element.listToJson, List.forall_mem_cons, List.forall_mem_cons,
      admittedElement_toJson first, ih others]

theorem get?_blocks_toJson (element : Element) :
    ∃ members, element.toJson = .object members ∧ Fields.get? members Group.blocksKey = none := by
  refine ⟨_, element.toJson_eq, ?_⟩
  rw [Json.get?_present element.distinct_entries]
  rfl

/-- Where groups are expected the data of exported elements are taken for empty groups. -/
theorem admitted_claimed_listToJson {grouping : Option Grouping} {key : String}
    (claimed : Grouping.claims grouping key = true) (elements : List Element) :
    Admitted settings grouping key (.array (Element.listToJson elements)) := by
  refine .groups claimed ?_
  induction elements with
  | nil => simp [Element.listToJson]
  | cons element elements ih =>
    rw [Element.listToJson, List.forall_mem_cons]
    obtain ⟨members, data, absent⟩ := get?_blocks_toJson element
    exact ⟨data ▸ .bare absent, ih⟩

/-- Anywhere else they are admitted just if the elements can be imported. -/
theorem admitted_free_listToJson {grouping : Option Grouping} {key : String}
    (free : Grouping.claims grouping key = false) {elements : List Element}
    (h : ∀ element ∈ elements, element.Exported) :
    Admitted settings grouping key (.array (Element.listToJson elements)) ↔
      ∀ element ∈ elements, Importable settings element := by
  rw [← admittedElements_listToJson h]
  constructor
  · rintro (⟨claimed, _⟩ | ⟨_, _, each⟩ | ⟨_, unmarked⟩)
    · simp [free] at claimed
    · exact each
    · cases elements with
      | nil => simp [Element.listToJson]
      | cons element elements =>
        have marked := Element.isElement_toJson (h element List.mem_cons_self).marked
        have none := unmarked _ rfl
        rw [Element.listToJson, List.any_cons, marked] at none
        cases none
  · intro each
    cases elements with
    | nil => exact .plain free (by rintro _ ⟨⟩; rfl)
    | cons element elements =>
      have marked := Element.isElement_toJson (h element List.mem_cons_self).marked
      refine .slot free ?_ each
      rw [Element.listToJson, List.any_cons, marked]
      rfl

/-- What the import finds as the blocks of an exported group. -/
theorem get?_blocks_entry (grouping : Grouping) {node : Node}
    (h : (Json.object node.properties).isSettled = true) (blocks : List Json) :
    ∃ members, grouping.entry node blocks = .object members ∧
      Fields.get? members Group.blocksKey =
        some ((grouping.ownBlocks? node).getD (.array blocks)) := by
  have distinct := (Json.isSettled_object.mp (Node.isSettled_literalFields h)).1
  cases grouping with
  | columns =>
    refine ⟨_, rfl, ?_⟩
    rw [Fields.get?_merge distinct, Fields.get?_cons_self, Grouping.ownBlocks?]
    cases Fields.get? node.literalFields Group.blocksKey <;> rfl
  | variants =>
    refine ⟨_, rfl, ?_⟩
    rw [Fields.get?_put, if_pos rfl]
    rfl

theorem admittedGroup_object {members : List (String × Json)} {blocks : Json}
    (found : Fields.get? members Group.blocksKey = some blocks) :
    AdmittedGroup settings (.object members) ↔ BlocksAdmitted settings blocks := by
  constructor
  · rintro (absent | ⟨listed, each⟩)
    · simp [found] at absent
    · cases found.symm.trans listed
      exact ⟨_, rfl, each⟩
  · rintro ⟨items, rfl, each⟩
    exact .filled found each

/-- An exported group is admitted if its own blocks are, or the elements in their place. -/
theorem admittedGroup_entry (grouping : Grouping) {node : Node}
    (h : (Json.object node.properties).isSettled = true) {elements : List Element}
    (exported : ∀ element ∈ elements, element.Exported) :
    AdmittedGroup settings (grouping.entry node (Element.listToJson elements)) ↔
      match grouping.ownBlocks? node with
      | some blocks => BlocksAdmitted settings blocks
      | none => ∀ element ∈ elements, Importable settings element := by
  obtain ⟨members, data, found⟩ := get?_blocks_entry grouping h (Element.listToJson elements)
  rw [data, admittedGroup_object found]
  cases grouping.ownBlocks? node with
  | some blocks => rfl
  | none =>
    rw [← admittedElements_listToJson exported]
    constructor
    · rintro ⟨_, ⟨⟩, each⟩
      exact each
    · exact fun each => ⟨_, rfl, each⟩

/-! ## Elements of nodes -/

theorem exported_assemble {node : Node} (h : node.Keyed) {parts : Exported}
    (keyed : (assemble node parts).Keyed) : (assemble node parts).Exported := by
  refine ⟨?_, keyed⟩
  obtain ⟨bindings, styles, actions, bound, -⟩ := boundElement_eq h
  unfold assemble
  rw [bound]
  dsimp only
  split <;> rfl

theorem repeatElements_type (head : Loop.Head) {children : List Element}
    (h : ∀ element ∈ children, element.type = elementType) :
    (repeatElements head children).type = elementType := by
  unfold repeatElements
  dsimp only
  split
  · next child =>
    split
    · rfl
    · exact h child List.mem_cons_self
  · rfl

theorem importable_repeatElements (head : Loop.Head) (children : List Element) :
    Importable settings (repeatElements head children) ↔
      ∀ child ∈ children, Importable settings child := by
  have body : ∀ (element : Element) (repetition : Option Repetition),
      Importable settings { element with repetition } ↔ Importable settings element := by
    intro element repetition
    rw [importable_iff, importable_iff]
    exact Iff.rfl
  have fragment : ∀ children : List Element, Importable settings (Element.fragment children) ↔
      ∀ child ∈ children, Importable settings child := by
    intro children
    rw [importable_iff]
    exact and_iff_right (by rintro entry ⟨⟩)
  unfold repeatElements
  dsimp only
  rw [body]
  split
  · next child =>
    split
    · exact fragment [child]
    · simp
  · exact fragment children

mutual

theorem exported_exportNode (node : Node) (h : node.isKeyed = true) :
    (exportNode node).Exported := by
  match node with
  | ⟨name, properties, bindings, children, slots, scope, metadata⟩ =>
    have keyed := keyed_exportNode _ h
    have node := Node.keyed_of_isKeyed h
    unfold exportNode at keyed ⊢
    dsimp only at keyed ⊢
    split at keyed
    · exact ⟨repeatElements_type _ fun element member =>
        (exported_exportNodes children node.children element member).marked, keyed⟩
    · split at keyed
      all_goals exact exported_assemble node keyed

theorem exported_exportNodes (nodes : List Node) (h : Node.areKeyed nodes = true) :
    ∀ element ∈ exportNodes nodes, element.Exported := by
  match nodes with
  | [] => simp [exportNodes]
  | node :: nodes =>
    rw [Node.areKeyed, Bool.and_eq_true] at h
    rw [exportNodes, List.forall_mem_cons]
    exact ⟨exported_exportNode node h.1, exported_exportNodes nodes h.2⟩

end

theorem groupsExportable_cons (grouping : Grouping) (node : Node) (nodes : List Node) :
    GroupsExportable settings grouping (node :: nodes) ↔
      (if grouping.isGroup node then
        match grouping.ownBlocks? node with
        | some blocks => BlocksAdmitted settings blocks
        | none => AllExportable settings node.children
      else if grouping = .variants ∧ isDefaultVariant node then
        AllExportable settings node.children
      else Exportable settings node) ∧ GroupsExportable settings grouping nodes := by
  cases node
  rfl

/-- The nodes among groups that are written as elements can be imported, and the
groups are admitted, just if each part of them can. -/
theorem exportGroups_iff (grouping : Grouping) (nodes : List Node)
    (keyed : Node.areKeyed nodes = true)
    (inner : ∀ node ∈ nodes,
      (Importable settings (exportNode node) ↔ Exportable settings node) ∧
      ((∀ element ∈ exportNodes node.children, Importable settings element) ↔
        AllExportable settings node.children)) :
    ((∀ item ∈ (exportGroups grouping nodes).1, AdmittedGroup settings item) ∧
      ∀ element ∈ (exportGroups grouping nodes).2, Importable settings element) ↔
        GroupsExportable settings grouping nodes := by
  induction nodes with
  | nil =>
    rw [exportGroups_nil]
    exact ⟨fun _ => trivial, fun _ => ⟨by simp, by simp⟩⟩
  | cons node nodes ih =>
    obtain ⟨⟨whole, parts⟩, others⟩ := List.forall_mem_cons.mp inner
    rw [Node.areKeyed, Bool.and_eq_true] at keyed
    have node_keyed := Node.keyed_of_isKeyed keyed.1
    have children := exported_exportNodes node.children node_keyed.children
    rw [groupsExportable_cons, ← ih keyed.2 others, exportGroups_cons]
    split
    · rw [List.forall_mem_cons, admittedGroup_entry grouping node_keyed.properties children, ← parts]
      cases grouping.ownBlocks? node <;> exact and_assoc
    · split
      · rw [List.forall_mem_append, ← parts]
        exact and_left_comm
      · rw [List.forall_mem_cons, whole]
        exact and_left_comm

/-! ## Options of components -/

theorem boundElement_rest (node : Node) (h : node.Keyed) :
    (boundElement node).component = none ∧ (boundElement node).tagName = none := by
  obtain ⟨bindings, styles, actions, bound, -⟩ := boundElement_eq h
  rw [bound]
  exact ⟨rfl, rfl⟩

theorem assemble_tag {node : Node} (h : node.Keyed) (tag : node.isTag = true) (parts : Exported) :
    (assemble node parts).options = [] ∧ (assemble node parts).children = parts.children := by
  unfold assemble
  simp only [tag, if_true]
  rw [Element.options, (boundElement_rest node h).1]
  exact ⟨rfl, trivial⟩

theorem assemble_component {node : Node} (h : node.Keyed) (component : node.isTag = false)
    (parts : Exported) :
    (assemble node parts).options = writtenOptions node parts ∧
      (assemble node parts).children = parts.children ∧
      Grouping.of? ((assemble node parts).nodeName settings) =
        importedGrouping settings node.name := by
  unfold assemble
  simp only [component, Bool.false_eq_true, if_false]
  refine ⟨rfl, trivial, ?_⟩
  simp only [Element.nodeName, Element.componentName?, Option.map_some,
    (boundElement_rest node h).2, importedGrouping, Option.filter_some]
  cases node.name.isEmpty <;> rfl

theorem importedGrouping_of_some {node : Node} {grouping : Grouping}
    (h : Grouping.of? node.name = some grouping) :
    importedGrouping settings node.name = some grouping := by
  have some_name : node.name.isEmpty = false := by
    by_contra empty
    rw [Bool.not_eq_false, String.isEmpty_iff] at empty
    rw [empty] at h
    cases h
  rw [importedGrouping, some_name]
  exact h

theorem claims_self (grouping : Grouping) :
    Grouping.claims (some grouping) grouping.optionKey = true := by
  simp [Grouping.claims]

/-- The groups of a node as they are found among its options. -/
theorem get?_writtenOptions (node : Node) {parts : Exported} (h : Fields.Distinct parts.slots)
    (key : String) :
    Fields.get? (writtenOptions node parts) key =
      if ((Grouping.of? node.name).any fun grouping =>
        decide (grouping.optionKey = key) && !parts.groups.isEmpty) then some (.array parts.groups)
      else (Fields.get? parts.slots key).or (Fields.get? (exportedOptions node) key) := by
  unfold writtenOptions
  cases Grouping.of? node.name with
  | none => exact Fields.get?_merge h key
  | some grouping =>
    dsimp only
    cases empty : parts.groups.isEmpty with
    | true =>
      simp only [if_true, Option.any_some, Bool.not_true, Bool.and_false, Bool.false_eq_true,
        if_false]
      exact Fields.get?_merge h key
    | false =>
      simp only [Bool.false_eq_true, if_false, Option.any_some, Bool.not_false, Bool.and_true,
        Fields.get?_put, Fields.get?_merge h, decide_eq_true_eq]

theorem distinct_writtenOptions {node : Node} (h : node.Keyed) (parts : Exported) :
    Fields.Distinct (writtenOptions node parts) := by
  have literals := (Json.isSettled_object.mp (isSettled_exportedOptions h)).1
  unfold writtenOptions
  dsimp only
  split
  · split
    · exact literals.merge _
    · exact (literals.merge _).put _ _
  · exact literals.merge _

theorem replaced_iff {node : Node} {groups : List Json} {key : String} :
    ((Grouping.of? node.name).any fun grouping =>
        decide (grouping.optionKey = key) && !groups.isEmpty) = true ↔
      ∃ grouping, Grouping.of? node.name = some grouping ∧ grouping.optionKey = key ∧
        groups.isEmpty = false := by
  simp only [Option.any_eq_true, Bool.and_eq_true, decide_eq_true_eq, Bool.not_eq_true']

theorem isOverwritten_groups {node : Node} {groups : List Json}
    (h : ∀ grouping, Grouping.of? node.name = some grouping →
      groups.isEmpty = !node.children.any grouping.isGroup) (key : String) :
    ((Grouping.of? node.name).any fun grouping =>
        decide (grouping.optionKey = key) && !groups.isEmpty) =
      (Grouping.of? node.name).any fun grouping =>
        decide (grouping.optionKey = key) && node.children.any grouping.isGroup := by
  cases named : Grouping.of? node.name with
  | none => rfl
  | some grouping => simp [h grouping named]

/-- The options of a component are admitted if those of its literals are that are
written, and if its slots and its groups are. -/
theorem writtenOptions_admitted_iff {node : Node} (h : node.Keyed) {parts : Exported}
    (names : Fields.names parts.slots = Fields.names node.slots)
    (groups : ∀ grouping, Grouping.of? node.name = some grouping →
      parts.groups.isEmpty = !node.children.any grouping.isGroup)
    (claimed : ∀ entry ∈ parts.slots,
      Grouping.claims (importedGrouping settings node.name) entry.1 = true →
        Admitted settings (importedGrouping settings node.name) entry.1 entry.2) :
    (∀ entry ∈ writtenOptions node parts,
        Admitted settings (importedGrouping settings node.name) entry.1 entry.2) ↔
      LiteralsAdmitted settings node ∧
        (∀ entry ∈ parts.slots,
          Admitted settings (importedGrouping settings node.name) entry.1 entry.2) ∧
        ∀ grouping, Grouping.of? node.name = some grouping →
          ∀ item ∈ parts.groups, AdmittedGroup settings item := by
  have distinct := distinct_writtenOptions h parts
  have slots : Fields.Distinct parts.slots := by
    rw [Fields.Distinct, names]
    exact h.slotNames
  have literals := (Json.isSettled_object.mp (isSettled_exportedOptions h)).1
  have written (key : String) (value : Json) :
      (key, value) ∈ writtenOptions node parts ↔
        Fields.get? (writtenOptions node parts) key = some value :=
    (Fields.get?_eq_some_iff distinct).symm
  constructor
  · intro all
    refine ⟨?_, ?_, ?_⟩
    · rintro ⟨key, value⟩ member free
      apply all (key, value)
      rw [written, get?_writtenOptions node slots, if_neg, Fields.get?_eq_none_iff.mpr,
        Option.none_or, Fields.get?_eq_some_iff literals]
      · exact member
      · rw [names, ← Fields.has_eq_false_iff]
        exact (Bool.or_eq_false_iff.mp free).1
      · rw [isOverwritten_groups groups key, (Bool.or_eq_false_iff.mp free).2]
        exact Bool.false_ne_true
    · rintro ⟨key, value⟩ member
      cases claim : Grouping.claims (importedGrouping settings node.name) key with
      | true => exact claimed (key, value) member claim
      | false =>
        apply all (key, value)
        rw [written, get?_writtenOptions node slots, if_neg,
          (Fields.get?_eq_some_iff slots).mpr member, Option.some_or]
        intro replaced
        obtain ⟨grouping, named, rfl, -⟩ := replaced_iff.mp replaced
        rw [importedGrouping_of_some named, claims_self] at claim
        cases claim
    · intro grouping named item member
      have filled : parts.groups.isEmpty = false :=
        List.isEmpty_eq_false_iff.mpr (List.ne_nil_of_mem member)
      have admitted := all (grouping.optionKey, .array parts.groups) (by
        rw [written, get?_writtenOptions node slots, named, if_pos]
        simp [filled])
      rw [importedGrouping_of_some named] at admitted
      rcases admitted with ⟨_, each⟩ | ⟨free, _, _⟩ | ⟨free, _⟩
      · exact each item member
      · simp [claims_self] at free
      · simp [claims_self] at free
  · rintro ⟨literal, slot, group⟩ ⟨key, value⟩ member
    rw [written, get?_writtenOptions node slots] at member
    split at member
    · next replaced =>
      cases member
      obtain ⟨grouping, named, rfl, -⟩ := replaced_iff.mp replaced
      rw [importedGrouping_of_some named]
      exact .groups (claims_self grouping) (group grouping named)
    · next kept =>
      cases found : Fields.get? parts.slots key with
      | some given =>
        rw [found] at member
        cases member
        exact slot (key, value) (Fields.mem_of_get? found)
      | none =>
        rw [found, Option.none_or] at member
        apply literal (key, value) (Fields.mem_of_get? member)
        rw [isOverwritten, ← isOverwritten_groups groups key, Bool.eq_false_iff.mpr kept,
          Bool.or_false, Fields.has_eq_false_iff, ← names, ← Fields.get?_eq_none_iff]
        exact found

theorem exportSlots_claimed {grouping : Option Grouping} (slots : List (String × List Node)) :
    ∀ entry ∈ exportSlots slots, Grouping.claims grouping entry.1 = true →
      Admitted settings grouping entry.1 entry.2 := by
  induction slots with
  | nil => simp [exportSlots]
  | cons slot slots ih =>
    rw [exportSlots, List.forall_mem_cons]
    exact ⟨fun claimed => admitted_claimed_listToJson claimed _, ih⟩

/-- Slots are admitted if their nodes can be imported, or where groups are expected. -/
theorem exportSlots_iff (grouping : Option Grouping) (slots : List (String × List Node))
    (keyed : Node.haveKeyed slots = true)
    (inner : ∀ slot ∈ slots, (∀ element ∈ exportNodes slot.2, Importable settings element) ↔
      AllExportable settings slot.2) :
    (∀ entry ∈ exportSlots slots, Admitted settings grouping entry.1 entry.2) ↔
      SlotsExportable settings grouping slots := by
  induction slots with
  | nil => exact ⟨fun _ => trivial, fun _ => by simp [exportSlots]⟩
  | cons slot slots ih =>
    obtain ⟨key, nodes⟩ := slot
    obtain ⟨first, others⟩ := List.forall_mem_cons.mp inner
    rw [Node.haveKeyed, Bool.and_eq_true] at keyed
    rw [exportSlots, List.forall_mem_cons, ih keyed.2 others, SlotsExportable]
    refine and_congr ?_ Iff.rfl
    cases claim : Grouping.claims grouping key with
    | true => exact ⟨fun _ free => (by cases free), fun _ => admitted_claimed_listToJson claim _⟩
    | false =>
      rw [admitted_free_listToJson claim (exported_exportNodes nodes keyed.1), first]
      exact ⟨fun all _ => all, fun all => all rfl⟩

/-! ## Nodes -/

theorem exportable_iff (node : Node) :
    Exportable settings node ↔
      if (Loop.head? node).isSome || node.isTag then AllExportable settings node.children
      else
        LiteralsAdmitted settings node ∧
          SlotsExportable settings (importedGrouping settings node.name) node.slots ∧
          match Grouping.of? node.name with
          | none => AllExportable settings node.children
          | some grouping => GroupsExportable settings grouping node.children := by
  cases node
  rfl

private theorem importable_exportNode_of_parts {node : Node} (keyed : node.isKeyed = true)
    (children : (∀ element ∈ exportNodes node.children, Importable settings element) ↔
      AllExportable settings node.children)
    (slots : ∀ slot ∈ node.slots, (∀ element ∈ exportNodes slot.2, Importable settings element) ↔
      AllExportable settings slot.2)
    (inner : ∀ child ∈ node.children,
      (Importable settings (exportNode child) ↔ Exportable settings child) ∧
      ((∀ element ∈ exportNodes child.children, Importable settings element) ↔
        AllExportable settings child.children)) :
    Importable settings (exportNode node) ↔ Exportable settings node := by
  have h := Node.keyed_of_isKeyed keyed
  rw [exportable_iff]
  cases loop : Loop.head? node with
  | some head =>
    rw [exportNode_of_head loop, importable_repeatElements, children]
    rfl
  | none =>
    rw [exportNode_plain loop, Option.isSome_none, Bool.false_or]
    cases tag : node.isTag with
    | true =>
      obtain ⟨options, exported⟩ := assemble_tag h tag
        ⟨exportSlots node.slots, [], exportNodes node.children⟩
      rw [grouping_of_tag tag, importable_iff, options, exported, if_pos rfl, ← children]
      exact and_iff_right (by simp)
    | false =>
      rw [if_neg Bool.false_ne_true, ← exportSlots_iff _ node.slots h.slots slots]
      cases named : Grouping.of? node.name with
      | none =>
        obtain ⟨options, exported, grouping⟩ := assemble_component h tag
          ⟨exportSlots node.slots, [], exportNodes node.children⟩
        rw [importable_iff, grouping, options, exported, ← children,
          writtenOptions_admitted_iff h (names_exportSlots _) (by simp [named])
            (exportSlots_claimed node.slots)]
        simp [named, and_assoc]
      | some grouping =>
        obtain ⟨options, exported, imported⟩ := assemble_component h tag
          ⟨exportSlots node.slots, (exportGroups grouping node.children).1,
            (exportGroups grouping node.children).2⟩
        have groups : ∀ other, Grouping.of? node.name = some other →
            (exportGroups grouping node.children).1.isEmpty =
              !node.children.any other.isGroup := by
          intro other same
          cases named.symm.trans same
          exact isEmpty_exportGroups grouping node.children
        dsimp only at options exported imported ⊢
        rw [importable_iff, imported, options, exported,
          ← exportGroups_iff grouping node.children h.children inner,
          writtenOptions_admitted_iff h (names_exportSlots _) groups
            (exportSlots_claimed node.slots)]
        simp only [named, Option.some.injEq, forall_eq', and_assoc]

mutual

/-- What a node is written as can be imported just if the node is exportable. The induction is on
the node, through its children and its slots; groups are set against the options in which they are
written. -/
theorem importable_exportNode (node : Node) (keyed : node.isKeyed = true) :
    Importable settings (exportNode node) ↔ Exportable settings node := by
  match node with
  | ⟨name, properties, bindings, children, slots, scope, metadata⟩ =>
    have h := Node.keyed_of_isKeyed keyed
    exact importable_exportNode_of_parts keyed (importable_exportNodes children h.children)
      (importable_exportSlots slots h.slots) (importable_exportChildren children h.children)

theorem importable_exportNodes (nodes : List Node) (keyed : Node.areKeyed nodes = true) :
    (∀ element ∈ exportNodes nodes, Importable settings element) ↔
      AllExportable settings nodes := by
  match nodes with
  | [] => exact ⟨fun _ => trivial, fun _ => by simp [exportNodes]⟩
  | node :: nodes =>
    rw [Node.areKeyed, Bool.and_eq_true] at keyed
    rw [exportNodes, List.forall_mem_cons, importable_exportNode node keyed.1,
      importable_exportNodes nodes keyed.2, AllExportable]

theorem importable_exportSlots (slots : List (String × List Node))
    (keyed : Node.haveKeyed slots = true) :
    ∀ slot ∈ slots, (∀ element ∈ exportNodes slot.2, Importable settings element) ↔
      AllExportable settings slot.2 := by
  match slots with
  | [] => simp
  | (key, nodes) :: slots =>
    rw [Node.haveKeyed, Bool.and_eq_true] at keyed
    rw [List.forall_mem_cons]
    exact ⟨importable_exportNodes nodes keyed.1, importable_exportSlots slots keyed.2⟩

theorem importable_exportChildren (nodes : List Node) (keyed : Node.areKeyed nodes = true) :
    ∀ node ∈ nodes, (Importable settings (exportNode node) ↔ Exportable settings node) ∧
      ((∀ element ∈ exportNodes node.children, Importable settings element) ↔
        AllExportable settings node.children) := by
  match nodes with
  | [] => simp
  | ⟨name, properties, bindings, children, slots, scope, metadata⟩ :: nodes =>
    rw [Node.areKeyed, Bool.and_eq_true] at keyed
    rw [List.forall_mem_cons]
    exact ⟨⟨importable_exportNode _ keyed.1,
      importable_exportNodes children (Node.keyed_of_isKeyed keyed.1).children⟩,
      importable_exportChildren nodes keyed.2⟩

end

/-! ## Documents -/

theorem toComponent_ok_iff {content : Content} :
    (∃ component, toComponent settings content = .ok component) ↔
      ∀ element ∈ content.blocks, Importable settings element := by
  rw [← importElements_ok_iff "blocks" 0 content.blocks, toComponent]
  constructor
  · rintro ⟨component, imported⟩
    split at imported
    · cases imported
    · next nodes read => exact ⟨nodes, read⟩
  · rintro ⟨nodes, read⟩
    rw [read]
    exact ⟨_, rfl⟩

theorem parse_ok_iff {source : String} {content : Content} (h : read source = .ok content) :
    (∃ component, parse settings source = .ok component) ↔
      ∀ element ∈ content.blocks, Importable settings element := by
  rw [← toComponent_ok_iff, parse, h]

/-- A component whose inputs a reader accepts is read back as its content. -/
theorem read_write (writing : ExportSettings) {component : Component}
    (keyed : component.isKeyed = true)
    (integral : (ofComponent writing component).toJson.isIntegral = true)
    (deep : (ofComponent writing component).toJson.nesting ≤ Json.maxDepth)
    (readable : ∀ input ∈ component.inputs, Readable input) :
    ∃ content, read (write writing component) = .ok content ∧
      content.blocks = Element.strippedList (exportNodes component.children) := by
  simp only [Component.isKeyed, Bool.and_eq_true, List.all_eq_true] at keyed
  obtain ⟨⟨⟨-, children⟩, inputs⟩, -⟩ := keyed
  obtain ⟨items, fits⟩ := fit_settledInputs (ofComponent writing component)
    (fun input member => (Json.isSettled_object.mp (inputs input member).1).1) readable
  exact ⟨_, read_render _ integral deep (areSettled_blocks writing children) fits, rfl⟩

/-- The text of a component is imported again just if its nodes are exportable,
when a reader accepts its inputs. -/
theorem parse_write_iff_exportable (reading : ImportSettings) (writing : ExportSettings)
    {component : Component} (keyed : component.isKeyed = true)
    (integral : (ofComponent writing component).toJson.isIntegral = true)
    (deep : (ofComponent writing component).toJson.nesting ≤ Json.maxDepth)
    (readable : ∀ input ∈ component.inputs, Readable input) :
    (∃ result, parse reading (write writing component) = .ok result) ↔
      AllExportable reading component.children := by
  obtain ⟨content, read, blocks⟩ := read_write writing keyed integral deep readable
  have children : Node.areKeyed component.children = true := by
    simp only [Component.isKeyed, Bool.and_eq_true] at keyed
    exact keyed.1.1.2
  rw [parse_ok_iff read, blocks, importable_strippedList,
    importable_exportNodes component.children children]

/-- The text of a component is imported again just if every input that is written
with two names has text for the second, and every node is exportable. No other
component is refused, whatever its nodes and their fields are called. -/
theorem parse_write_ok_iff (reading : ImportSettings) (writing : ExportSettings)
    (component : Component) (keyed : component.isKeyed = true)
    (integral : (ofComponent writing component).toJson.isIntegral = true)
    (deep : (ofComponent writing component).toJson.nesting ≤ Json.maxDepth) :
    (∃ result, parse reading (write writing component) = .ok result) ↔
      (∀ input ∈ component.inputs, Readable input) ∧
        AllExportable reading component.children := by
  constructor
  · rintro ⟨result, h⟩
    have readable : ∀ input ∈ component.inputs, Readable input := by
      have parts := keyed
      simp only [Component.isKeyed, Bool.and_eq_true, List.all_eq_true] at parts
      obtain ⟨⟨⟨-, children⟩, inputs⟩, -⟩ := parts
      rw [parse] at h
      split at h
      · cases h
      · next content read =>
        exact readable_of_read _ integral deep (areSettled_blocks writing children)
          (fun input member => (Json.isSettled_object.mp (inputs input member).1).1) read
    exact ⟨readable,
      (parse_write_iff_exportable reading writing keyed integral deep readable).mp ⟨result, h⟩⟩
  · rintro ⟨readable, exportable⟩
    exact (parse_write_iff_exportable reading writing keyed integral deep readable).mpr exportable

def twoColumns : Component :=
  { name := "Shop"
    inputs := [{ name := "title", metadata := [("name", .string "heading")] }]
    children :=
      [{ name := "Columns"
         properties := [("space", .ofInt 20)]
         slots := [("header", [{ name := "h1" }])]
         children :=
           [{ name := "Column", properties := [("width", .ofInt 50)], children := [{ name := "p" }] },
            { name := "Column", children := [{ name := "Box" }] }] }] }

theorem twoColumns_imported :
    twoColumns.isKeyed = true ∧ (ofComponent {} twoColumns).toJson.isIntegral = true ∧
      (ofComponent {} twoColumns).toJson.nesting ≤ Json.maxDepth ∧
      ∃ result, parse {} (write {} twoColumns) = .ok result := by
  have keyed : twoColumns.isKeyed = true := by decide
  have integral : (ofComponent {} twoColumns).toJson.isIntegral = true := by decide
  have deep : (ofComponent {} twoColumns).toJson.nesting ≤ Json.maxDepth := by decide
  have tag (name : String) (h : Node.isTagName name = true) : Exportable {} { name } := by
    rw [exportable_iff, Node.isTag, h, Bool.or_true]
    trivial
  have box : Exportable {} { name := "Box" } :=
    (exportable_iff _).mpr ⟨by rintro entry ⟨⟩, trivial, trivial⟩
  refine ⟨keyed, integral, deep,
    (parse_write_ok_iff {} {} twoColumns keyed integral deep).mpr ⟨?_, ?_, trivial⟩⟩
  · intro input member value found
    cases List.mem_singleton.mp member
    cases found
    rfl
  · refine (exportable_iff _).mpr ⟨?_, ⟨fun _ => ⟨tag "h1" rfl, trivial⟩, trivial⟩,
      ⟨⟨tag "p" rfl, trivial⟩, ⟨box, trivial⟩, trivial⟩⟩
    intro entry member _
    cases List.mem_singleton.mp member
    exact .plain rfl (by rintro items ⟨⟩)

/-- Columns that say how many they are, under the name of the option for the columns. -/
def countedColumns : Component :=
  { name := "MyComponent"
    children := [{ name := "Columns", properties := [("columns", .ofInt 5)] }] }

/-- A valid component can be refused: a number is no list of columns. -/
theorem countedColumns_refused :
    countedColumns.check = .ok () ∧ countedColumns.isKeyed = true ∧
      (ofComponent {} countedColumns).toJson.isIntegral = true ∧
      (ofComponent {} countedColumns).toJson.nesting ≤ Json.maxDepth ∧
      ¬∃ result, parse {} (write {} countedColumns) = .ok result := by
  have keyed : countedColumns.isKeyed = true := by decide
  have integral : (ofComponent {} countedColumns).toJson.isIntegral = true := by decide
  have deep : (ofComponent {} countedColumns).toJson.nesting ≤ Json.maxDepth := by decide
  refine ⟨rfl, keyed, integral, deep, ?_⟩
  rw [parse_write_iff_exportable {} {} keyed integral deep (by simp [countedColumns])]
  rintro ⟨columns, -⟩
  obtain ⟨literals, -⟩ : LiteralsAdmitted {} _ ∧ _ := (exportable_iff _).mp columns
  have written : ("columns", Json.ofInt 5) ∈ [("columns", Json.ofInt 5)] := List.mem_cons_self
  have refused := literals ("columns", .ofInt 5) written (by decide)
  cases refused with
  | plain free _ => cases free

end BlockLoom.Content
