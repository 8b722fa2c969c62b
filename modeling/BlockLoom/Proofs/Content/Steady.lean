import BlockLoom.Proofs.Content.CanonicalNode
import BlockLoom.Proofs.Content.Handlers
import BlockLoom.Proofs.Content.Layout
import BlockLoom.Proofs.Content.Records

/-!
Elements whose fields come back from an export under the same sources. A node does not say where
its fields came from. The export tells properties from options by the kind of the node and the
lists in its metadata, and handlers by their names, so an element is steady if these tell the
same for each of its fields as the element did.
-/

namespace BlockLoom.Content

variable {settings : ImportSettings}

/-! ## Steady elements -/

/-- Whether a property, or an expression bound to one, has the name of a field. -/
def Element.overrides (element : Element) (key : String) : Bool :=
  Fields.has element.bound.properties key || Fields.has (element.properties.getD []) key

/-- Whether the metadata of the node for an element list a field: those of a component list its
properties, and those of a native tag the bound options that no property overrides. -/
def Element.Lists (settings : ImportSettings) (element : Element) (key : String) : Prop :=
  if element.componentName?.isSome then element.field? .properties key ≠ none
  else Node.isTagName (element.nodeName settings) = true ∧
    element.boundAt? .options key ≠ none ∧ element.overrides key = false

/-- What is asked of an element for its export to give its node again. Each condition is about one
place where an export would write what is imported as something else. -/
structure Element.Steady (settings : ImportSettings) (element : Element) : Prop where
  /-- Its node is no loop wrapper itself. -/
  single : element.IsSingle settings
  /-- No component is called like a native tag. -/
  component : element.componentName?.isSome = true →
    Node.isTagName (element.nodeName settings) = false
  /-- There are no options without a component. -/
  options : element.componentName? = none → element.options = []
  /-- No property that is written as an option is read as a slot or as groups. -/
  properties : element.componentName? = none →
    Node.isTagName (element.nodeName settings) = false →
    ∀ entry ∈ element.properties.getD [], entry.1 ≠ styleKey →
      isPlainOption (Grouping.of? (element.nodeName settings)) entry = true
  /-- Every bound field has a name, which is not that of an option with nodes in it; and if the
  name is that of a handler, the field is not listed as anything else. -/
  bound : ∀ key code, key ≠ styleKey → element.source? settings key = some (.bound code) →
    key ≠ "" ∧ element.isStructural settings key = false ∧
      (Event.ofHandler? key ≠ none → ¬element.Lists settings key)
  /-- The styles can be merged and taken apart again. -/
  styles : Style.Separable (element.styles.getD []) element.bound.styles
  /-- No child beside columns is called like a column. -/
  beside : Grouping.of? (element.nodeName settings) = some .columns →
    ∀ child ∈ element.children, child.importedName settings ≠ Grouping.columns.nodeName
  /-- No variant has the field that marks the default variant. -/
  unmarked : Grouping.of? (element.nodeName settings) = some .variants →
    ∀ group ∈ element.groups settings, defaultKey ∉ Fields.names group.fields

/-- What is known of a steady element that is imported with the given parts. -/
structure Element.Stays (settings : ImportSettings) (element : Element) (parts : OptionParts)
    (children : List Node) : Prop where
  keyed : element.Keyed
  steady : element.Steady settings
  imports : element.Imports settings parts children
  body : (element.body settings parts children).Keyed

variable {element : Element} {parts : OptionParts} {children : List Node} {key : String}

/-! ## What the node for an element lists -/

theorem mem_propertyKeys (keyed : element.Keyed) :
    key ∈ element.propertyKeys ↔ key ≠ styleKey ∧ element.field? .properties key ≠ none := by
  have found : Fields.get? (Fields.ofEntries (element.propertyFields element.bound)) key =
      element.field? .properties key := Element.get?_propertyFields keyed key
  have named : key ∈ Fields.names (element.propertyFields element.bound) ↔
      element.field? .properties key ≠ none := by
    rw [← found, ne_eq, Fields.get?_eq_none_iff, not_not, Fields.mem_names_ofEntries]
  rw [Element.propertyKeys, List.mem_filter, decide_eq_true_eq, named, and_comm]

theorem hasField_filled (keyed : element.Keyed) (plain : parts.plain = element.plainOptions settings)
    (children : List Node) (other : key ≠ styleKey) :
    (element.filled settings parts children).HasField key
      ((element.field? .properties key).or
        (if element.isStructural settings key then none else element.field? .options key)) := by
  have start : ({ name := element.nodeName settings
                  slots := parts.slots
                  children := parts.groups ++ ownChildren (element.nodeName settings) children
                  metadata := element.identity } : Node).HasField key none := ⟨rfl, rfl⟩
  have options := hasField_addFields start styleOptionKey
    (element.optionFields element.bound parts)
  have properties := hasField_addFields options stylePropertyKey
    (element.propertyFields element.bound)
  rw [if_neg other, if_neg other, Option.or_none, Element.get?_propertyFields keyed,
    Element.get?_optionFields keyed plain] at properties
  exact properties

/-- What is not overridden has no property of its name. -/
theorem field?_of_not_overrides (keyed : element.Keyed) (free : element.overrides key = false) :
    element.field? .properties key = none := by
  rw [Element.overrides, Bool.or_eq_false_iff, Fields.has, Fields.has,
    Option.isSome_eq_false_iff, Option.isSome_eq_false_iff, Option.isNone_iff_eq_none,
    Option.isNone_iff_eq_none] at free
  have bound : element.bound.properties = within .properties element.expressions :=
    Element.fieldsIn_bound keyed .properties (by decide) (by decide)
  rw [Element.field?, ← Element.filter_get?_within keyed, ← bound, free.1, Element.literals, free.2]
  rfl

theorem componentName?_of_tag (h : element.Stays settings parts children)
    (tag : Node.isTagName (element.nodeName settings) = true) : element.componentName? = none := by
  by_contra named
  cases tag.symm.trans (h.steady.component (Option.isSome_iff_ne_none.mpr named))

theorem options_of_tag (h : element.Stays settings parts children)
    (tag : Node.isTagName (element.nodeName settings) = true) : element.options = [] :=
  h.steady.options (componentName?_of_tag h tag)

theorem lists_of_tag (h : element.Stays settings parts children)
    (tag : Node.isTagName (element.nodeName settings) = true) :
    element.Lists settings key ↔
      element.boundAt? .options key ≠ none ∧ element.overrides key = false := by
  rw [Element.Lists, componentName?_of_tag h tag, Option.isSome_none, if_neg Bool.false_ne_true,
    and_iff_right tag]

theorem bound_options (keyed : element.Keyed) :
    element.bound.options = within .options element.expressions :=
  Element.fieldsIn_bound keyed .options nofun nofun

/-- A bound option is listed if no property overrides it and it holds no nodes. -/
theorem mem_listedOptions_of_bound (keyed : element.Keyed)
    (plain : parts.plain = element.plainOptions settings) (children : List Node)
    (other : key ≠ styleKey) (free : element.overrides key = false)
    (unstructured : element.isStructural settings key = false)
    (given : element.boundAt? .options key ≠ none) :
    key ∈ element.listedOptions (element.filled settings parts children) := by
  have stored : key ∈ Fields.names element.bound.options := by
    by_contra absent
    rw [← Element.filter_get?_within keyed, ← bound_options keyed,
      Fields.get?_eq_none_iff.mpr absent] at given
    exact given rfl
  have field := (hasField_filled keyed plain children other).binding
  rw [field?_of_not_overrides keyed free, unstructured, if_neg Bool.false_ne_true, Option.none_or,
    Element.field?] at field
  rw [Element.listedOptions, List.mem_filter]
  simp only [Bool.and_eq_true, decide_eq_true_eq, Bool.not_eq_true']
  refine ⟨stored, ⟨other, ?_⟩, free⟩
  obtain ⟨code, found⟩ := Option.ne_none_iff_exists'.mp given
  rw [Fields.has, field, found]
  rfl

/-- The bound options that a native tag lists. -/
theorem mem_listedOptions (h : element.Stays settings parts children)
    (tag : Node.isTagName (element.nodeName settings) = true) :
    key ∈ element.listedOptions (element.filled settings parts children) ↔
      key ≠ styleKey ∧ element.Lists settings key := by
  have unstructured : element.isStructural settings key = false := by
    rw [Element.isStructural, options_of_tag h tag]
    rfl
  rw [lists_of_tag h tag]
  constructor
  · intro member
    obtain ⟨-, listed⟩ := List.mem_filter.mp member
    simp only [Bool.and_eq_true, decide_eq_true_eq, Bool.not_eq_true'] at listed
    obtain ⟨⟨other, found⟩, free⟩ := listed
    refine ⟨other, fun absent => ?_, free⟩
    -- Without an option of its name, a field that nothing overrides has no binding.
    have field := (hasField_filled h.keyed h.imports.plain children other).binding
    rw [field?_of_not_overrides h.keyed free, unstructured, if_neg Bool.false_ne_true,
      Element.field?, absent, Element.literals, options_of_tag h tag] at field
    rw [Fields.has, field] at found
    cases found
  · rintro ⟨other, given, free⟩
    exact mem_listedOptions_of_bound h.keyed h.imports.plain children other free unstructured given

/-- What the metadata of a node say under a key of its records. -/
theorem get?_metadata_of_record (keyed : element.Keyed)
    (plain : parts.plain = element.plainOptions settings) (children : List Node)
    {entry : String} {value : Option Json}
    (record : (entry, value) ∈ element.bodyRecords settings
      (element.listedOptions (element.filled settings parts children))) :
    Fields.get? (element.body settings parts children).metadata entry = value := by
  have distinct := @distinct_bodyRecords settings element
    (element.listedOptions (element.filled settings parts children))
  rw [metadata_body keyed plain, Json.get?_present distinct,
    (Fields.get?_eq_some_iff distinct).mpr record]
  rfl

theorem listedKeys_properties (keyed : element.Keyed)
    (plain : parts.plain = element.plainOptions settings) (children : List Node) :
    listedKeys (element.body settings parts children) propertyKeysKey =
      if element.componentName?.isSome then
        element.propertyKeys.mergeSort fun left right => decide (left ≤ right)
      else [] := by
  have record : (propertyKeysKey, element.propertyList? element.propertyKeys) ∈
      element.bodyRecords settings
        (element.listedOptions (element.filled settings parts children)) := by
    simp [Element.bodyRecords]
  exact listedKeys_eq (List.mergeSort_perm _ _).symm
    (get?_metadata_of_record keyed plain children record)

theorem listedKeys_options (keyed : element.Keyed)
    (plain : parts.plain = element.plainOptions settings) (children : List Node) :
    listedKeys (element.body settings parts children) optionKeysKey =
      if Node.isTagName (element.nodeName settings) then
        element.listedOptions (element.filled settings parts children)
      else [] := by
  have record : (optionKeysKey, optionList? (element.nodeName settings)
        (element.listedOptions (element.filled settings parts children))) ∈
      element.bodyRecords settings
        (element.listedOptions (element.filled settings parts children)) := by
    simp [Element.bodyRecords]
  exact listedKeys_eq (List.Perm.refl _)
    (get?_metadata_of_record keyed plain children record)

/-- A field goes to the properties if a component lists it, or a native tag does not. -/
theorem isProperty_body (h : element.Stays settings parts children) (other : key ≠ styleKey) :
    isProperty (element.body settings parts children) key = true ↔
      if element.componentName?.isSome then element.Lists settings key
      else Node.isTagName (element.nodeName settings) = true ∧ ¬element.Lists settings key := by
  rw [isProperty, listedKeys_properties h.keyed h.imports.plain,
    listedKeys_options h.keyed h.imports.plain, Node.isTag, (frame_body settings _ _ _).1]
  cases named : element.componentName?.isSome with
  | true =>
    have untagged := h.steady.component named
    simp [untagged, Element.Lists, named, List.mem_mergeSort, mem_propertyKeys h.keyed, other]
  | false =>
    cases tag : Node.isTagName (element.nodeName settings) with
    | true =>
      have listed := @mem_listedOptions _ _ _ _ key h tag
      rw [and_iff_right other] at listed
      simp [listed]
    | false => simp

/-! ## Groups and slots -/

theorem name_of_importsTo {node : Node} (h : element.ImportsTo settings node) :
    node.name = element.importedName settings := by
  obtain ⟨parts, children, rfl, -⟩ := body_of_importElement (h "")
  exact name_repeated element parts children

theorem Element.Stays.loop (h : element.Stays settings parts children) :
    Loop.head? (element.body settings parts children) = none :=
  (head?_body children h.imports.plain).mpr h.steady.single

/-- What stands under a key of an element with options is a component. -/
theorem Element.Stays.untagged (h : element.Stays settings parts children)
    (filled : element.options ≠ []) : Node.isTagName (element.nodeName settings) = false := by
  cases named : element.componentName? with
  | none => exact absurd (h.steady.options named) filled
  | some name => exact h.steady.component (by rw [named]; rfl)

/-- The fields of groups are those that were read: each once, and none for blocks. -/
theorem fields_of_stays (h : element.Stays settings parts children) (grouping : Grouping) :
    ∀ group ∈ groupsIn grouping element.options,
      Fields.Distinct group.fields ∧ Group.blocksKey ∉ Fields.names group.fields :=
  fun _ member => fields_of_groupsIn (Element.isSettled_options h.keyed) member

section grouping

variable {grouping : Grouping} (h : element.Stays settings parts children)
  (known : Grouping.of? (element.nodeName settings) = some grouping)

include h known

theorem groups_of_stays :
    List.Forall₂ (GroupNode settings grouping) (groupsIn grouping element.options) parts.groups := by
  have groups := h.imports.groups
  rw [Element.groups, known] at groups
  refine groups.imp fun group node made => ?_
  obtain ⟨found, same, node⟩ := made
  cases same
  exact node

theorem exportGroups_of_stays :
    (∀ node ∈ parts.groups, grouping.isGroup node = true) ∧
      List.Forall₂ (EntryOf settings) (groupsIn grouping element.options)
        (exportGroups grouping parts.groups).1 := by
  refine exportGroups_groupNodes (groups_of_stays h known) (fields_of_stays h grouping) ?_
  rintro rfl group member
  exact h.steady.unmarked known group (by rw [Element.groups, known]; exact member)

theorem isGroup_child (columns : grouping = .columns) {child : Node} (member : child ∈ children) :
    Grouping.columns.isGroup child = false := by
  subst columns
  obtain ⟨inner, listed, imports⟩ := exists_of_forall₂ h.imports.children member
  apply decide_eq_false
  rw [name_of_importsTo imports]
  exact h.steady.beside known inner listed

/-- The groups of a node are those that were imported, and its own children stand beside them. -/
theorem exportGroups_body :
    exportGroups grouping (element.body settings parts children).children =
      ((exportGroups grouping parts.groups).1, exportNodes children) := by
  rw [(frame_body settings element parts children).2.2,
    exportGroups_append (exportGroups_of_stays h known).1, ← container_of_of? known,
    exportGroups_ownChildren fun columns _ member => isGroup_child h known columns member,
    List.append_nil]

end grouping

theorem groups_of_ungrouped (h : element.Stays settings parts children)
    (ungrouped : Grouping.of? (element.nodeName settings) = none) : parts.groups = [] := by
  have groups := h.imports.groups
  rw [Element.groups, ungrouped, List.forall₂_nil_left_iff] at groups
  exact groups

theorem names_slots (h : element.Stays settings parts children) :
    Fields.names (element.body settings parts children).slots =
      Fields.names (element.options.filter
        (isSlotOption (Grouping.of? (element.nodeName settings)))) := by
  rw [(frame_body settings element parts children).2.1]
  exact names_of_slotOf h.imports.slots

/-- A child that is called like a group holds nothing but fields and the nodes of a group. -/
theorem slots_of_groupName (h : element.Stays settings parts children) {child : Node}
    (member : child ∈ (element.body settings parts children).children)
    (named : isGroupOf (Grouping.of? (element.nodeName settings)) child = true) :
    child.slots = [] := by
  cases known : Grouping.of? (element.nodeName settings) with
  | none => rw [known] at named; cases named
  | some grouping =>
    rw [(frame_body settings element parts children).2.2] at member
    rcases List.mem_append.mp member with group | own
    · obtain ⟨_, -, _, _, -, rfl⟩ := exists_of_forall₂ (groups_of_stays h known) group
      exact (grouping.frame_node _ _).2.1
    · rw [known, isGroupOf, Option.any_some, decide_eq_true_eq] at named
      rw [← container_of_of? known, ownChildren] at own
      split at own
      · rw [Option.mem_toList, defaultVariant?] at own
        split at own
        · cases own
        · cases own; rfl
      · next other =>
        have columns : grouping = .columns := by
          cases grouping
          · rfl
          · exact absurd rfl other
        have apart := isGroup_child h known columns own
        subst columns
        exact absurd named (of_decide_eq_false apart)

theorem placeable_body (h : element.Stays settings parts children) :
    Placeable (element.body settings parts children) where
  slots filled := by
    refine ⟨h.loop, ?_⟩
    rw [Node.isTag, (frame_body settings element parts children).1]
    apply h.untagged
    rintro empty
    have names := names_slots h
    rw [empty, List.filter_nil] at names
    exact filled (List.map_eq_nil_iff.mp names)
  groups child member named := by
    rw [(frame_body settings element parts children).1] at named
    exact slots_of_groupName h member named
  option grouping known := by
    rw [(frame_body settings element parts children).1] at known
    rw [names_slots h]
    intro member
    obtain ⟨value, listed⟩ := Fields.mem_names.mp member
    have free := (List.mem_filter.mp listed).2
    rw [isSlotOption, known, claims_self] at free
    cases free
  blocks known child member named := by
    rw [(frame_body settings element parts children).1] at known
    rw [(frame_body settings element parts children).2.2] at member
    rcases List.mem_append.mp member with group | own
    · obtain ⟨fields, listed, _, blocks, -, rfl⟩ := exists_of_forall₂ (groups_of_stays h known) group
      obtain ⟨distinct, free⟩ := fields_of_stays h .columns fields listed
      rw [Grouping.node_eq _ distinct]
      exact ⟨free, List.not_mem_nil⟩
    · rw [← container_of_of? known, ownChildren, if_neg (by decide)] at own
      exact absurd named (of_decide_eq_false (isGroup_child h known rfl own))

theorem keyed_exported (h : element.Stays settings parts children) :
    (exportNode (element.body settings parts children)).Keyed :=
  keyed_exportNode _ (isKeyed_of_keyed h.body)

/-! ## The name of the exported element -/

theorem nodeName_eq_empty (h : element.nodeName settings = "") : settings.placeholderTag = "" := by
  rw [Element.nodeName, Element.componentName?] at h
  cases named : (element.component.map Use.name).filter fun name => !name.isEmpty with
  | some name =>
    rw [named] at h
    cases h
    have filled := (Option.filter_eq_some_iff.mp named).2
    simp at filled
  | none =>
    rw [named, Option.none_or] at h
    cases tagged : element.tagName.filter fun tag => !tag.isEmpty with
    | some tag =>
      rw [tagged] at h
      cases h
      have filled := (Option.filter_eq_some_iff.mp tagged).2
      simp at filled
    | none =>
      rw [tagged] at h
      exact h

theorem nodeName_exportNode {node : Node} (loop : Loop.head? node = none) :
    (exportNode node).nodeName settings =
      if node.name = "" then settings.placeholderTag else node.name := by
  obtain ⟨tag, component⟩ := kind_exportNode loop
  rw [Element.nodeName, Element.componentName?, tag, component]
  by_cases empty : node.name = ""
  · have untagged : node.isTag = false := by rw [Node.isTag, empty]; rfl
    simp [untagged, empty, Option.filter_some]
  · cases node.isTag <;> simp [empty, Option.filter_some]

theorem nodeName_exported (h : element.Stays settings parts children) :
    (exportNode (element.body settings parts children)).nodeName settings =
      element.nodeName settings := by
  rw [nodeName_exportNode h.loop, (frame_body settings element parts children).1]
  split
  · next empty => rw [nodeName_eq_empty empty, empty]
  · rfl

theorem componentName?_exported (h : element.Stays settings parts children) :
    (exportNode (element.body settings parts children)).componentName? =
      if Node.isTagName (element.nodeName settings) || element.nodeName settings = "" then none
      else some (element.nodeName settings) := by
  have component := (kind_exportNode h.loop).2
  rw [Node.isTag, (frame_body settings element parts children).1] at component
  rw [Element.componentName?, component]
  cases Node.isTagName (element.nodeName settings) with
  | true => rfl
  | false =>
    by_cases empty : element.nodeName settings = "" <;> simp [empty, Option.filter_some]

/-! ## The options of the exported element -/

/-- The setting called `style` that a node keeps is what its element gives for the option. -/
theorem keptStyle?_body (keyed : element.Keyed) (plain : parts.plain = element.plainOptions settings)
    (children : List Node) :
    keptStyle? (element.body settings parts children) styleOptionKey =
      element.styleOption? settings := by
  have record : (styleOptionKey, (element.styleOption? settings).map fieldEntry) ∈
      element.bodyRecords settings
        (element.listedOptions (element.filled settings parts children)) := by
    simp [Element.bodyRecords]
  exact keptStyle?_of_entry (get?_metadata_of_record keyed plain children record)

/-- A literal option that is no slot and holds no groups is plain. -/
theorem isPlainOption_of_get? {value : Json} (free : element.isStructural settings key = false)
    (found : Fields.get? element.options key = some value) :
    isPlainOption (Grouping.of? (element.nodeName settings)) (key, value) = true := by
  rw [Element.isStructural, found, Option.any_some, Bool.not_eq_false'] at free
  exact free

theorem source?_of_literalOf? {value : Json} {source : Option FieldValue}
    (h : literalOf? source = some value) : source = some (.literal value) := by
  cases source with
  | none => cases h
  | some source =>
    cases source with
    | literal literal => cases h; rfl
    | bound code => cases h

/-- A literal that is written as an option is one of a component, was no slot, and is read as
plain data. -/
theorem option_of_literal (h : element.Stays settings parts children) (other : key ≠ styleKey)
    {value : Json} (given : element.source? settings key = some (.literal value))
    (option : isProperty (element.body settings parts children) key = false) :
    Node.isTagName (element.nodeName settings) = false ∧
      element.isStructural settings key = false ∧
      isPlainOption (Grouping.of? (element.nodeName settings)) (key, value) = true := by
  have elsewhere := mt (isProperty_body h other).mpr (Bool.eq_false_iff.mp option)
  rcases (Element.isLiteralAt_of_source? given).given with property | ⟨-, free, -, stored⟩
  · -- A property goes to the options only if there is no component and no native tag.
    have literal : element.field? .properties key ≠ none := by
      rw [Element.field?, Element.literals, property]
      simp
    have overridden : element.overrides key = true := by
      rw [Element.overrides, Fields.has, Fields.has, property]
      simp
    cases named : element.componentName? with
    | some name => simp [Element.Lists, named, literal] at elsewhere
    | none =>
      simp only [Element.Lists, named, Option.isSome_none, Bool.false_eq_true, if_false,
        overridden, Bool.true_eq_false, and_false, not_false_eq_true, and_true,
        Bool.not_eq_true] at elsewhere
      refine ⟨elsewhere, ?_, h.steady.properties named elsewhere _ (Fields.mem_of_get? property) other⟩
      rw [Element.isStructural, h.steady.options named]
      rfl
  · refine ⟨h.untagged ?_, free, isPlainOption_of_get? free stored⟩
    rintro empty
    rw [empty] at stored
    cases stored

/-- A literal that is written as an option is read as plain data. -/
theorem plain_exportedOptions (h : element.Stays settings parts children) {value : Json}
    (found : Fields.get? (exportedOptions (element.body settings parts children)) key = some value) :
    isPlainOption (Grouping.of? (element.nodeName settings)) (key, value) = true := by
  by_cases style : key = styleKey
  · subst style
    rw [get?_exportedOptions_style get?_properties_style,
      keptStyle?_body h.keyed h.imports.plain, Element.styleOption?] at found
    split at found
    · cases found
    · next free =>
      have given := source?_of_literalOf? found
      simp only [Element.field?, Option.or_eq_some_iff, Option.map_eq_some_iff, reduceCtorEq,
        and_false, exists_false, false_or] at given
      obtain ⟨-, raw, stored, made⟩ := given
      obtain ⟨rfl, -⟩ := ofLiteral_eq_literal made
      exact isPlainOption_of_get? (Bool.eq_false_of_not_eq_true free) stored
  · rw [get?_exportedOptions _ style] at found
    split at found
    · cases found
    · next option =>
      rw [(Element.hasField_body h.keyed h.imports.plain children style).literal] at found
      exact (option_of_literal h style (source?_of_literalOf? found)
        (Bool.eq_false_of_not_eq_true option)).2.2

/-- Slots and groups are written in the place of the options that they were read from. -/
theorem isStructural_of_written (h : element.Stays settings parts children)
    (written : key ∈ Fields.names (exportSlots (element.body settings parts children).slots ++
      groupOption (element.body settings parts children))) :
    element.isStructural settings key = true := by
  rw [Fields.names_append, List.mem_append, names_exportSlots, names_slots h] at written
  rcases written with slot | group
  · by_contra plain
    exact not_mem_slots_of_plain h.keyed (Bool.eq_false_of_not_eq_true plain) slot
  · obtain ⟨grouping, known, rfl, some⟩ := mem_names_groupOption.mp group
    rw [(frame_body settings element parts children).1] at known
    have filled := isEmpty_exportGroups grouping (element.body settings parts children).children
    rw [some, exportGroups_body h known] at filled
    have entries := (exportGroups_of_stays h known).2
    rw [groupsIn] at entries
    rw [Element.isStructural]
    cases found : Fields.get? element.options grouping.optionKey with
    | none =>
      rw [found, List.forall₂_nil_left_iff] at entries
      rw [entries] at filled
      cases filled
    | some value => simp [isPlainOption, known, claims_self]

theorem isPlainOption_of_isSlotOption {grouping : Option Grouping} {option : String × Json}
    (h : isSlotOption grouping option = true) : isPlainOption grouping option = false := by
  rw [isSlotOption, Bool.and_eq_true] at h
  rw [isPlainOption, h.1, h.2]
  rfl

/-- What is written for slots and groups is read as slots and groups again. -/
theorem not_plain_of_written (h : element.Stays settings parts children) {value : Json}
    (written : (key, value) ∈ exportSlots (element.body settings parts children).slots ++
      groupOption (element.body settings parts children)) :
    isPlainOption (Grouping.of? (element.nodeName settings)) (key, value) = false := by
  rcases List.mem_append.mp written with slot | group
  · rw [exportSlots_eq, (frame_body settings element parts children).2.1] at slot
    obtain ⟨⟨name, nodes⟩, listed, same⟩ := List.mem_map.mp slot
    cases same
    obtain ⟨option, among, slotOf⟩ := exists_of_forall₂ h.imports.slots listed
    obtain ⟨-, marked⟩ := List.mem_filter.mp among
    rw [isSlotOption, Bool.and_eq_true, Bool.not_eq_true', slotOf.key] at marked
    obtain ⟨items, elements, list, stand, imports⟩ := slotOf.nodes
    have keyed : Node.areKeyed nodes = true := by
      have all := h.body.slots
      rw [(frame_body settings element parts children).2.1] at all
      exact Node.haveKeyed_iff.mp all _ listed
    apply isPlainOption_of_isSlotOption
    rw [isSlotOption_exportNodes marked.1 keyed]
    rintro rfl
    cases imports
    cases stand
    rw [list] at marked
    cases marked.2
  · have listed := mem_names_groupOption.mp (Fields.mem_names_of_mem group)
    obtain ⟨grouping, known, rfl, -⟩ := listed
    rw [(frame_body settings element parts children).1] at known
    simp [isPlainOption, known, claims_self]

/-- An option of the exported element is a slot, the groups, or a literal that is neither. -/
theorem get?_options_exported (h : element.Stays settings parts children)
    (component : Node.isTagName (element.nodeName settings) = false) :
    Fields.get? (exportNode (element.body settings parts children)).options key =
      (Fields.get? (exportSlots (element.body settings parts children).slots ++
        groupOption (element.body settings parts children)) key).or
      (Fields.get? (exportedOptions (element.body settings parts children)) key) := by
  have untagged : (element.body settings parts children).isTag = false := by
    rw [Node.isTag, (frame_body settings element parts children).1, component]
  rw [options_exportNode h.body untagged h.loop,
    Fields.get?_merge ((placeable_body h).distinct h.body)]

theorem options_exported_of_tag (h : element.Stays settings parts children)
    (tag : Node.isTagName (element.nodeName settings) = true) :
    (exportNode (element.body settings parts children)).options = [] := by
  rw [exportNode_plain h.loop]
  refine (assemble_tag h.body ?_ _).1
  rw [Node.isTag, (frame_body settings element parts children).1, tag]

/-- An option of the exported element holds nodes just if it is a slot or the groups. -/
theorem isStructural_exported_iff (h : element.Stays settings parts children) :
    (exportNode (element.body settings parts children)).isStructural settings key = true ↔
      key ∈ Fields.names (exportSlots (element.body settings parts children).slots ++
        groupOption (element.body settings parts children)) := by
  rw [Element.isStructural, nodeName_exported h]
  cases component : Node.isTagName (element.nodeName settings) with
  | true =>
    rw [options_exported_of_tag h component]
    refine ⟨fun structural => absurd structural Bool.false_ne_true, fun written => ?_⟩
    -- A native tag has no options, so nothing of it is a slot or a group.
    have structural := isStructural_of_written h written
    rw [Element.isStructural] at structural
    have filled : element.options ≠ [] := by
      intro empty
      rw [empty] at structural
      cases structural
    cases component.symm.trans (h.untagged filled)
  | false =>
    rw [get?_options_exported h component]
    cases written : Fields.get? (exportSlots (element.body settings parts children).slots ++
      groupOption (element.body settings parts children)) key with
    | some value =>
      have listed := Fields.mem_of_get? written
      exact iff_of_true (by simp [not_plain_of_written h listed]) (Fields.mem_names_of_mem listed)
    | none =>
      rw [Option.none_or]
      refine iff_of_false ?_ (Fields.get?_eq_none_iff.mp written)
      cases found : Fields.get? (exportedOptions (element.body settings parts children)) key with
      | none => simp
      | some value => simp [plain_exportedOptions h found]

/-! ## Sources of fields -/

theorem isBlankText_of_ofLiteral {value : Json} {code : String}
    (h : FieldValue.ofLiteral value = .bound code) : Text.isBlankText code = false := by
  rw [FieldValue.ofLiteral] at h
  split at h
  · next inner marked =>
    cases h
    obtain ⟨text, -, found⟩ := Option.bind_eq_some_iff.mp marked
    rw [FieldValue.marked?] at found
    simp only [Option.bind_eq_bind, Option.bind_eq_some_iff] at found
    obtain ⟨_, -, _, -, found⟩ := found
    split at found
    · cases found
    · exact Text.isBlankText_of_trimmed? found
  · cases h

theorem isBlankText_of_boundAt? {space : Namespace} {code : String}
    (h : element.boundAt? space key = some code) : Text.isBlankText code = false := by
  rw [Element.boundAt?] at h
  split at h
  · cases h
  · simpa using (Option.filter_eq_some_iff.mp h).2

/-- An expression that is given for a field has code in it. -/
theorem isBlankText_of_source? {code : String}
    (h : element.source? settings key = some (.bound code)) : Text.isBlankText code = false := by
  simp only [Element.source?, Option.or_eq_some_iff, Option.map_eq_some_iff,
    FieldValue.bound.injEq] at h
  obtain ⟨_, handler, rfl⟩ | ⟨-, ⟨_, property, rfl⟩ | ⟨-, ⟨_, -, literal⟩ | ⟨-, rest⟩⟩⟩ := h
  · obtain ⟨_, -, -, filled, -⟩ := mem_of_handlerOf? handler
    exact filled
  · exact isBlankText_of_boundAt? property
  · exact isBlankText_of_ofLiteral literal
  · split at rest
    · cases rest
    · simp only [Option.or_eq_some_iff, Option.map_eq_some_iff, FieldValue.bound.injEq] at rest
      obtain ⟨_, option, rfl⟩ | ⟨-, _, -, literal⟩ := rest
      · exact isBlankText_of_boundAt? option
      · exact isBlankText_of_ofLiteral literal

/-- No field without nodes is written where nodes are. -/
theorem isStructural_exported_eq_false (h : element.Stays settings parts children)
    (free : element.isStructural settings key = false) :
    (exportNode (element.body settings parts children)).isStructural settings key = false := by
  rw [Bool.eq_false_iff, ne_eq, isStructural_exported_iff h]
  intro written
  cases free.symm.trans (isStructural_of_written h written)

/-- A bound field is bound again, as a handler, a property or an option. -/
theorem source?_exported_bound (h : element.Stays settings parts children) (other : key ≠ styleKey)
    {code : String} (given : element.source? settings key = some (.bound code)) :
    (exportNode (element.body settings parts children)).source? settings key =
      some (.bound code) := by
  obtain ⟨named, free, -⟩ := h.steady.bound key code other given
  have fields := Element.hasField_body h.keyed h.imports.plain children other
  rw [given] at fields
  have unset : Fields.get? (element.body settings parts children).properties key = none :=
    fields.literal
  have found : Fields.get? (element.body settings parts children).bindings key =
      some (.expression code) := fields.binding
  have filled : Text.isBlankText code = false := isBlankText_of_source? given
  have distinct : Fields.Distinct (element.body settings parts children).bindings := h.body.bindings
  have written : isWritten (element.body settings parts children) (key, .expression code) = true := by
    rw [isWritten_iff, names_slots h]
    exact ⟨other, not_mem_slots_of_plain h.keyed free, rfl⟩
  rw [Element.source?, handlerOf?_exportNode h.loop distinct found written filled]
  cases handled : Event.ofHandler? key with
  | some event => rfl
  | none =>
    have bound {space : Namespace} (known : space = .options ∨ space = .properties) :=
      boundAt?_exportNode h.loop distinct found written filled named handled known
    rw [bound (.inl rfl), bound (.inr rfl), fieldSpace]
    cases isProperty (element.body settings parts children) key with
    | true => rfl
    | false =>
      rw [(frame_exportNode h.loop).2.2.2, get?_exportedProperties _ other, unset, ite_self,
        isStructural_exported_eq_false h free]
      rfl

theorem boundAt?_eq_none (keyed : element.Keyed) (space : Namespace) (style : space ≠ .style)
    (responsive : space ≠ .responsiveStyles)
    (absent : key ∉ Fields.names (element.bound.fieldsIn space)) :
    element.boundAt? space key = none := by
  rw [← Element.filter_get?_within keyed, ← Element.fieldsIn_bound keyed space style responsive,
    Fields.get?_eq_none_iff.mpr absent]
  rfl

/-- For a field that a node does not bind, its element gives a literal or nothing. -/
theorem source?_exported_unbound (h : element.Stays settings parts children)
    (other : key ≠ styleKey)
    (free : key ∉ Fields.names (element.body settings parts children).bindings) :
    (exportNode (element.body settings parts children)).source? settings key =
      ((Fields.get? (exportedProperties (element.body settings parts children)) key).map
        FieldValue.ofLiteral).or
      (if (exportNode (element.body settings parts children)).isStructural settings key then none
        else (Fields.get? (exportNode (element.body settings parts children)).options key).map
          .ofLiteral) := by
  have keyed := keyed_exported h
  have unbound := unbound_exportNode h.loop other free
  have property := boundAt?_eq_none keyed .properties nofun nofun unbound.property
  have option := boundAt?_eq_none keyed .options nofun nofun unbound.option
  rw [Element.source?, ← Element.handlers_eq_eventHandlers keyed,
    handlerOf?_eq_none unbound.handler, property, option, (frame_exportNode h.loop).2.2.2]
  rfl

/-- Each field has in the exported element the source that it had in the element itself, so that it
is imported the same way a second time. -/
theorem source?_exported (h : element.Stays settings parts children) (other : key ≠ styleKey) :
    (exportNode (element.body settings parts children)).source? settings key =
      element.source? settings key := by
  have fields := Element.hasField_body h.keyed h.imports.plain children other
  have properties := get?_exportedProperties (element.body settings parts children) other
  have options := get?_exportedOptions (element.body settings parts children) other
  -- An option that holds no nodes is a literal of the node.
  have literal (component : Node.isTagName (element.nodeName settings) = false)
      (free : (exportNode (element.body settings parts children)).isStructural settings key = false) :
      Fields.get? (exportNode (element.body settings parts children)).options key =
        Fields.get? (exportedOptions (element.body settings parts children)) key := by
    have absent := (isStructural_exported_iff h).not.mp (Bool.eq_false_iff.mp free)
    rw [get?_options_exported h component, Fields.get?_eq_none_iff.mpr absent, Option.none_or]
  cases given : element.source? settings key with
  | none =>
    rw [given] at fields
    have unbound := Fields.get?_eq_none_iff.mp fields.binding
    have unset : Fields.get? (element.body settings parts children).properties key = none :=
      fields.literal
    rw [source?_exported_unbound h other unbound, properties, unset, ite_self]
    split
    · rfl
    · next free =>
      cases component : Node.isTagName (element.nodeName settings) with
      | true => rw [options_exported_of_tag h component]; rfl
      | false =>
        rw [literal component (Bool.eq_false_of_not_eq_true free), options, unset, ite_self]
        rfl
  | some value =>
    rw [given] at fields
    cases value with
    | bound code => exact source?_exported_bound h other given
    | literal value =>
      have unbound := Fields.get?_eq_none_iff.mp fields.binding
      have found : Fields.get? (element.body settings parts children).properties key = some value :=
        fields.literal
      have same : FieldValue.ofLiteral value = .literal value := by
        rw [FieldValue.ofLiteral, (Element.isLiteralAt_of_source? given).literal]
      rw [source?_exported_unbound h other unbound, properties, found]
      cases option : isProperty (element.body settings parts children) key with
      | true => simp [same]
      | false =>
        obtain ⟨component, free, -⟩ := option_of_literal h other given option
        have unstructured := isStructural_exported_eq_false h free
        rw [literal component unstructured, options, found, option, unstructured]
        simp [same]

end BlockLoom.Content
