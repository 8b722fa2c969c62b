import BlockLoom.Proofs.Content.Canonical

/-!
The node for a canonical element, its options read. It holds every key of the
element once, so the export finds for each where it came from.
-/

namespace BlockLoom.Content

/-! ## Bindings of canonical elements -/

def Element.fieldBound (element : Element) : Bound where
  options := within .options element.bindings
  properties := within .properties element.bindings

theorem within_actions {bindings : Fields String} (h : ∀ entry ∈ bindings, BindsField entry.1) :
    within .actions bindings = [] := by
  rw [within, List.filterMap_eq_nil_iff]
  intro entry member
  obtain ⟨key, -, -, option | property⟩ := h entry member
  · rw [option, Namespace.key?_path_of_ne (by decide)]
    rfl
  · rw [property, Namespace.key?_path_of_ne (by decide)]
    rfl

/-- Every binding of a canonical element is one of an option or of a property. -/
theorem perm_bindings {bindings : Fields String} (h : ∀ entry ∈ bindings, BindsField entry.1) :
    (paths .options (within .options bindings) ++
      paths .properties (within .properties bindings)).Perm bindings := by
  induction bindings with
  | nil => exact .refl _
  | cons entry bindings ih =>
    obtain ⟨first, others⟩ := List.forall_mem_cons.mp h
    obtain ⟨path, code⟩ := entry
    obtain ⟨key, filled, -, option | property⟩ := first
    · dsimp only at option
      subst option
      rw [within_cons, within_cons, Namespace.key?_path _ filled,
        Namespace.key?_path_of_ne (by decide)]
      exact .cons _ (ih others)
    · dsimp only at property
      subst property
      rw [within_cons, within_cons, Namespace.key?_path _ filled,
        Namespace.key?_path_of_ne (by decide)]
      exact List.perm_middle.trans (.cons _ (ih others))

namespace Element.Explicit

variable {element : Element} (h : element.Explicit)

include h

theorem nodup_keys : element.keys.Nodup :=
  (List.nodup_cons.mp h.keys).2

theorem bound_eq : Bound.of element.bindings element.code.bindings = element.fieldBound := by
  have keys := h.nodup_keys
  rw [Element.keys] at keys
  simp only [List.nodup_append] at keys
  have options : Fields.Distinct (within .options element.bindings) := keys.1.1.2.1
  have properties : Fields.Distinct (within .properties element.bindings) := keys.1.2.1
  have fields := fun entry member => (h.bindings entry member).1
  have sorted (space : Namespace) (distinct : Fields.Distinct (within space element.bindings))
      (style : space ≠ .style) (responsive : space ≠ .responsiveStyles) :=
    Bound.fieldsIn_of distinct style responsive
  have none : within .actions element.bindings = [] := within_actions fields
  have styles : (Bound.of element.bindings []).styles = {} := by
    apply Bound.styles_of
    intro entry member
    obtain ⟨key, filled, -, option | property⟩ := fields entry member
    · exact ⟨.options, key, by rw [option, Namespace.key?_path _ filled], by decide, by decide⟩
    · exact ⟨.properties, key, by rw [property, Namespace.key?_path _ filled], by decide, by decide⟩
  have first := sorted .options options (by decide) (by decide)
  have second := sorted .properties properties (by decide) (by decide)
  have third := sorted .actions (by rw [none]; exact Fields.distinct_nil) (by decide) (by decide)
  rw [h.code]
  rw [none] at third
  cases bound : Bound.of element.bindings [] with
  | mk style option property action =>
    rw [bound] at styles first second third
    simp only [Bound.fieldsIn] at styles first second third
    rw [Element.fieldBound, styles, first, second, third]

theorem handlers_eq : element.handlers element.fieldBound = element.actions := by
  have keys := h.nodup_keys
  rw [Element.keys] at keys
  have distinct : Fields.Distinct element.actions := List.Nodup.of_map _ (List.nodup_append.mp keys).2.1
  rw [Element.handlers, Element.fieldBound, h.code]
  exact Fields.ofEntries_of_distinct distinct

end Element.Explicit

/-! ## Nodes of canonical elements -/

def groupMember (grouping : Option Grouping) (nodes : List Node) : Fields Json :=
  match grouping with
  | some grouping =>
    if nodes.isEmpty then [] else [(grouping.optionKey, .array (exportGroups grouping nodes).1)]
  | none => []

/-- What has become of the options of a canonical element: written again, they
are the same members in some order. -/
structure Restored (grouping : Option Grouping) (options : Fields Json) (parts : OptionParts) :
    Prop where
  literals : ∀ entry ∈ parts.plain, IsLiteral entry.2
  groups : ∀ found, grouping = some found → ∀ node ∈ parts.groups, found.isGroup node = true
  ungrouped : grouping = none → parts.groups = []
  written : (Fields.mapValues Json.sorted (parts.plain ++ exportSlots parts.slots ++
    groupMember grouping parts.groups)).Perm (Fields.mapValues Json.sorted options)

theorem Restored.names_perm {grouping : Option Grouping} {options : Fields Json}
    {parts : OptionParts} (h : Restored grouping options parts) :
    (Fields.names parts.plain ++ Fields.names parts.slots ++
      Fields.names (groupMember grouping parts.groups)).Perm (Fields.names options) := by
  have names := h.written.map Prod.fst
  have keys (fields : Fields Json) :
      (Fields.mapValues Json.sorted fields).map Prod.fst = Fields.names fields :=
    Fields.names_mapValues _ _
  rw [keys, keys, Fields.names_append, Fields.names_append, names_exportSlots] at names
  exact names

section Node

variable {element : Element} {grouping : Option Grouping} {parts : OptionParts}

/-- The keys of the node for a canonical element and of what stands beside them. -/
theorem Element.Explicit.nodup_parts (h : element.Explicit)
    (restored : Restored grouping element.options parts) :
    (styleKey :: (Fields.names parts.plain ++ Fields.names parts.slots ++
      Fields.names (groupMember grouping parts.groups) ++
      Fields.names (element.properties.getD []) ++
      Fields.names (within .options element.bindings) ++
      Fields.names (within .properties element.bindings) ++ handlerNames element.actions)).Nodup := by
  have keys := h.keys
  rw [Element.keys] at keys
  refine (List.Perm.nodup_iff (.cons _ ?_)).mpr keys
  simp only [List.append_assoc]
  have options := restored.names_perm
  rw [List.append_assoc] at options
  rw [← List.append_assoc (Fields.names parts.slots), ← List.append_assoc (Fields.names parts.plain)]
  exact options.append_right _

private theorem apart_lists {style : String} {plain slots groups properties options paths handlers :
    List String} (h : (style :: (plain ++ slots ++ groups ++ properties ++ options ++ paths ++
      handlers)).Nodup) :
    style ∉ plain ∧ style ∉ properties ∧ style ∉ options ∧ style ∉ paths ∧
      (plain ++ options).Nodup ∧ (properties ++ paths).Nodup ∧
      (plain ++ options ++ properties ++ paths ++ handlers).Nodup := by
  simp only [List.nodup_cons, List.nodup_append, List.mem_append, not_or] at h ⊢
  grind

/-- No source of fields of a canonical element has one called `style`. -/
theorem Element.Explicit.unstyled (h : element.Explicit)
    (restored : Restored grouping element.options parts) :
    Fields.remove parts.plain styleKey = parts.plain ∧
      Fields.remove (element.properties.getD []) styleKey = element.properties.getD [] ∧
      Fields.remove element.fieldBound.options styleKey = within .options element.bindings ∧
      Fields.remove element.fieldBound.properties styleKey =
        within .properties element.bindings := by
  obtain ⟨plain, properties, options, paths, -⟩ := apart_lists (h.nodup_parts restored)
  exact ⟨Fields.remove_of_not_mem plain, Fields.remove_of_not_mem properties,
    Fields.remove_of_not_mem options, Fields.remove_of_not_mem paths⟩

/-- No field of a canonical element has two sources. -/
theorem Element.Explicit.apart (h : element.Explicit)
    (restored : Restored grouping element.options parts) :
    element.Apart element.fieldBound parts := by
  obtain ⟨-, -, -, -, first, second, fields⟩ := apart_lists (h.nodup_parts restored)
  obtain ⟨plain, properties, options, paths⟩ := h.unstyled restored
  have keys := h.nodup_keys
  have filled (space : Namespace) :
      ∀ entry ∈ within space element.bindings, Text.isBlankText entry.2 = false := by
    intro entry member
    obtain ⟨source, given, read⟩ := List.mem_filterMap.mp member
    obtain ⟨key, _, rfl⟩ := Option.map_eq_some_iff.mp read
    exact (h.bindings source given).2
  refine ⟨restored.literals, h.literals, filled _, filled _, ?_, ?_, first, second, ?_⟩
  · intro key bound given
    rw [Element.keys] at keys
    simp only [List.nodup_append, List.mem_append] at keys
    exact keys.1.1.2.2 key (.inl given) key bound rfl
  · rw [h.handlers_eq]
    intro handler member
    obtain ⟨small, filled⟩ := h.actions handler member
    refine ⟨?_, filled⟩
    intro empty
    rw [empty] at small
    cases small
  · rw [h.handlers_eq, plain, options, properties, paths]
    exact fields

def Element.plainNode (element : Element) (parts : OptionParts) (children : List Node) : Node :=
  built
    { name := element.nodeName {}
      slots := parts.slots
      children := parts.groups ++ ownChildren (element.nodeName {}) children }
    (parts.plain ++ element.properties.getD [])
    (within .options element.bindings ++ within .properties element.bindings ++
      handlerFields element.actions)
    (element.records {} element.fieldBound parts)

theorem Element.Explicit.body_eq (h : element.Explicit)
    (restored : Restored grouping element.options parts) (children : List Node) :
    element.body {} parts children = element.plainNode parts children := by
  obtain ⟨plain, properties, options, paths⟩ := h.unstyled restored
  rw [(h.apart restored).body_eq {} h.bound_eq, h.handlers_eq, addStyles, h.styles]
  have unstyled : Style.merge ((none : Option Style.Literals).getD []) element.fieldBound.styles =
      none := rfl
  rw [unstyled, plain, properties, options, paths]
  rfl

/-! ## Exports of canonical elements -/

theorem listedKeys_eq {node : Node} {entry : String} {keys shown : List String} {listed : Bool}
    (same : keys.Perm shown) (h : Fields.get? node.metadata entry =
      if listed && !keys.isEmpty then some (.array (shown.map Json.string)) else none) :
    listedKeys node entry = if listed then shown else [] := by
  rw [listedKeys, h, same.isEmpty_eq]
  cases listed with
  | false => rfl
  | true =>
    cases shown with
    | nil => rfl
    | cons key shown =>
      have strings : ((key :: shown).map Json.string).filterMap Json.string? = key :: shown := by
        rw [List.filterMap_map]
        exact List.filterMap_some
      exact strings

theorem Element.Explicit.nodeName_tag (h : element.IsTag) :
    Node.isTagName (element.nodeName {}) = true ∧ element.tagName = some (element.nodeName {}) ∧
      element.componentName? = none ∧ element.options = [] := by
  obtain ⟨name, tag, isTag⟩ := h.tag
  have filled : name.isEmpty = false := by
    by_contra empty
    rw [Bool.not_eq_false, String.isEmpty_iff] at empty
    rw [empty] at isTag
    cases isTag
  have none : element.componentName? = none := by rw [Element.componentName?, h.component]; rfl
  have named : element.nodeName {} = name := by
    rw [Element.nodeName, none, tag]
    simp [Option.filter, filled]
  rw [named]
  exact ⟨isTag, tag, none, by rw [Element.options, h.component]; rfl⟩

theorem Element.Explicit.nodeName_component (h : element.IsComponent) :
    ∃ use, element.component = some use ∧ element.nodeName {} = use.name ∧
      Node.isTagName use.name = false ∧ use.name ≠ Loop.wrapperName ∧
      element.componentName? = some use.name := by
  obtain ⟨use, component, filled, noTag, noLoop⟩ := h.component
  have named : element.componentName? = some use.name := by
    rw [Element.componentName?, component]
    simp [Option.filter, filled]
  refine ⟨use, component, ?_, noTag, noLoop, named⟩
  rw [Element.nodeName, named]
  rfl

/-- Properties are the fields of a native tag that are not listed as options, and
the fields of a component that are listed as properties. -/
theorem Element.Explicit.isProperty_eq (h : element.Explicit)
    (restored : Restored grouping element.options parts) (children : List Node) (key : String) :
    isProperty (element.plainNode parts children) key =
      ((Node.isTagName (element.nodeName {}) &&
        !(Fields.names (within .options element.bindings)).contains key) ||
        (element.componentName?.isSome && (Fields.names (element.properties.getD []) ++
          Fields.names (within .properties element.bindings)).contains key)) := by
  obtain ⟨-, properties, options, paths⟩ := h.unstyled restored
  have optionKeys : listedKeys (element.plainNode parts children) optionKeysKey =
      if Node.isTagName (element.nodeName {}) then
        Fields.names (within .options element.bindings) else [] := by
    apply listedKeys_eq (.refl _)
    rw [← options]
    exact get?_records element {} element.fieldBound parts optionKeysKey
  have propertyKeys : listedKeys (element.plainNode parts children) propertyKeysKey =
      if element.componentName?.isSome then
        (Fields.names (element.properties.getD []) ++
          Fields.names (within .properties element.bindings)).mergeSort
            fun left right => decide (left ≤ right)
      else [] := by
    apply listedKeys_eq (List.mergeSort_perm _ _).symm
    rw [← paths, ← properties]
    exact get?_records element {} element.fieldBound parts propertyKeysKey
  have isTag : (element.plainNode parts children).isTag = Node.isTagName (element.nodeName {}) := rfl
  have sorted : ((Fields.names (element.properties.getD []) ++
      Fields.names (within .properties element.bindings)).mergeSort
        fun left right => decide (left ≤ right)).contains key =
      (Fields.names (element.properties.getD []) ++
        Fields.names (within .properties element.bindings)).contains key :=
    (List.mergeSort_perm _ _).contains_eq
  rw [isProperty, isTag, optionKeys, propertyKeys]
  cases Node.isTagName (element.nodeName {}) <;> cases element.componentName?.isSome <;>
    simp only [Bool.false_eq_true, if_false, if_true, sorted, List.contains_nil, Bool.false_and,
      Bool.true_and, Bool.or_false, Bool.false_or]

private theorem apart_names {style : String} {plain slots groups properties options paths handlers :
    List String} (h : (style :: (plain ++ slots ++ groups ++ properties ++ options ++ paths ++
      handlers)).Nodup) :
    ∀ key ∈ plain ++ options, key ∉ properties ++ paths := by
  simp only [List.nodup_cons, List.nodup_append, List.mem_append, not_or] at h ⊢
  grind

/-- A canonical element for a native tag has no options. -/
theorem Restored.plain_of_tag (restored : Restored grouping element.options parts)
    (tag : element.IsTag) : parts.plain = [] ∧ parts.slots = [] := by
  have names := restored.names_perm
  rw [(Element.Explicit.nodeName_tag tag).2.2.2, Fields.names_nil, List.perm_nil] at names
  simpa only [List.append_eq_nil_iff, Fields.names, List.map_eq_nil_iff] using
    (List.append_eq_nil_iff.mp names).1

/-- The fields of the node for a canonical element go back to where they came from. -/
theorem Element.Explicit.isProperty_plainNode (h : element.Explicit)
    (restored : Restored grouping element.options parts) (children : List Node) :
    (∀ key ∈ Fields.names parts.plain ++ Fields.names (within .options element.bindings),
      isProperty (element.plainNode parts children) key = false) ∧
    ∀ key ∈ Fields.names (element.properties.getD []) ++
      Fields.names (within .properties element.bindings),
      isProperty (element.plainNode parts children) key = true := by
  have apart := apart_names (h.nodup_parts restored)
  rcases h.form with tag | component
  · obtain ⟨isTagName, -, noComponent, -⟩ := Explicit.nodeName_tag tag
    rw [(restored.plain_of_tag tag).1, Fields.names_nil, List.nil_append] at apart ⊢
    constructor
    · intro key member
      simp [h.isProperty_eq restored, isTagName, noComponent, member]
    · intro key member
      have other : key ∉ Fields.names (within .options element.bindings) :=
        fun option => apart key option member
      simp [h.isProperty_eq restored, isTagName, noComponent, other]
  · obtain ⟨use, -, named, noTag, -, isComponent⟩ := Explicit.nodeName_component component
    have listed (key : String) := h.isProperty_eq restored children key
    simp only [named, noTag, isComponent, Bool.false_and, Bool.false_or, Option.isSome_some,
      Bool.true_and, List.contains_eq_mem] at listed
    constructor
    · intro key member
      rw [listed]
      exact decide_eq_false (apart key member)
    · intro key member
      rw [listed]
      exact decide_eq_true member

private theorem apart_slots {style : String} {plain slots groups properties options paths handlers :
    List String} (h : (style :: (plain ++ slots ++ groups ++ properties ++ options ++ paths ++
      handlers)).Nodup) :
    (∀ key ∈ options, key ≠ style ∧ key ∉ slots) ∧ (∀ key ∈ paths, key ≠ style ∧ key ∉ slots) ∧
      ∀ key ∈ handlers, key ≠ style ∧ key ∉ slots := by
  simp only [List.nodup_cons, List.nodup_append, List.mem_append, not_or] at h
  grind

theorem Element.Explicit.ofHandler?_within (h : element.Explicit) (space : Namespace) :
    ∀ key ∈ Fields.names (within space element.bindings), Event.ofHandler? key = none := by
  intro key member
  obtain ⟨-, bound⟩ := mem_names_within.mp member
  obtain ⟨code, given⟩ := Fields.mem_names.mp bound
  obtain ⟨name, -, unhandled, option | property⟩ := (h.bindings _ given).1
  · dsimp only at option
    cases Namespace.eq_of_path_eq option
    rw [Namespace.path_inj.mp option]
    exact unhandled
  · dsimp only at property
    cases Namespace.eq_of_path_eq property
    rw [Namespace.path_inj.mp property]
    exact unhandled

/-- No setting called `style` is kept for a canonical element. -/
theorem Element.Explicit.keptStyle_plainNode (h : element.Explicit)
    (restored : Restored grouping element.options parts) (children : List Node) :
    keptStyle? (element.plainNode parts children) styleOptionKey = none ∧
      keptStyle? (element.plainNode parts children) stylePropertyKey = none := by
  obtain ⟨plain, properties, options, paths, -⟩ := apart_lists (h.nodup_parts restored)
  have absent {literals : Fields Json} {bound : Fields String}
      (unset : styleKey ∉ Fields.names literals) (unbound : styleKey ∉ Fields.names bound) :
      styleRecord? literals bound = none := by
    rw [styleRecord?, Fields.get?_eq_none_iff.mpr]
    · rfl
    · rw [names_fieldValues, List.mem_append, not_or]
      exact ⟨unset, unbound⟩
  have record (key : String) := get?_records element {} element.fieldBound parts key
  constructor
  · have option : Fields.get? (element.plainNode parts children).metadata styleOptionKey = none :=
      (record styleOptionKey).trans (absent plain options)
    rw [keptStyle?, option]
    rfl
  · have property : Fields.get? (element.plainNode parts children).metadata stylePropertyKey =
        none := (record stylePropertyKey).trans (absent properties paths)
    rw [keptStyle?, property]
    rfl

theorem Element.Explicit.style_not_mem_bindings (h : element.Explicit)
    (restored : Restored grouping element.options parts) (children : List Node) :
    styleKey ∉ Fields.names (element.plainNode parts children).bindings := by
  obtain ⟨options, properties, handlers⟩ := apart_slots (h.nodup_parts restored)
  rw [Element.plainNode, built, names_expressions, Fields.names_append, Fields.names_append,
    names_handlerFields, List.mem_append, List.mem_append]
  rintro ((option | property) | handler)
  · exact (options _ option).1 rfl
  · exact (properties _ property).1 rfl
  · exact (handlers _ handler).1 rfl

/-- The bindings of the node for a canonical element are written as its bindings and actions. -/
theorem Element.Explicit.written_plainNode (h : element.Explicit)
    (restored : Restored grouping element.options parts) (children : List Node) :
    let node := element.plainNode parts children
    writtenPaths node node.bindings = paths .options (within .options element.bindings) ++
        paths .properties (within .properties element.bindings) ∧
      writtenActions node node.bindings = element.actions := by
  intro node
  obtain ⟨isOption, isProperty⟩ := h.isProperty_plainNode restored children
  obtain ⟨optionKeys, propertyKeys, handlers⟩ := apart_slots (h.nodup_parts restored)
  have slots (key : String) (free : key ∉ Fields.names parts.slots) :
      Fields.has node.slots key = false :=
    Fields.has_eq_false_iff.mpr free
  have fields (space : Namespace) (belongs : ∀ key ∈ Fields.names (within space element.bindings),
      (key ≠ styleKey ∧ key ∉ Fields.names parts.slots) ∧ fieldSpace node key = space) :
      writtenPaths node (expressions (within space element.bindings)) =
          paths space (within space element.bindings) ∧
        writtenActions node (expressions (within space element.bindings)) = [] := by
    apply written_fields
    intro key member
    obtain ⟨⟨other, free⟩, belongs⟩ := belongs key member
    exact ⟨other, slots key free, h.ofHandler?_within space key member, belongs⟩
  obtain ⟨optionPaths, optionActions⟩ := fields .options fun key member =>
    ⟨optionKeys key member, by
      rw [fieldSpace, isOption key (List.mem_append_right _ member)]
      rfl⟩
  obtain ⟨propertyPaths, propertyActions⟩ := fields .properties fun key member =>
    ⟨propertyKeys key member, by
      rw [fieldSpace, isProperty key (List.mem_append_right _ member)]
      rfl⟩
  obtain ⟨handlerPaths, handlerActions⟩ : writtenPaths node (expressions (handlerFields
      element.actions)) = [] ∧ writtenActions node (expressions (handlerFields element.actions)) =
      element.actions := by
    apply written_handlers
    intro handler member
    refine ⟨(h.actions handler member).1, slots _ (handlers _ ?_).2⟩
    exact List.mem_map_of_mem (List.mem_map_of_mem member)
  have bindings : node.bindings = expressions (within .options element.bindings) ++
      expressions (within .properties element.bindings) ++
      expressions (handlerFields element.actions) := by
    rw [← expressions_append, ← expressions_append]
    rfl
  rw [bindings, writtenPaths_append, writtenPaths_append, writtenActions_append,
    writtenActions_append, optionPaths, propertyPaths, handlerPaths, optionActions,
    propertyActions, handlerActions, List.append_nil]
  exact ⟨rfl, rfl⟩

/-- The bindings and actions of a canonical element are bound again. -/
theorem Element.Explicit.boundElement_eq (h : element.Explicit)
    (restored : Restored grouping element.options parts) (children : List Node) :
    boundElement (element.plainNode parts children) =
      { id := element.id
        version := element.version
        layerName := element.layerName
        bindings := paths .options (within .options element.bindings) ++
          paths .properties (within .properties element.bindings)
        actions := element.actions } := by
  obtain ⟨noOption, noProperty⟩ := h.keptStyle_plainNode restored children
  obtain ⟨writtenBindings, written⟩ := h.written_plainNode restored children
  have keys := h.nodup_keys
  rw [Element.keys] at keys
  simp only [List.nodup_append] at keys
  have distinct : Fields.Distinct (paths .options (within .options element.bindings) ++
      paths .properties (within .properties element.bindings)) :=
    distinct_paths_append (by decide) keys.1.1.2.1 keys.1.2.1
  have actions : Fields.Distinct element.actions := List.Nodup.of_map _ keys.2.1
  have record (key : String) : Fields.get? (element.plainNode parts children).metadata key =
      (Fields.get? (element.records {} element.fieldBound parts) key).join :=
    get?_records element {} element.fieldBound parts key
  have text (key : String) (value : Option String)
      (stored : Fields.get? (element.records {} element.fieldBound parts) key =
        some (value.map Json.string)) :
      (element.plainNode parts children).metadataText? key = value := by
    rw [Node.metadataText?, record, stored]
    cases value <;> rfl
  have merged := Fields.ofEntries_of_distinct distinct
  rw [Fields.ofEntries] at merged
  rw [boundElement_eq_merge, noOption, noProperty, restoreBound_none, restoreBound_none,
    foldl_addStylesOf _ none (h.style_not_mem_bindings restored children), writtenBindings, written,
    merged, Fields.ofEntries_of_distinct actions, text idKey element.id rfl,
    text layerNameKey element.layerName rfl, record versionKey]
  rfl

/-- The literals of a canonical element are properties and options again. -/
theorem Element.Explicit.literals_plainNode (h : element.Explicit)
    (restored : Restored grouping element.options parts) (children : List Node) :
    exportedProperties (element.plainNode parts children) = element.properties.getD [] ∧
      exportedOptions (element.plainNode parts children) = parts.plain := by
  obtain ⟨noOption, noProperty⟩ := h.keptStyle_plainNode restored children
  obtain ⟨isOption, isProperty⟩ := h.isProperty_plainNode restored children
  have options : ∀ entry ∈ parts.plain,
      Content.isProperty (element.plainNode parts children) entry.1 = false := fun entry member =>
    isOption _ (List.mem_append_left _ (Fields.mem_names_of_mem member))
  have properties : ∀ entry ∈ element.properties.getD [],
      Content.isProperty (element.plainNode parts children) entry.1 = true := fun entry member =>
    isProperty _ (List.mem_append_left _ (Fields.mem_names_of_mem member))
  have literals : (element.plainNode parts children).properties =
      parts.plain ++ element.properties.getD [] := rfl
  constructor
  · rw [exportedProperties, noProperty, restoreLiteral_none, literals, List.filter_append,
      List.filter_eq_nil_iff.mpr, List.filter_eq_self.mpr properties, List.nil_append]
    intro entry member
    rw [options entry member]
    exact Bool.false_ne_true
  · rw [exportedOptions, noOption, restoreLiteral_none, literals, List.filter_append,
      List.filter_eq_self.mpr, List.filter_eq_nil_iff.mpr, List.append_nil]
    · intro entry member
      rw [properties entry member]
      exact Bool.false_ne_true
    · intro entry member
      rw [options entry member]
      rfl

end Node

end BlockLoom.Content
