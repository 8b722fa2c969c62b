import BlockLoom.Proofs.Content.Literals

/-!
What an element is after import and export: a native tag or a component, and under which
name. The import goes by what the element gives, a name of a component before a tag; the
export goes by the spelling of the name alone. So an element stays what it was just if its
name is spelled that way, a loop wrapper that binds a collection aside.
-/

namespace BlockLoom.Content

variable {settings : ImportSettings}

/-! ## Tags -/

theorem tagName_repeatElements {head : Loop.Head} {children : List Element} {tag : String}
    (h : (repeatElements head children).tagName = some tag) :
    ∃ child ∈ children, child.tagName = some tag := by
  unfold repeatElements at h
  dsimp only at h
  split at h
  · next child =>
    split at h
    · cases h
    · exact ⟨child, List.mem_cons_self, h⟩
  · cases h

/-- Only names of native tags are written as tags. -/
theorem tagName_exportNode (node : Node) {tag : String} (h : (exportNode node).tagName = some tag) :
    Node.isTagName tag = true := by
  cases loop : Loop.head? node with
  | none =>
    rw [exportNode_plain loop] at h
    unfold assemble at h
    rw [boundElement_eq_merge] at h
    dsimp only at h
    split at h
    · next isTag =>
      cases h
      exact isTag
    · cases h
  | some head =>
    rw [exportNode_of_head loop, exportNodes_eq_map] at h
    obtain ⟨element, written, tagged⟩ := tagName_repeatElements h
    obtain ⟨child, member, rfl⟩ := List.mem_map.mp written
    exact tagName_exportNode child tagged
termination_by node
decreasing_by
  cases node
  dsimp only at member
  have smaller := List.sizeOf_lt_of_mem member
  simp only [Node.mk.sizeOf_spec]
  omega

/-- What a node that is no loop is written as: a tag under its name if that is a name of a
tag, and a component of its name if not. -/
theorem kind_exportNode {node : Node} (loop : Loop.head? node = none) :
    (exportNode node).tagName = (if node.isTag then some node.name else none) ∧
      (exportNode node).component.map Use.name =
        (if node.isTag then none else some node.name) := by
  rw [exportNode_plain loop]
  unfold assemble
  rw [boundElement_eq_merge]
  dsimp only
  split <;> exact ⟨rfl, rfl⟩

/-! ## Loops -/

/-- The node for an element is no loop wrapper, its repetition aside. -/
def Element.IsSingle (settings : ImportSettings) (element : Element) : Prop :=
  element.nodeName settings = Loop.wrapperName →
    ∀ code, element.collection? settings ≠ some (.bound code)

theorem head?_body {element : Element} {parts : OptionParts} (children : List Node)
    (plain : parts.plain = element.plainOptions settings) :
    Loop.head? (element.body settings parts children) = none ↔ element.IsSingle settings := by
  have collected := collected_body children plain
  have name := (frame_body settings element parts children).1
  rw [Node.Collected, name, Element.Collects] at collected
  rw [Loop.head?, name, Element.IsSingle]
  by_cases wrapper : element.nodeName settings = Loop.wrapperName
  · have bound := collected.trans (forall_prop_of_true wrapper)
    rw [forall_prop_of_true wrapper] at bound ⊢
    rw [if_pos wrapper, Option.map_eq_none_iff, ← Option.not_isSome_iff_eq_none]
    exact (not_congr bound).trans not_exists
  · simp [wrapper]

theorem body_of_importElement {path : Path} {element : Element} {node : Node}
    (h : importElement settings path element = .ok node) :
    ∃ parts children, node = element.repeated (element.body settings parts children) ∧
      parts.plain = element.plainOptions settings := by
  rw [importElement] at h
  split at h
  · cases h
  · next parts options =>
    split at h
    · cases h
    · next children _ =>
      cases h
      exact ⟨parts, children, rfl, ((traced_apart settings).importOptions options).1⟩

/-- An element whose node is no loop itself is written as its body is, apart from the
repetition. The body has a slot for every option that holds elements. -/
theorem exported_of_importElement {path : Path} {element : Element} {node : Node}
    (single : element.IsSingle settings) (h : importElement settings path element = .ok node) :
    ∃ parts children repetition,
      exportNode node =
        { exportNode (element.body settings parts children) with repetition } ∧
      Loop.head? (element.body settings parts children) = none ∧
      parts.plain = element.plainOptions settings ∧
      Fields.names (element.body settings parts children).slots =
        Fields.names (element.options.filter
          (isSlotOption (Grouping.of? (element.nodeName settings)))) := by
  rw [importElement] at h
  split at h
  · cases h
  · next parts options =>
    split at h
    · cases h
    · next children _ =>
      cases h
      have plain := ((traced_apart settings).importOptions options).1
      have loop := (head?_body children plain).mpr single
      obtain ⟨repetition, written⟩ := exportNode_repeated element (repetition_exportNode loop)
      refine ⟨parts, children, repetition, written, loop, plain, ?_⟩
      rw [(frame_body settings element parts children).2.1,
        names_of_slotOf (slots_importOptions options)]

/-- An element whose node is no loop itself is written with what its body is written with. -/
theorem kind_exported {element : Element} {parts : OptionParts} {children : List Node}
    (single : element.IsSingle settings) (plain : parts.plain = element.plainOptions settings) :
    (exportNode (element.repeated (element.body settings parts children))).tagName =
        (if Node.isTagName (element.nodeName settings) then some (element.nodeName settings)
          else none) ∧
      (exportNode (element.repeated (element.body settings parts children))).component.map
          Use.name =
        (if Node.isTagName (element.nodeName settings) then none
          else some (element.nodeName settings)) ∧
      (exportNode (element.repeated (element.body settings parts children))).properties.getD [] =
        exportedProperties (element.body settings parts children) := by
  have loop := (head?_body children plain).mpr single
  have name := (frame_body settings element parts children).1
  obtain ⟨repetition, written⟩ := exportNode_repeated element (repetition_exportNode loop)
  obtain ⟨tag, component⟩ := kind_exportNode loop
  rw [Node.isTag, name] at tag component
  rw [written]
  refine ⟨tag, component, ?_⟩
  dsimp only
  rw [exportNode_plain loop]
  exact (frame_assemble _ _).2.2.2

/-! ## Literal properties -/

/-- A property that is given as a literal: no expression is bound to it or stands in it. -/
def Element.HasLiteral (element : Element) (key : String) (value : Json) : Prop :=
  Fields.get? (element.properties.getD []) key = some value ∧
    FieldValue.of? (some value) (Fields.get? element.bound.properties key) = some (.literal value)

theorem get?_ofEntries_fieldValues {literals : Fields Json} {bound : Fields String}
    {key : String} {value : Json} (distinct : Fields.Distinct literals)
    (found : Fields.get? literals key = some value) :
    Fields.get? (Fields.ofEntries (fieldValues literals bound)) key =
      FieldValue.of? (some value) (Fields.get? bound key) := by
  obtain ⟨made, given⟩ : ∃ made, FieldValue.of? (some value) (Fields.get? bound key) =
      some made := by
    rw [FieldValue.of?]
    split
    · exact ⟨_, rfl⟩
    · exact ⟨_, rfl⟩
  rw [given]
  apply Fields.get?_ofEntries_of_mem
  · rw [fieldValues, List.mem_append, List.mem_filterMap]
    exact .inl ⟨(key, value), Fields.mem_of_get? found, by rw [given]; rfl⟩
  · rintro ⟨name, other⟩ member rfl
    rw [fieldValues, List.mem_append, List.mem_filterMap, List.mem_filterMap] at member
    rcases member with ⟨entry, stored, read⟩ | ⟨entry, _, read⟩
    · obtain ⟨_, again, same⟩ := Option.map_eq_some_iff.mp read
      cases same
      cases found.symm.trans ((Fields.get?_eq_some_iff distinct).mpr stored)
      exact Option.some.inj (again.symm.trans given)
    · split at read
      · cases read
      · next free =>
        obtain ⟨_, _, same⟩ := Option.map_eq_some_iff.mp read
        cases same
        exact absurd (Fields.has_iff.mpr (Fields.mem_names_of_mem (Fields.mem_of_get? found))) free

/-- Writing fields writes no metadata but that of a setting called `style`. -/
theorem get?_metadata_addFields (styleEntry : String) (node : Node) (fields : Fields FieldValue)
    (key : String) :
    Fields.get? (addFields styleEntry node fields).metadata key =
      if styleEntry = key then
        ((Fields.get? (Fields.ofEntries fields) styleKey).map fieldEntry).or
          (Fields.get? node.metadata key)
      else Fields.get? node.metadata key := by
  induction fields generalizing node with
  | nil => exact (ite_self _).symm
  | cons field fields ih =>
    have step : Fields.get? (addField styleEntry node field).metadata key =
        if field.1 = styleKey ∧ styleEntry = key then some (fieldEntry field.2)
        else Fields.get? node.metadata key := by
      rw [addField]
      split
      · next style =>
        rw [Node.setMetadata, Fields.get?_put]
        simp only [style, true_and]
      · next other =>
        rw [if_neg fun h => other h.1]
        cases field.2 <;> rfl
    change Fields.get? (addFields styleEntry (addField styleEntry node field) fields).metadata key = _
    rw [ih, step, Fields.get?_ofEntries_cons]
    by_cases same : styleEntry = key
    · rw [if_pos same, if_pos same]
      by_cases style : field.1 = styleKey
      · cases Fields.get? (Fields.ofEntries fields) styleKey <;> simp [style, same]
      · simp [style]
    · simp [same]

section body

variable {element : Element} {parts : OptionParts} {children : List Node} {key : String}

def Element.filled (settings : ImportSettings) (element : Element) (parts : OptionParts)
    (children : List Node) : Node :=
  addFields stylePropertyKey
    (addFields styleOptionKey
      { name := element.nodeName settings
        slots := parts.slots
        children := parts.groups ++ ownChildren (element.nodeName settings) children
        metadata := element.identity }
      (element.optionFields element.bound parts))
    (element.propertyFields element.bound)

theorem get?_metadata_recordProperties (fields : Fields FieldValue) (node : Node)
    (other : propertyKeysKey ≠ key) :
    Fields.get? (recordProperties element fields node).metadata key =
      Fields.get? node.metadata key := by
  rw [recordProperties]
  split
  · exact (Fields.get?_put _ _ _ _).trans (if_neg other)
  · rfl

theorem get?_metadata_recordOptions (bound : Bound) (node : Node) (other : optionKeysKey ≠ key) :
    Fields.get? (recordOptions element bound node).metadata key =
      Fields.get? node.metadata key := by
  rw [recordOptions]
  dsimp only
  split
  · exact (Fields.get?_put _ _ _ _).trans (if_neg other)
  · rfl

theorem get?_metadata_addStyles (bound : Bound) (node : Node) (other : literalStylesKey ≠ key) :
    Fields.get? (addStyles element bound node).metadata key = Fields.get? node.metadata key := by
  rw [addStyles]
  split
  · exact (Fields.get?_put _ _ _ _).trans (if_neg other)
  · rfl

theorem get?_metadata_body (styles : literalStylesKey ≠ key) :
    Fields.get? (element.body settings parts children).metadata key =
      Fields.get? (recordOptions element element.bound (recordProperties element
        (element.propertyFields element.bound)
        (element.filled settings parts children))).metadata key := by
  rw [Element.body, get?_metadata_addStyles _ _ styles, metadata_addHandlers]
  rfl

/-- A field that was a property of a native tag is not listed among its options. -/
theorem not_mem_listedKeys_body (among : key ∈ Fields.names (element.properties.getD [])) :
    key ∉ listedKeys (element.body settings parts children) optionKeysKey := by
  have unlisted : Fields.get? (recordProperties element (element.propertyFields element.bound)
      (element.filled settings parts children)).metadata optionKeysKey = none := by
    rw [get?_metadata_recordProperties _ _ (by decide), Element.filled,
      get?_metadata_addFields, if_neg (by decide), get?_metadata_addFields, if_neg (by decide),
      Fields.get?_eq_none_iff, identity_eq]
    intro mem
    have among : optionKeysKey ∈ [idKey, versionKey, layerNameKey] := Json.mem_names_present mem
    exact absurd among (by decide)
  rw [listedKeys, get?_metadata_body (by decide), recordOptions]
  dsimp only
  split
  · rw [Node.setMetadata, Fields.get?_put, if_pos rfl]
    simp only [Option.bind_some, Json.items?, Option.getD_some, List.filterMap_map,
      Function.comp_def, Json.string?, List.filterMap_some]
    intro mem
    have free := (List.mem_filter.mp mem).2
    rw [Fields.has_iff.mpr among] at free
    simp at free
  · rw [unlisted]
    exact List.not_mem_nil

/-- A literal property of a native tag that no handler takes the place of is written among the
properties again. -/
theorem get?_exportedProperties_body {value : Json} (literal : element.HasLiteral key value)
    (distinct : Fields.Distinct (element.properties.getD [])) (unhandled : ¬element.Handles key)
    (tag : Node.isTagName (element.nodeName settings) = true) :
    Fields.get? (exportedProperties (element.body settings parts children)) key = some value := by
  obtain ⟨found, given⟩ := literal
  have last : Fields.get? (Fields.ofEntries (element.propertyFields element.bound)) key =
      some (.literal value) := (get?_ofEntries_fieldValues distinct found).trans given
  by_cases style : key = styleKey
  · subst style
    have kept : keptStyle? (element.body settings parts children) stylePropertyKey =
        some (.literal value) := by
      rw [keptStyle?, get?_metadata_body (by decide), get?_metadata_recordOptions _ _ (by decide),
        get?_metadata_recordProperties _ _ (by decide), Element.filled, get?_metadata_addFields,
        if_pos rfl, last]
      rfl
    rw [exportedProperties, kept, restoreLiteral, Fields.get?_put, if_pos rfl]
  · have property : isProperty (element.body settings parts children) key = true := by
      have free := @not_mem_listedKeys_body settings _ parts children _
        (Fields.mem_names_of_mem (Fields.mem_of_get? found))
      rw [isProperty, Node.isTag, (frame_body settings element parts children).1, tag,
        List.contains_eq_mem, decide_eq_false free]
      rfl
    rw [get?_exportedProperties _ style, if_pos property, get?_properties_body style unhandled,
      last]
    rfl

end body

/-- What an element is survives import and export. A component that is no loop wrapper is
written as a component of its name, and as no tag, just if that is no name of a native tag. An
element without a component is written as its tag, and as no component, just if the tag is
called like a native tag; and then its literal properties stay, as far as no handler takes the
place of one. -/
theorem kind_importElement {path : Path} {element : Element} {node : Node}
    (distinct : Fields.Distinct (element.properties.getD []))
    (h : importElement settings path element = .ok node) :
    (∀ name, element.componentName? = some name → element.IsSingle settings →
      ((exportNode node).component.map Use.name = some name ∧ (exportNode node).tagName = none ↔
        Node.isTagName name = false)) ∧
    (∀ tag, element.componentName? = none → element.tagName = some tag → tag ≠ "" →
      ((exportNode node).tagName = some tag ∧ (exportNode node).component.isNone = true ↔
        Node.isTagName tag = true) ∧
      (Node.isTagName tag = true → ∀ key value, element.HasLiteral key value →
        ¬element.Handles key →
          Fields.get? ((exportNode node).properties.getD []) key = some value)) := by
  obtain ⟨parts, children, rfl, plain⟩ := body_of_importElement h
  refine ⟨fun name component single => ?_, fun tag component tagged filled => ?_⟩
  · have named : element.nodeName settings = name := by
      rw [Element.nodeName, component]
      rfl
    obtain ⟨written, used, -⟩ := @kind_exported _ _ _ children single plain
    rw [written, used, named]
    cases Node.isTagName name <;> simp
  · have named : element.nodeName settings = tag := by
      rw [Element.nodeName, component, tagged]
      simp [Option.filter, filled]
    -- No native tag is called like a loop wrapper.
    have single (isTag : Node.isTagName tag = true) : element.IsSingle settings := by
      intro wrapper
      rw [← named, wrapper] at isTag
      exact absurd isTag (by decide)
    refine ⟨⟨fun written => tagName_exportNode _ written.1, fun isTag => ?_⟩,
      fun isTag key value literal unhandled => ?_⟩
    · obtain ⟨written, used, -⟩ := @kind_exported _ _ _ children (single isTag) plain
      rw [named, isTag, if_pos rfl] at written used
      exact ⟨written, Option.isNone_iff_eq_none.mpr (Option.map_eq_none_iff.mp used)⟩
    · obtain ⟨-, -, properties⟩ := @kind_exported _ _ _ children (single isTag) plain
      rw [properties]
      exact get?_exportedProperties_body literal distinct unhandled (named ▸ isTag)

def homeLink : Element :=
  { tagName := some "a"
    properties := some [("href", .string "/home"), ("style", .string "bold")] }

def titledCard : Element :=
  { component := some { name := "Card", options := [("title", .string "Home")] } }

def buttonComponent : Element :=
  { component := some { name := "button" } }

private theorem imported_homeLink : ∃ node, importElement {} "" homeLink = .ok node := by
  rw [importElement, Element.options, homeLink]
  dsimp only [Option.map_none, Option.getD_none]
  rw [importOptions, importElements]
  exact ⟨_, rfl⟩

private theorem imported_titledCard : ∃ node, importElement {} "" titledCard = .ok node := by
  rw [importElement, Element.options, titledCard]
  dsimp only [Option.map_some, Option.getD_some]
  rw [importOptions, importOptions, importElements]
  exact ⟨_, rfl⟩

theorem kinds_kept :
    ∃ link card, importElement {} "" homeLink = .ok link ∧ importElement {} "" titledCard = .ok card ∧
      (exportNode link).tagName = some "a" ∧ (exportNode link).component.isNone = true ∧
      Fields.get? ((exportNode link).properties.getD []) "href" = some (.string "/home") ∧
      Fields.get? ((exportNode link).properties.getD []) "style" = some (.string "bold") ∧
      (exportNode card).component.map Use.name = some "Card" ∧ (exportNode card).tagName = none := by
  obtain ⟨link, importedLink⟩ := imported_homeLink
  obtain ⟨card, importedCard⟩ := imported_titledCard
  have unhandled (key : String) : ¬homeLink.Handles key := fun ⟨_, member, _⟩ => nomatch member
  obtain ⟨-, tags⟩ := kind_importElement (by decide) importedLink
  obtain ⟨components, -⟩ := kind_importElement (by decide) importedCard
  obtain ⟨kind, literals⟩ := tags "a" rfl rfl (by decide)
  have properties := literals (by decide)
  obtain ⟨isTag, noComponent⟩ := kind.mpr (by decide)
  have single : titledCard.IsSingle {} := fun wrapper => absurd wrapper (by decide)
  obtain ⟨component, noTag⟩ := (components "Card" rfl single).mpr (by decide)
  exact ⟨link, card, importedLink, importedCard, isTag, noComponent,
    properties "href" (.string "/home") ⟨rfl, rfl⟩ (unhandled _),
    properties "style" (.string "bold") ⟨rfl, rfl⟩ (unhandled _), component, noTag⟩

/-- A component that is called like a native tag is written as that tag. -/
theorem buttonComponent_lost :
    buttonComponent.componentName? = some "button" ∧
      ∃ node, importElement {} "" buttonComponent = .ok node ∧
        (exportNode node).component.isNone = true ∧ (exportNode node).tagName = some "button" := by
  obtain ⟨node, imported⟩ : ∃ node, importElement {} "" buttonComponent = .ok node := by
    rw [importElement, Element.options, buttonComponent]
    dsimp only [Option.map_some, Option.getD_some]
    rw [importOptions, importElements]
    exact ⟨_, rfl⟩
  have single : buttonComponent.IsSingle {} := fun wrapper => absurd wrapper (by decide)
  obtain ⟨parts, children, rfl, plain⟩ := body_of_importElement imported
  obtain ⟨tag, component, -⟩ := @kind_exported _ _ _ children single plain
  exact ⟨rfl, _, imported, Option.isNone_iff_eq_none.mpr (Option.map_eq_none_iff.mp component), tag⟩

end BlockLoom.Content
