import BlockLoom.Proofs.Content.Step
import BlockLoom.Proofs.Content.StyleFields
import BlockLoom.Proofs.Style.RoundTrip

/-!
The metadata of an imported node, entry by entry: what identifies its element, settings called
`style`, the lists of keys, and the record of literal styles. Together with the fields they
show that a node holds each key once if its element does, and so that all nodes do that are
imported from a document.
-/

namespace BlockLoom

theorem Fields.put_put {α : Type} (fields : Fields α) (key : String) (first last : α) :
    put (put fields key first) key last = put fields key last := by
  induction fields with
  | nil => simp [put]
  | cons entry fields ih =>
    by_cases same : entry.1 = key
    · simp [put, same]
    · simp [put, same, ih]

namespace Content

open BlockLoom.Json (present)

variable {settings : ImportSettings} {element : Element} {parts : OptionParts}
  {children : List Node}

/-! ## Entries one after another -/

theorem name_filled (settings : ImportSettings) (element : Element) (parts : OptionParts)
    (children : List Node) :
    (element.filled settings parts children).name = element.nodeName settings := by
  have kept : Kept fun node => node.name = element.nodeName settings :=
    ⟨fun _ _ _ h => h, fun _ _ _ h => h, fun _ _ _ h => h⟩
  exact kept.addFields _ (kept.addFields _ rfl _) _

theorem name_recordProperties (element : Element) (fields : Fields FieldValue) (node : Node) :
    (recordProperties element fields node).name = node.name := by
  have kept : Kept fun other => other.name = node.name :=
    ⟨fun _ _ _ h => h, fun _ _ _ h => h, fun _ _ _ h => h⟩
  exact kept.recordProperties element fields rfl

theorem metadata_keep {node : Node} {entries : List (String × Option Json)}
    (h : node.metadata = present entries) {entry : String} (fresh : entry ∉ Fields.names entries)
    (value : Option Json) :
    (keep node entry value).metadata = present (entries ++ [(entry, value)]) := by
  rw [keep_eq node h fresh]

/-- Writing fields keeps the last setting called `style`. -/
theorem metadata_addFields (styleEntry : String) (node : Node) (fields : Fields FieldValue) :
    (addFields styleEntry node fields).metadata =
      (keep node styleEntry
        ((Fields.get? (Fields.ofEntries fields) styleKey).map fieldEntry)).metadata := by
  induction fields generalizing node with
  | nil => rfl
  | cons field fields ih =>
    change (addFields styleEntry (addField styleEntry node field) fields).metadata = _
    rw [ih, Fields.get?_ofEntries_cons, addField]
    by_cases style : field.1 = styleKey
    · rw [if_pos style, if_pos style]
      cases Fields.get? (Fields.ofEntries fields) styleKey with
      | none => rfl
      | some last => exact Fields.put_put node.metadata styleEntry _ _
    · rw [if_neg style, if_neg style, Option.or_none]
      have unchanged : (node.setField field.1 field.2).metadata = node.metadata := by
        cases field.2 <;> rfl
      cases Fields.get? (Fields.ofEntries fields) styleKey with
      | none => exact unchanged
      | some last => exact congrArg (Fields.put · styleEntry _) unchanged

/-- The bound options that a node lists if it is a native tag. -/
def Element.listedOptions (element : Element) (node : Node) : List String :=
  (Fields.names element.bound.options).filter fun key =>
    key ≠ styleKey && Fields.has node.bindings key &&
      !(Fields.has element.bound.properties key || Fields.has (element.properties.getD []) key)

theorem recordOptions_eq (element : Element) (node : Node) :
    recordOptions element element.bound node =
      keep node optionKeysKey (optionList? node.name (element.listedOptions node)) := by
  rw [recordOptions, optionList?]
  dsimp only
  split
  · next listed => rw [if_pos (by exact listed)]; rfl
  · next unlisted => rw [if_neg (by exact unlisted)]; rfl

def Element.propertyKeys (element : Element) : List String :=
  (Fields.names (element.propertyFields element.bound)).filter fun key => key ≠ styleKey

/-- The styles of an element in one expression. -/
def Element.merged? (element : Element) : Option Style.Merged :=
  Style.merge (element.styles.getD []) element.bound.styles

theorem metadata_addStyles (element : Element) {node : Node} {entries : List (String × Option Json)}
    (h : node.metadata = present entries) (fresh : literalStylesKey ∉ Fields.names entries) :
    (addStyles element element.bound node).metadata =
      present (entries ++ [(literalStylesKey, element.merged?.map Style.Merged.recorded)]) := by
  rw [addStyles, Element.merged?]
  cases Style.merge (element.styles.getD []) element.bound.styles with
  | none => exact metadata_keep h fresh none
  | some merged =>
    exact @metadata_keep (node.setBinding styleKey (.expression merged.code)) entries h _ fresh
      (some merged.recorded)

def Element.styleOption? (settings : ImportSettings) (element : Element) : Option FieldValue :=
  if element.isStructural settings styleKey then none else element.field? .options styleKey

/-- The entries of the metadata of the node for an element, of which a native tag lists the
given bindings as options. -/
def Element.bodyRecords (settings : ImportSettings) (element : Element) (listed : List String) :
    List (String × Option Json) :=
  [(idKey, element.id.map Json.string), (versionKey, element.version),
    (layerNameKey, element.layerName.map Json.string),
    (styleOptionKey, (element.styleOption? settings).map fieldEntry),
    (stylePropertyKey, (element.field? .properties styleKey).map fieldEntry),
    (propertyKeysKey, element.propertyList? element.propertyKeys),
    (optionKeysKey, optionList? (element.nodeName settings) listed),
    (literalStylesKey, element.merged?.map Style.Merged.recorded)]

theorem distinct_bodyRecords (listed : List String) :
    Fields.Distinct (element.bodyRecords settings listed) := by
  change List.Nodup [idKey, versionKey, layerNameKey, styleOptionKey, stylePropertyKey,
    propertyKeysKey, optionKeysKey, literalStylesKey]
  decide

theorem get?_styleOption (keyed : element.Keyed) (plain : parts.plain = element.plainOptions settings) :
    Fields.get? (Fields.ofEntries (element.optionFields element.bound parts)) styleKey =
      element.styleOption? settings :=
  Element.get?_optionFields keyed plain styleKey

def recordKeys : List String :=
  [idKey, versionKey, layerNameKey, styleOptionKey, stylePropertyKey, propertyKeysKey,
    optionKeysKey, literalStylesKey]

theorem metadata_body (keyed : element.Keyed) (plain : parts.plain = element.plainOptions settings)
    (children : List Node) :
    (element.body settings parts children).metadata =
      present (element.bodyRecords settings
        (element.listedOptions (element.filled settings parts children))) := by
  have options := metadata_addFields styleOptionKey
    { name := element.nodeName settings
      slots := parts.slots
      children := parts.groups ++ ownChildren (element.nodeName settings) children
      metadata := element.identity }
    (element.optionFields element.bound parts)
  rw [metadata_keep (identity_eq element)
    (show styleOptionKey ∉ recordKeys.take 3 by decide), get?_styleOption keyed plain] at options
  have properties : (element.filled settings parts children).metadata = _ :=
    metadata_addFields stylePropertyKey _ (element.propertyFields element.bound)
  rw [metadata_keep options (show stylePropertyKey ∉ recordKeys.take 4 by decide),
    Element.get?_propertyFields keyed] at properties
  have name := name_filled settings element parts children
  rw [Element.body]
  change (addStyles element element.bound (addHandlers (recordOptions element element.bound
    (recordProperties element (element.propertyFields element.bound)
      (element.filled settings parts children))) (element.handlers element.bound))).metadata = _
  generalize element.filled settings parts children = filled at name properties
  have first : (recordProperties element (element.propertyFields element.bound) filled).metadata = _ :=
    (congrArg Node.metadata (recordProperties_eq element _ filled)).trans
      (metadata_keep properties (show propertyKeysKey ∉ recordKeys.take 5 by decide) _)
  have second : (recordOptions element element.bound
      (recordProperties element (element.propertyFields element.bound) filled)).metadata = _ :=
    (congrArg Node.metadata (recordOptions_eq element _)).trans
      (metadata_keep first (show optionKeysKey ∉ recordKeys.take 6 by decide) _)
  rw [name_recordProperties, name, Element.listedOptions, bindings_recordProperties] at second
  exact metadata_addStyles element ((metadata_addHandlers _ _).trans second)
    (show literalStylesKey ∉ recordKeys.take 7 by decide)

/-! ## Values in metadata -/

theorem isSettled_single (key : String) {value : Json} (h : value.isSettled = true) :
    (Json.object [(key, value)]).isSettled = true := by
  rw [Json.isSettled_object, Json.haveSettled_iff]
  exact ⟨List.nodup_singleton _, by rintro _ (_ | ⟨_, ⟨⟩⟩); exact h⟩

theorem ofLiteral_eq_literal {raw value : Json} (h : FieldValue.ofLiteral raw = .literal value) :
    raw = value ∧ IsLiteral value := by
  rw [FieldValue.ofLiteral] at h
  split at h
  · cases h
  · next unmarked => cases h; exact ⟨rfl, unmarked⟩

theorem isSettled_fieldEntry {value : FieldValue}
    (h : ∀ literal, value = .literal literal → literal.isSettled = true) :
    (fieldEntry value).isSettled = true := by
  cases value with
  | literal literal => exact isSettled_single "value" (h literal rfl)
  | bound code => exact isSettled_single "code" rfl

/-- Texts repeat no member, in whatever order they are listed. -/
theorem isSettled_texts_array (texts : List String) :
    (Json.array (texts.map Json.string)).isSettled = true := by
  rw [Json.isSettled, Json.areSettled_iff]
  intro item member
  obtain ⟨text, -, rfl⟩ := List.mem_map.mp member
  rfl

namespace Element

/-- A field with a literal value has it from a literal that stands for itself, and nothing that
is bound comes before it. -/
structure IsLiteralAt (settings : ImportSettings) (element : Element) (key : String)
    (value : Json) : Prop where
  literal : IsLiteral value
  property : element.boundAt? .properties key = none
  given : Fields.get? (element.properties.getD []) key = some value ∨
    Fields.get? (element.properties.getD []) key = none ∧
      element.isStructural settings key = false ∧ element.boundAt? .options key = none ∧
        Fields.get? element.options key = some value

theorem isLiteralAt_of_source? {key : String} {value : Json}
    (h : element.source? settings key = some (.literal value)) :
    element.IsLiteralAt settings key value := by
  simp only [source?, Option.or_eq_some_iff, Option.map_eq_some_iff, Option.map_eq_none_iff,
    reduceCtorEq, and_false, exists_false, false_or] at h
  obtain ⟨-, property, ⟨raw, found, made⟩ | ⟨absent, rest⟩⟩ := h
  · obtain ⟨rfl, literal⟩ := ofLiteral_eq_literal made
    exact ⟨literal, property, .inl found⟩
  · cases free : element.isStructural settings key with
    | true => simp [free] at rest
    | false =>
      simp only [free, Bool.false_eq_true, if_false, Option.or_eq_some_iff, Option.map_eq_some_iff,
        Option.map_eq_none_iff, reduceCtorEq, and_false, exists_false, false_or] at rest
      obtain ⟨option, raw, found, made⟩ := rest
      obtain ⟨rfl, literal⟩ := ofLiteral_eq_literal made
      exact ⟨literal, property, .inr ⟨absent, free, option, found⟩⟩

theorem isSettled_properties (keyed : element.Keyed) :
    (Json.object (element.properties.getD [])).isSettled = true := by
  cases h : element.properties with
  | none => rfl
  | some properties => exact keyed.properties properties h

theorem IsLiteralAt.isSettled {key : String} {value : Json}
    (h : element.IsLiteralAt settings key value) (keyed : element.Keyed) :
    value.isSettled = true := by
  rcases h.given with found | ⟨-, -, -, found⟩
  · exact Json.isSettled_found (isSettled_properties keyed) found
  · exact Json.isSettled_found (isSettled_options keyed) found

theorem isSettled_field? (keyed : element.Keyed) {space : Namespace}
    (known : space = .options ∨ space = .properties) {key : String} {value : Json}
    (h : element.field? space key = some (.literal value)) : value.isSettled = true := by
  simp only [field?, Option.or_eq_some_iff, Option.map_eq_some_iff, reduceCtorEq, and_false,
    exists_false, false_or] at h
  obtain ⟨-, raw, found, made⟩ := h
  obtain ⟨rfl, -⟩ := ofLiteral_eq_literal made
  rcases known with rfl | rfl
  · exact Json.isSettled_found (isSettled_options keyed) found
  · exact Json.isSettled_found (isSettled_properties keyed) found

theorem isSettled_forWidth (keyed : element.Keyed) (width : Style.Breakpoint) :
    (Json.object (Style.Literals.forWidth (element.styles.getD []) width)).isSettled = true := by
  rw [Style.Literals.forWidth]
  cases h : element.styles with
  | none => rfl
  | some styles =>
    cases found : Fields.get? styles width.bucket with
    | none => simp [found]; rfl
    | some entries => simpa [found] using (keyed.styles styles h).2 _ (Fields.mem_of_get? found)

/-- The record of literal styles repeats no member. -/
theorem isSettled_recorded (keyed : element.Keyed) {merged : Style.Merged}
    (h : element.merged? = some merged) : merged.recorded.isSettled = true := by
  have widths : (Json.object merged.small).isSettled = true ∧
      (Json.object merged.large).isSettled = true := by
    rw [merged?, Style.merge_eq] at h
    split at h
    · cases h
    · cases h
      exact ⟨Json.isSettled_filter (isSettled_forWidth keyed .small) _,
        Json.isSettled_filter (isSettled_forWidth keyed .large) _⟩
  rw [Style.Merged.recorded, Json.isSettled_object, Json.haveSettled_append]
  cases merged.small.isEmpty <;> cases merged.large.isEmpty <;>
    simp [Fields.Distinct, Json.haveSettled, widths.1, widths.2]

end Element

/-! ## Maps of imported nodes -/

/-- The metadata of the node for an element repeat no member. -/
theorem isSettled_metadata_body (keyed : element.Keyed)
    (plain : parts.plain = element.plainOptions settings) (children : List Node) :
    (Json.object (element.body settings parts children).metadata).isSettled = true := by
  rw [metadata_body keyed plain, Json.isSettled_object]
  refine ⟨Json.distinct_present (distinct_bodyRecords _), Json.haveSettled_present ?_⟩
  have text {value : Option String} {read : Json} (h : value.map Json.string = some read) :
      read.isSettled = true := by
    obtain ⟨_, -, rfl⟩ := Option.map_eq_some_iff.mp h
    rfl
  have kept {space : Namespace} (known : space = .options ∨ space = .properties) {read : Json}
      (h : (element.field? space styleKey).map fieldEntry = some read) : read.isSettled = true := by
    obtain ⟨value, given, rfl⟩ := Option.map_eq_some_iff.mp h
    exact isSettled_fieldEntry fun literal same => Element.isSettled_field? keyed known (same ▸ given)
  simp only [Element.bodyRecords, List.forall_mem_cons]
  refine ⟨fun _ => text, keyed.version, fun _ => text, ?_, fun _ => kept (.inr rfl), ?_, ?_, ?_,
    List.forall_mem_nil _⟩
  · intro read h
    rw [Element.styleOption?] at h
    split at h
    · cases h
    · exact kept (.inl rfl) h
  · intro read h
    rw [Element.propertyList?] at h
    split at h
    · cases h; exact isSettled_texts_array _
    · cases h
  · intro read h
    rw [optionList?] at h
    split at h
    · cases h; exact isSettled_texts_array _
    · cases h
  · intro read h
    obtain ⟨merged, given, rfl⟩ := Option.map_eq_some_iff.mp h
    exact Element.isSettled_recorded keyed given

/-- The literal fields of the node for an element repeat no member. -/
theorem isSettled_properties_body (keyed : element.Keyed)
    (plain : parts.plain = element.plainOptions settings) (children : List Node) :
    (Json.object (element.body settings parts children).properties).isSettled = true := by
  have distinct := (single_body settings element parts children).properties
  refine Json.isSettled_object.mpr ⟨distinct, Json.haveSettled_iff.mpr fun entry member => ?_⟩
  have found := (Fields.get?_eq_some_iff distinct).mpr member
  by_cases style : entry.1 = styleKey
  · rw [style, get?_properties_style] at found
    cases found
  · rw [(Element.hasField_body keyed plain children style).literal] at found
    match given : element.source? settings entry.1, found with
    | some (.literal value), rfl => exact (Element.isLiteralAt_of_source? given).isSettled keyed

theorem distinct_slots_of_imports (keyed : element.Keyed)
    (imports : element.Imports settings parts children) : Fields.Distinct parts.slots := by
  rw [Fields.Distinct, names_of_slotOf imports.slots]
  exact (Json.isSettled_object.mp (Element.isSettled_options keyed)).1.filter _

/-- The fields of a group that is read from settled options repeat no member. -/
theorem isSettled_groupsIn {grouping : Grouping} {options : Fields Json}
    (settled : (Json.object options).isSettled = true) {group : Group}
    (member : group ∈ groupsIn grouping options) : (Json.object group.fields).isSettled = true := by
  rw [groupsIn] at member
  split at member
  · next value found =>
    have inner := Json.isSettled_found settled found
    cases read : Group.readList "" value with
    | error failure => rw [read] at member; cases member
    | ok groups =>
      rw [read] at member
      obtain ⟨items, rfl, stand⟩ := Group.readList_iff.mp read
      obtain ⟨item, listed, members, rfl, fields, -⟩ := exists_of_forall₂ stand member
      rw [fields]
      exact Json.isSettled_filter (Json.areSettled_iff.mp inner _ listed) _
  · cases member

theorem isKeyed_of_keyed {node : Node} (h : node.Keyed) : node.isKeyed = true := by
  cases node
  simp only [Node.isKeyed, h.properties, h.bindings, h.children, h.slotNames, h.slots, h.metadata,
    decide_true, Bool.and_self]

theorem isKeyed_repeated (element : Element) {body : Node} (h : body.isKeyed = true) :
    (element.repeated body).isKeyed = true := by
  rw [Element.repeated]
  split
  · simp [Loop.wrap, Node.isKeyed, Node.areKeyed, Node.haveKeyed, Node.named, Node.setBinding, h,
      Fields.remove, Fields.put, Fields.Distinct, Json.isSettled, Json.haveSettled]
  · exact h

theorem isKeyed_ownChildren {name : String} {nodes : List Node}
    (h : ∀ node ∈ nodes, node.isKeyed = true) :
    ∀ node ∈ ownChildren name nodes, node.isKeyed = true := by
  rw [ownChildren]
  split
  · rw [defaultVariant?]
    split
    · exact List.forall_mem_nil _
    · intro node member
      cases List.mem_singleton.mp member
      simp [Node.isKeyed, Node.haveKeyed, Node.setProperty, Fields.remove, Fields.put,
        Fields.Distinct, Json.isSettled, Json.haveSettled, Node.areKeyed_iff.mpr h]
  · exact h

theorem isKeyed_group (keyed : element.Keyed) (imports : element.Imports settings parts children)
    {group : Node} (listed : group ∈ parts.groups)
    (inside : ∀ child ∈ group.children, child.isKeyed = true) : group.isKeyed = true := by
  obtain ⟨given, among, grouping, grouped, path, blocks, read, rfl⟩ :=
    exists_of_forall₂ imports.groups listed
  rw [Element.groups, grouped] at among
  have settled := isSettled_groupsIn (Element.isSettled_options keyed) among
  have distinct := (Json.isSettled_object.mp settled).1
  rw [grouping.node_eq distinct] at inside ⊢
  exact isKeyed_of_keyed
    { properties := settled
      bindings := Fields.distinct_nil
      children := Node.areKeyed_iff.mpr inside
      slotNames := Fields.distinct_nil
      slots := rfl
      metadata := rfl }

/-- The maps of a body hold each key once if those of the nodes that it is made of do. -/
theorem keyed_body (keyed : element.Keyed) (imports : element.Imports settings parts children)
    (ownKeyed : ∀ child ∈ children, child.isKeyed = true)
    (slotsKeyed : ∀ slot ∈ parts.slots, ∀ child ∈ slot.2, child.isKeyed = true)
    (groupsKeyed : ∀ group ∈ parts.groups, ∀ child ∈ group.children, child.isKeyed = true) :
    (element.body settings parts children).Keyed := by
  obtain ⟨-, slots, own⟩ := frame_body settings element parts children
  have distinct := distinct_slots_of_imports keyed imports
  constructor
  case properties => exact isSettled_properties_body keyed imports.plain children
  case bindings => exact (single_body settings element parts children).bindings
  case children =>
    rw [own, Node.areKeyed_iff, List.forall_mem_append]
    exact ⟨fun group listed => isKeyed_group keyed imports listed (groupsKeyed group listed),
      isKeyed_ownChildren ownKeyed⟩
  case slotNames => exact slots ▸ distinct
  case slots =>
    rw [slots, Node.haveKeyed_iff]
    exact fun slot listed => Node.areKeyed_iff.mpr (slotsKeyed slot listed)
  case metadata => exact isSettled_metadata_body keyed imports.plain children

/-- The maps of every node that is imported from a document hold each key once. -/
theorem isKeyed_importElement (decoded : element.Decoded) {node : Node}
    (h : element.ImportsTo settings node) : node.isKeyed = true := by
  refine importElement_induction (q := fun _ => True) (p := fun node => node.isKeyed = true) ?_
    decoded (fun _ _ => trivial) h
  intro element parts children decoded _ imports ownKeyed slotsKeyed groupsKeyed
  exact isKeyed_repeated element
    (isKeyed_of_keyed (keyed_body decoded.keyed imports ownKeyed slotsKeyed groupsKeyed))

end Content

end BlockLoom
