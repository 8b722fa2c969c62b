import BlockLoom.Content.Import
import BlockLoom.Proofs.Content.Paths
import BlockLoom.Proofs.Json.Shape

/-!
What the node for an element holds. If no field of an element has two sources,
every option, property, binding and action becomes a field of the node of its
own, in the order in which they are written; settings called `style` and the
lists of keys become metadata.
-/

namespace BlockLoom

open BlockLoom.Json (present)

/-! ## Field values -/

/-- Whether a value stands for itself and not for the expression in it. -/
def IsLiteral (value : Json) : Prop :=
  value.string?.bind FieldValue.marked? = none

theorem FieldValue.of?_literal {value : Json} (h : IsLiteral value) :
    FieldValue.of? (some value) none = some (.literal value) := by
  rw [IsLiteral] at h
  simp [FieldValue.of?, h]

theorem FieldValue.of?_bound {code : String} (h : Text.isBlankText code = false) :
    FieldValue.of? none (some code) = some (.bound code) := by
  simp [FieldValue.of?, Option.filter, h]

def expressions (bound : Fields String) : Fields Binding :=
  Fields.mapValues Binding.expression bound

theorem names_expressions (bound : Fields String) :
    Fields.names (expressions bound) = Fields.names bound :=
  Fields.names_mapValues _ _

theorem expressions_append (bound others : Fields String) :
    expressions (bound ++ others) = expressions bound ++ expressions others :=
  List.map_append

namespace Content

/-- Fields that are literal or bound, and not both, keep what they are. -/
theorem fieldValues_eq {literals : Fields Json} {bound : Fields String}
    (literal : ∀ entry ∈ literals, IsLiteral entry.2)
    (filled : ∀ entry ∈ bound, Text.isBlankText entry.2 = false)
    (apart : ∀ key ∈ Fields.names literals, key ∉ Fields.names bound) :
    fieldValues literals bound =
      Fields.mapValues FieldValue.literal literals ++ Fields.mapValues FieldValue.bound bound := by
  rw [fieldValues]
  congr 1
  · rw [Fields.mapValues, ← List.filterMap_eq_map]
    apply List.filterMap_congr
    intro entry member
    rw [Fields.get?_eq_none_iff.mpr (apart _ (Fields.mem_names_of_mem member)),
      FieldValue.of?_literal (literal entry member)]
    rfl
  · rw [Fields.mapValues, ← List.filterMap_eq_map]
    apply List.filterMap_congr
    intro entry member
    have free : Fields.has literals entry.1 = false :=
      Fields.has_eq_false_iff.mpr fun both => apart _ both (Fields.mem_names_of_mem member)
    rw [free, FieldValue.of?_bound (filled entry member)]
    rfl

/-! ## Writing fields -/

def keep (node : Node) (entry : String) (value : Option Json) : Node :=
  match value with
  | some value => node.setMetadata entry value
  | none => node

theorem keep_eq (node : Node) {entries : List (String × Option Json)}
    (h : node.metadata = present entries) {entry : String} (fresh : entry ∉ Fields.names entries)
    (value : Option Json) :
    keep node entry value = { node with metadata := present (entries ++ [(entry, value)]) } := by
  have whole : present (entries ++ [(entry, value)]) =
      node.metadata ++ Json.optionalMember entry value := by
    rw [h, present, present, List.flatMap_append]
    simp
  rw [whole]
  cases value with
  | none =>
    cases node
    simp [keep, Json.optionalMember]
  | some value =>
    rw [keep, Node.setMetadata, Fields.put_of_not_mem]
    · rfl
    · rw [h]
      exact fun member => fresh (Json.mem_names_present member)

def literalsOf (fields : Fields FieldValue) : Fields Json :=
  fields.filterMap fun entry =>
    match entry.2 with
    | .literal value => some (entry.1, value)
    | .bound _ => none

def boundOf (fields : Fields FieldValue) : Fields Binding :=
  fields.filterMap fun entry =>
    match entry.2 with
    | .literal _ => none
    | .bound code => some (entry.1, .expression code)

/-- New fields are appended to the properties and to the bindings of a node, apart
from one called `style`, which becomes metadata. -/
theorem addFields_fresh (styleEntry : String) (node : Node) {fields : Fields FieldValue}
    (distinct : Fields.Distinct fields)
    (fresh : ∀ key ∈ Fields.names fields, key ≠ styleKey →
      key ∉ Fields.names node.properties ∧ key ∉ Fields.names node.bindings) :
    addFields styleEntry node fields =
      keep
        { node with
          properties := node.properties ++ literalsOf (Fields.remove fields styleKey)
          bindings := node.bindings ++ boundOf (Fields.remove fields styleKey) }
        styleEntry ((Fields.get? fields styleKey).map fieldEntry) := by
  induction fields generalizing node with
  | nil =>
    cases node
    simp [addFields, keep, Fields.remove, literalsOf, boundOf]
  | cons entry fields ih =>
    obtain ⟨key, value⟩ := entry
    obtain ⟨apart, tail⟩ := Fields.distinct_cons.mp distinct
    obtain ⟨first, others⟩ := List.forall_mem_cons.mp fresh
    have unfolded : addFields styleEntry node ((key, value) :: fields) =
        addFields styleEntry (addField styleEntry node (key, value)) fields := rfl
    rw [unfolded]
    by_cases style : key = styleKey
    · subst style
      have added : addField styleEntry node (styleKey, value) =
          node.setMetadata styleEntry (fieldEntry value) := if_pos rfl
      have rest := ih (node.setMetadata styleEntry (fieldEntry value)) tail others
      rw [Fields.get?_eq_none_iff.mpr apart] at rest
      have removed : Fields.remove ((styleKey, value) :: fields) styleKey =
          Fields.remove fields styleKey := by simp [Fields.remove]
      rw [added, rest, removed, Fields.get?_cons_self]
      rfl
    · obtain ⟨unset, unbound⟩ := first style
      have kept : Fields.remove ((key, value) :: fields) styleKey =
          (key, value) :: Fields.remove fields styleKey := by simp [Fields.remove, style]
      -- The keys that are left are not the one that was just written.
      have later {α : Type} {written : Fields α} (name : String) (member : name ∈ Fields.names fields)
          (free : name ∉ Fields.names written) (value : α) :
          name ∉ Fields.names (written ++ [(key, value)]) := by
        rw [Fields.names_append, List.mem_append, not_or]
        refine ⟨free, fun same => apart ?_⟩
        rw [← List.mem_singleton.mp same]
        exact member
      rw [kept, Fields.get?_cons, if_neg style]
      cases value with
      | literal value =>
        have added : addField styleEntry node (key, .literal value) =
            { node with properties := node.properties ++ [(key, value)] } := by
          rw [addField, if_neg style, Node.setField, Node.setProperty,
            Fields.remove_of_not_mem unbound, Fields.put_of_not_mem unset]
        rw [added, ih _ tail]
        · simp [literalsOf, boundOf]
        · intro name member other
          obtain ⟨free, unbound⟩ := others name member other
          exact ⟨later name member free value, unbound⟩
      | bound code =>
        have added : addField styleEntry node (key, .bound code) =
            { node with bindings := node.bindings ++ [(key, .expression code)] } := by
          rw [addField, if_neg style, Node.setField, Node.setBinding,
            Fields.remove_of_not_mem unset, Fields.put_of_not_mem unbound]
        rw [added, ih _ tail]
        · simp [literalsOf, boundOf]
        · intro name member other
          obtain ⟨unset, free⟩ := others name member other
          exact ⟨unset, later name member free (.expression code)⟩

/-- The fields of a node for literals and expressions with different keys. -/
theorem split_fields (literals : Fields Json) (bound : Fields String) :
    let fields := Fields.mapValues FieldValue.literal literals ++
      Fields.mapValues FieldValue.bound bound
    literalsOf (Fields.remove fields styleKey) = Fields.remove literals styleKey ∧
      boundOf (Fields.remove fields styleKey) = expressions (Fields.remove bound styleKey) := by
  have removed {α : Type} (make : α → FieldValue) (fields : Fields α) :
      Fields.remove (Fields.mapValues make fields) styleKey =
        Fields.mapValues make (Fields.remove fields styleKey) := by
    rw [Fields.remove, Fields.remove, Fields.mapValues, Fields.mapValues, List.filter_map]
    rfl
  have appended : Fields.remove (Fields.mapValues FieldValue.literal literals ++
      Fields.mapValues FieldValue.bound bound) styleKey =
      Fields.mapValues FieldValue.literal (Fields.remove literals styleKey) ++
        Fields.mapValues FieldValue.bound (Fields.remove bound styleKey) := by
    rw [← removed, ← removed]
    exact List.filter_append ..
  dsimp only
  rw [appended]
  constructor
  · simp [literalsOf, Fields.mapValues, List.filterMap_map]
  · simp [boundOf, expressions, Fields.mapValues, List.filterMap_map]

/-! ## Handlers -/

def handlerNames (handlers : Fields String) : List String :=
  (Fields.names handlers).map Event.handlerName

def handlerFields (handlers : Fields String) : Fields String :=
  handlers.map fun handler => (Event.handlerName handler.1, handler.2)

theorem names_handlerFields (handlers : Fields String) :
    Fields.names (handlerFields handlers) = handlerNames handlers := by
  simp [handlerFields, handlerNames, Fields.names, Function.comp_def]

/-- New handlers are appended to the bindings of a node. -/
theorem addHandlers_fresh (node : Node) {handlers : Fields String}
    (named : ∀ handler ∈ handlers, handler.1 ≠ "" ∧ Text.isBlankText handler.2 = false)
    (unset : ∀ key ∈ handlerNames handlers, key ∉ Fields.names node.properties)
    (distinct : Fields.Distinct (node.bindings ++ expressions (handlerFields handlers))) :
    addHandlers node handlers =
      { node with bindings := node.bindings ++ expressions (handlerFields handlers) } := by
  induction handlers generalizing node with
  | nil =>
    cases node
    simp [addHandlers, handlerFields, expressions, Fields.mapValues]
  | cons handler handlers ih =>
    obtain ⟨event, code⟩ := handler
    obtain ⟨⟨event_named, filled⟩, others⟩ := List.forall_mem_cons.mp named
    obtain ⟨first, rest⟩ := List.forall_mem_cons.mp unset
    have unbound : Event.handlerName event ∉ Fields.names node.bindings := fun member =>
      (Fields.distinct_append.mp distinct).2.2 _ member (List.mem_cons_self ..)
    have regroup : node.bindings ++ expressions (handlerFields ((event, code) :: handlers)) =
        node.bindings ++ [(Event.handlerName event, .expression code)] ++
          expressions (handlerFields handlers) := by
      simp [handlerFields, expressions, Fields.mapValues]
    have added : node.setBinding (Event.handlerName event) (.expression code) =
        { node with
          bindings := node.bindings ++ [(Event.handlerName event, .expression code)] } := by
      rw [Node.setBinding, Fields.remove_of_not_mem first, Fields.put_of_not_mem unbound]
    have step : addHandlers node ((event, code) :: handlers) =
        addHandlers (node.setBinding (Event.handlerName event) (.expression code)) handlers := by
      rw [addHandlers, List.foldl_cons, if_neg]
      · rfl
      · simp [event_named, filled]
    rw [regroup] at distinct
    rw [step, added, regroup]
    exact ih { node with
      bindings := node.bindings ++ [(Event.handlerName event, .expression code)] } others rest
      distinct

/-! ## Bodies -/

/-- The metadata for a setting called `style`, if there is one. -/
def styleRecord? (literals : Fields Json) (bound : Fields String) : Option Json :=
  (Fields.get? (Fields.mapValues FieldValue.literal literals ++
    Fields.mapValues FieldValue.bound bound) styleKey).map fieldEntry

def Element.propertyList? (element : Element) (keys : List String) : Option Json :=
  if element.componentName?.isSome && !keys.isEmpty then
    some (.array ((keys.mergeSort fun left right => decide (left ≤ right)).map Json.string))
  else none

/-- The metadata that lists the bindings that were options, if there are any. -/
def optionList? (name : String) (keys : List String) : Option Json :=
  if Node.isTagName name && !keys.isEmpty then some (.array (keys.map Json.string)) else none

/-- Elements of which no field has two sources, and whose literals and
expressions are what they seem. -/
structure Element.Apart (element : Element) (bound : Bound) (parts : OptionParts) : Prop where
  optionLiterals : ∀ entry ∈ parts.plain, IsLiteral entry.2
  propertyLiterals : ∀ entry ∈ element.properties.getD [], IsLiteral entry.2
  optionsFilled : ∀ entry ∈ bound.options, Text.isBlankText entry.2 = false
  propertiesFilled : ∀ entry ∈ bound.properties, Text.isBlankText entry.2 = false
  unset : ∀ key ∈ Fields.names bound.options, key ∉ Fields.names element.options
  handlers : ∀ handler ∈ element.handlers bound,
    handler.1 ≠ "" ∧ Text.isBlankText handler.2 = false
  options : (Fields.names parts.plain ++ Fields.names bound.options).Nodup
  properties :
    (Fields.names (element.properties.getD []) ++ Fields.names bound.properties).Nodup
  fields : (Fields.names (Fields.remove parts.plain styleKey) ++
    Fields.names (Fields.remove bound.options styleKey) ++
    Fields.names (Fields.remove (element.properties.getD []) styleKey) ++
    Fields.names (Fields.remove bound.properties styleKey) ++
    handlerNames (element.handlers bound)).Nodup

/-- The entries of the metadata of the node for an element, styles aside. -/
def Element.records (element : Element) (settings : ImportSettings) (bound : Bound)
    (parts : OptionParts) : List (String × Option Json) :=
  let properties := element.properties.getD []
  [(idKey, element.id.map Json.string), (versionKey, element.version),
    (layerNameKey, element.layerName.map Json.string),
    (styleOptionKey, styleRecord? parts.plain bound.options),
    (stylePropertyKey, styleRecord? properties bound.properties),
    (propertyKeysKey, element.propertyList? (Fields.names (Fields.remove properties styleKey) ++
      Fields.names (Fields.remove bound.properties styleKey))),
    (optionKeysKey,
      optionList? (element.nodeName settings) (Fields.names (Fields.remove bound.options styleKey)))]

theorem identity_eq (element : Element) :
    element.identity = present [(idKey, element.id.map Json.string),
      (versionKey, element.version), (layerNameKey, element.layerName.map Json.string)] := by
  simp [Element.identity, present]

theorem recordProperties_eq (element : Element) (fields : Fields FieldValue) (node : Node) :
    recordProperties element fields node =
      keep node propertyKeysKey
        (element.propertyList? ((Fields.names fields).filter fun key => key ≠ styleKey)) := by
  rw [recordProperties, Element.propertyList?]
  split <;> rfl

theorem names_remove {α : Type} (fields : Fields α) :
    Fields.names (Fields.remove fields styleKey) =
      (Fields.names fields).filter fun key => key ≠ styleKey :=
  Fields.names_filter (fun key => decide (key ≠ styleKey)) fields

theorem names_fieldValues (literals : Fields Json) (bound : Fields String) :
    Fields.names (Fields.mapValues FieldValue.literal literals ++
      Fields.mapValues FieldValue.bound bound) = Fields.names literals ++ Fields.names bound := by
  rw [Fields.names_append, Fields.names_mapValues, Fields.names_mapValues]

variable {element : Element} {bound : Bound} {parts : OptionParts}

theorem Element.Apart.optionFields_eq (h : element.Apart bound parts) :
    element.optionFields bound parts = Fields.mapValues FieldValue.literal parts.plain ++
      Fields.mapValues FieldValue.bound bound.options := by
  have apart := (List.nodup_append.mp h.options).2.2
  rw [Element.optionFields, fieldValues_eq h.optionLiterals h.optionsFilled
    fun key here there => apart key here key there rfl, List.filter_eq_self]
  intro entry member
  rcases List.mem_append.mp member with member | member
  · obtain ⟨stored, given, rfl⟩ := List.mem_map.mp member
    rw [Fields.has_iff.mpr (Fields.mem_names_of_mem given)]
    rfl
  · obtain ⟨stored, given, rfl⟩ := List.mem_map.mp member
    rw [Fields.has_eq_false_iff.mpr (h.unset _ (Fields.mem_names_of_mem given)), Bool.not_false,
      Bool.or_true]

theorem Element.Apart.propertyFields_eq (h : element.Apart bound parts) :
    element.propertyFields bound =
      Fields.mapValues FieldValue.literal (element.properties.getD []) ++
        Fields.mapValues FieldValue.bound bound.properties := by
  have apart := (List.nodup_append.mp h.properties).2.2
  rw [Element.propertyFields, fieldValues_eq h.propertyLiterals h.propertiesFilled
    fun key here there => apart key here key there rfl]

def built (start : Node) (properties : Fields Json) (bound : Fields String)
    (records : List (String × Option Json)) : Node :=
  { start with properties, bindings := expressions bound, metadata := present records }

section Built

variable (start : Node) {properties : Fields Json} {bound : Fields String}
  {records : List (String × Option Json)}

theorem keep_built {entry : String} (fresh : entry ∉ Fields.names records) (value : Option Json) :
    keep (built start properties bound records) entry value =
      built start properties bound (records ++ [(entry, value)]) :=
  keep_eq (built start properties bound records) rfl fresh value

theorem addFields_built {styleEntry : String} (fresh : styleEntry ∉ Fields.names records)
    {literals : Fields Json} {added : Fields String}
    (distinct : (Fields.names literals ++ Fields.names added).Nodup)
    (apart : ∀ key ∈ Fields.names (Fields.remove literals styleKey) ++
      Fields.names (Fields.remove added styleKey),
      key ∉ Fields.names properties ∧ key ∉ Fields.names bound) :
    addFields styleEntry (built start properties bound records)
        (Fields.mapValues FieldValue.literal literals ++
          Fields.mapValues FieldValue.bound added) =
      built start (properties ++ Fields.remove literals styleKey)
        (bound ++ Fields.remove added styleKey)
        (records ++ [(styleEntry, styleRecord? literals added)]) := by
  obtain ⟨literalPart, boundPart⟩ := split_fields literals added
  have keys : Fields.Distinct (Fields.mapValues FieldValue.literal literals ++
      Fields.mapValues FieldValue.bound added) := by
    rw [Fields.Distinct, names_fieldValues]
    exact distinct
  rw [addFields_fresh styleEntry _ keys, literalPart, boundPart]
  · have extended : built start (properties ++ Fields.remove literals styleKey)
        (bound ++ Fields.remove added styleKey) records =
        { built start properties bound records with
          properties := properties ++ Fields.remove literals styleKey
          bindings := expressions bound ++ expressions (Fields.remove added styleKey) } := by
      rw [← expressions_append]
      rfl
    rw [← keep_built start fresh, extended]
    rfl
  · intro key member other
    have written : key ∈ Fields.names (Fields.remove literals styleKey) ++
        Fields.names (Fields.remove added styleKey) := by
      rw [names_remove, names_remove, ← List.filter_append, ← names_fieldValues]
      exact List.mem_filter.mpr ⟨member, decide_eq_true other⟩
    have free := apart key written
    rw [built, names_expressions]
    exact free

theorem addHandlers_built {handlers : Fields String}
    (named : ∀ handler ∈ handlers, handler.1 ≠ "" ∧ Text.isBlankText handler.2 = false)
    (unset : ∀ key ∈ handlerNames handlers, key ∉ Fields.names properties)
    (distinct : (Fields.names bound ++ handlerNames handlers).Nodup) :
    addHandlers (built start properties bound records) handlers =
      built start properties (bound ++ handlerFields handlers) records := by
  rw [addHandlers_fresh _ named unset]
  · rw [built, built, expressions_append]
  · rw [built, ← expressions_append, Fields.Distinct, names_expressions, Fields.names_append,
      names_handlerFields]
    exact distinct

/-- The list of options names every bound option that no property overrides. -/
theorem recordOptions_built {element : Element} {sorted : Bound}
    (written : ∀ key ∈ Fields.names (Fields.remove sorted.options styleKey),
      key ∈ Fields.names bound ∧ key ∉ Fields.names sorted.properties ∧
        key ∉ Fields.names (element.properties.getD [])) :
    recordOptions element sorted (built start properties bound records) =
      keep (built start properties bound records) optionKeysKey
        (optionList? start.name (Fields.names (Fields.remove sorted.options styleKey))) := by
  have keys : ((Fields.names sorted.options).filter fun key =>
      key ≠ styleKey && Fields.has (built start properties bound records).bindings key &&
        !(Fields.has sorted.properties key || Fields.has (element.properties.getD []) key)) =
      Fields.names (Fields.remove sorted.options styleKey) := by
    rw [names_remove]
    apply List.filter_congr
    intro key member
    by_cases style : key = styleKey
    · simp [style]
    · have kept : key ∈ Fields.names (Fields.remove sorted.options styleKey) := by
        rw [names_remove]
        exact List.mem_filter.mpr ⟨member, decide_eq_true style⟩
      obtain ⟨there, unbound, unset⟩ := written key kept
      have found : Fields.has (built start properties bound records).bindings key = true := by
        rw [Fields.has_iff, built, names_expressions]
        exact there
      rw [found, Fields.has_eq_false_iff.mpr unbound, Fields.has_eq_false_iff.mpr unset]
      simp
  rw [recordOptions, keys, optionList?]
  have tag : (built start properties bound records).isTag = Node.isTagName start.name := rfl
  rw [tag]
  split <;> rfl

end Built

private theorem separate {first second third fourth last : List String}
    (h : (first ++ second ++ third ++ fourth ++ last).Nodup) :
    (∀ key ∈ third ++ fourth, key ∉ first ∧ key ∉ second) ∧
      (∀ key ∈ second, key ∉ third ∧ key ∉ fourth) ∧
      (∀ key ∈ last, key ∉ first ++ third) ∧ (second ++ fourth ++ last).Nodup := by
  simp only [List.nodup_append, List.mem_append] at h ⊢
  grind

/-- The node for an element of which no field has two sources holds each of its
fields once. -/
theorem Element.Apart.body_eq (h : element.Apart bound parts) (settings : ImportSettings)
    (sorted : Bound.of element.bindings element.code.bindings = bound) (children : List Node) :
    element.body settings parts children =
      addStyles element bound
        (built
          { name := element.nodeName settings
            slots := parts.slots
            children := parts.groups ++ ownChildren (element.nodeName settings) children }
          (Fields.remove parts.plain styleKey ++
            Fields.remove (element.properties.getD []) styleKey)
          (Fields.remove bound.options styleKey ++ Fields.remove bound.properties styleKey ++
            handlerFields (element.handlers bound))
          (element.records settings bound parts)) := by
  generalize hstart : ({ name := element.nodeName settings
                         slots := parts.slots
                         children := parts.groups ++
                           ownChildren (element.nodeName settings) children } : Node) = start
  have whole : ({ name := element.nodeName settings
                  slots := parts.slots
                  children := parts.groups ++ ownChildren (element.nodeName settings) children
                  metadata := element.identity } : Node) =
      built start [] [] [(idKey, element.id.map Json.string), (versionKey, element.version),
        (layerNameKey, element.layerName.map Json.string)] := by
    rw [identity_eq, ← hstart]
    rfl
  rw [Element.body, sorted, h.optionFields_eq, h.propertyFields_eq, whole]
  obtain ⟨later, options, handlers, distinct⟩ := separate h.fields
  rw [addFields_built start ?styleOption h.options (by simp),
    addFields_built start ?styleProperty h.properties ?properties,
    recordProperties_eq, keep_built start ?propertyKeys, recordOptions_built start ?options,
    keep_built start ?optionKeys, addHandlers_built start h.handlers ?unset ?handlers]
  case styleOption => simp [styleOptionKey, idKey, versionKey, layerNameKey]
  case styleProperty => simp [stylePropertyKey, styleOptionKey, idKey, versionKey, layerNameKey]
  case propertyKeys =>
    simp [propertyKeysKey, stylePropertyKey, styleOptionKey, idKey, versionKey, layerNameKey]
  case optionKeys =>
    simp [optionKeysKey, propertyKeysKey, stylePropertyKey, styleOptionKey, idKey, versionKey,
      layerNameKey]
  case properties =>
    intro key member
    exact later key member
  case options =>
    intro key member
    obtain ⟨unset, unbound⟩ := options key member
    have other : key ≠ styleKey := by
      rw [names_remove] at member
      exact of_decide_eq_true (List.mem_filter.mp member).2
    rw [names_remove] at unset unbound
    refine ⟨by simp [member], fun there => unbound ?_, fun there => unset ?_⟩
    · exact List.mem_filter.mpr ⟨there, decide_eq_true other⟩
    · exact List.mem_filter.mpr ⟨there, decide_eq_true other⟩
  case unset =>
    intro key member
    rw [List.nil_append, Fields.names_append]
    exact handlers key member
  case handlers =>
    rw [List.nil_append, Fields.names_append]
    exact distinct
  have listed : ((Fields.names (Fields.mapValues FieldValue.literal (element.properties.getD []) ++
      Fields.mapValues FieldValue.bound bound.properties)).filter fun key => key ≠ styleKey) =
      Fields.names (Fields.remove (element.properties.getD []) styleKey) ++
        Fields.names (Fields.remove bound.properties styleKey) := by
    rw [names_fieldValues, List.filter_append, names_remove, names_remove]
  rw [listed, ← hstart]
  rfl

theorem distinct_records (element : Element) (settings : ImportSettings) (bound : Bound)
    (parts : OptionParts) : Fields.Distinct (element.records settings bound parts) := by
  have names : Fields.names (element.records settings bound parts) = [idKey, versionKey,
    layerNameKey, styleOptionKey, stylePropertyKey, propertyKeysKey, optionKeysKey] := rfl
  rw [Fields.Distinct, names]
  decide

theorem get?_records (element : Element) (settings : ImportSettings) (bound : Bound)
    (parts : OptionParts) (key : String) :
    Fields.get? (present (element.records settings bound parts)) key =
      (Fields.get? (element.records settings bound parts) key).join :=
  Json.get?_present (distinct_records element settings bound parts) key

end Content

end BlockLoom
