import BlockLoom.Proofs.Content.Codec
import BlockLoom.Proofs.Content.Kind
import Mathlib.Data.List.Induction

/-!
Which of its sources a field of an imported node comes from. Handlers come before bound
properties, these before literal properties, and all of them before options, of which a bound
one again comes before a literal one. The passes of the import write fields over one another
in the opposite order, so what a pass writes is followed key by key to the end.
-/

namespace BlockLoom

namespace FieldValue

/-- A literal as the value of a field: an expression if it is a text that is nothing but one
marked expression. -/
def ofLiteral (value : Json) : FieldValue :=
  match value.string?.bind marked? with
  | some code => .bound code
  | none => .literal value

/-- An expression with code in it comes before the literal. -/
theorem of?_eq (raw : Option Json) (expression : Option String) :
    of? raw expression =
      ((expression.filter fun code => !Text.isBlankText code).map bound).or
        (raw.map ofLiteral) := by
  rw [of?]
  cases expression.filter fun code => !Text.isBlankText code with
  | some code => rfl
  | none => rfl

end FieldValue

/-! ## Fields of a node -/

namespace Node

/-- What it means for a field of a node to have a value, or not to be there: a literal stands
among the properties alone, and an expression among the bindings alone. -/
structure HasField (node : Node) (key : String) (value : Option FieldValue) : Prop where
  literal : Fields.get? node.properties key = Content.literalOf? value
  binding : Fields.get? node.bindings key = Content.bindingOf? value

variable {node : Node} {key : String} {value : Option FieldValue}

/-- Writing a field changes that field and no other. -/
theorem HasField.setField (h : node.HasField key value) (name : String) (written : FieldValue) :
    (node.setField name written).HasField key (if name = key then some written else value) := by
  constructor
  · rw [setField_eq, get?_properties_setHeld, h.literal]
    split
    · cases written <;> rfl
    · rfl
  · rw [setField_eq, get?_bindings_setHeld, h.binding]
    split
    · cases written <;> rfl
    · rfl

theorem HasField.congr {other : Node} (h : node.HasField key value)
    (properties : other.properties = node.properties) (bindings : other.bindings = node.bindings) :
    other.HasField key value :=
  ⟨properties ▸ h.literal, bindings ▸ h.binding⟩

end Node

namespace Content

section passes

variable {node : Node} {key : String} {value : Option FieldValue}

/-- After a pass over some fields, a field has the last value written. No pass writes the field
for all styles. -/
theorem hasField_addFields (h : node.HasField key value) (styleEntry : String)
    (fields : Fields FieldValue) :
    (addFields styleEntry node fields).HasField key
      ((if key = styleKey then none else Fields.get? (Fields.ofEntries fields) key).or value) := by
  constructor
  · rw [properties_addFields, h.literal]
    generalize (if key = styleKey then none else Fields.get? (Fields.ofEntries fields) key) = last
    rcases last with _ | ⟨_ | _⟩ <;> rfl
  · rw [bindings_addFields, h.binding]
    generalize (if key = styleKey then none else Fields.get? (Fields.ofEntries fields) key) = last
    rcases last with _ | ⟨_ | _⟩ <;> rfl

/-- The code of the handler for a field: that of the last event with a name whose handler has
code and the name of the field. -/
def handlerOf? (handlers : Fields String) (key : String) : Option String :=
  (handlers.filter fun handler => handler.1 ≠ "" && !Text.isBlankText handler.2 &&
    Event.handlerName handler.1 = key).getLast?.map Prod.snd

theorem handlerOf?_append (handlers : Fields String) (handler : String × String) (key : String) :
    handlerOf? (handlers ++ [handler]) key =
      if handler.1 ≠ "" ∧ Text.isBlankText handler.2 = false ∧
          Event.handlerName handler.1 = key then
        some handler.2
      else handlerOf? handlers key := by
  rw [handlerOf?, List.filter_append, List.getLast?_append, List.filter_cons]
  by_cases taken : handler.1 ≠ "" ∧ Text.isBlankText handler.2 = false ∧
      Event.handlerName handler.1 = key
  · rw [if_pos taken, if_pos (by simpa [and_assoc] using taken)]
    rfl
  · rw [if_neg taken, if_neg (by simpa [and_assoc] using taken)]
    rfl

theorem handlerOf?_eq_none {handlers : Fields String}
    (h : ∀ handler ∈ handlers, Event.handlerName handler.1 ≠ key) :
    handlerOf? handlers key = none := by
  rw [handlerOf?, Option.map_eq_none_iff, List.getLast?_eq_none_iff, List.filter_eq_nil_iff]
  intro handler member
  simp [h handler member]

theorem handlerOf?_eq_some {handlers : Fields String} {event code : String}
    (member : (event, code) ∈ handlers) (named : event ≠ "")
    (filled : Text.isBlankText code = false) (own : Event.handlerName event = key)
    (only : ∀ handler ∈ handlers, Event.handlerName handler.1 = key → handler.2 = code) :
    handlerOf? handlers key = some code := by
  rw [handlerOf?, Option.map_eq_some_iff]
  cases last : (handlers.filter fun handler => handler.1 ≠ "" && !Text.isBlankText handler.2 &&
      Event.handlerName handler.1 = key).getLast? with
  | none =>
    rw [List.getLast?_eq_none_iff, List.filter_eq_nil_iff] at last
    exact absurd (last _ member) (by simp [named, filled, own])
  | some handler =>
    obtain ⟨there, taken⟩ := List.mem_filter.mp (List.mem_of_getLast? last)
    rw [Bool.and_eq_true, decide_eq_true_iff] at taken
    exact ⟨handler, rfl, only handler there taken.2⟩

theorem addHandlers_append (node : Node) (handlers : Fields String) (handler : String × String) :
    addHandlers node (handlers ++ [handler]) =
      if handler.1 ≠ "" ∧ Text.isBlankText handler.2 = false then
        (addHandlers node handlers).setField (Event.handlerName handler.1) (.bound handler.2)
      else addHandlers node handlers := by
  rw [addHandlers, List.foldl_append, ← addHandlers, addHandlers, List.foldl_cons, List.foldl_nil]
  by_cases taken : handler.1 ≠ "" ∧ Text.isBlankText handler.2 = false
  · rw [if_pos taken, if_neg (by simpa using taken)]
    rfl
  · rw [if_neg taken, if_pos (by simpa [Classical.or_iff_not_imp_left] using taken)]
    rfl

/-- After handlers have been bound, a field has the code of its handler, if it has one. -/
theorem hasField_addHandlers (h : node.HasField key value) (handlers : Fields String) :
    (addHandlers node handlers).HasField key
      (((handlerOf? handlers key).map .bound).or value) := by
  induction handlers using List.reverseRecOn with
  | nil => exact h
  | append_singleton handlers handler ih =>
    rw [addHandlers_append, handlerOf?_append]
    by_cases taken : handler.1 ≠ "" ∧ Text.isBlankText handler.2 = false
    · have written := ih.setField (Event.handlerName handler.1) (.bound handler.2)
      rw [if_pos taken]
      by_cases own : Event.handlerName handler.1 = key
      · rw [if_pos own] at written
        rw [if_pos ⟨taken.1, taken.2, own⟩]
        exact written
      · rw [if_neg own] at written
        rw [if_neg fun all => own all.2.2]
        exact written
    · rw [if_neg taken, if_neg fun all => taken ⟨all.1, all.2.1⟩]
      exact ih

theorem hasField_addStyles (h : node.HasField key value) (other : key ≠ styleKey)
    (element : Element) (bound : Bound) : (addStyles element bound node).HasField key value := by
  rw [addStyles]
  split
  · next merged _ =>
    have written := h.setField styleKey (.bound merged.code)
    rw [if_neg other.symm] at written
    exact written.congr rfl rfl
  · exact h

/-- What is recorded in the metadata leaves fields as they are. -/
theorem hasField_record (h : node.HasField key value) (element : Element) (bound : Bound)
    (fields : Fields FieldValue) :
    (recordOptions element bound (recordProperties element fields node)).HasField key value := by
  refine h.congr ?_ ?_
  · rw [recordOptions, recordProperties]
    dsimp only
    split <;> split <;> rfl
  · rw [bindings_recordOptions, bindings_recordProperties]

end passes

/-! ## What is given for a field -/

/-- The value of a field is what its literal and its expression make of it. -/
theorem get?_fieldValues {literals : Fields Json} {bound : Fields String}
    (h : Fields.Distinct literals) (h' : Fields.Distinct bound) (key : String) :
    Fields.get? (Fields.ofEntries (fieldValues literals bound)) key =
      FieldValue.of? (Fields.get? literals key) (Fields.get? bound key) := by
  let given (name : String) (value : Json) : Option FieldValue :=
    FieldValue.of? (some value) (Fields.get? bound name)
  let free (name code : String) : Option FieldValue :=
    if Fields.has literals name then none else FieldValue.of? none (some code)
  have split : fieldValues literals bound =
      (literals.filterMap fun entry => (given entry.1 entry.2).map fun value => (entry.1, value)) ++
        bound.filterMap fun entry => (free entry.1 entry.2).map fun value => (entry.1, value) := by
    rw [fieldValues]
    congr 2
    funext entry
    dsimp only [free]
    split <;> rfl
  rw [split, Fields.get?_ofEntries_append, Fields.ofEntries_of_distinct (Fields.distinct_convert h),
    Fields.ofEntries_of_distinct (Fields.distinct_convert h'), Fields.get?_convert h,
    Fields.get?_convert h']
  cases found : Fields.get? literals key with
  | some value =>
    have has : Fields.has literals key = true := by rw [Fields.has, found]; rfl
    have overridden : (Fields.get? bound key).bind (free key) = none := by
      cases Fields.get? bound key with
      | none => rfl
      | some code => exact if_pos has
    rw [overridden]
    rfl
  | none =>
    have has : Fields.has literals key = false := by rw [Fields.has, found]; rfl
    cases Fields.get? bound key with
    | none => rfl
    | some code =>
      have made : free key code = FieldValue.of? none (some code) := if_neg (by simp [has])
      rw [Option.bind_some, made, Option.bind_none, Option.or_none]

section within

variable {bindings : Fields String}

theorem sublist_within (space : Namespace) (bindings : Fields String) :
    ((Fields.names (within space bindings)).map space.path).Sublist (Fields.names bindings) := by
  induction bindings with
  | nil => exact List.Sublist.slnil
  | cons entry bindings ih =>
    rw [within_cons]
    cases found : space.key? entry.1 with
    | none => exact ih.cons _
    | some key =>
      have head : space.path key = entry.1 := (Namespace.key?_eq_some_iff.mp found).1.symm
      rw [Fields.names_cons, ← head]
      exact ih.cons_cons _

theorem distinct_within (h : Fields.Distinct bindings) (space : Namespace) :
    Fields.Distinct (within space bindings) :=
  List.Nodup.of_map _ (List.Nodup.sublist (sublist_within space bindings) h)

theorem get?_within (h : Fields.Distinct bindings) (space : Namespace) (key : String) :
    Fields.get? (within space bindings) key =
      if key = "" then none else Fields.get? bindings (space.path key) := by
  apply Option.ext
  intro code
  rw [Fields.get?_eq_some_iff (distinct_within h space), within, List.mem_filterMap]
  simp only [Option.map_eq_some_iff, Prod.mk.injEq, Namespace.key?_eq_some_iff,
    Option.ite_none_left_eq_some]
  constructor
  · rintro ⟨⟨path, _⟩, member, name, ⟨whole, filled⟩, rfl, rfl⟩
    dsimp only at whole
    subst whole
    exact ⟨filled, (Fields.get?_eq_some_iff h).mpr member⟩
  · rintro ⟨filled, found⟩
    exact ⟨_, Fields.mem_of_get? found, key, ⟨rfl, filled⟩, rfl, rfl⟩

end within

namespace Element

def expressions (element : Element) : Fields String :=
  prefer element.bindings element.code.bindings

/-- The expression that is bound to a key, if there is code in it. A path without a key
means nothing. -/
def boundAt? (element : Element) (space : Namespace) (key : String) : Option String :=
  if key = "" then none
  else (Fields.get? element.expressions (space.path key)).filter fun code =>
    !Text.isBlankText code

/-- The handlers of an element by event: those that are bound, with those under `actions` in
place of them, and with those among the code in place of both. -/
def eventHandlers (element : Element) : Fields String :=
  Fields.merge (Fields.merge (within .actions element.expressions) element.actions)
    element.code.actions

/-- Whether an option holds a slot, or the groups of the component. -/
def isStructural (settings : ImportSettings) (element : Element) (key : String) : Bool :=
  (Fields.get? element.options key).any fun value =>
    !isPlainOption (Grouping.of? (element.nodeName settings)) (key, value)

/-- What an element gives for a field of its node: the first that there is of a handler, a
bound property, a literal property, and, unless an option of that name holds nodes, a bound
option and a literal option. -/
def source? (settings : ImportSettings) (element : Element) (key : String) : Option FieldValue :=
  ((handlerOf? element.eventHandlers key).map .bound).or <|
    ((element.boundAt? .properties key).map .bound).or <|
    ((Fields.get? (element.properties.getD []) key).map .ofLiteral).or <|
    if element.isStructural settings key then none
    else
      ((element.boundAt? .options key).map .bound).or
        ((Fields.get? element.options key).map .ofLiteral)

variable {settings : ImportSettings} {element : Element}

theorem distinct_expressions (keyed : element.Keyed) : Fields.Distinct element.expressions :=
  keyed.bindings.merge _

theorem fieldsIn_bound (keyed : element.Keyed) (space : Namespace) (style : space ≠ .style)
    (responsive : space ≠ .responsiveStyles) :
    element.bound.fieldsIn space = within space element.expressions :=
  Bound.fieldsIn_of (distinct_within (distinct_expressions keyed) space) style responsive

theorem handlers_eq_eventHandlers (keyed : element.Keyed) :
    element.handlers element.bound = element.eventHandlers := by
  have bound : element.bound.actions = within .actions element.expressions :=
    fieldsIn_bound keyed .actions nofun nofun
  have distinct := distinct_within (distinct_expressions keyed) .actions
  rw [handlers, bound, eventHandlers, Fields.merge_assoc distinct keyed.actions, prefer]

theorem filter_get?_within (keyed : element.Keyed) (space : Namespace) (key : String) :
    ((Fields.get? (within space element.expressions) key).filter fun code =>
      !Text.isBlankText code) = element.boundAt? space key := by
  rw [get?_within (distinct_expressions keyed), boundAt?]
  split <;> rfl

theorem get?_propertyFields (keyed : element.Keyed) (key : String) :
    Fields.get? (Fields.ofEntries (element.propertyFields element.bound)) key =
      ((element.boundAt? .properties key).map .bound).or
        ((Fields.get? (element.properties.getD []) key).map .ofLiteral) := by
  have bound : element.bound.properties = within .properties element.expressions :=
    fieldsIn_bound keyed .properties nofun nofun
  have literals : Fields.Distinct (element.properties.getD []) := by
    cases given : element.properties with
    | none => exact Fields.distinct_nil
    | some members => exact (Json.isSettled_object.mp (keyed.properties members given)).1
  rw [propertyFields, bound,
    get?_fieldValues literals (distinct_within (distinct_expressions keyed) _),
    FieldValue.of?_eq, filter_get?_within keyed]

theorem distinct_options (keyed : element.Keyed) : Fields.Distinct element.options := by
  rw [options]
  cases given : element.component with
  | none => exact Fields.distinct_nil
  | some use => exact (Json.isSettled_object.mp (keyed.options use given)).1

theorem get?_optionFields (keyed : element.Keyed) {parts : OptionParts}
    (plain : parts.plain = element.plainOptions settings) (key : String) :
    Fields.get? (Fields.ofEntries (element.optionFields element.bound parts)) key =
      if element.isStructural settings key then none
      else
        ((element.boundAt? .options key).map .bound).or
          ((Fields.get? element.options key).map .ofLiteral) := by
  have bound : element.bound.options = within .options element.expressions :=
    fieldsIn_bound keyed .options nofun nofun
  have distinct := distinct_options keyed
  have literals : Fields.Distinct parts.plain := by
    rw [plain]
    exact distinct.filter _
  have given : Fields.get? parts.plain key = (Fields.get? element.options key).filter fun value =>
      isPlainOption (Grouping.of? (element.nodeName settings)) (key, value) := by
    rw [plain, plainOptions]
    apply Option.ext
    intro value
    rw [Fields.get?_eq_some_iff (distinct.filter _), List.mem_filter, Option.filter_eq_some_iff,
      Fields.get?_eq_some_iff distinct]
  have kept := Fields.filter_merge
    (fun name => Fields.has parts.plain name || !Fields.has element.options name) []
    (fieldValues parts.plain element.bound.options)
  rw [optionFields, Fields.ofEntries, ← List.filter_nil, ← kept, ← Fields.ofEntries,
    Fields.get?_filter
      fun name => Fields.has parts.plain name || !Fields.has element.options name,
    bound, get?_fieldValues literals (distinct_within (distinct_expressions keyed) _),
    FieldValue.of?_eq, filter_get?_within keyed, Fields.has, Fields.has, given, isStructural]
  cases Fields.get? element.options key with
  | none => rfl
  | some value =>
    rw [Option.filter_some, Option.any_some]
    cases isPlainOption (Grouping.of? (element.nodeName settings)) (key, value) <;> rfl

/-- Before its styles are added, the node for an element has in each field what comes last in
the order of the passes. -/
theorem exists_unstyled (settings : ImportSettings) (element : Element) (parts : OptionParts)
    (children : List Node) :
    ∃ unstyled, element.body settings parts children = addStyles element element.bound unstyled ∧
      ∀ key, unstyled.HasField key
        (((handlerOf? (element.handlers element.bound) key).map .bound).or <|
          if key = styleKey then none
          else
            (Fields.get? (Fields.ofEntries (element.propertyFields element.bound)) key).or
              (Fields.get? (Fields.ofEntries (element.optionFields element.bound parts)) key)) := by
  refine ⟨_, rfl, fun key => ?_⟩
  have start : ({ name := element.nodeName settings
                  slots := parts.slots
                  children := parts.groups ++ ownChildren (element.nodeName settings) children
                  metadata := element.identity } : Node).HasField key none := ⟨rfl, rfl⟩
  have options := hasField_addFields start styleOptionKey
    (element.optionFields element.bound parts)
  have properties := hasField_addFields options stylePropertyKey
    (element.propertyFields element.bound)
  have recorded := hasField_record properties element element.bound
    (element.propertyFields element.bound)
  have handled := hasField_addHandlers recorded (element.handlers element.bound)
  by_cases style : key = styleKey
  · simpa [style] using handled
  · simpa [style] using handled

/-- The node for an element has in each field what the element gives for it, and no other field: the
first of its sources, in the order of precedence. -/
theorem hasField_body (keyed : element.Keyed) {parts : OptionParts}
    (plain : parts.plain = element.plainOptions settings) (children : List Node) {key : String}
    (other : key ≠ styleKey) :
    (element.body settings parts children).HasField key (element.source? settings key) := by
  obtain ⟨unstyled, whole, fields⟩ := element.exists_unstyled settings parts children
  have styled := hasField_addStyles (fields key) other element element.bound
  rw [if_neg other, get?_optionFields keyed plain, get?_propertyFields keyed, Option.or_assoc,
    ← whole] at styled
  rw [source?, ← handlers_eq_eventHandlers keyed]
  exact styled

theorem handlerOf?_style (handlers : Fields String) : handlerOf? handlers styleKey = none := by
  apply handlerOf?_eq_none
  intro handler _ same
  have letters := congrArg String.toList same
  rw [Event.handlerName] at letters
  split at letters
  · exact absurd letters (by decide)
  · rw [String.toList_ofList] at letters
    cases (List.cons.inj letters).1

/-- The field for all styles has the styles of the element and nothing else, whatever options,
properties and expressions the element has under that name. -/
theorem hasField_style (settings : ImportSettings) (element : Element) (parts : OptionParts)
    (children : List Node) :
    (element.body settings parts children).HasField styleKey
      ((Style.merge (element.styles.getD []) element.bound.styles).map fun merged =>
        .bound merged.code) := by
  obtain ⟨unstyled, whole, fields⟩ := element.exists_unstyled settings parts children
  have bare : unstyled.HasField styleKey none := by
    have field := fields styleKey
    rwa [handlerOf?_style, if_pos rfl] at field
  rw [whole, addStyles]
  cases Style.merge (element.styles.getD []) element.bound.styles with
  | none => exact bare
  | some merged =>
    have written := bare.setField styleKey (.bound merged.code)
    rw [if_pos rfl] at written
    exact written.congr rfl rfl

end Element

/-- Every field of the node for an element has one source, and comes from the first one that
there is. The field for all styles has the styles of the element, and no other field of that
name appears. -/
theorem fields_of_importElement {settings : ImportSettings} {path : Path} {element : Element}
    {node : Node} (keyed : element.Keyed) (h : importElement settings path element = .ok node) :
    ∃ body, node = element.repeated body ∧
      (∀ key, key ≠ styleKey →
        Fields.get? body.properties key = literalOf? (element.source? settings key) ∧
          Fields.get? body.bindings key = bindingOf? (element.source? settings key)) ∧
      Fields.get? body.properties styleKey = none ∧
      Fields.get? body.bindings styleKey =
        (Style.merge (element.styles.getD []) element.bound.styles).map fun merged =>
          .expression merged.code := by
  obtain ⟨parts, children, rfl, plain⟩ := body_of_importElement h
  have style := element.hasField_style settings parts children
  refine ⟨_, rfl, fun key other => ?_, ?_, ?_⟩
  · have field := Element.hasField_body keyed plain children other
    exact ⟨field.literal, field.binding⟩
  · rw [style.literal]
    cases Style.merge (element.styles.getD []) element.bound.styles <;> rfl
  · rw [style.binding]
    cases Style.merge (element.styles.getD []) element.bound.styles <;> rfl

/-- A link whose fields are given several times: a handler under two spellings of its event
and as an option, an address that is bound to nothing, a label that is bound and literal, and
a title between marks. -/
def overriddenLink : Element :=
  { component := some
      { name := "Link"
        options := [("label", .string "old"), ("onClick", .string "none"), ("size", .ofInt 2)] }
    properties := some
      [("href", .string "/home"), ("title", .string "\x7b\x7b state.title \x7d\x7d")]
    bindings :=
      [("actions.click", "open()"), ("properties.href", " "),
        ("component.options.label", "state.label"), ("component.options.title", "state.other")]
    actions := [("Click", "save()"), ("click", "")]
    code := { bindings := [("component.options.label", "label()")] } }

theorem fields_of_overriddenLink :
    overriddenLink.Keyed ∧ ∃ node body, importElement {} "" overriddenLink = .ok node ∧
      node = overriddenLink.repeated body ∧
      Fields.get? body.bindings "onClick" = some (.expression "save()") ∧
      Fields.get? body.properties "onClick" = none ∧
      Fields.get? body.properties "href" = some (.string "/home") ∧
      Fields.get? body.bindings "label" = some (.expression "label()") ∧
      Fields.get? body.bindings "title" = some (.expression "state.title") ∧
      Fields.get? body.properties "size" = some (.ofInt 2) ∧
      Fields.get? body.bindings styleKey = none := by
  have keyed : overriddenLink.Keyed := Element.keyed_of_isKeyed _ (by decide)
  obtain ⟨node, imported⟩ := (@importElement_ok_iff {} "" overriddenLink).mpr <| by
    refine .intro _ ?_ nofun
    intro entry member
    refine .plain rfl ?_
    intro items list
    simp only [overriddenLink, Element.options, Option.map_some, Option.getD_some,
      List.mem_cons, List.not_mem_nil, or_false] at member
    rcases member with rfl | rfl | rfl <;> cases list
  obtain ⟨body, repeated, fields, -, style⟩ := fields_of_importElement keyed imported
  have click := fields "onClick" (by decide)
  exact ⟨keyed, node, body, imported, repeated, click.2, click.1, (fields "href" (by decide)).1,
    (fields "label" (by decide)).2, (fields "title" (by decide)).2,
    (fields "size" (by decide)).1, style⟩

def keylessPath : Element :=
  { tagName := some "p", bindings := [("properties.", "x")] }

/-- An expression under the path of the empty key is dropped, though nothing else is given
for that field: such a path has no key. -/
theorem keylessPath_dropped :
    keylessPath.Keyed ∧
      Fields.get? keylessPath.expressions (Namespace.properties.path "") = some "x" ∧
      Text.isBlankText "x" = false ∧ handlerOf? keylessPath.eventHandlers "" = none ∧
      ∃ body, importElement {} "" keylessPath = .ok (keylessPath.repeated body) ∧
        Fields.get? body.bindings "" = none := by
  have keyed : keylessPath.Keyed := Element.keyed_of_isKeyed _ (by decide)
  obtain ⟨node, imported⟩ := (@importElement_ok_iff {} "" keylessPath).mpr
    (.intro _ nofun nofun)
  obtain ⟨parts, children, rfl, plain⟩ := body_of_importElement imported
  have other : "" ≠ styleKey := by decide
  have field := Element.hasField_body keyed plain children other
  exact ⟨keyed, by decide, by decide, by decide, _, imported, field.binding⟩

end Content

end BlockLoom
