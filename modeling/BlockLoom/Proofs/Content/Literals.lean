import BlockLoom.Proofs.Content.GroupRoundTrip
import BlockLoom.Proofs.Content.Slots

/-!
Literal fields after export and import. A field that is no binding is written
nowhere else: no path, handler or style of the exported element has its name. So a
literal comes back as it was unless the import reads it as something else, which it
does with texts that are one marked expression and with lists of elements.
-/

namespace BlockLoom

/-! ## Paths of styles -/

namespace Style

/-- Whether a path is one under which the styles of an element are bound. -/
def IsPath (path : String) : Prop :=
  ∃ key, path = Content.Namespace.style.path key ∨
    path = Content.Namespace.responsiveStyles.path key

theorem isPath_basePath (key : String) : IsPath (basePath key) := by
  refine ⟨key, .inl ?_⟩
  unfold basePath Content.Namespace.path
  rfl

theorem isPath_responsivePath (breakpoint : Breakpoint) (key : String) :
    IsPath (responsivePath breakpoint key) := by
  refine ⟨breakpoint.bucket ++ "." ++ key, .inr ?_⟩
  unfold responsivePath Content.Namespace.path Content.Namespace.beginning
  simp only [String.append_assoc]

/-- What taking styles apart keeps: every expression is bound under a path of styles. -/
def Parts.Styled (parts : Parts) : Prop :=
  ∀ path ∈ Fields.names parts.bindings, IsPath path

theorem Parts.Styled.addBinding {parts : Parts} (h : parts.Styled) {path : String}
    (style : IsPath path) (code : String) : (parts.addBinding path code).Styled := by
  intro other member
  rcases Fields.mem_names_put.mp member with rfl | there
  · exact style
  · exact h other there

theorem Parts.Styled.addResponsive {parts : Parts} (h : parts.Styled) (recorded : Option Json)
    (breakpoint : Breakpoint) (entry : Script.Entry) :
    (parts.addResponsive recorded breakpoint entry).Styled := by
  unfold Parts.addResponsive
  split
  · split
    · exact h
    · dsimp only
      split
      · exact h
      · exact h.addBinding (isPath_responsivePath _ _) _
  · exact h

theorem Parts.Styled.add {parts : Parts} (h : parts.Styled) (recorded : Option Json)
    (entry : Script.Entry) : (parts.add recorded entry).Styled := by
  unfold Parts.add
  split
  · split
    · exact List.foldlRecOn _ _ h fun parts styled entry _ => styled.addResponsive recorded _ entry
    · split
      · exact h
      · split
        · exact h
        · exact h.addBinding (isPath_basePath _) _
  · exact h

theorem styled_split (code : String) (recorded : Option Json) : (split code recorded).Styled :=
  List.foldlRecOn _ _ nofun fun _ styled entry _ => styled.add recorded entry

end Style

namespace Content

variable {settings : ImportSettings}

/-! ## What is bound on an exported element -/

theorem mem_names_restoreBound {space : Namespace} {kept : Option FieldValue}
    {bindings : Fields String} {path : String}
    (h : path ∈ Fields.names (restoreBound space kept bindings)) :
    path = space.path styleKey ∨ path ∈ Fields.names bindings := by
  unfold restoreBound at h
  split at h
  · exact Fields.mem_names_put.mp h
  · exact .inr h

/-- Where the paths that are bound on an exported element come from: the styles, a
setting called `style`, or a binding of the node under its own name. -/
theorem path_of_boundElement {node : Node} {path : String}
    (h : path ∈ Fields.names (boundElement node).bindings) :
    Style.IsPath path ∨
      ∃ (space : Namespace) (key : String), (space = .options ∨ space = .properties) ∧
        path = space.path key ∧ (key = styleKey ∨ key ∈ Fields.names node.bindings) := by
  rw [boundElement_eq_merge] at h
  rcases Fields.mem_names_merge.mp h with restored | written
  · right
    rcases mem_names_restoreBound restored with rfl | restored
    · exact ⟨_, styleKey, .inr rfl, rfl, .inl rfl⟩
    · rcases mem_names_restoreBound restored with rfl | none
      · exact ⟨_, styleKey, .inl rfl, rfl, .inl rfl⟩
      · cases none
  · obtain ⟨code, member⟩ := Fields.mem_names.mp written
    obtain ⟨entry, stored, member⟩ := List.mem_flatMap.mp member
    rcases List.mem_append.mp member with style | own
    · left
      rw [stylesOf] at style
      split at style
      · exact Style.styled_split _ _ _ (Fields.mem_names_of_mem style)
      · cases style
    · right
      rw [pathOf] at own
      split at own
      · cases own
      · split at own
        · cases List.mem_singleton.mp own
          refine ⟨_, entry.1, ?_, rfl, .inr (Fields.mem_names_of_mem stored)⟩
          rw [fieldSpace]
          split <;> simp
        · cases own

theorem not_isPath {space : Namespace} (style : space ≠ .style)
    (responsive : space ≠ .responsiveStyles) (key : String) : ¬Style.IsPath (space.path key) := by
  rintro ⟨other, same | same⟩
  · exact style (Namespace.eq_of_path_eq same)
  · exact responsive (Namespace.eq_of_path_eq same)

/-- An action of an exported element is that of a handler of the node. -/
theorem handler_of_boundElement {node : Node} {event : String}
    (h : event ∈ Fields.names (boundElement node).actions) :
    Event.handlerName event ∈ Fields.names node.bindings := by
  rw [boundElement_eq_merge] at h
  obtain ⟨code, member⟩ := Fields.mem_names.mp (Fields.mem_names_ofEntries.mp h)
  obtain ⟨entry, stored, member⟩ := List.mem_flatMap.mp member
  rw [actionOf] at member
  split at member
  · next handled =>
    split at member
    · cases List.mem_singleton.mp member
      rw [Event.handlerName_of_ofHandler? handled]
      exact Fields.mem_names_of_mem stored
    · cases member
  · cases member

/-- What it means for an element to bind nothing to a field of its node. -/
structure Element.Unbound (element : Element) (key : String) : Prop where
  option : key ∉ Fields.names element.bound.options
  property : key ∉ Fields.names element.bound.properties
  handler : ∀ handler ∈ element.handlers element.bound, Event.handlerName handler.1 ≠ key

/-- The element for a node binds nothing but what the node binds, and styles. -/
theorem unbound_exportNode {node : Node} (loop : Loop.head? node = none) {key : String}
    (other : key ≠ styleKey) (free : key ∉ Fields.names node.bindings) :
    (exportNode node).Unbound key := by
  obtain ⟨bindings, actions, code, -⟩ :
      (exportNode node).bindings = (boundElement node).bindings ∧
      (exportNode node).actions = (boundElement node).actions ∧ (exportNode node).code = {} ∧ _ := by
    rw [exportNode_plain loop]
    exact frame_assemble node _
  have bound : (exportNode node).bound = Bound.of (boundElement node).bindings [] := by
    rw [Element.bound, bindings, code]
  have absent (space : Namespace) (style : space ≠ .style) (responsive : space ≠ .responsiveStyles)
      {name : String} (unset : name = key ∨ space = .actions) :
      name ∉ Fields.names ((exportNode node).bound.fieldsIn space) := by
    rw [bound, Bound.mem_names_fieldsIn_of style responsive]
    rintro ⟨-, member⟩
    rcases path_of_boundElement member with styled | ⟨place, found, known, same, named⟩
    · exact not_isPath style responsive _ styled
    · cases Namespace.eq_of_path_eq same
      cases Namespace.path_inj.mp same
      rcases unset with rfl | rfl
      · exact named.elim other free
      · simp at known
  refine ⟨absent .options nofun nofun (.inl rfl), absent .properties nofun nofun (.inl rfl), ?_⟩
  rintro ⟨event, handler⟩ member rfl
  have handled := Fields.mem_names_of_mem member
  rw [Element.handlers, code, Fields.mem_names_merge, actions] at handled
  rcases handled with bound | action
  · exact absent .actions nofun nofun (.inr rfl) bound
  · exact free (handler_of_boundElement action)

/-! ## The literal fields of a body -/

def literalOf? : Option FieldValue → Option Json
  | some (.literal value) => some value
  | _ => none

def Element.Handles (element : Element) (key : String) : Prop :=
  ∃ handler ∈ element.handlers element.bound,
    handler.1 ≠ "" ∧ Text.isBlankText handler.2 = false ∧ Event.handlerName handler.1 = key

theorem Element.Unbound.not_handles {element : Element} {key : String} (h : element.Unbound key) :
    ¬element.Handles key :=
  fun ⟨handler, member, _, _, named⟩ => h.handler handler member named

theorem get?_properties_addHandlers {node : Node} {handlers : Fields String} {key : String}
    (h : ∀ handler ∈ handlers, handler.1 ≠ "" → Text.isBlankText handler.2 = false →
      Event.handlerName handler.1 ≠ key) :
    Fields.get? (addHandlers node handlers).properties key = Fields.get? node.properties key := by
  refine List.foldlRecOn (motive := fun reached : Node =>
    Fields.get? reached.properties key = Fields.get? node.properties key) handlers _ rfl
    fun reached same handler member => ?_
  split
  · exact same
  · next written =>
    obtain ⟨named, filled⟩ : handler.1 ≠ "" ∧ Text.isBlankText handler.2 = false := by
      simpa using written
    change Fields.get? (Fields.remove reached.properties _) _ = _
    rw [Fields.get?_remove, if_neg (h handler member named filled).symm, same]

theorem get?_properties_addStyles (element : Element) (bound : Bound) (node : Node) {key : String}
    (other : key ≠ styleKey) :
    Fields.get? (addStyles element bound node).properties key =
      Fields.get? node.properties key := by
  rw [addStyles]
  split
  · change Fields.get? (Fields.remove node.properties styleKey) _ = _
    rw [Fields.get?_remove, if_neg other]
  · rfl

/-- A literal field of the node for an element is the literal that its options and its
properties give last, unless a handler has the name of the field. -/
theorem get?_properties_body {element : Element} {key : String} (other : key ≠ styleKey)
    (unhandled : ¬element.Handles key) (parts : OptionParts) (children : List Node) :
    Fields.get? (element.body settings parts children).properties key =
      literalOf? ((Fields.get? (Fields.ofEntries (element.propertyFields element.bound)) key).or
        (Fields.get? (Fields.ofEntries (element.optionFields element.bound parts)) key)) := by
  have recorded (node : Node) :
      (recordOptions element element.bound (recordProperties element
        (element.propertyFields element.bound) node)).properties = node.properties := by
    rw [recordOptions, recordProperties]
    dsimp only
    split <;> split <;> rfl
  have free : ∀ handler ∈ element.handlers element.bound, handler.1 ≠ "" →
      Text.isBlankText handler.2 = false → Event.handlerName handler.1 ≠ key :=
    fun handler member named filled same => unhandled ⟨handler, member, named, filled, same⟩
  rw [Element.body, get?_properties_addStyles _ _ _ other, get?_properties_addHandlers free,
    recorded, properties_addFields, properties_addFields, if_neg other, if_neg other]
  cases Fields.get? (Fields.ofEntries (element.propertyFields element.bound)) key with
  | some last => cases last <;> rfl
  | none =>
    cases Fields.get? (Fields.ofEntries (element.optionFields element.bound parts)) key with
    | some last => cases last <;> rfl
    | none => rfl

/-! ## Values of fields -/

section

variable {literals : Fields Json} {bound : Fields String} {key : String} {value : Json}

theorem mem_fieldValues (found : Fields.get? literals key = some value)
    (free : key ∉ Fields.names bound) (literal : IsLiteral value) :
    (key, .literal value) ∈ fieldValues literals bound := by
  rw [fieldValues, List.mem_append, List.mem_filterMap]
  refine .inl ⟨(key, value), Fields.mem_of_get? found, ?_⟩
  rw [Fields.get?_eq_none_iff.mpr free, FieldValue.of?_literal literal]
  rfl

theorem mem_names_fieldValues (h : key ∈ Fields.names (fieldValues literals bound)) :
    key ∈ Fields.names literals ∨ key ∈ Fields.names bound := by
  obtain ⟨found, member⟩ := Fields.mem_names.mp h
  rw [fieldValues, List.mem_append, List.mem_filterMap, List.mem_filterMap] at member
  rcases member with ⟨entry, stored, made⟩ | ⟨entry, stored, made⟩
  · obtain ⟨_, _, same⟩ := Option.map_eq_some_iff.mp made
    cases same
    exact .inl (Fields.mem_names_of_mem stored)
  · split at made
    · cases made
    · obtain ⟨_, _, same⟩ := Option.map_eq_some_iff.mp made
      cases same
      exact .inr (Fields.mem_names_of_mem stored)

theorem only_fieldValues (distinct : Fields.Distinct literals)
    (found : Fields.get? literals key = some value) (free : key ∉ Fields.names bound)
    (literal : IsLiteral value) :
    ∀ entry ∈ fieldValues literals bound, entry.1 = key → entry.2 = .literal value := by
  rintro ⟨name, given⟩ member rfl
  rw [fieldValues, List.mem_append, List.mem_filterMap, List.mem_filterMap] at member
  rcases member with ⟨entry, stored, made⟩ | ⟨entry, stored, made⟩
  · obtain ⟨read, value_read, same⟩ := Option.map_eq_some_iff.mp made
    cases same
    have again := (Fields.get?_eq_some_iff distinct).mpr stored
    cases found.symm.trans again
    rw [Fields.get?_eq_none_iff.mpr free, FieldValue.of?_literal literal] at value_read
    exact (Option.some.inj value_read).symm
  · split at made
    · cases made
    · obtain ⟨_, _, same⟩ := Option.map_eq_some_iff.mp made
      cases same
      exact absurd (Fields.mem_names_of_mem stored) free

end

theorem get?_properties_body_of_property {element : Element} {key : String} {value : Json}
    (other : key ≠ styleKey) (unbound : element.Unbound key) (literal : IsLiteral value)
    (distinct : Fields.Distinct (element.properties.getD []))
    (found : Fields.get? (element.properties.getD []) key = some value) (parts : OptionParts)
    (children : List Node) :
    Fields.get? (element.body settings parts children).properties key = some value := by
  have last : Fields.get? (Fields.ofEntries (element.propertyFields element.bound)) key =
      some (.literal value) :=
    Fields.get?_ofEntries_of_mem (mem_fieldValues found unbound.property literal)
      (only_fieldValues distinct found unbound.property literal)
  rw [get?_properties_body other unbound.not_handles, last]
  rfl

/-- A literal option of an element is a literal field of its node, unless a property
has its name. -/
theorem get?_properties_body_of_option {element : Element} {key : String} {value : Json}
    (other : key ≠ styleKey) (unbound : element.Unbound key) (literal : IsLiteral value)
    (absent : key ∉ Fields.names (element.properties.getD [])) {parts : OptionParts}
    (distinct : Fields.Distinct parts.plain) (found : Fields.get? parts.plain key = some value)
    (children : List Node) :
    Fields.get? (element.body settings parts children).properties key = some value := by
  have none : Fields.get? (Fields.ofEntries (element.propertyFields element.bound)) key = none := by
    rw [Fields.get?_eq_none_iff, Fields.mem_names_ofEntries]
    exact fun member => (mem_names_fieldValues member).elim absent unbound.property
  have plain : Fields.has parts.plain key = true :=
    Fields.has_iff.mpr (Fields.mem_names_of_mem (Fields.mem_of_get? found))
  have last : Fields.get? (Fields.ofEntries (element.optionFields element.bound parts)) key =
      some (.literal value) := by
    apply Fields.get?_ofEntries_of_mem
    · exact List.mem_filter.mpr ⟨mem_fieldValues found unbound.option literal, by simp [plain]⟩
    · intro entry member
      exact only_fieldValues distinct found unbound.option literal entry
        (List.mem_filter.mp member).1
  rw [get?_properties_body other unbound.not_handles, none, last]
  rfl

/-! ## Literals of exported nodes -/

theorem get?_restoreLiteral (kept : Option FieldValue) (literals : Fields Json) {key : String}
    (other : key ≠ styleKey) :
    Fields.get? (restoreLiteral kept literals) key = Fields.get? literals key := by
  unfold restoreLiteral
  split
  · rw [Fields.get?_put, if_neg (Ne.symm other)]
  · rfl

theorem get?_exportedProperties (node : Node) {key : String} (other : key ≠ styleKey) :
    Fields.get? (exportedProperties node) key =
      if isProperty node key then Fields.get? node.properties key else none := by
  rw [exportedProperties, get?_restoreLiteral _ _ other, Fields.get?_filter (isProperty node)]

theorem get?_exportedOptions (node : Node) {key : String} (other : key ≠ styleKey) :
    Fields.get? (exportedOptions node) key =
      if isProperty node key then none else Fields.get? node.properties key := by
  rw [exportedOptions, get?_restoreLiteral _ _ other,
    Fields.get?_filter fun key => !isProperty node key]
  cases isProperty node key <;> rfl

/-- Whether a literal field of a node is written where it is read as a literal: among
the properties, or as an option that no slot overwrites and that holds no elements. -/
def IsCarried (node : Node) (key : String) (value : Json) : Prop :=
  isProperty node key = true ∨
    node.isTag = false ∧ key ∉ Fields.names node.slots ∧ IsPlain value

/-- A literal field that is carried is a literal field of the imported node. -/
theorem get?_properties_of_importsTo {node imported : Node} (keyed : node.Keyed)
    (loop : Loop.head? node = none) (ungrouped : importedGrouping settings node.name = none)
    (h : (exportNode node).ImportsTo settings imported) {key : String} {value : Json}
    (other : key ≠ styleKey) (free : key ∉ Fields.names node.bindings)
    (found : Fields.get? node.properties key = some value) (literal : IsLiteral value)
    (carried : IsCarried node key value) :
    Fields.get? imported.properties key = some value := by
  have unbound := unbound_exportNode loop other free
  obtain ⟨parts, children, rfl, plain, -⟩ := body_of_importsTo (repetition_exportNode loop) h
  have properties : (exportNode node).properties.getD [] = exportedProperties node := by
    rw [exportNode_plain loop]
    exact (frame_assemble node _).2.2.2
  have given := get?_exportedProperties node other
  cases listed : isProperty node key with
  | true =>
    -- Properties are read last, so an option under the same name does not matter.
    rw [listed, if_pos rfl, found, ← properties] at given
    apply get?_properties_body_of_property other unbound literal _ given
    rw [properties]
    exact (Json.isSettled_object.mp (isSettled_exportedProperties keyed)).1
  | false =>
    obtain ⟨component, unslotted, list⟩ := carried.resolve_left (by simp [listed])
    rw [listed, if_neg Bool.false_ne_true, ← properties] at given
    have distinct := distinct_options_exportNode keyed component loop
    have option : Fields.get? (exportNode node).options key = some value := by
      rw [get?_options_exportNode keyed component loop (grouping_of_imported ungrouped),
        Fields.get?_eq_none_iff.mpr unslotted, get?_exportedOptions node other, listed]
      exact found
    rw [Element.plainOptions, grouping_exportNode keyed component loop ungrouped] at plain
    have separate : Fields.Distinct parts.plain := plain ▸ distinct.filter _
    refine get?_properties_body_of_option other unbound literal
      (Fields.get?_eq_none_iff.mp given) separate ?_ children
    rw [Fields.get?_eq_some_iff separate, plain, List.mem_filter]
    exact ⟨(Fields.get?_eq_some_iff distinct).mp option,
      isPlainOption_of_isPlain (claims_none key) list⟩

/-- A native tag comes back without slots. -/
theorem slots_of_tag {node imported : Node} (keyed : node.Keyed) (loop : Loop.head? node = none)
    (tag : node.isTag = true) (h : (exportNode node).ImportsTo settings imported) :
    imported.slots = [] := by
  obtain ⟨parts, children, rfl, -, slots⟩ := body_of_importsTo (repetition_exportNode loop) h
  have options : (exportNode node).options = [] := by
    rw [exportNode_plain loop]
    exact (assemble_tag keyed tag _).1
  rw [options, List.filter_nil, List.forall₂_nil_left_iff] at slots
  rw [(frame_body settings _ parts children).2.1, slots]

/-- A literal field that is carried gives the imported node no slot. -/
theorem slot_of_importsTo {node imported : Node} (keyed : node.Keyed)
    (loop : Loop.head? node = none) (ungrouped : importedGrouping settings node.name = none)
    (h : (exportNode node).ImportsTo settings imported) {key : String} {value : Json}
    (other : key ≠ styleKey) (found : Fields.get? node.properties key = some value)
    (carried : IsCarried node key value) (slot : key ∈ Fields.names imported.slots) :
    key ∈ Fields.names node.slots := by
  cases tag : node.isTag with
  | true =>
    rw [slots_of_tag keyed loop tag h] at slot
    cases slot
  | false =>
    by_contra unslotted
    rw [names_of_slotOf (slots_of_importsTo keyed tag loop ungrouped h),
      mem_names_slotOptions (distinct_options_exportNode keyed tag loop)] at slot
    obtain ⟨list, option, marked⟩ := slot
    rw [get?_options_exportNode keyed tag loop (grouping_of_imported ungrouped),
      Fields.get?_eq_none_iff.mpr unslotted, get?_exportedOptions node other] at option
    rcases carried with listed | ⟨-, -, plain⟩
    · simp [listed] at option
    · rw [Option.map_none, Option.none_or] at option
      split at option
      · cases option
      · cases found.symm.trans option
        exact marked plain

/-! ## Components with one node -/

/-- The export of a component with one node can be imported just if the node is
exportable, and then every literal field that is carried and is no marked expression
comes back as the literal it was: it is neither bound nor made a slot. -/
theorem literals_toComponent_ofComponent {writing : ExportSettings} {component : Component}
    {node : Node} (single : component.children = [node]) (keyed : node.isKeyed = true)
    (valid : component.check = .ok ()) (named : node.name ≠ Loop.wrapperName)
    (ungrouped : importedGrouping settings node.name = none) :
    ((∃ result, toComponent settings (ofComponent writing component) = .ok result) ↔
      Exportable settings node) ∧
    ∀ result, toComponent settings (ofComponent writing component) = .ok result →
      ∃ imported, result.children = [imported] ∧
        ∀ key value, Fields.get? node.properties key = some value → key ≠ styleKey →
          IsLiteral value → IsCarried node key value →
          Fields.get? imported.properties key = some value ∧
            key ∉ Fields.names imported.bindings ∧
            (key ∈ Fields.names imported.slots → key ∈ Fields.names node.slots) := by
  have maps := Node.keyed_of_isKeyed keyed
  have loop := head?_eq_none named
  have apart : node.Apart := by
    rw [Component.check_ok_iff, single, List.forall_mem_singleton, Node.all_iff] at valid
    exact valid.1.1
  refine ⟨toComponent_single_ok_iff single keyed, fun result made => ?_⟩
  obtain ⟨imported, children, imports⟩ := toComponent_single single made
  refine ⟨imported, children, fun key value found other literal carried => ?_⟩
  have free := apart key (Fields.mem_names_of_mem (Fields.mem_of_get? found))
  have back := get?_properties_of_importsTo maps loop ungrouped imports other free found literal
    carried
  obtain ⟨parts, nodes, rfl, -, -⟩ := body_of_importsTo (repetition_exportNode loop) imports
  exact ⟨back, (single_body settings _ parts nodes).apart key
      (Fields.mem_names_of_mem (Fields.mem_of_get? back)),
    slot_of_importsTo maps loop ungrouped imports other found carried⟩

/-- A card with a title that is no single expression, a list of data, and a label that is
a property beside a slot of the same name. -/
def labelledCard : Component :=
  { name := "Shop"
    children :=
      [{ name := "Card"
         properties :=
           [("title", .string "from \x7b\x7b 5 \x7d\x7d"), ("sizes", .array [.ofInt 1, .null]),
            ("label", .string "new")]
         bindings := [("price", .expression "state.price"), ("onClick", .expression "open()")]
         slots := [("label", [{ name := "em" }])]
         metadata := [("builderProperties", .array [.string "label"])] }] }

theorem labelledCard_literals :
    labelledCard.check = .ok () ∧ ∃ result imported,
      toComponent {} (ofComponent {} labelledCard) = .ok result ∧ result.children = [imported] ∧
      Fields.get? imported.properties "title" = some (.string "from \x7b\x7b 5 \x7d\x7d") ∧
      Fields.get? imported.properties "sizes" = some (.array [.ofInt 1, .null]) ∧
      "sizes" ∉ Fields.names imported.slots ∧
      Fields.get? imported.properties "label" = some (.string "new") ∧
      "label" ∉ Fields.names imported.bindings := by
  have em : Exportable {} { name := "em" } := by
    rw [exportable_iff, Node.isTag]
    trivial
  obtain ⟨importable, literals⟩ := @literals_toComponent_ofComponent {} {} labelledCard _ rfl
    (by decide) rfl (by decide) rfl
  obtain ⟨result, made⟩ := importable.mpr <| by
    refine (exportable_iff _).mpr ⟨?_, ⟨fun _ => ⟨em, trivial⟩, trivial⟩, trivial⟩
    intro entry member _
    rcases List.mem_pair.mp member with rfl | rfl
    · exact .plain rfl (by rintro items ⟨⟩)
    · exact .plain rfl (by rintro items ⟨⟩; rfl)
  obtain ⟨imported, children, back⟩ := literals result made
  have title := back "title" _ rfl (by decide) rfl
    (.inr ⟨rfl, by decide, by rintro items ⟨⟩⟩)
  have sizes := back "sizes" _ rfl (by decide) rfl
    (.inr ⟨rfl, by decide, by rintro items ⟨⟩; rfl⟩)
  have label := back "label" _ rfl (by decide) rfl (.inl (by decide))
  exact ⟨rfl, result, imported, made, children, title.1, sizes.1,
    fun slot => absurd (sizes.2.2 slot) (by decide), label.1, label.2.1⟩

/-- A card with a title that is nothing but one expression in marks. -/
def markedTitle : Component :=
  { name := "MyComponent"
    children :=
      [{ name := "Card", properties := [("title", .string "\x7b\x7b state.title \x7d\x7d")] }] }

/-- A literal text that is one marked expression does not come back as a literal. -/
theorem markedTitle_lost :
    markedTitle.check = .ok () ∧ markedTitle.isKeyed = true ∧ ∃ result imported,
      toComponent {} (ofComponent {} markedTitle) = .ok result ∧ result.children = [imported] ∧
      Fields.get? imported.properties "title" = none := by
  obtain ⟨result, made⟩ : ∃ result, toComponent {} (ofComponent {} markedTitle) = .ok result := by
    refine (toComponent_single_ok_iff rfl (by decide)).mpr ?_
    refine (exportable_iff _).mpr ⟨?_, trivial, trivial⟩
    intro entry member _
    cases List.mem_singleton.mp member
    exact .plain rfl (by rintro items ⟨⟩)
  obtain ⟨imported, children, imports⟩ := toComponent_single rfl made
  obtain ⟨parts, nodes, rfl, plain, -⟩ := body_of_importsTo rfl imports
  refine ⟨rfl, by decide, result, _, made, children, ?_⟩
  rw [get?_properties_body (by decide)
    (unbound_exportNode rfl (by decide) (by decide)).not_handles, Element.optionFields, plain]
  decide

end Content

end BlockLoom
