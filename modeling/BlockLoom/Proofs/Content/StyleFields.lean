import BlockLoom.Proofs.Content.Bindings

/-!
Options and properties called `style` after import and export. The field of that name is the one
expression for all styles of a node, so an option or a property of the same name is kept in the
metadata and put back by the export. It meets the styles nowhere: what is written for these
depends on the styles alone. But a native tag is written without literal options, so that a
literal option is lost from a component that is called like a native tag.
-/

namespace BlockLoom.Content

/-! ## Fields of an element -/

def codeOf? : Option FieldValue → Option String
  | some (.bound code) => some code
  | _ => none

namespace Element

variable {settings : ImportSettings} {element : Element} {space : Namespace} {key : String}

def literals (element : Element) : Namespace → Fields Json
  | .options => element.options
  | .properties => element.properties.getD []
  | _ => []

/-- What an element gives for a field in a namespace: the expression that is bound to it, or the
literal, which may be a marked expression. -/
def field? (element : Element) (space : Namespace) (key : String) : Option FieldValue :=
  ((element.boundAt? space key).map .bound).or
    ((Fields.get? (element.literals space) key).map .ofLiteral)

/-- What it means for an element to hold a field in a namespace and in one form only: an
expression is bound, and a literal stands among the literals. -/
structure HoldsField (element : Element) (space : Namespace) (key : String)
    (value : Option FieldValue) : Prop where
  binding : Fields.get? element.bindings (space.path key) = codeOf? value
  literal : Fields.get? (element.literals space) key = literalOf? value

theorem collection?_eq (keyed : element.Keyed) :
    element.collection? settings =
      (element.field? .properties Loop.collectionKey).or
        (if element.isStructural settings Loop.collectionKey then none
          else element.field? .options Loop.collectionKey) := by
  have properties := get?_propertyFields keyed Loop.collectionKey
  have options := @get?_optionFields settings _ keyed { plain := element.plainOptions settings } rfl
    Loop.collectionKey
  rw [collection?, Fields.get?_ofEntries_append]
  exact congrArg₂ Option.or properties options

end Element

/-! ## What is kept and put back -/

section kept

variable {settings : ImportSettings} {element : Element} {parts : OptionParts}
  {children : List Node}

theorem get?_identity {entry : String} (other : entry ∉ [idKey, versionKey, layerNameKey]) :
    Fields.get? element.identity entry = none := by
  rw [Fields.get?_eq_none_iff, identity_eq]
  exact fun member => other (Json.mem_names_present member)

theorem keptStyle?_of_entry {node : Node} {entry : String} {value : Option FieldValue}
    (h : Fields.get? node.metadata entry = value.map fieldEntry) :
    keptStyle? node entry = value := by
  rw [keptStyle?, h]
  cases value with
  | none => rfl
  | some value => cases value <;> rfl

/-- A body keeps what its element gives for a property called `style`. -/
theorem keptStyle?_property (keyed : element.Keyed) :
    keptStyle? (element.body settings parts children) stylePropertyKey =
      element.field? .properties styleKey := by
  apply keptStyle?_of_entry
  rw [get?_metadata_body (by decide), get?_metadata_recordOptions _ _ (by decide),
    get?_metadata_recordProperties _ _ (by decide), Element.filled, get?_metadata_addFields,
    if_pos rfl, get?_metadata_addFields, if_neg (by decide), get?_identity (by decide),
    Option.or_none, Element.get?_propertyFields keyed]
  rfl

/-- A body keeps what its element gives for an option called `style` that is no slot. -/
theorem keptStyle?_option (keyed : element.Keyed)
    (plain : parts.plain = element.plainOptions settings)
    (free : element.isStructural settings styleKey = false) :
    keptStyle? (element.body settings parts children) styleOptionKey =
      element.field? .options styleKey := by
  apply keptStyle?_of_entry
  rw [get?_metadata_body (by decide), get?_metadata_recordOptions _ _ (by decide),
    get?_metadata_recordProperties _ _ (by decide), Element.filled, get?_metadata_addFields,
    if_neg (by decide), get?_metadata_addFields, if_pos rfl, get?_identity (by decide),
    Option.or_none, Element.get?_optionFields keyed plain, free]
  rfl

end kept

section restored

variable {node : Node}

theorem get?_restoreBound (space : Namespace) (kept : Option FieldValue) (bindings : Fields String)
    (path : String) :
    Fields.get? (restoreBound space kept bindings) path =
      (if space.path styleKey = path then codeOf? kept else none).or
        (Fields.get? bindings path) := by
  match kept with
  | none => simp [restoreBound, codeOf?]
  | some (.literal _) => simp [restoreBound, codeOf?]
  | some (.bound code) =>
    rw [restoreBound, Fields.get?_put]
    split <;> rfl

theorem get?_restoreLiteral_style (kept : Option FieldValue) (literals : Fields Json) :
    Fields.get? (restoreLiteral kept literals) styleKey =
      (literalOf? kept).or (Fields.get? literals styleKey) := by
  match kept with
  | none => rfl
  | some (.bound _) => rfl
  | some (.literal value) => exact (Fields.get?_put _ _ _ _).trans (if_pos rfl)

/-- What is bound on the element for a node under the path of a field called `style` is the
setting that the node keeps. -/
theorem get?_stylePath_exportNode (loop : Loop.head? node = none) :
    Fields.get? (exportNode node).bindings (Namespace.properties.path styleKey) =
        codeOf? (keptStyle? node stylePropertyKey) ∧
      Fields.get? (exportNode node).bindings (Namespace.options.path styleKey) =
        codeOf? (keptStyle? node styleOptionKey) := by
  have unwritten (space : Namespace) (style : space ≠ .style)
      (responsive : space ≠ .responsiveStyles) :
      Fields.get? (Fields.ofEntries (writtenPaths node node.bindings)) (space.path styleKey) =
        none := by
    rw [Fields.get?_eq_none_iff, Fields.mem_names_ofEntries]
    intro member
    obtain ⟨code, stored⟩ := Fields.mem_names.mp member
    obtain ⟨_, _, written, _⟩ := (mem_writtenPaths style responsive).mp stored
    exact (isWritten_iff.mp written).1 rfl
  have apart : Namespace.properties.path styleKey ≠ Namespace.options.path styleKey := by decide
  rw [(frame_exportNode loop).1, boundElement_eq_merge]
  dsimp only
  constructor
  · rw [Fields.get?_merge_ofEntries, unwritten .properties nofun nofun, get?_restoreBound,
      get?_restoreBound, if_pos rfl, if_neg apart.symm]
    simp
  · rw [Fields.get?_merge_ofEntries, unwritten .options nofun nofun, get?_restoreBound,
      get?_restoreBound, if_pos rfl, if_neg apart]
    simp

theorem get?_exportedProperties_style (unset : Fields.get? node.properties styleKey = none) :
    Fields.get? (exportedProperties node) styleKey =
      literalOf? (keptStyle? node stylePropertyKey) := by
  rw [exportedProperties, get?_restoreLiteral_style,
    Fields.get?_filter fun key => isProperty node key, unset, ite_self, Option.or_none]

theorem get?_exportedOptions_style (unset : Fields.get? node.properties styleKey = none) :
    Fields.get? (exportedOptions node) styleKey =
      literalOf? (keptStyle? node styleOptionKey) := by
  rw [exportedOptions, get?_restoreLiteral_style,
    Fields.get?_filter fun key => !isProperty node key, unset, ite_self, Option.or_none]

/-- The literal option called `style` of the element for a node without a slot of that name: none
for a tag, and else the setting that the node keeps. -/
theorem get?_options_style (loop : Loop.head? node = none)
    (unset : Fields.get? node.properties styleKey = none)
    (unslotted : styleKey ∉ Fields.names node.slots) (distinct : Fields.Distinct node.slots) :
    Fields.get? (exportNode node).options styleKey =
      if node.isTag then none else literalOf? (keptStyle? node styleOptionKey) := by
  have free : Fields.get? (exportSlots node.slots) styleKey = none := by
    rw [Fields.get?_eq_none_iff, names_exportSlots]
    exact unslotted
  have separate : Fields.Distinct (exportSlots node.slots) := by
    rw [Fields.Distinct, names_exportSlots]
    exact distinct
  cases tag : node.isTag with
  | true =>
    have component := (kind_exportNode loop).2
    rw [tag, if_pos rfl, Option.map_eq_none_iff] at component
    rw [Element.options, component]
    rfl
  | false =>
    have replaced (grouping : Grouping) : grouping.optionKey ≠ styleKey := by
      cases grouping <;> decide
    rw [if_neg Bool.false_ne_true, exportNode_plain loop, Element.options, use_assemble tag,
      ← get?_exportedOptions_style unset]
    split
    all_goals
      simp only [Option.map_some, Option.getD_some]
      rw [get?_writtenOptions node separate, free]
      simp [replaced]

end restored

/-! ## Styles -/

section styles

variable {node : Node} {bindings : Fields Binding} {path : String}

theorem not_isPath_field {space : Namespace} (known : space = .options ∨ space = .properties)
    (key : String) : ¬Style.IsPath (space.path key) := by
  rcases known with rfl | rfl
  · exact not_isPath (by decide) (by decide) key
  · exact not_isPath (by decide) (by decide) key

theorem fieldSpace_known (node : Node) (key : String) :
    fieldSpace node key = .options ∨ fieldSpace node key = .properties := by
  rw [fieldSpace]
  split <;> simp

theorem foldl_addStylesOf_eq (node : Node) (distinct : Fields.Distinct bindings)
    (styles : Option Style.Literals) :
    bindings.foldl (addStylesOf node) styles =
      match Fields.get? bindings styleKey with
      | some binding => addStylesOf node styles (styleKey, binding)
      | none => styles := by
  induction bindings generalizing styles with
  | nil => rfl
  | cons entry bindings ih =>
    obtain ⟨key, binding⟩ := entry
    obtain ⟨fresh, rest⟩ := Fields.distinct_cons.mp distinct
    rw [List.foldl_cons, Fields.get?_cons]
    by_cases style : key = styleKey
    · subst style
      rw [if_pos rfl, foldl_addStylesOf node _ fresh]
    · have same : addStylesOf node styles (key, binding) = styles := by
        rw [addStylesOf, stylesOf, if_neg style]
        rfl
      rw [if_neg style, same, ih rest]

/-- What is written under the path of a style comes from the binding for all styles. -/
theorem get?_writtenPaths_style (style : Style.IsPath path) (distinct : Fields.Distinct bindings) :
    Fields.get? (Fields.ofEntries (writtenPaths node bindings)) path =
      (Fields.get? bindings styleKey).bind fun binding =>
        Fields.get? (Fields.ofEntries (stylesOf node (styleKey, binding)).bindings) path := by
  induction bindings with
  | nil => rfl
  | cons entry bindings ih =>
    obtain ⟨key, binding⟩ := entry
    obtain ⟨fresh, rest⟩ := Fields.distinct_cons.mp distinct
    have own : Fields.get? (Fields.ofEntries (pathOf node (key, binding))) path = none := by
      rw [Fields.get?_eq_none_iff, Fields.mem_names_ofEntries, pathOf]
      intro member
      split at member
      · cases member
      · split at member
        · rw [List.mem_singleton.mp member] at style
          exact not_isPath_field (fieldSpace_known node key) key style
        · cases member
    have whole : writtenPaths node ((key, binding) :: bindings) =
        ((stylesOf node (key, binding)).bindings ++ pathOf node (key, binding)) ++
          writtenPaths node bindings := rfl
    rw [whole, Fields.get?_ofEntries_append, Fields.get?_ofEntries_append, own, Option.none_or,
      ih rest, Fields.get?_cons]
    by_cases all : key = styleKey
    · subst all
      rw [Fields.get?_eq_none_iff.mpr fresh, if_pos rfl]
      rfl
    · rw [stylesOf, if_neg all, if_neg all]
      exact Option.or_none

theorem styles_exportNode (loop : Loop.head? node = none) :
    (exportNode node).styles = node.bindings.foldl (addStylesOf node) none := by
  rw [exportNode_plain loop]
  unfold assemble
  rw [boundElement_eq_merge]
  dsimp only
  split <;> rfl

/-- What the styles of an element are taken apart into once they have been merged. -/
def Element.styleParts? (element : Element) : Option Style.Parts :=
  (Style.merge (element.styles.getD []) element.bound.styles).map fun merged =>
    Style.split merged.code (some merged.recorded)

variable {settings : ImportSettings} {element : Element} {parts : OptionParts}
  {children : List Node}

theorem stylesOf_body {merged : Style.Merged}
    (h : Style.merge (element.styles.getD []) element.bound.styles = some merged) :
    stylesOf (element.body settings parts children) (styleKey, .expression merged.code) =
      Style.split merged.code (some merged.recorded) := by
  obtain ⟨unstyled, whole, -⟩ := element.exists_unstyled settings parts children
  have recorded : Fields.get? (element.body settings parts children).metadata literalStylesKey =
      some merged.recorded := by
    rw [whole, addStyles, h]
    exact (Fields.get?_put _ _ _ _).trans (if_pos rfl)
  rw [stylesOf, if_pos rfl, recorded]
  rfl

/-- The literal styles of an exported body are those of its element, merged and taken apart. -/
theorem styles_exported (loop : Loop.head? (element.body settings parts children) = none) :
    (exportNode (element.body settings parts children)).styles =
      element.styleParts?.bind fun parts =>
        if parts.literals.isEmpty then none else some parts.literals := by
  have distinct := (single_body settings element parts children).bindings
  have field := (element.hasField_style settings parts children).binding
  rw [styles_exportNode loop, foldl_addStylesOf_eq _ distinct, field, Element.styleParts?]
  cases merges : Style.merge (element.styles.getD []) element.bound.styles with
  | none => rfl
  | some merged =>
    change addStylesOf _ none (styleKey, .expression merged.code) = _
    rw [addStylesOf, stylesOf_body merges]
    rfl

/-- So are the expressions under the paths of styles. -/
theorem get?_bindings_exported (loop : Loop.head? (element.body settings parts children) = none)
    (style : Style.IsPath path) :
    Fields.get? (exportNode (element.body settings parts children)).bindings path =
      element.styleParts?.bind fun parts =>
        Fields.get? (Fields.ofEntries parts.bindings) path := by
  have distinct := (single_body settings element parts children).bindings
  have field := (element.hasField_style settings parts children).binding
  have apart (space : Namespace) (known : space = .options ∨ space = .properties) :
      space.path styleKey ≠ path := by
    rintro rfl
    exact not_isPath_field known _ style
  rw [(frame_exportNode loop).1, boundElement_eq_merge]
  dsimp only
  rw [Fields.get?_merge_ofEntries, get?_restoreBound, if_neg (apart _ (.inr rfl)),
    get?_restoreBound, if_neg (apart _ (.inl rfl)), get?_writtenPaths_style style distinct, field,
    Element.styleParts?]
  cases merges : Style.merge (element.styles.getD []) element.bound.styles with
  | none => rfl
  | some merged =>
    change (Fields.get? (Fields.ofEntries (stylesOf _
      (styleKey, .expression merged.code)).bindings) path).or none = _
    rw [stylesOf_body merges, Option.or_none]
    rfl

end styles

/-! ## Elements without fields called `style` -/

/-- The paths under which a field called `style` is bound. -/
def stylePaths : List String :=
  [Namespace.options.path styleKey, Namespace.properties.path styleKey]

theorem mem_stylePaths {path : String} :
    path ∈ stylePaths ↔ ∃ space : Namespace, (space = .options ∨ space = .properties) ∧
      path = space.path styleKey := by
  simp [stylePaths]

/-- Expressions without those for a field called `style`. -/
def withoutStylePaths (bindings : Fields String) : Fields String :=
  bindings.filter fun entry => decide (entry.1 ∉ stylePaths)

def Element.withoutStyleFields (element : Element) : Element :=
  { element with
    component := element.component.map fun use =>
      { use with options := Fields.remove use.options styleKey }
    properties := element.properties.map fun properties => Fields.remove properties styleKey
    bindings := withoutStylePaths element.bindings
    code := { element.code with bindings := withoutStylePaths element.code.bindings } }

/-- The styles among sorted expressions only depend on those that were there before. -/
theorem Bound.styles_add_congr {bound other : Bound} (h : bound.styles = other.styles)
    (path code : String) : (bound.add path code).styles = (other.add path code).styles := by
  rw [add, add]
  cases Namespace.split? path with
  | none => exact h
  | some found =>
    obtain ⟨space, key⟩ := found
    cases space with
    | style =>
      dsimp only
      rw [h]
    | responsiveStyles =>
      dsimp only
      split
      · rw [h]
      · exact h
    | options | properties | actions => exact h

theorem styles_withoutStylePaths {bound other : Bound} (h : bound.styles = other.styles)
    (bindings : Fields String) :
    ((withoutStylePaths bindings).foldl (fun bound entry => bound.add entry.1 entry.2)
        bound).styles =
      (bindings.foldl (fun bound entry => bound.add entry.1 entry.2) other).styles := by
  induction bindings generalizing bound other with
  | nil => exact h
  | cons entry bindings ih =>
    rw [withoutStylePaths, List.filter_cons, List.foldl_cons]
    by_cases field : entry.1 ∈ stylePaths
    · rw [if_neg (by simpa using field)]
      obtain ⟨space, known, same⟩ := mem_stylePaths.mp field
      obtain ⟨style, responsive⟩ : space ≠ .style ∧ space ≠ .responsiveStyles := by
        rcases known with rfl | rfl <;> exact ⟨nofun, nofun⟩
      have here := Namespace.key?_path space (by decide : styleKey ≠ "")
      rw [← same] at here
      exact ih (h.trans (Bound.styles_add other here style responsive _).symm)
    · rw [if_pos (by simpa using field), List.foldl_cons]
      exact ih (Bound.styles_add_congr h _ _)

namespace Element

variable {settings : ImportSettings} {element : Element} {key : String}

theorem nodeName_withoutStyleFields :
    element.withoutStyleFields.nodeName settings = element.nodeName settings := by
  rw [nodeName, nodeName, componentName?, componentName?, withoutStyleFields]
  cases element.component <;> rfl

theorem literals_withoutStyleFields (space : Namespace) :
    element.withoutStyleFields.literals space =
      Fields.remove (element.literals space) styleKey := by
  cases space with
  | options =>
    rw [literals, literals, options, options, withoutStyleFields]
    cases element.component <;> rfl
  | properties =>
    rw [literals, literals, withoutStyleFields]
    cases element.properties <;> rfl
  | style | responsiveStyles | actions => rfl

theorem expressions_withoutStyleFields :
    element.withoutStyleFields.expressions = withoutStylePaths element.expressions :=
  (Fields.filter_merge (fun path => decide (path ∉ stylePaths)) _ _).symm

theorem styles_withoutStyleFields :
    element.withoutStyleFields.bound.styles = element.bound.styles := by
  have whole : prefer element.withoutStyleFields.bindings element.withoutStyleFields.code.bindings =
      withoutStylePaths (prefer element.bindings element.code.bindings) :=
    expressions_withoutStyleFields
  rw [bound, bound, Bound.of, Bound.of, whole]
  exact styles_withoutStylePaths rfl _

theorem keyed_withoutStyleFields (keyed : element.Keyed) : element.withoutStyleFields.Keyed where
  version := keyed.version
  options use given := by
    obtain ⟨whole, stored, rfl⟩ := Option.map_eq_some_iff.mp given
    exact Json.isSettled_filter (keyed.options whole stored) _
  properties members given := by
    obtain ⟨whole, stored, rfl⟩ := Option.map_eq_some_iff.mp given
    exact Json.isSettled_filter (keyed.properties whole stored) _
  bindings := keyed.bindings.filter _
  styles := keyed.styles
  code := ⟨keyed.code.1, keyed.code.2.filter _⟩
  actions := keyed.actions
  children := keyed.children

/-- Other fields stay as they are. -/
theorem field?_withoutStyleFields {space : Namespace} (other : key ≠ styleKey) :
    element.withoutStyleFields.field? space key = element.field? space key := by
  have kept : space.path key ∉ stylePaths := by
    intro member
    obtain ⟨_, -, same⟩ := mem_stylePaths.mp member
    cases Namespace.eq_of_path_eq same
    exact other (Namespace.path_inj.mp same)
  rw [field?, field?, boundAt?, boundAt?, expressions_withoutStyleFields, withoutStylePaths,
    Fields.get?_filter fun path => decide (path ∉ stylePaths), decide_eq_true kept, if_pos rfl,
    literals_withoutStyleFields, Fields.get?_remove, if_neg other]

theorem isStructural_withoutStyleFields (other : key ≠ styleKey) :
    element.withoutStyleFields.isStructural settings key = element.isStructural settings key := by
  have options := @literals_withoutStyleFields element .options
  rw [literals, literals] at options
  rw [isStructural, isStructural, nodeName_withoutStyleFields, options, Fields.get?_remove,
    if_neg other]

theorem isSingle_withoutStyleFields (keyed : element.Keyed) (single : element.IsSingle settings) :
    element.withoutStyleFields.IsSingle settings := by
  have other : Loop.collectionKey ≠ styleKey := by decide
  have same : element.withoutStyleFields.collection? settings = element.collection? settings := by
    rw [collection?_eq keyed, collection?_eq (keyed_withoutStyleFields keyed),
      field?_withoutStyleFields other, field?_withoutStyleFields other,
      isStructural_withoutStyleFields other]
  rw [IsSingle, nodeName_withoutStyleFields, same]
  exact single

theorem importElement_withoutStyleFields {path : Path} {node : Node}
    (h : importElement settings path element = .ok node) :
    ∃ bare, importElement settings path element.withoutStyleFields = .ok bare := by
  obtain ⟨options, children⟩ := importable_iff.mp ((importElement_ok_iff path element).mp ⟨node, h⟩)
  refine (importElement_ok_iff path _).mpr (importable_iff.mpr ⟨fun entry member => ?_, children⟩)
  have removed := @literals_withoutStyleFields element .options
  rw [literals, literals] at removed
  rw [removed] at member
  rw [nodeName_withoutStyleFields]
  exact options entry (List.mem_filter.mp member).1

theorem styleParts?_withoutStyleFields :
    element.withoutStyleFields.styleParts? = element.styleParts? := by
  rw [styleParts?, styleParts?, styles_withoutStyleFields]
  rfl

end Element

/-! ## Fields called `style` that are put back -/

section restoredFields

variable {settings : ImportSettings} {element : Element} {parts : OptionParts}
  {children : List Node}

theorem get?_properties_style :
    Fields.get? (element.body settings parts children).properties styleKey = none := by
  rw [(element.hasField_style settings parts children).literal]
  cases Style.merge (element.styles.getD []) element.bound.styles <;> rfl

theorem holdsField_property (keyed : element.Keyed)
    (loop : Loop.head? (element.body settings parts children) = none) :
    (exportNode (element.body settings parts children)).HoldsField .properties styleKey
      (element.field? .properties styleKey) := by
  rw [← @keptStyle?_property settings _ parts children keyed]
  refine ⟨(get?_stylePath_exportNode loop).1, ?_⟩
  rw [Element.literals, (frame_exportNode loop).2.2.2]
  exact get?_exportedProperties_style get?_properties_style

/-- An option that is no slot is among the plain ones. -/
theorem not_mem_slots_of_plain {key : String} (keyed : element.Keyed)
    (plain : element.isStructural settings key = false) :
    key ∉ Fields.names (element.options.filter
      (isSlotOption (Grouping.of? (element.nodeName settings)))) := by
  intro slot
  obtain ⟨value, stored⟩ := Fields.mem_names.mp slot
  obtain ⟨option, marked⟩ := List.mem_filter.mp stored
  have found := (Fields.get?_eq_some_iff (Element.distinct_options keyed)).mpr option
  rw [Element.isStructural, found, Option.any_some, Bool.not_eq_false', isPlainOption,
    Bool.and_eq_true] at plain
  rw [isSlotOption, Bool.and_eq_true] at marked
  rw [marked.2] at plain
  cases plain.2

theorem holdsField_option_iff (keyed : element.Keyed)
    (loop : Loop.head? (element.body settings parts children) = none)
    (plain : parts.plain = element.plainOptions settings)
    (slots : Fields.names (element.body settings parts children).slots =
      Fields.names (element.options.filter
        (isSlotOption (Grouping.of? (element.nodeName settings)))))
    (unslotted : element.isStructural settings styleKey = false) :
    (exportNode (element.body settings parts children)).HoldsField .options styleKey
        (element.field? .options styleKey) ↔
      (Node.isTagName (element.nodeName settings) = true →
        literalOf? (element.field? .options styleKey) = none) := by
  have distinct : Fields.Distinct (element.body settings parts children).slots := by
    rw [Fields.Distinct, slots]
    exact (Element.distinct_options keyed).filter _
  have free : styleKey ∉ Fields.names (element.body settings parts children).slots := by
    rw [slots]
    exact not_mem_slots_of_plain keyed unslotted
  have options := get?_options_style loop get?_properties_style free distinct
  have binding := (get?_stylePath_exportNode loop).2
  rw [keptStyle?_option keyed plain unslotted] at binding
  rw [keptStyle?_option keyed plain unslotted, Node.isTag,
    (frame_body settings element parts children).1] at options
  constructor
  · intro held tag
    have literal := held.literal
    rw [Element.literals, options, if_pos tag] at literal
    exact literal.symm
  · intro unset
    refine ⟨binding, ?_⟩
    rw [Element.literals, options]
    split
    · next tag => exact (unset tag).symm
    · rfl

end restoredFields

/-- An option or a property called `style` is written again where it was, in the form in which it
counts: the property always, and the option unless it is a literal and the node is called like a
native tag. Neither has an effect on the styles that are written. -/
theorem styleFields_of_importElement {settings : ImportSettings} {path : Path} {element : Element}
    {node : Node} (keyed : element.Keyed) (single : element.IsSingle settings)
    (unslotted : element.isStructural settings styleKey = false)
    (h : importElement settings path element = .ok node) :
    (exportNode node).HoldsField .properties styleKey (element.field? .properties styleKey) ∧
    ((exportNode node).HoldsField .options styleKey (element.field? .options styleKey) ↔
      (Node.isTagName (element.nodeName settings) = true →
        literalOf? (element.field? .options styleKey) = none)) ∧
    ∃ bare, importElement settings path element.withoutStyleFields = .ok bare ∧
      (exportNode bare).styles = (exportNode node).styles ∧
      ∀ path, Style.IsPath path →
        Fields.get? (exportNode bare).bindings path =
          Fields.get? (exportNode node).bindings path := by
  obtain ⟨parts, children, repetition, written, loop, plain, slots⟩ :=
    exported_of_importElement single h
  have property := holdsField_property keyed loop
  have option := holdsField_option_iff keyed loop plain slots unslotted
  obtain ⟨bare, imported⟩ := Element.importElement_withoutStyleFields h
  obtain ⟨_, _, _, bareWritten, bareLoop, -, -⟩ :=
    exported_of_importElement (Element.isSingle_withoutStyleFields keyed single) imported
  have styles := styles_exported bareLoop
  have bindings {path : String} (style : Style.IsPath path) := get?_bindings_exported bareLoop style
  rw [Element.styleParts?_withoutStyleFields, ← styles_exported loop] at styles
  refine ⟨?_, ?_, bare, imported, ?_, fun path style => ?_⟩
  · rw [written]
    exact ⟨property.binding, property.literal⟩
  · rw [written, ← option]
    exact ⟨fun held => ⟨held.binding, held.literal⟩, fun held => ⟨held.binding, held.literal⟩⟩
  · rw [written, bareWritten]
    exact styles
  · rw [written, bareWritten]
    have same := bindings style
    rw [Element.styleParts?_withoutStyleFields, ← get?_bindings_exported loop style] at same
    exact same

def styledCard : Element :=
  { component := some { name := "Card", options := [("style", .string "compact")] }
    properties := some [("style", .string "\x7b\x7b state.look \x7d\x7d")]
    bindings := [("style.color", "state.color")]
    styles := some [("large", [("margin", .string "0")])] }

theorem styledCard_fields :
    ∃ node, importElement {} "" styledCard = .ok node ∧
      Fields.get? (exportNode node).options "style" = some (.string "compact") ∧
      Fields.get? (exportNode node).bindings "component.options.style" = none ∧
      Fields.get? ((exportNode node).properties.getD []) "style" = none ∧
      Fields.get? (exportNode node).bindings "properties.style" = some "state.look" := by
  have keyed : styledCard.Keyed := Element.keyed_of_isKeyed _ (by decide)
  have single : styledCard.IsSingle {} := fun wrapper => absurd wrapper (by decide)
  obtain ⟨node, imported⟩ : ∃ node, importElement {} "" styledCard = .ok node := by
    rw [importElement, Element.options, styledCard]
    dsimp only [Option.map_some, Option.getD_some]
    rw [importOptions, importOptions, importElements]
    exact ⟨_, rfl⟩
  obtain ⟨property, option, -⟩ := styleFields_of_importElement keyed single rfl imported
  have option := option.mpr (fun tag => absurd tag (by decide))
  exact ⟨node, imported, option.literal, option.binding, property.literal, property.binding⟩

def styledButton : Element :=
  { component := some { name := "button", options := [("style", .string "compact")] } }

/-- The option is neither written as such nor anywhere else. -/
theorem styledButton_lost :
    styledButton.Keyed ∧ styledButton.IsSingle {} ∧
      styledButton.isStructural {} styleKey = false ∧
      styledButton.field? .options styleKey = some (.literal (.string "compact")) ∧
      ∃ node, importElement {} "" styledButton = .ok node ∧ (exportNode node).options = [] ∧
        (exportNode node).properties = some [] ∧ (exportNode node).bindings = [] := by
  have keyed : styledButton.Keyed := Element.keyed_of_isKeyed _ (by decide)
  have single : styledButton.IsSingle {} := fun wrapper => absurd wrapper (by decide)
  refine ⟨keyed, single, rfl, rfl, ?_⟩
  rw [importElement, Element.options, styledButton]
  dsimp only [Option.map_some, Option.getD_some]
  rw [importOptions, importOptions, importElements]
  exact ⟨_, rfl, rfl, rfl, rfl⟩

end BlockLoom.Content
