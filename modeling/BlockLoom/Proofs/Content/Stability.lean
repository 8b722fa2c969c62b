import BlockLoom.Proofs.Component.State
import BlockLoom.Proofs.Content.Presentation
import BlockLoom.Proofs.Content.Returns

/-!
Documents that are stable under export and import. The import of a document forgets which of
several spellings it was written in, so that the document itself does not come back. But what
was imported from it is written in a form that is imported as the same component again, if all
its elements are steady and its code is read back as it is written.
-/

namespace BlockLoom.Content

variable {settings : ImportSettings} {content : Content} {component : Component}

/-- What is asked of a document for the export of its component to be imported as the same
component again. -/
structure Steady (settings : ImportSettings) (content : Content) : Prop where
  blocks : ∀ block ∈ content.blocks, block.All settings (Element.Steady settings)
  /-- A name that an export leaves out is what a document without a name gets. -/
  name : componentName settings content = defaultComponentName →
    settings.componentName = defaultComponentName
  /-- Every member of the state is read back as it is written. -/
  state : State.Readable (State.splitCode (code? content)).1
  /-- Where there is no state, the rest of the code declares none in its place. -/
  rest : (State.splitCode (code? content)).1 = [] →
    ∀ left, (State.splitCode (code? content)).2 = some left → State.Stateless left

/-! ## The component of a document -/

def componentOf (settings : ImportSettings) (content : Content) (children : List Node) :
    Component where
  name := componentName settings content
  state := (State.splitCode (code? content)).1
  inputs := content.inputs
  onMount := (State.splitCode (code? content)).2
  children
  metadata := Json.optionalMember Component.cssKey
    ((content.css.filter fun css => !css.isEmpty).map Json.string)

theorem toComponent_eq (settings : ImportSettings) (content : Content) :
    toComponent settings content =
      (importElements settings "blocks" 0 content.blocks).map (componentOf settings content) := by
  rw [toComponent]
  cases importElements settings "blocks" 0 content.blocks <;> rfl

theorem parse_eq_ok_iff {source : String} :
    parse settings source = .ok component ↔
      ∃ content, read source = .ok content ∧ toComponent settings content = .ok component := by
  rw [parse]
  cases read source <;> simp

/-- The maps of a component that is imported hold each key once. -/
theorem isKeyed_componentOf {source : String} (found : read source = .ok content)
    {children : List Node} (keyed : Node.areKeyed children = true) :
    (componentOf settings content children).isKeyed = true := by
  have metadata :
      (Json.object (componentOf settings content children).metadata).isSettled = true := by
    rw [componentOf]
    dsimp only
    cases content.css.filter fun css => !css.isEmpty <;> rfl
  have inputs : content.inputs.all (fun input => (Json.object input.metadata).isSettled &&
      input.defaultValue.all Json.isSettled) = true := by
    rw [List.all_eq_true]
    intro input member
    obtain ⟨members, default, -⟩ := inputs_of_read found input member
    rw [members, default]
    rfl
  simp only [Component.isKeyed, Bool.and_eq_true, decide_eq_true_eq]
  exact ⟨⟨⟨State.distinct_splitCode _, keyed⟩, inputs⟩, metadata⟩

/-! ## The export of a component -/

theorem css?_componentOf (children : List Node) :
    (componentOf settings content children).css? = content.css.filter fun css => !css.isEmpty := by
  rw [Component.css?, componentOf]
  dsimp only
  cases content.css.filter fun css => !css.isEmpty <;> rfl

/-- A name that is blank is the one that a document without a name gets. -/
theorem componentName_of_blank (blank : Text.isBlankText (componentName settings content) = true) :
    settings.componentName = componentName settings content := by
  rw [componentName] at blank ⊢
  cases named : content.name.filter fun name => !Text.isBlankText name with
  | none => rfl
  | some name =>
    have filled := (Option.filter_eq_some_iff.mp named).2
    rw [named, Option.getD_some] at blank
    rw [blank] at filled
    cases filled

/-- The name of an imported component is the name that its export is imported with. -/
theorem componentName_ofComponent (writing : ExportSettings)
    (named : component.name = componentName settings content)
    (kept : component.name = defaultComponentName → settings.componentName = defaultComponentName) :
    componentName settings (ofComponent writing component) = component.name := by
  rw [componentName, ofComponent]
  dsimp only
  split
  · next left =>
    rw [Option.filter_none, Option.getD_none]
    rcases Bool.or_eq_true_iff.mp left with empty | default
    · rw [named]
      apply componentName_of_blank
      rw [← named, String.isEmpty_iff.mp empty]
      rfl
    · rw [eq_of_beq default]
      exact kept (eq_of_beq default)
  · rw [Option.filter_some]
    split
    · rfl
    · next blank =>
      rw [Bool.not_eq_true, Bool.not_eq_false'] at blank
      rw [named] at blank ⊢
      exact componentName_of_blank blank

theorem code?_ofComponent_eq (writing : ExportSettings) (component : Component) :
    code? (ofComponent writing component) =
      State.render .hook component.state component.onMount := by
  refine (code?_ofComponent writing component component.inputs _).trans ?_
  cases written : State.render .hook component.state component.onMount with
  | some text => simp [State.isBlankText_of_render written, Option.filter_some]
  | none =>
    rw [State.render_eq_none_iff] at written
    rw [State.render_eq_none_iff.mpr written]
    rfl

/-! ## The same component again -/

/-- An export of a component for a document is imported with the same name, the same code and the
same styles, around other nodes. -/
theorem toComponent_ofComponent (writing : ExportSettings) (steady : content.Steady settings)
    (children : List Node) :
    toComponent settings (ofComponent writing (componentOf settings content children)) =
      (importElements settings "blocks" 0 (exportNodes children)).map fun others =>
        { componentOf settings content children with children := others } := by
  rw [toComponent_eq]
  congr 1
  funext others
  have name := @componentName_ofComponent settings content
    (componentOf settings content children) writing rfl steady.name
  have code : State.splitCode (code? (ofComponent writing (componentOf settings content children))) =
      State.splitCode (code? content) := by
    rw [code?_ofComponent_eq]
    exact State.splitCode_render .hook (code? content) steady.state steady.rest
  have css : (ofComponent writing (componentOf settings content children)).css.filter
      (fun css => !css.isEmpty) = content.css.filter fun css => !css.isEmpty := by
    change ((componentOf settings content children).css?).filter _ = _
    rw [css?_componentOf, Option.filter_filter]
    simp
  rw [componentOf, name, code, css]
  rfl

theorem isIntegral_children (integral : component.toJson.isIntegral = true) :
    ∀ child ∈ component.children, child.toJson.isIntegral = true := by
  simp only [Component.toJson, Json.isIntegral, Json.haveIntegral, Bool.and_eq_true] at integral
  exact Node.integral_of_listToJson integral.2.2.2.2.1

/-- What is imported from a steady document is written as text that is imported as the same
component again, up to the order of the entries of its maps. The text is in general that of another
document, but one in which every field has the source that it had in the first. -/
theorem parse_write_of_parse {source : String} (writing : ExportSettings)
    (found : read source = .ok content) (steady : content.Steady settings)
    (h : parse settings source = .ok component) (integral : component.toJson.isIntegral = true)
    (written : (ofComponent writing component).toJson.isIntegral = true)
    (deep : (ofComponent writing component).toJson.nesting ≤ Json.maxDepth) :
    ∃ again, parse settings (write writing component) = .ok again ∧
      again.same component = true := by
  obtain ⟨other, read', made⟩ := parse_eq_ok_iff.mp h
  obtain rfl : content = other := Except.ok.inj (found.symm.trans read')
  rw [toComponent_eq, map_eq_ok_iff] at made
  obtain ⟨children, imported, rfl⟩ := made
  have returns : ∀ child ∈ children, Returns settings child := by
    intro child member
    obtain ⟨block, listed, imports⟩ := exists_of_forall₂ (forall₂_of_importElements imported) member
    exact returns_importElement (decoded_of_read found block listed) (steady.blocks block listed)
      imports
  have keyed : (componentOf settings content children).isKeyed = true :=
    isKeyed_componentOf found (Returns.areKeyed returns)
  have faithful : ∀ input ∈ content.inputs, Faithful input := fun input member =>
    (unmixed_of_read found input member).faithful (inputs_of_read found input member).2.2
  have text := read_write_faithful writing keyed written deep faithful
  obtain ⟨others, again⟩ := (importElements_ok_iff "blocks" 0 (exportNodes children)).mpr
    (Returns.allImportable returns)
  refine ⟨{ componentOf settings content children with children := others },
    parse_eq_ok_iff.mpr ⟨_, text, ?_⟩, ?_⟩
  · change toComponent settings { ofComponent writing (componentOf settings content children) with
      blocks := Element.strippedList (exportNodes children) } = _
    rw [Element.strippedList_of_areVersioned _ (Returns.areVersioned returns)]
    refine (toComponent_ofComponent writing steady children).trans ?_
    rw [again]
    rfl
  · exact Component.same_of_children keyed integral
      (Returns.sameList returns (forall₂_of_importElements again) (isIntegral_children integral))

/-! ## Fields that an element gives -/

/-- The keys of all fields that an element gives anything for. -/
def Element.fieldKeys (element : Element) : List String :=
  handlerNames element.eventHandlers ++
    Fields.names (within .properties element.expressions) ++
    Fields.names (element.properties.getD []) ++
    Fields.names (within .options element.expressions) ++ Fields.names element.options

theorem mem_fieldKeys {element : Element} (keyed : element.Keyed) {key : String}
    {value : FieldValue} (given : element.source? settings key = some value) :
    key ∈ element.fieldKeys := by
  by_contra free
  simp only [Element.fieldKeys, List.mem_append, not_or] at free
  obtain ⟨⟨⟨⟨handlers, boundProperties⟩, properties⟩, boundOptions⟩, options⟩ := free
  have unhandled : handlerOf? element.eventHandlers key = none :=
    handlerOf?_eq_none fun handler member named =>
      handlers (List.mem_map.mpr ⟨handler.1, Fields.mem_names_of_mem member, named⟩)
  rw [Element.source?, unhandled, ← Element.filter_get?_within keyed,
    ← Element.filter_get?_within keyed, Fields.get?_eq_none_iff.mpr boundProperties,
    Fields.get?_eq_none_iff.mpr properties, Fields.get?_eq_none_iff.mpr boundOptions,
    Fields.get?_eq_none_iff.mpr options] at given
  simp at given

/-! ## A stable document -/

/-- An element without options, children and a repetition is imported as a node of its own. -/
theorem importElements_leaf {element : Element} (options : element.options = [])
    (children : element.children = []) (once : element.repetition = none) (path : Path) :
    importElements settings path 0 [element] = .ok [element.body settings {} []] := by
  rw [importElements, importElement, options, importOptions]
  dsimp only
  rw [children, importElements, importElements]
  simp only [Element.repeated, once, Option.filter_none]

theorem toComponent_leaf {element : Element} (blocks : content.blocks = [element])
    (options : element.options = []) (children : element.children = [])
    (once : element.repetition = none) :
    toComponent settings content =
      .ok (componentOf settings content [element.body settings {} []]) := by
  rw [toComponent_eq, blocks, importElements_leaf options children once]
  rfl

/-- A plan with a heading in a slot and a bound title, for every plan, with a button in it. -/
def planHeading : Element :=
  { tagName := some "h2" }

def planButton : Element :=
  { tagName := some "button"
    properties := some [("type", .string "submit")]
    actions := [("click", "choose(plan)")] }

def planCard : Element :=
  { id := some "plan"
    component := some
      { name := "Card"
        options := [("header", .array [planHeading.toJson]), ("rows", .ofInt 3)] }
    bindings := [("component.options.title", "plan.title")]
    repetition := some ⟨"state.plans", some "plan", none⟩
    children := [planButton] }

def planPage : Content :=
  { name := some "Plans"
    css := some ".plan \x7b\x7d"
    inputs := [{ name := "currency", defaultValue := some (.string "EUR") }]
    blocks := [planCard] }

def planParts : OptionParts :=
  { slots := [("header", [planHeading.body {} {} []])], plain := [("rows", .ofInt 3)] }

def planComponent : Component :=
  componentOf {} planPage [planCard.repeated (planCard.body {} planParts [planButton.body {} {} []])]

theorem exported_planHeading : planHeading.Exported := by
  refine ⟨rfl, ⟨by rintro value ⟨⟩, by rintro use ⟨⟩, by rintro members ⟨⟩, by decide,
    by rintro styles ⟨⟩, ?_, by decide, rfl⟩⟩
  exact ⟨Fields.distinct_nil, Fields.distinct_nil⟩

theorem standsFor_planHeading : StandsFor planHeading.toJson planHeading :=
  standsFor_toJson exported_planHeading

theorem importOptions_planCard (path : Path) :
    importOptions {} path none planCard.options = .ok planParts := by
  have read : readOption (path.field "header") (.array [planHeading.toJson]) =
      .ok (.slot [planHeading]) :=
    readOption_slot_iff.mpr ⟨_, rfl, rfl, .cons standsFor_planHeading .nil⟩
  have rows : readOption (path.field "rows") (.ofInt 3) = .ok (.plain (.ofInt 3)) :=
    readOption_plain_iff.mpr ⟨rfl, by rintro items ⟨⟩⟩
  have options : planCard.options =
      [("header", .array [planHeading.toJson]), ("rows", .ofInt 3)] := rfl
  rw [options, importOptions_slot _ rfl read, importElements_leaf rfl rfl rfl,
    importOptions_plain _ rfl rows, importOptions]
  rfl

theorem toComponent_planPage : toComponent {} planPage = .ok planComponent := by
  have blocks : planPage.blocks = [planCard] := rfl
  have grouping : Grouping.of? (planCard.nodeName {}) = none := by decide
  have children : planCard.children = [planButton] := rfl
  rw [toComponent_eq, blocks, importElements, importElement, grouping, importOptions_planCard]
  dsimp only
  rw [children, importElements_leaf rfl rfl rfl, importElements]
  rfl

/-- Styles that there are none of are merged and taken apart into none. -/
theorem separable_nil : Style.Separable [] {} where
  base := Fields.distinct_nil
  widths width := by cases width <;> exact ⟨Fields.distinct_nil, Fields.distinct_nil⟩
  plain width entry member := by cases width <;> cases member
  unqueried width := by cases width <;> exact ⟨List.not_mem_nil, List.not_mem_nil⟩
  verbatim entry member := by cases member

theorem steady_planHeading : planHeading.Steady {} where
  single wrapper := absurd wrapper (by decide)
  component := nofun
  options _ := rfl
  properties _ tag := absurd tag (by decide)
  bound key code _ given := by
    have member := mem_fieldKeys exported_planHeading.keyed given
    cases member
  styles := separable_nil
  beside known := by cases known
  unmarked known := by cases known

theorem keyed_planButton : planButton.Keyed := by
  refine ⟨by rintro value ⟨⟩, by rintro use ⟨⟩, ?_, by decide, by rintro styles ⟨⟩, ?_,
    by decide, rfl⟩
  · rintro members ⟨⟩
    decide
  · exact ⟨Fields.distinct_nil, Fields.distinct_nil⟩

theorem steady_planButton : planButton.Steady {} where
  single wrapper := absurd wrapper (by decide)
  component := nofun
  options _ := rfl
  properties _ tag := absurd tag (by decide)
  bound key code _ given := by
    have keys : planButton.fieldKeys = ["onClick", "type"] := by decide
    have member := mem_fieldKeys keyed_planButton given
    rw [keys] at member
    have named : key ≠ "" := by
      rintro rfl
      exact absurd member (by decide)
    refine ⟨named, rfl, fun _ lists => ?_⟩
    -- No option is bound, so that none is listed.
    rw [Element.Lists, if_neg (by decide)] at lists
    exact lists.2.1 (by rw [Element.boundAt?, if_neg named]; rfl)
  styles := separable_nil
  beside known := by cases known
  unmarked known := by cases known

theorem keyed_planCard : planCard.Keyed := by
  refine ⟨by rintro value ⟨⟩, ?_, by rintro members ⟨⟩, by decide, by rintro styles ⟨⟩, ?_,
    by decide, by decide⟩
  · rintro use ⟨⟩
    decide
  · exact ⟨Fields.distinct_nil, Fields.distinct_nil⟩

theorem steady_planCard : planCard.Steady {} where
  single wrapper := absurd wrapper (by decide)
  component _ := by decide
  options none := by cases none
  properties none := by cases none
  bound key code _ given := by
    have keys : planCard.fieldKeys = ["title", "header", "rows"] := by decide
    have member := mem_fieldKeys keyed_planCard given
    rw [keys] at member
    have header : planCard.source? {} "header" = none := rfl
    have rows : planCard.source? {} "rows" = some (.literal (.ofInt 3)) := rfl
    simp only [List.mem_cons, List.not_mem_nil, or_false] at member
    rcases member with rfl | rfl | rfl
    · exact ⟨by decide, rfl, fun handler => absurd (by decide) handler⟩
    · cases header.symm.trans given
    · cases rows.symm.trans given
  styles := separable_nil
  beside known := by cases known
  unmarked known := by cases known

theorem steady_planPage : planPage.Steady {} where
  blocks block member := by
    cases List.mem_singleton.mp member
    have heading : planHeading.All {} (Element.Steady {}) :=
      Element.all_iff.mpr ⟨steady_planHeading, nofun, nofun⟩
    have button : planButton.All {} (Element.Steady {}) :=
      Element.all_iff.mpr ⟨steady_planButton, nofun, nofun⟩
    refine Element.all_iff.mpr ⟨steady_planCard, List.forall_mem_singleton.mpr button, ?_⟩
    intro option listed child held
    cases held with
    | slot free marked item stands =>
      simp only [planCard, Element.options, Option.map_some, Option.getD_some, List.mem_cons,
        List.not_mem_nil, or_false] at listed
      rcases listed with header | rows
      · cases header
        cases List.mem_singleton.mp item
        rwa [stands.unique standsFor_planHeading]
      · cases rows
    | block claimed item stands inside => cases claimed
  name := by decide
  state := by rintro member ⟨⟩
  rest _ left found := by cases found

theorem read_planPage : read (Json.render .compact 0 planPage.toJson) = .ok planPage := by
  have keyed : planPage.isKeyed = true := by decide
  have faithful : ∀ input ∈ planPage.inputs, Faithful input := by
    simp [planPage, Faithful, Json.isNull]
  rw [read_render_faithful .compact keyed faithful (by decide) (by decide)]
  rfl

/-- The component for the page is imported again from its export. -/
theorem planPage_stable :
    read (Json.render .compact 0 planPage.toJson) = .ok planPage ∧ planPage.Steady {} ∧
      parse {} (Json.render .compact 0 planPage.toJson) = .ok planComponent ∧
      planComponent.toJson.isIntegral = true ∧
      (ofComponent {} planComponent).toJson.isIntegral = true ∧
      (ofComponent {} planComponent).toJson.nesting ≤ Json.maxDepth ∧
      ∃ again, parse {} (write {} planComponent) = .ok again ∧
        again.same planComponent = true := by
  have imported := parse_eq_ok_iff.mpr ⟨planPage, read_planPage, toComponent_planPage⟩
  have integral : planComponent.toJson.isIntegral = true := by decide +kernel
  have written : (ofComponent {} planComponent).toJson.isIntegral = true := by decide +kernel
  have deep : (ofComponent {} planComponent).toJson.nesting ≤ Json.maxDepth := by decide +kernel
  exact ⟨read_planPage, steady_planPage, imported, integral, written, deep,
    parse_write_of_parse {} read_planPage steady_planPage imported integral written deep⟩

/-! ## A document that is not stable -/

def handlerOption : Element :=
  { tagName := some "button", bindings := [("component.options.onClick", "go()")] }

def writtenHandler : Element :=
  { tagName := some "button", properties := some [], actions := [("click", "go()")] }

def handlerPage : Content :=
  { blocks := [handlerOption] }

def handlerComponent : Component :=
  componentOf {} handlerPage [handlerOption.body {} {} []]

/-- The option is listed in the metadata of the node, but written as a handler, and is not listed
again. -/
theorem handlerPage_unstable :
    parse {} (Json.render .compact 0 handlerPage.toJson) = .ok handlerComponent ∧
      handlerComponent.toJson.isIntegral = true ∧
      (ofComponent {} handlerComponent).toJson.nesting ≤ Json.maxDepth ∧
      ∃ again, parse {} (write {} handlerComponent) = .ok again ∧
        again.same handlerComponent = false := by
  have found : read (Json.render .compact 0 handlerPage.toJson) = .ok handlerPage := by
    rw [read_render_faithful .compact (by decide) (List.forall_mem_nil _) (by decide) (by decide)]
    rfl
  have imported : toComponent {} handlerPage = .ok handlerComponent :=
    toComponent_leaf rfl rfl rfl rfl
  have keyed : handlerComponent.isKeyed = true := by decide +kernel
  have integral : handlerComponent.toJson.isIntegral = true := by decide +kernel
  have written : (ofComponent {} handlerComponent).toJson.isIntegral = true := by decide +kernel
  have deep : (ofComponent {} handlerComponent).toJson.nesting ≤ Json.maxDepth := by decide +kernel
  have text := read_write_faithful {} keyed written deep (List.forall_mem_nil _)
  have blocks : Element.strippedList (exportNodes handlerComponent.children) = [writtenHandler] := rfl
  rw [blocks] at text
  have again := @toComponent_leaf {}
    { ofComponent {} handlerComponent with blocks := [writtenHandler] } writtenHandler rfl rfl rfl rfl
  exact ⟨parse_eq_ok_iff.mpr ⟨_, found, imported⟩, integral, deep, _,
    parse_eq_ok_iff.mpr ⟨_, text, again⟩, by decide +kernel⟩

end BlockLoom.Content
