import BlockLoom.Proofs.Content.Bindings

/-!
The handlers of an element after import and export. The import binds the code of an event to a
field that is named for it with a capital, by the rules of Unicode; the export goes by that
name, but only an ASCII capital marks a handler, and the event is written small. So the two
names are each other's inverse just for events that start with a small ASCII letter: `Click`
comes back as `click`, and the field for `öffnen` is not told from any other.
-/

namespace BlockLoom.Content

/-! ## Names of events -/

namespace Event

variable {event other field : String}

/-- The fields that handle an event have the name of its handler, and there is one just if the
event starts with a small letter. -/
theorem ofHandler?_eq_some_iff :
    ofHandler? field = some event ↔ startsSmall event = true ∧ handlerName event = field := by
  constructor
  · intro h
    exact ⟨startsSmall_of_ofHandler? h, handlerName_of_ofHandler? h⟩
  · rintro ⟨small, rfl⟩
    exact ofHandler?_handlerName small

/-- Events that start with a small letter have handlers of different names. -/
theorem eq_of_handlerName_eq (h : startsSmall event = true) (h' : startsSmall other = true)
    (same : handlerName event = handlerName other) : event = other := by
  have handled := ofHandler?_handlerName h
  rw [same, ofHandler?_handlerName h'] at handled
  exact (Option.some.inj handled).symm

end Event

/-! ## Handlers of an element -/

theorem mem_of_handlerOf? {handlers : Fields String} {key code : String}
    (h : handlerOf? handlers key = some code) :
    ∃ event, (event, code) ∈ handlers ∧ event ≠ "" ∧ Text.isBlankText code = false ∧
      Event.handlerName event = key := by
  obtain ⟨⟨event, _⟩, last, rfl⟩ := Option.map_eq_some_iff.mp h
  obtain ⟨member, taken⟩ := List.mem_filter.mp (List.mem_of_getLast? last)
  exact ⟨event, member, by simpa [and_assoc] using taken⟩

theorem exists_handlerOf? {handlers : Fields String} {event code : String}
    (member : (event, code) ∈ handlers) (named : event ≠ "")
    (filled : Text.isBlankText code = false) :
    ∃ other, handlerOf? handlers (Event.handlerName event) = some other := by
  rw [← Option.isSome_iff_exists, handlerOf?, Option.isSome_map, Option.isSome_iff_ne_none, Ne,
    List.getLast?_eq_none_iff]
  exact List.ne_nil_of_mem (List.mem_filter.mpr ⟨member, by simp [named, filled]⟩)

namespace Element

/-- The code of an event: what is under `code` comes before what is under `actions`, and this
before what is bound under a path of an action. An event without a name has no code, and
neither does one for which there is nothing but white space. -/
def handler? (element : Element) (event : String) : Option String :=
  if event = "" then none
  else
    (((Fields.get? element.code.actions event).or (Fields.get? element.actions event)).or
      (Fields.get? element.expressions (Namespace.actions.path event))).filter fun code =>
        !Text.isBlankText code

/-- No option and no property, literal or bound, is named like the handler of an event. -/
structure HandlerFree (element : Element) : Prop where
  options : ∀ key ∈ Fields.names element.options, Event.ofHandler? key = none
  properties : ∀ key ∈ Fields.names (element.properties.getD []), Event.ofHandler? key = none
  bound : ∀ (space : Namespace) (key : String), space = .options ∨ space = .properties →
    space.path key ∈ Fields.names element.expressions → Event.ofHandler? key = none

variable {settings : ImportSettings} {element : Element} {event key code : String}

theorem distinct_eventHandlers (keyed : element.Keyed) : Fields.Distinct element.eventHandlers :=
  ((distinct_within (distinct_expressions keyed) _).merge _).merge _

theorem handler?_eq_some_iff (keyed : element.Keyed) :
    element.handler? event = some code ↔
      event ≠ "" ∧ (event, code) ∈ element.eventHandlers ∧ Text.isBlankText code = false := by
  rw [← Fields.get?_eq_some_iff (distinct_eventHandlers keyed), eventHandlers,
    Fields.get?_merge keyed.code.1, Fields.get?_merge keyed.actions,
    get?_within (distinct_expressions keyed), handler?]
  by_cases named : event = ""
  · simp [named]
  · rw [if_neg named, if_neg named, Option.filter_eq_some_iff, Option.or_assoc,
      Bool.not_eq_true']
    exact (and_iff_right named).symm

/-- If all events with code start with a small letter, no event takes the handler of another. -/
theorem handlerOf?_handlerName (keyed : element.Keyed)
    (small : ∀ event, element.handler? event ≠ none → Event.startsSmall event = true)
    (own : Event.startsSmall event = true) :
    handlerOf? element.eventHandlers (Event.handlerName event) = element.handler? event := by
  have from_event {found : String}
      (h : handlerOf? element.eventHandlers (Event.handlerName event) = some found) :
      element.handler? event = some found := by
    obtain ⟨other, member, named, filled, same⟩ := mem_of_handlerOf? h
    have given := (handler?_eq_some_iff keyed).mpr ⟨named, member, filled⟩
    have starts := small other (by rw [given]; exact Option.some_ne_none _)
    rwa [Event.eq_of_handlerName_eq starts own same] at given
  cases found : element.handler? event with
  | none =>
    rw [Option.eq_none_iff_forall_not_mem]
    intro code taken
    cases found.symm.trans (from_event taken)
  | some code =>
    obtain ⟨named, member, filled⟩ := (handler?_eq_some_iff keyed).mp found
    obtain ⟨other, taken⟩ := exists_handlerOf? member named filled
    rw [taken]
    exact (from_event taken).symm.trans found

/-- A field that is named like a handler has no other source than handlers. -/
theorem source?_of_handlerFree (free : element.HandlerFree)
    (handled : Event.ofHandler? key = some event) :
    element.source? settings key = (handlerOf? element.eventHandlers key).map .bound := by
  have other (name : String) (unhandled : Event.ofHandler? name = none) : name ≠ key := by
    rintro rfl
    cases unhandled.symm.trans handled
  have option : Fields.get? element.options key = none :=
    Fields.get?_eq_none_iff.mpr fun member => other _ (free.options _ member) rfl
  have property : Fields.get? (element.properties.getD []) key = none :=
    Fields.get?_eq_none_iff.mpr fun member => other _ (free.properties _ member) rfl
  have unbound {space : Namespace} (known : space = .options ∨ space = .properties) :
      element.boundAt? space key = none := by
    have absent : Fields.get? element.expressions (space.path key) = none :=
      Fields.get?_eq_none_iff.mpr fun member => other _ (free.bound _ _ known member) rfl
    rw [boundAt?, absent, Option.filter_none, ite_self]
  rw [source?, unbound (.inl rfl), unbound (.inr rfl), property, option]
  simp

end Element

/-! ## Actions of an exported element -/

/-- The actions of the element for a node are the bindings that handle events. -/
theorem get?_actions_exportNode {node : Node} {event code : String}
    (loop : Loop.head? node = none) (distinct : Fields.Distinct node.bindings) :
    Fields.get? (exportNode node).actions event = some code ↔
      Event.startsSmall event = true ∧ ∃ binding,
        Fields.get? node.bindings (Event.handlerName event) = some binding ∧
        isWritten node (Event.handlerName event, binding) = true ∧ binding.code = code := by
  have member_iff {code : String} : (event, code) ∈ writtenActions node node.bindings ↔
      Event.startsSmall event = true ∧ ∃ binding,
        Fields.get? node.bindings (Event.handlerName event) = some binding ∧
        isWritten node (Event.handlerName event, binding) = true ∧ binding.code = code := by
    simp only [mem_writtenActions, Event.ofHandler?_eq_some_iff, Fields.get?_eq_some_iff distinct]
    constructor
    · rintro ⟨_, binding, stored, written, ⟨small, rfl⟩, same⟩
      exact ⟨small, binding, stored, written, same⟩
    · rintro ⟨small, binding, stored, written, same⟩
      exact ⟨_, binding, stored, written, ⟨small, rfl⟩, same⟩
  rw [(frame_exportNode loop).2.1, boundElement_eq_merge, ← member_iff]
  constructor
  · intro found
    exact Fields.mem_ofEntries (Fields.mem_of_get? found)
  · intro member
    apply Fields.get?_ofEntries_of_mem member
    rintro ⟨name, other⟩ again rfl
    obtain ⟨-, binding, found, -, rfl⟩ := member_iff.mp member
    obtain ⟨-, binding', found', -, rfl⟩ := member_iff.mp again
    cases found.symm.trans found'
    rfl

/-- The actions of the element for an imported element: for every event that starts with a small
letter the code that comes last among the handlers of its name, and nothing else. -/
theorem get?_actions_exported {settings : ImportSettings} {path : Path} {element : Element}
    {node : Node} (keyed : element.Keyed) (single : element.IsSingle settings)
    (free : element.HandlerFree) (h : importElement settings path element = .ok node)
    (event : String) :
    Fields.get? (exportNode node).actions event =
      if Event.startsSmall event = true then
        handlerOf? element.eventHandlers (Event.handlerName event)
      else none := by
  obtain ⟨parts, children, repetition, written, loop, plain, slots⟩ :=
    exported_of_importElement single h
  have distinct := (single_body settings element parts children).bindings
  rw [written]
  change Fields.get? (exportNode (element.body settings parts children)).actions event = _
  ext code
  rw [get?_actions_exportNode loop distinct, Option.ite_none_right_eq_some]
  refine and_congr_right fun small => ?_
  have handled := Event.ofHandler?_handlerName small
  have other : Event.handlerName event ≠ styleKey := by
    intro same
    rw [same] at handled
    cases handled
  have unslotted : Event.handlerName event ∉
      Fields.names (element.body settings parts children).slots := by
    intro slot
    obtain ⟨value, stored⟩ := Fields.mem_names.mp (slots ▸ slot)
    have option := Fields.mem_names_of_mem (List.mem_filter.mp stored).1
    cases handled.symm.trans (free.options _ option)
  have bindings := (Element.hasField_body keyed plain children other).binding
  rw [Element.source?_of_handlerFree free handled] at bindings
  rw [bindings]
  cases handlerOf? element.eventHandlers (Event.handlerName event) with
  | none => simp [bindingOf?]
  | some found =>
    have written : isWritten (element.body settings parts children)
        (Event.handlerName event, .expression found) = true :=
      isWritten_iff.mpr ⟨other, unslotted, rfl⟩
    constructor
    · rintro ⟨binding, stored, -, rfl⟩
      cases stored
      rfl
    · rintro ⟨⟩
      exact ⟨_, rfl, written, rfl⟩

/-- The handlers of an element that is no loop wrapper itself, and has no field that is named
like a handler, become the actions of the element for its node, each under its event, just if
all events with code start with a small ASCII letter. In any case an action has the code of the
last handler that is named like the one of its event. -/
theorem actions_of_importElement {settings : ImportSettings} {path : Path} {element : Element}
    {node : Node} (keyed : element.Keyed) (single : element.IsSingle settings)
    (free : element.HandlerFree) (h : importElement settings path element = .ok node) :
    ((∀ event, Fields.get? (exportNode node).actions event = element.handler? event) ↔
      ∀ event, element.handler? event ≠ none → Event.startsSmall event = true) ∧
    ∀ event, Fields.get? (exportNode node).actions event =
      if Event.startsSmall event = true then
        handlerOf? element.eventHandlers (Event.handlerName event)
      else none := by
  have actions := get?_actions_exported keyed single free h
  refine ⟨⟨fun kept event given => ?_, fun small event => ?_⟩, actions⟩
  · by_contra capital
    rw [← kept, actions, if_neg capital] at given
    exact given rfl
  · rw [actions]
    split
    · next own => exact Element.handlerOf?_handlerName keyed small own
    · next capital =>
      by_contra given
      exact capital (small event (Ne.symm given))

/-- A button with handlers from all sources, one of which is blank. -/
def handledButton : Element :=
  { tagName := some "button"
    bindings := [("actions.click", "open()"), ("actions.focus", "show()")]
    actions := [("click", "save()"), ("blur", " ")]
    code := { actions := [("mouseEnter", "hint()")] } }

theorem handlerFree_handledButton : handledButton.HandlerFree := by
  refine ⟨by simp [handledButton, Element.options], by simp [handledButton], ?_⟩
  intro space key known member
  obtain ⟨name, same⟩ : ∃ name, space.path key = Namespace.actions.path name := by
    simp only [handledButton, Element.expressions, prefer, Fields.merge_nil, Fields.names_cons,
      Fields.names_nil, List.mem_cons, List.not_mem_nil, or_false] at member
    rcases member with click | focus
    · exact ⟨"click", click⟩
    · exact ⟨"focus", focus⟩
  rcases known with rfl | rfl
  · cases Namespace.eq_of_path_eq same
  · cases Namespace.eq_of_path_eq same

theorem handledButton_actions :
    ∃ node, importElement {} "" handledButton = .ok node ∧
      Fields.get? (exportNode node).actions "click" = some "save()" ∧
      Fields.get? (exportNode node).actions "focus" = some "show()" ∧
      Fields.get? (exportNode node).actions "mouseEnter" = some "hint()" ∧
      Fields.get? (exportNode node).actions "blur" = none := by
  have keyed : handledButton.Keyed := Element.keyed_of_isKeyed _ (by decide)
  have single : handledButton.IsSingle {} := fun wrapper => absurd wrapper (by decide)
  obtain ⟨node, imported⟩ := (@importElement_ok_iff {} "" handledButton).mpr
    (importable_iff.mpr ⟨by simp [handledButton, Element.options], by simp [handledButton]⟩)
  have small : ∀ event, handledButton.handler? event ≠ none →
      Event.startsSmall event = true := by
    intro event given
    obtain ⟨code, found⟩ := Option.ne_none_iff_exists'.mp given
    obtain ⟨-, member, -⟩ := (Element.handler?_eq_some_iff keyed).mp found
    have starts : ∀ handler ∈ handledButton.eventHandlers,
        Event.startsSmall handler.1 = true := by decide
    exact starts _ member
  obtain ⟨kept, -⟩ := actions_of_importElement keyed single handlerFree_handledButton imported
  have actions := kept.mpr small
  exact ⟨node, imported, (actions _).trans (by decide), (actions _).trans (by decide),
    (actions _).trans (by decide), (actions _).trans (by decide)⟩

/-- A button with an event that starts with a capital, and one that does not start with an
ASCII letter. -/
def namedButton : Element :=
  { tagName := some "button"
    actions := [("Click", "save()"), ("öffnen", "open()")] }

/-- Neither of these events stays: the first one is written under another name, and the code of
the second one as a property. -/
theorem namedButton_moved :
    namedButton.Keyed ∧ namedButton.IsSingle {} ∧ namedButton.HandlerFree ∧
      namedButton.handler? "Click" = some "save()" ∧ namedButton.handler? "öffnen" = some "open()" ∧
      ∃ node, importElement {} "" namedButton = .ok node ∧
        (exportNode node).actions = [("click", "save()")] ∧
        (exportNode node).bindings = [("properties.onÖffnen", "open()")] := by
  have keyed : namedButton.Keyed := Element.keyed_of_isKeyed _ (by decide)
  have single : namedButton.IsSingle {} := fun wrapper => absurd wrapper (by decide)
  refine ⟨keyed, single, ⟨nofun, nofun, nofun⟩, by decide, by decide, ?_⟩
  rw [importElement, Element.options, namedButton]
  dsimp only [Option.map_none, Option.getD_none]
  rw [importOptions, importElements]
  exact ⟨_, rfl, by decide +kernel, by decide +kernel⟩

end BlockLoom.Content
