import BlockLoom.Proofs.Content.Sources

/-!
The bindings of a node after export and import. Every binding of one field is written in one
place: among the actions if its name is that of a handler, and else under the path of its name
as a property or an option. Nothing else is written there, and nothing that comes before it
in the order of sources has its name, so that the import finds it again.
-/

namespace BlockLoom.Content

/-! ## Where the bindings of a node are written -/

section written

variable {node : Node} {bindings : Fields Binding} {key code : String} {binding : Binding}

theorem isWritten_iff {entry : String × Binding} :
    isWritten node entry = true ↔
      entry.1 ≠ styleKey ∧ entry.1 ∉ Fields.names node.slots ∧ entry.2.isSpread = false := by
  rw [isWritten, Bool.and_eq_true, decide_eq_true_iff, Bool.not_eq_true', Bool.or_eq_false_iff,
    Fields.has_eq_false_iff]

/-- What is written under the path of a property or an option are the bindings of that name
that belong there and handle no event. -/
theorem mem_writtenPaths {space : Namespace} (style : space ≠ .style)
    (responsive : space ≠ .responsiveStyles) :
    (space.path key, code) ∈ writtenPaths node bindings ↔
      ∃ binding, (key, binding) ∈ bindings ∧ isWritten node (key, binding) = true ∧
        Event.ofHandler? key = none ∧ fieldSpace node key = space ∧ binding.code = code := by
  rw [writtenPaths, List.mem_flatMap]
  constructor
  · rintro ⟨⟨name, binding⟩, stored, member⟩
    rcases List.mem_append.mp member with styled | own
    · rw [stylesOf] at styled
      split at styled
      · have path := Style.styled_split _ _ _ (Fields.mem_names_of_mem styled)
        exact absurd path (not_isPath style responsive key)
      · cases styled
    · rw [pathOf] at own
      split at own
      · cases own
      · next unhandled =>
        split at own
        · next written =>
          obtain ⟨path, same⟩ := Prod.mk.inj (List.mem_singleton.mp own)
          have belongs := Namespace.eq_of_path_eq path.symm
          rw [← belongs] at path
          cases Namespace.path_inj.mp path
          exact ⟨binding, stored, written, unhandled, belongs, same.symm⟩
        · cases own
  · rintro ⟨binding, stored, written, unhandled, belongs, rfl⟩
    refine ⟨_, stored, List.mem_append_right _ ?_⟩
    rw [pathOf, unhandled]
    dsimp only
    rw [if_pos written, belongs]
    exact List.mem_cons_self

theorem mem_writtenActions {event : String} :
    (event, code) ∈ writtenActions node bindings ↔
      ∃ key binding, (key, binding) ∈ bindings ∧ isWritten node (key, binding) = true ∧
        Event.ofHandler? key = some event ∧ binding.code = code := by
  rw [writtenActions, List.mem_flatMap]
  constructor
  · rintro ⟨⟨key, binding⟩, stored, member⟩
    rw [actionOf] at member
    split at member
    · next handled =>
      split at member
      · next written =>
        obtain ⟨rfl, same⟩ := Prod.mk.inj (List.mem_singleton.mp member)
        exact ⟨key, binding, stored, written, handled, same.symm⟩
      · cases member
    · cases member
  · rintro ⟨key, binding, stored, written, handled, rfl⟩
    refine ⟨_, stored, ?_⟩
    rw [actionOf, handled]
    dsimp only
    rw [if_pos written]
    exact List.mem_cons_self

end written

/-! ## What the element for a node gives for a field -/

section exported

variable {node : Node} {key : String} {binding : Binding}

theorem frame_exportNode (loop : Loop.head? node = none) :
    (exportNode node).bindings = (boundElement node).bindings ∧
      (exportNode node).actions = (boundElement node).actions ∧ (exportNode node).code = {} ∧
      (exportNode node).properties.getD [] = exportedProperties node := by
  rw [exportNode_plain loop]
  exact frame_assemble node _

/-- The expressions of the element for a node: kept settings called `style`, and over them
what the bindings of the node are written as. -/
theorem expressions_exportNode (loop : Loop.head? node = none) :
    (exportNode node).expressions =
      Fields.merge (restoreBound .properties (keptStyle? node stylePropertyKey)
        (restoreBound .options (keptStyle? node styleOptionKey) []))
        (writtenPaths node node.bindings) := by
  obtain ⟨bindings, -, code, -⟩ := frame_exportNode loop
  rw [Element.expressions, bindings, code, boundElement_eq_merge]
  rfl

theorem eventHandlers_exportNode (loop : Loop.head? node = none) :
    (exportNode node).eventHandlers = Fields.ofEntries (writtenActions node node.bindings) := by
  obtain ⟨bindings, actions, code, -⟩ := frame_exportNode loop
  have expressions : (exportNode node).expressions = (boundElement node).bindings := by
    rw [Element.expressions, bindings, code]
    rfl
  have none : within .actions (exportNode node).expressions = [] := by
    apply List.map_eq_nil_iff.mp
    apply List.eq_nil_iff_forall_not_mem.mpr
    intro key member
    obtain ⟨-, path⟩ := mem_names_within.mp member
    rw [expressions] at path
    rcases path_of_boundElement path with styled | ⟨space, name, known, same, -⟩
    · exact not_isPath (by decide) (by decide) key styled
    · have apart := Namespace.eq_of_path_eq same
      rw [← apart] at known
      simp at known
  rw [Element.eventHandlers, none, actions, code, boundElement_eq_merge]
  exact Fields.ofEntries_of_distinct (Fields.distinct_ofEntries _)

/-- Under the name of a binding there is no handler but that binding, if it handles an event. -/
theorem handlerOf?_exportNode (loop : Loop.head? node = none)
    (distinct : Fields.Distinct node.bindings)
    (found : Fields.get? node.bindings key = some binding)
    (written : isWritten node (key, binding) = true)
    (filled : Text.isBlankText binding.code = false) :
    handlerOf? (exportNode node).eventHandlers key =
      (Event.ofHandler? key).map fun _ => binding.code := by
  rw [eventHandlers_exportNode loop]
  -- The event of an action is that of one field only, so no other field has the same handler.
  have from_key {event code : String} (own : Event.handlerName event = key)
      (member : (event, code) ∈ writtenActions node node.bindings) :
      Event.ofHandler? key = some event ∧ code = binding.code := by
    obtain ⟨name, other, stored, -, handled, same⟩ := mem_writtenActions.mp member
    have names : name = key := (Event.handlerName_of_ofHandler? handled).symm.trans own
    rw [names] at stored handled
    have again := (Fields.get?_eq_some_iff distinct).mpr stored
    cases found.symm.trans again
    exact ⟨handled, same.symm⟩
  cases handled : Event.ofHandler? key with
  | none =>
    apply handlerOf?_eq_none
    intro handler member own
    cases handled.symm.trans (from_key own (Fields.mem_ofEntries member)).1
  | some event =>
    have own := Event.handlerName_of_ofHandler? handled
    have action : (event, binding.code) ∈ writtenActions node node.bindings :=
      mem_writtenActions.mpr
        ⟨key, binding, Fields.mem_of_get? found, written, handled, rfl⟩
    have kept : Fields.get? (Fields.ofEntries (writtenActions node node.bindings)) event =
        some binding.code := by
      apply Fields.get?_ofEntries_of_mem action
      rintro ⟨name, code⟩ member rfl
      exact (from_key own member).2
    have named : event ≠ "" := by
      rintro rfl
      rw [← own] at handled
      cases handled
    apply handlerOf?_eq_some (Fields.mem_of_get? kept) named filled own
    rintro ⟨name, code⟩ member named
    exact (from_key named (Fields.mem_ofEntries member)).2

/-- A binding that handles no event is the expression under the path of its name in its
namespace, and there is none in the other one. -/
theorem boundAt?_exportNode (loop : Loop.head? node = none)
    (distinct : Fields.Distinct node.bindings)
    (found : Fields.get? node.bindings key = some binding)
    (written : isWritten node (key, binding) = true)
    (filled : Text.isBlankText binding.code = false) (named : key ≠ "")
    (unhandled : Event.ofHandler? key = none) {space : Namespace}
    (known : space = .options ∨ space = .properties) :
    (exportNode node).boundAt? space key =
      if fieldSpace node key = space then some binding.code else none := by
  obtain ⟨style, responsive⟩ : space ≠ .style ∧ space ≠ .responsiveStyles := by
    rcases known with rfl | rfl <;> exact ⟨nofun, nofun⟩
  have other : key ≠ styleKey := (isWritten_iff.mp written).1
  have unrestored : Fields.get? (restoreBound .properties (keptStyle? node stylePropertyKey)
      (restoreBound .options (keptStyle? node styleOptionKey) [])) (space.path key) = none := by
    rw [Fields.get?_eq_none_iff]
    intro member
    rcases mem_names_restoreBound member with same | member
    · cases Namespace.eq_of_path_eq same
      exact other (Namespace.path_inj.mp same)
    · rcases mem_names_restoreBound member with same | member
      · cases Namespace.eq_of_path_eq same
        exact other (Namespace.path_inj.mp same)
      · cases member
  rw [Element.boundAt?, if_neg named, expressions_exportNode loop, Fields.get?_merge_ofEntries,
    unrestored, Option.or_none]
  split
  · next belongs =>
    have path : (space.path key, binding.code) ∈ writtenPaths node node.bindings :=
      (mem_writtenPaths style responsive).mpr
        ⟨binding, Fields.mem_of_get? found, written, unhandled, belongs, rfl⟩
    have kept : Fields.get? (Fields.ofEntries (writtenPaths node node.bindings)) (space.path key) =
        some binding.code := by
      apply Fields.get?_ofEntries_of_mem path
      rintro ⟨name, code⟩ member rfl
      obtain ⟨again, stored, -, -, -, same⟩ := (mem_writtenPaths style responsive).mp member
      cases found.symm.trans ((Fields.get?_eq_some_iff distinct).mpr stored)
      exact same.symm
    rw [kept, Option.filter_some, filled]
    rfl
  · next elsewhere =>
    have absent : Fields.get? (Fields.ofEntries (writtenPaths node node.bindings))
        (space.path key) = none := by
      rw [Fields.get?_eq_none_iff, Fields.mem_names_ofEntries]
      intro member
      obtain ⟨code, stored⟩ := Fields.mem_names.mp member
      obtain ⟨_, _, _, _, belongs, _⟩ := (mem_writtenPaths style responsive).mp stored
      exact elsewhere belongs
    rw [absent]
    rfl

/-- The element for a node gives the code of a binding for the field of its name, wherever
the binding is written. -/
theorem source?_exportNode {settings : ImportSettings} (keyed : node.Keyed)
    (loop : Loop.head? node = none) (ungrouped : Grouping.of? node.name = none)
    (apart : node.Apart) (found : Fields.get? node.bindings key = some binding)
    (written : isWritten node (key, binding) = true)
    (filled : Text.isBlankText binding.code = false) (named : key ≠ "") :
    (exportNode node).source? settings key = some (.bound binding.code) := by
  have distinct : Fields.Distinct node.bindings := keyed.bindings
  obtain ⟨other, unslotted, -⟩ := isWritten_iff.mp written
  rw [Element.source?, handlerOf?_exportNode loop distinct found written filled]
  cases handled : Event.ofHandler? key with
  | some event => rfl
  | none =>
    have bound {space : Namespace} (known : space = .options ∨ space = .properties) :=
      boundAt?_exportNode loop distinct found written filled named handled known
    have unset : Fields.get? node.properties key = none := by
      rw [Fields.get?_eq_none_iff]
      intro member
      exact apart key member (Fields.mem_names_of_mem (Fields.mem_of_get? found))
    rw [bound (.inl rfl), bound (.inr rfl), fieldSpace]
    cases isProperty node key with
    | true => rfl
    | false =>
      -- The binding is an option: neither a property nor another option has its name.
      have properties : Fields.get? ((exportNode node).properties.getD []) key = none := by
        rw [(frame_exportNode loop).2.2.2, get?_exportedProperties node other, unset, ite_self]
      have options : Fields.get? (exportNode node).options key = none := by
        cases tag : node.isTag with
        | true =>
          rw [exportNode_plain loop, (assemble_tag keyed tag _).1]
          rfl
        | false =>
          rw [get?_options_exportNode keyed tag loop ungrouped,
            Fields.get?_eq_none_iff.mpr unslotted, get?_exportedOptions node other, unset,
            ite_self]
          rfl
      rw [properties, Element.isStructural, options]
      rfl

end exported

/-! ## Components with one node -/

/-- The bindings of a node come back from its export with their names and their code, those of all
styles, of slots, of spread objects, and without a name or code aside. What else the node holds has
no influence on them. -/
theorem bindings_toComponent_ofComponent {writing : ExportSettings} {component result : Component}
    {node : Node} (single : component.children = [node]) (keyed : node.isKeyed = true)
    (valid : component.check = .ok ()) (unlooped : node.name ≠ Loop.wrapperName)
    (ungrouped : ∀ grouping : Grouping, node.name ≠ grouping.container)
    (h : toComponent {} (ofComponent writing component) = .ok result) :
    ∃ imported, result.children = [imported] ∧
      ∀ key binding, Fields.get? node.bindings key = some binding →
        binding.isSpread = false → key ≠ "" → key ≠ styleKey → key ∉ Fields.names node.slots →
        Text.isBlankText binding.code = false →
        Fields.get? imported.bindings key = some (.expression binding.code) := by
  have maps := Node.keyed_of_isKeyed keyed
  have loop := head?_eq_none unlooped
  have plain : Grouping.of? node.name = none := by
    rw [Grouping.of?, List.find?_eq_none]
    intro grouping _
    simpa using (ungrouped grouping).symm
  have apart : node.Apart := by
    rw [Component.check_ok_iff, single, List.forall_mem_singleton, Node.all_iff] at valid
    exact valid.1.1
  obtain ⟨imported, children, imports⟩ := toComponent_single single h
  obtain ⟨parts, nodes, rfl, options, -⟩ := body_of_importsTo (repetition_exportNode loop) imports
  refine ⟨_, children, ?_⟩
  intro key binding found single named other unslotted filled
  have field := Element.hasField_body (keyed_exportNode node keyed) options nodes other
  have written : isWritten node (key, binding) = true :=
    isWritten_iff.mpr ⟨other, unslotted, single⟩
  rw [field.binding, source?_exportNode maps loop plain apart found written filled named]
  rfl

def sharedLink : Component :=
  { name := "Shop"
    children :=
      [{ name := "a"
         properties := [("rel", .string "next")]
         bindings :=
           [("onClick", .expression "open()"), ("href", .expression "state.url"),
            ("properties.href", ⟨"state.other", .property, .single⟩)]
         metadata := [(optionKeysKey, .array [.string "properties.href"])] }] }

theorem sharedLink_bindings :
    sharedLink.check = .ok () ∧ ∃ result imported,
      toComponent {} (ofComponent {} sharedLink) = .ok result ∧ result.children = [imported] ∧
      Fields.get? imported.bindings "onClick" = some (.expression "open()") ∧
      Fields.get? imported.bindings "href" = some (.expression "state.url") ∧
      Fields.get? imported.bindings "properties.href" = some (.expression "state.other") := by
  have ungrouped : ∀ grouping : Grouping, "a" ≠ grouping.container := by
    intro grouping
    cases grouping <;> decide
  obtain ⟨result, made⟩ : ∃ result, toComponent {} (ofComponent {} sharedLink) = .ok result := by
    refine (toComponent_single_ok_iff rfl (by decide)).mpr ?_
    rw [exportable_iff]
    trivial
  obtain ⟨imported, children, back⟩ := bindings_toComponent_ofComponent rfl
    (by decide) (by decide) (by decide) ungrouped made
  refine ⟨by decide, result, imported, made, children, ?_, ?_, ?_⟩
  · exact back "onClick" _ rfl rfl (by decide) (by decide) (by decide) (by decide)
  · exact back "href" _ rfl rfl (by decide) (by decide) (by decide) (by decide)
  · exact back "properties.href" _ rfl rfl (by decide) (by decide) (by decide) (by decide)

end BlockLoom.Content
