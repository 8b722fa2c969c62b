import BlockLoom.Proofs.Component.Writes
import BlockLoom.Proofs.Content.Document
import BlockLoom.Proofs.Content.Grouping
import BlockLoom.Proofs.Content.Importable

/-!
Which imported components pass the check. Literal and bound fields are kept apart by
every import. A node can be called like a loop wrapper without being one, since names
come from the content: the check passes just if every element under that name binds a
collection itself.
-/

namespace BlockLoom.Content

/-! ## Elements in an element -/

/-- An element that an option holds: an item of a slot, or a block of a group. -/
inductive Holds : Option Grouping → String × Json → Element → Prop where
  | slot {grouping : Option Grouping} {key : String} {items : List Json} {item : Json}
      {element : Element} (free : Grouping.claims grouping key = false)
      (marked : items.any isElement = true) (member : item ∈ items)
      (stands : StandsFor item element) : Holds grouping (key, .array items) element
  | block {grouping : Option Grouping} {key : String} {items : List Json} {item : Json}
      {group : Group} {element : Element} (claimed : Grouping.claims grouping key = true)
      (member : item ∈ items) (stands : Group.StandsFor item group)
      (inside : element ∈ group.blocks) : Holds grouping (key, .array items) element

/-- An element and the elements that are reached from it through children and options. -/
inductive Element.Reaches (settings : ImportSettings) : Element → Element → Prop where
  | self (element : Element) : Reaches settings element element
  | child {element child part : Element} (member : child ∈ element.children)
      (rest : Reaches settings child part) : Reaches settings element part
  | option {element child part : Element} {option : String × Json}
      (member : option ∈ element.options)
      (held : Holds (Grouping.of? (element.nodeName settings)) option child)
      (rest : Reaches settings child part) : Reaches settings element part

variable {settings : ImportSettings}

/-- A property holds of an element and of all elements in it. -/
def Element.All (settings : ImportSettings) (q : Element → Prop) (element : Element) : Prop :=
  ∀ part, element.Reaches settings part → q part

theorem Element.all_iff {q : Element → Prop} {element : Element} :
    element.All settings q ↔
      q element ∧ (∀ child ∈ element.children, child.All settings q) ∧
        ∀ option ∈ element.options, ∀ child,
          Holds (Grouping.of? (element.nodeName settings)) option child → child.All settings q := by
  constructor
  · intro h
    exact ⟨h element (.self element), fun child member part rest => h part (.child member rest),
      fun option member child held part rest => h part (.option member held rest)⟩
  · rintro ⟨here, children, options⟩ part reached
    cases reached with
    | self => exact here
    | child member rest => exact children _ member part rest
    | option member held rest => exact options _ member _ held part rest

/-! ## What the readers find in an option -/

theorem StandsFor.unique {value : Json} {element other : Element} (h : StandsFor value element)
    (h' : StandsFor value other) : element = other :=
  Except.ok.inj (h.2.symm.trans h'.2)

theorem Group.StandsFor.unique {value : Json} {group other : Group}
    (h : Group.StandsFor value group) (h' : Group.StandsFor value other) : group = other :=
  Except.ok.inj (((@Group.read_iff "" _ _).mpr h).symm.trans (Group.read_iff.mpr h'))

theorem mem_iff_of_forall₂ {α β : Type} {related : α → β → Prop}
    (unique : ∀ first second third, related first second → related first third → second = third)
    {items : List α} {others : List β} (h : List.Forall₂ related items others) {other : β} :
    other ∈ others ↔ ∃ item ∈ items, related item other := by
  induction h with
  | nil => simp
  | @cons item found items others first _ ih =>
    have here : related item other ↔ other = found :=
      ⟨fun also => unique _ _ _ also first, fun same => same ▸ first⟩
    simp [ih, here]

theorem holds_slot_iff {grouping : Option Grouping} {path : Path} {key : String} {value : Json}
    {elements : List Element} (free : Grouping.claims grouping key = false)
    (read : readOption path value = .ok (.slot elements)) {element : Element} :
    Holds grouping (key, value) element ↔ element ∈ elements := by
  obtain ⟨items, rfl, marked, stand⟩ := readOption_slot_iff.mp read
  rw [@mem_iff_of_forall₂ _ _ StandsFor (fun _ _ _ => StandsFor.unique) _ _ stand]
  constructor
  · rintro (⟨_, _, member, stands⟩ | ⟨claimed, _, _, _⟩)
    · exact ⟨_, member, stands⟩
    · cases free.symm.trans claimed
  · rintro ⟨item, member, stands⟩
    exact .slot free marked member stands

theorem not_holds_plain {grouping : Option Grouping} {path : Path} {key : String}
    {value plain : Json} (free : Grouping.claims grouping key = false)
    (read : readOption path value = .ok (.plain plain)) (element : Element) :
    ¬Holds grouping (key, value) element := by
  obtain ⟨rfl, unmarked⟩ := readOption_plain_iff.mp read
  rintro (⟨_, marked, _, _⟩ | ⟨claimed, _, _, _⟩)
  · cases (unmarked _ rfl).symm.trans marked
  · cases free.symm.trans claimed

theorem holds_block_iff {grouping : Option Grouping} {path : Path} {key : String} {value : Json}
    {groups : List Group} (claimed : Grouping.claims grouping key = true)
    (read : Group.readList path value = .ok groups) {element : Element} :
    Holds grouping (key, value) element ↔ ∃ group ∈ groups, element ∈ group.blocks := by
  obtain ⟨items, rfl, stand⟩ := Group.readList_iff.mp read
  simp only
    [@mem_iff_of_forall₂ _ _ Group.StandsFor (fun _ _ _ => Group.StandsFor.unique) _ _ stand]
  constructor
  · rintro (⟨free, _, _, _⟩ | ⟨_, member, stands, inside⟩)
    · cases claimed.symm.trans free
    · exact ⟨_, ⟨_, member, stands⟩, inside⟩
  · rintro ⟨group, ⟨item, member, stands⟩, inside⟩
    exact .block claimed member stands inside

theorem forall_holds_slot_iff {grouping : Option Grouping} {path : Path} {key : String}
    {value : Json} {elements : List Element} {q : Element → Prop}
    (free : Grouping.claims grouping key = false)
    (read : readOption path value = .ok (.slot elements)) :
    (∀ child, Holds grouping (key, value) child → q child) ↔ ∀ element ∈ elements, q element := by
  simp only [holds_slot_iff free read]

theorem forall_holds_block_iff {grouping : Option Grouping} {path : Path} {key : String}
    {value : Json} {groups : List Group} {q : Element → Prop}
    (claimed : Grouping.claims grouping key = true)
    (read : Group.readList path value = .ok groups) :
    (∀ child, Holds grouping (key, value) child → q child) ↔
      ∀ group ∈ groups, ∀ block ∈ group.blocks, q block := by
  simp only [holds_block_iff claimed read]
  exact ⟨fun h group member block inside => h block ⟨group, member, inside⟩,
    fun h child ⟨group, member, inside⟩ => h group member child inside⟩

/-- Whether an option is plain data: it holds neither groups nor a slot. -/
def isPlainOption (grouping : Option Grouping) (option : String × Json) : Bool :=
  !Grouping.claims grouping option.1 && !(option.2.items?.getD []).any isElement

theorem isPlainOption_of_isPlain {grouping : Option Grouping} {key : String} {value : Json}
    (free : Grouping.claims grouping key = false) (unmarked : IsPlain value) :
    isPlainOption grouping (key, value) = true := by
  rw [isPlainOption, free, Bool.not_false, Bool.true_and, Bool.not_eq_true']
  cases value with
  | array items => exact unmarked items rfl
  | _ => rfl

def Element.plainOptions (settings : ImportSettings) (element : Element) : Fields Json :=
  element.options.filter (isPlainOption (Grouping.of? (element.nodeName settings)))

/-! ## The body of a node -/

/-- A property that is kept when one field or one entry of the metadata is written. -/
structure Kept (p : Node → Prop) : Prop where
  property : ∀ node key value, p node → p (node.setProperty key value)
  binding : ∀ node key value, p node → p (node.setBinding key value)
  metadata : ∀ node key value, p node → p (node.setMetadata key value)

namespace Kept

variable {p : Node → Prop}

theorem addFields (kept : Kept p) (styleEntry : String) {node : Node} (h : p node)
    (fields : Fields FieldValue) : p (addFields styleEntry node fields) := by
  refine List.foldlRecOn (motive := p) fields _ h fun node h field _ => ?_
  rw [addField]
  split
  · exact kept.metadata _ _ _ h
  · cases field.2 with
    | literal value => exact kept.property _ _ _ h
    | bound code => exact kept.binding _ _ _ h

theorem addHandlers (kept : Kept p) {node : Node} (h : p node) (handlers : Fields String) :
    p (addHandlers node handlers) := by
  refine List.foldlRecOn (motive := p) handlers _ h fun node h handler _ => ?_
  split
  · exact h
  · exact kept.binding _ _ _ h

theorem recordProperties (kept : Kept p) (element : Element) (fields : Fields FieldValue)
    {node : Node} (h : p node) : p (recordProperties element fields node) := by
  rw [Content.recordProperties]
  split
  · exact kept.metadata _ _ _ h
  · exact h

theorem recordOptions (kept : Kept p) (element : Element) (bound : Bound) {node : Node}
    (h : p node) : p (recordOptions element bound node) := by
  rw [Content.recordOptions]
  dsimp only
  split
  · exact kept.metadata _ _ _ h
  · exact h

theorem addStyles (kept : Kept p) (element : Element) (bound : Bound) {node : Node} (h : p node) :
    p (addStyles element bound node) := by
  rw [Content.addStyles]
  split
  · exact kept.metadata _ _ _ (kept.binding _ _ _ h)
  · exact h

/-- The node for an element has what is kept, if the node without any fields has it, and if writing
one field keeps it. Handlers, styles and all other fields are written one by one. -/
theorem body (kept : Kept p) {element : Element} {parts : OptionParts} {children : List Node}
    (start : p
      { name := element.nodeName settings
        slots := parts.slots
        children := parts.groups ++ ownChildren (element.nodeName settings) children
        metadata := element.identity }) :
    p (element.body settings parts children) :=
  kept.addStyles _ _ <| kept.addHandlers (kept.recordOptions _ _ <| kept.recordProperties _ _ <|
    kept.addFields _ (kept.addFields _ start _) _) _

end Kept

theorem kept_single : Kept Node.Single :=
  ⟨fun _ key value h => h.setHeld key (.literal value),
    fun _ key binding h => h.setHeld key (.bound binding),
    fun _ _ _ h => ⟨h.properties, h.bindings, h.apart⟩⟩

/-- What a node is apart from its fields and its metadata. -/
theorem frame_body (settings : ImportSettings) (element : Element) (parts : OptionParts)
    (children : List Node) :
    (element.body settings parts children).name = element.nodeName settings ∧
      (element.body settings parts children).slots = parts.slots ∧
      (element.body settings parts children).children =
        parts.groups ++ ownChildren (element.nodeName settings) children := by
  have kept : Kept fun node => node.name = element.nodeName settings ∧ node.slots = parts.slots ∧
      node.children = parts.groups ++ ownChildren (element.nodeName settings) children :=
    ⟨fun _ _ _ h => h, fun _ _ _ h => h, fun _ _ _ h => h⟩
  exact kept.body ⟨rfl, rfl, rfl⟩

/-- Every field of an imported node stands once. -/
theorem single_body (settings : ImportSettings) (element : Element) (parts : OptionParts)
    (children : List Node) : (element.body settings parts children).Single :=
  kept_single.body ⟨Fields.distinct_nil, Fields.distinct_nil, nofun⟩

/-! ## Written fields -/

/-- What is read of one field of a node after a pass of the import: what the last value under its
key has of it, or else what was there. No pass writes the field for all styles. -/
theorem read_addFields {α : Type} {key : String} (read : Node → Option α) (part : Held → Option α)
    (metadata : ∀ node name value, read (node.setMetadata name value) = read node)
    (field : ∀ node name held,
      read (node.setHeld name held) = if name = key then part held else read node)
    (styleEntry : String) (node : Node) (fields : Fields FieldValue) :
    read (addFields styleEntry node fields) =
      ((if key = styleKey then none else Fields.get? (Fields.ofEntries fields) key).map
        fun value => part value.held).getD (read node) := by
  induction fields generalizing node with
  | nil => split <;> rfl
  | cons entry fields ih =>
    have step : read (addField styleEntry node entry) =
        if entry.1 = key ∧ key ≠ styleKey then part entry.2.held else read node := by
      rw [addField]
      split
      · next style =>
        rw [metadata, if_neg]
        rintro ⟨rfl, other⟩
        exact other style
      · next other =>
        have own : entry.1 = key ∧ key ≠ styleKey ↔ entry.1 = key := by
          apply and_iff_left_of_imp
          rintro rfl
          exact other
        rw [Node.setField_eq, field]
        simp only [own]
    rw [addFields, List.foldl_cons, ← addFields, ih, step, Fields.get?_ofEntries_cons]
    by_cases style : key = styleKey
    · simp [style]
    · cases Fields.get? (Fields.ofEntries fields) key with
      | some last => simp [style]
      | none => by_cases own : entry.1 = key <;> simp [style, own]

theorem properties_addFields (styleEntry : String) (node : Node) (fields : Fields FieldValue)
    (key : String) :
    Fields.get? (addFields styleEntry node fields).properties key =
      ((if key = styleKey then none else Fields.get? (Fields.ofEntries fields) key).map
        fun value => value.held.literal?).getD (Fields.get? node.properties key) :=
  read_addFields (fun node => Fields.get? node.properties key) Held.literal? (fun _ _ _ => rfl)
    (fun node name held => node.get?_properties_setHeld name key held) styleEntry node fields

theorem bindings_addFields (styleEntry : String) (node : Node) (fields : Fields FieldValue)
    (key : String) :
    Fields.get? (addFields styleEntry node fields).bindings key =
      ((if key = styleKey then none else Fields.get? (Fields.ofEntries fields) key).map
        fun value => value.held.binding?).getD (Fields.get? node.bindings key) :=
  read_addFields (fun node => Fields.get? node.bindings key) Held.binding? (fun _ _ _ => rfl)
    (fun node name held => node.get?_bindings_setHeld name key held) styleEntry node fields

/-! ## The collection of a loop -/

theorem handlerName_ne_collectionKey (event : String) :
    Event.handlerName event ≠ Loop.collectionKey := by
  intro same
  have letters := congrArg String.toList same
  rw [Event.handlerName] at letters
  split at letters
  · exact absurd letters (by decide)
  · rw [String.toList_ofList] at letters
    cases (List.cons.inj letters).1

theorem get?_bindings_addHandlers (node : Node) (handlers : Fields String) :
    Fields.get? (addHandlers node handlers).bindings Loop.collectionKey =
      Fields.get? node.bindings Loop.collectionKey := by
  refine List.foldlRecOn (motive := fun reached : Node =>
    Fields.get? reached.bindings Loop.collectionKey =
      Fields.get? node.bindings Loop.collectionKey) handlers _ rfl fun reached same handler _ => ?_
  split
  · exact same
  · change Fields.get? (Fields.put reached.bindings _ _) _ = _
    rw [Fields.get?_put, if_neg (handlerName_ne_collectionKey handler.1), same]

theorem bindings_recordProperties (element : Element) (fields : Fields FieldValue) (node : Node) :
    (recordProperties element fields node).bindings = node.bindings := by
  rw [recordProperties]
  split <;> rfl

theorem bindings_recordOptions (element : Element) (bound : Bound) (node : Node) :
    (recordOptions element bound node).bindings = node.bindings := by
  rw [recordOptions]
  dsimp only
  split <;> rfl

theorem get?_bindings_addStyles (element : Element) (bound : Bound) (node : Node) :
    Fields.get? (addStyles element bound node).bindings Loop.collectionKey =
      Fields.get? node.bindings Loop.collectionKey := by
  rw [addStyles]
  split
  · change Fields.get? (Fields.put node.bindings styleKey _) _ = _
    rw [Fields.get?_put, if_neg (by decide)]
  · rfl

/-- What an element says for the collection of a loop, its repetition aside: the value
written last, properties after options. -/
def Element.collection? (settings : ImportSettings) (element : Element) : Option FieldValue :=
  let bound := Bound.of element.bindings element.code.bindings
  Fields.get? (Fields.ofEntries
    (element.optionFields bound { plain := element.plainOptions settings } ++
      element.propertyFields bound)) Loop.collectionKey

/-- An element under the name of a loop wrapper binds a collection. -/
def Element.Collects (settings : ImportSettings) (element : Element) : Prop :=
  element.nodeName settings = Loop.wrapperName →
    ∃ code, element.collection? settings = some (.bound code)

def bindingOf? : Option FieldValue → Option Binding
  | some (.bound code) => some (.expression code)
  | _ => none

theorem collected_body {element : Element} {parts : OptionParts} (children : List Node)
    (plain : parts.plain = element.plainOptions settings) :
    (element.body settings parts children).Collected ↔ element.Collects settings := by
  have options : element.optionFields (Bound.of element.bindings element.code.bindings) parts =
      element.optionFields (Bound.of element.bindings element.code.bindings)
        { plain := element.plainOptions settings } := by
    rw [Element.optionFields, Element.optionFields, plain]
  have found : Fields.get? (element.body settings parts children).bindings Loop.collectionKey =
      bindingOf? (element.collection? settings) := by
    rw [Element.body, get?_bindings_addStyles, get?_bindings_addHandlers, bindings_recordOptions,
      bindings_recordProperties, bindings_addFields, bindings_addFields, if_neg (by decide),
      if_neg (by decide), options, Element.collection?, Fields.get?_ofEntries_append]
    cases Fields.get? (Fields.ofEntries (element.propertyFields
      (Bound.of element.bindings element.code.bindings))) Loop.collectionKey with
    | some last => cases last <;> rfl
    | none =>
      cases Fields.get? (Fields.ofEntries (element.optionFields
        (Bound.of element.bindings element.code.bindings)
        { plain := element.plainOptions settings })) Loop.collectionKey with
      | some last => cases last <;> rfl
      | none => rfl
  rw [Node.Collected, (frame_body settings element parts children).1, Element.Collects, Fields.has,
    found]
  cases element.collection? settings with
  | none => simp [bindingOf?]
  | some value => cases value <;> simp [bindingOf?]

/-! ## Imported nodes -/

/-- A property of nodes that is decided by the element that a node stands for: it holds
of every node that stands for no element of its own. -/
structure Traced (settings : ImportSettings) (p : Node → Prop) (q : Element → Prop) : Prop where
  body : ∀ (element : Element) (parts : OptionParts) (children : List Node),
    parts.plain = element.plainOptions settings →
      (p (element.body settings parts children) ↔ q element)
  wrap : ∀ body collection itemName indexName, p (Loop.wrap body collection itemName indexName)
  group : ∀ (grouping : Grouping) (group : Group) (children : List Node),
    p (grouping.node group children)
  default : ∀ children node, defaultVariant? children = some node → p node

section

variable {p : Node → Prop} {q : Element → Prop}

theorem Traced.all_ownChildren (traced : Traced settings p q) (name : String)
    (children : List Node) :
    (∀ child ∈ ownChildren name children, child.All p) ↔ ∀ child ∈ children, child.All p := by
  rw [ownChildren]
  split
  · cases children with
    | nil => simp [defaultVariant?]
    | cons child children =>
      have marked := traced.default (child :: children) _ rfl
      change (∀ found ∈ [_], Node.All p found) ↔ _
      rw [List.forall_mem_singleton, Node.all_iff]
      exact ⟨fun h => h.2.1, fun h => ⟨marked, h, nofun⟩⟩
  · rfl

theorem Traced.all_repeated (traced : Traced settings p q) (element : Element) (body : Node) :
    (element.repeated body).All p ↔ body.All p := by
  rw [Element.repeated]
  split
  · next repetition _ =>
    have wrapper := traced.wrap body repetition.collection repetition.itemName repetition.indexName
    rw [Node.all_iff]
    exact ⟨fun h => h.2.1 body List.mem_cons_self,
      fun h => ⟨wrapper, fun child member => List.mem_singleton.mp member ▸ h, nofun⟩⟩
  · rfl

theorem Traced.all_groupNode (traced : Traced settings p q) (grouping : Grouping) (group : Group)
    (children : List Node) :
    (grouping.node group children).All p ↔ ∀ child ∈ children, child.All p := by
  obtain ⟨-, slots, same⟩ := grouping.frame_node group children
  rw [Node.all_iff, slots, same]
  exact ⟨fun h => h.2.1, fun h => ⟨traced.group grouping group children, h, nofun⟩⟩

theorem Traced.all_body (traced : Traced settings p q) {element : Element} {parts : OptionParts}
    (plain : parts.plain = element.plainOptions settings) (children : List Node) :
    (element.body settings parts children).All p ↔
      q element ∧ (∀ child ∈ children, child.All p) ∧ (∀ node ∈ parts.groups, node.All p) ∧
        ∀ slot ∈ parts.slots, ∀ child ∈ slot.2, child.All p := by
  obtain ⟨-, slots, same⟩ := frame_body settings element parts children
  rw [Node.all_iff, slots, same, traced.body element parts children plain, List.forall_mem_append,
    traced.all_ownChildren]
  tauto

mutual

/-- What holds of all nodes of an imported tree is what holds of all elements in the
element that it stands for. -/
theorem Traced.importElement (traced : Traced settings p q) {path : Path} {element : Element}
    {node : Node} (h : importElement settings path element = .ok node) :
    node.All p ↔ element.All settings q := by
  rw [Content.importElement] at h
  split at h
  · cases h
  · next parts readOptions =>
    split at h
    · cases h
    · next children readChildren =>
      cases h
      obtain ⟨plain, options⟩ := Traced.importOptions traced readOptions
      rw [traced.all_repeated, traced.all_body plain, Element.all_iff,
        Traced.importElements traced readChildren, options]
termination_by (element.depth, 1, 0)
decreasing_by
  all_goals first
    | exact before_of_le element.depthMembers_options (by omega)
    | exact before_of_le element.depthList_children (by omega)

theorem Traced.importElements (traced : Traced settings p q) {path : Path} {index : Nat}
    {elements : List Element} {nodes : List Node}
    (h : importElements settings path index elements = .ok nodes) :
    (∀ node ∈ nodes, node.All p) ↔ ∀ element ∈ elements, element.All settings q := by
  match elements with
  | [] =>
    rw [Content.importElements] at h
    cases h
    simp
  | element :: elements =>
    rw [Content.importElements] at h
    split at h
    · cases h
    · next node first =>
      split at h
      · cases h
      · next others rest =>
        cases h
        rw [List.forall_mem_cons, List.forall_mem_cons, Traced.importElement traced first,
          Traced.importElements traced rest]
termination_by (Element.depthList elements, 0, elements.length)
decreasing_by
  · exact Prod.Lex.left _ _ (Nat.le_max_left _ _)
  · exact before_of_le (Nat.le_max_right _ _) (.inr ⟨rfl, Nat.lt_succ_self _⟩)

theorem Traced.importGroups (traced : Traced settings p q) {path : Path} {grouping : Grouping}
    {index : Nat} {groups : List Group} {nodes : List Node}
    (h : importGroups settings path grouping index groups = .ok nodes) :
    (∀ node ∈ nodes, node.All p) ↔
      ∀ group ∈ groups, ∀ block ∈ group.blocks, block.All settings q := by
  match groups with
  | [] =>
    rw [Content.importGroups] at h
    cases h
    simp
  | group :: groups =>
    rw [Content.importGroups] at h
    split at h
    · cases h
    · next blocks first =>
      split at h
      · cases h
      · next others rest =>
        cases h
        rw [List.forall_mem_cons, List.forall_mem_cons, traced.all_groupNode,
          Traced.importElements traced first, Traced.importGroups traced rest]
termination_by (Group.depthList groups, 0, groups.length)
decreasing_by
  · exact Prod.Lex.left _ _ (Nat.le_max_left _ _)
  · exact before_of_le (Nat.le_max_right _ _) (.inr ⟨rfl, Nat.lt_succ_self _⟩)

theorem Traced.importOptions (traced : Traced settings p q) {path : Path}
    {grouping : Option Grouping} {options : List (String × Json)} {parts : OptionParts}
    (h : importOptions settings path grouping options = .ok parts) :
    parts.plain = options.filter (isPlainOption grouping) ∧
      (((∀ node ∈ parts.groups, node.All p) ∧
        ∀ slot ∈ parts.slots, ∀ child ∈ slot.2, child.All p) ↔
        ∀ option ∈ options, ∀ child, Holds grouping option child → child.All settings q) := by
  match options with
  | [] =>
    rw [Content.importOptions] at h
    cases h
    exact ⟨rfl, by simp⟩
  | (key, value) :: options =>
    rw [Content.importOptions] at h
    rw [List.forall_mem_cons]
    cases claim : grouping.filter fun grouping => grouping.optionKey = key with
    | some found =>
      have claimed := Grouping.claims_eq_true_iff.mpr ⟨found, claim⟩
      rw [claim] at h
      dsimp only at h
      split at h
      · cases h
      · next groups read =>
        split at h
        · cases h
        · next nodes first =>
          split at h
          · cases h
          · next others rest =>
            cases h
            obtain ⟨plain, inner⟩ := Traced.importOptions traced rest
            have here := Traced.importGroups traced first
            refine ⟨?_, ?_⟩
            · rw [List.filter_cons, if_neg (by simp [isPlainOption, claimed])]
              exact plain
            · rw [← inner, forall_holds_block_iff claimed read, ← here, List.forall_mem_append]
              exact and_assoc
    | none =>
      have free := Grouping.claims_eq_false_iff.mpr claim
      rw [claim] at h
      dsimp only at h
      split at h
      · cases h
      · next elements read =>
        obtain ⟨items, given, marked, -⟩ := readOption_slot_iff.mp read
        split at h
        · cases h
        · next nodes first =>
          split at h
          · cases h
          · next others rest =>
            cases h
            obtain ⟨plain, inner⟩ := Traced.importOptions traced rest
            have here := Traced.importElements traced first
            refine ⟨?_, ?_⟩
            · rw [List.filter_cons, if_neg (by simp [isPlainOption, given, Json.items?, marked])]
              exact plain
            · rw [← inner, forall_holds_slot_iff free read, ← here, List.forall_mem_cons]
              exact and_left_comm
      · next plain read =>
        obtain ⟨rfl, unmarked⟩ := readOption_plain_iff.mp read
        split at h
        · cases h
        · next others rest =>
          cases h
          obtain ⟨plain, inner⟩ := Traced.importOptions traced rest
          refine ⟨?_, ?_⟩
          · rw [List.filter_cons, if_pos (isPlainOption_of_isPlain free unmarked), plain]
          · rw [← inner]
            exact ⟨fun h => ⟨fun child held => absurd held (not_holds_plain free read child), h⟩,
              fun h => h.2⟩
termination_by (Json.depthMembers options, 0, options.length)
decreasing_by
  all_goals first
    | exact before_of_le (Nat.le_max_right _ _) (.inr ⟨rfl, Nat.lt_succ_self _⟩)
    | exact Prod.Lex.left _ _ (Nat.lt_of_le_of_lt (Group.depth_readList (by assumption))
        (Nat.le_max_left _ _))
    | exact Prod.Lex.left _ _ (Nat.lt_of_le_of_lt (depth_readOption (by assumption))
        (Nat.le_max_left _ _))

end

end

/-! ## Which imports pass the check -/

theorem apart_groupNode (grouping : Grouping) (group : Group) (children : List Node) :
    (grouping.node group children).Apart := by
  rw [Grouping.node]
  exact List.foldlRecOn (motive := Node.Apart) group.fields _ (Node.apart_of_no_properties rfl)
    fun _ apart entry _ => apart.setProperty entry.1 entry.2

theorem traced_apart (settings : ImportSettings) : Traced settings Node.Apart fun _ => True where
  body element parts children _ := iff_true_intro (single_body settings element parts children).apart
  wrap _ _ _ _ := Node.apart_of_no_properties rfl
  group := apart_groupNode
  default children node h := by
    rw [defaultVariant?] at h
    split at h
    · cases h
    · cases h
      exact (Node.apart_of_no_properties rfl).setProperty _ _

theorem traced_collected (settings : ImportSettings) :
    Traced settings Node.Collected (Element.Collects settings) where
  body _ _ children plain := collected_body children plain
  wrap _ _ _ _ := fun _ => rfl
  group grouping group children := by
    intro same
    rw [(grouping.frame_node group children).1] at same
    have other : grouping.nodeName ≠ Loop.wrapperName := by cases grouping <;> decide
    exact absurd same other
  default children node h := by
    rw [defaultVariant?] at h
    split at h
    · cases h
    · cases h
      have other : Grouping.variants.nodeName ≠ Loop.wrapperName := by decide
      exact fun same => absurd same other

/-- Imported nodes keep literal and bound fields apart. They pass the check just if the
elements under the name of a loop wrapper bind a collection. -/
theorem check_toComponent_iff {content : Content} {component : Component}
    (h : toComponent settings content = .ok component) :
    (∀ child ∈ component.children, child.All Node.Apart) ∧
      (component.check = .ok () ↔
        ∀ block ∈ content.blocks, block.All settings (Element.Collects settings)) := by
  rw [toComponent] at h
  split at h
  · cases h
  · next children imported =>
    cases h
    have apart := ((traced_apart settings).importElements imported).mpr
      fun element _ part _ => trivial
    refine ⟨apart, ?_⟩
    rw [Component.check_ok_iff, ← (traced_collected settings).importElements imported]
    exact ⟨fun h child member inner reached => (h child member inner reached).2,
      fun h child member inner reached =>
        ⟨apart child member inner reached, h child member inner reached⟩⟩

/-- An imported text gives nodes of which no field is both literal and bound. They pass the check
just if every element under the name of a loop wrapper binds a collection, which the import does not
look for. -/
theorem check_parse_iff {source : String} {component : Component}
    (h : parse settings source = .ok component) :
    ∃ content, read source = .ok content ∧
      (∀ child ∈ component.children, child.All Node.Apart) ∧
      (component.check = .ok () ↔
        ∀ block ∈ content.blocks, block.All settings (Element.Collects settings)) := by
  rw [parse] at h
  split at h
  · cases h
  · next content found => exact ⟨content, found, check_toComponent_iff h⟩

/-- The text of a document without inputs and versions can be imported if its blocks can. -/
private theorem exists_parse_render {content : Content}
    (integral : content.toJson.isIntegral = true) (deep : content.toJson.nesting ≤ Json.maxDepth)
    (settled : Json.areSettled (Element.listToJson content.blocks) = true)
    (bare : content.inputs = []) (same : Element.strippedList content.blocks = content.blocks)
    (importable : ∀ block ∈ content.blocks, Importable settings block) :
    ∃ component, parse settings (content.toJson.render .compact 0) = .ok component ∧
      toComponent settings content = .ok component := by
  have found : read (content.toJson.render .compact 0) = .ok content := by
    rw [read_render .compact integral deep settled (by rw [settledInputs, bare]; rfl), same]
    obtain ⟨name, css, plainCode, typedCode, inputs, blocks⟩ := content
    cases bare
    rfl
  obtain ⟨nodes, imported⟩ := (importElements_ok_iff "blocks" 0 content.blocks).mpr importable
  have made : ∃ component, toComponent settings content = .ok component := by
    rw [toComponent, imported]
    exact ⟨_, rfl⟩
  obtain ⟨component, made⟩ := made
  refine ⟨component, ?_, made⟩
  rw [parse, found]
  exact made

def boundLoop : Content :=
  { blocks :=
      [{ tagName := some "For"
         bindings := [("component.options.each", "state.entries")]
         children := [{ tagName := some "p", repetition := some ⟨"entry.tags", none, none⟩ }] }] }

theorem boundLoop_checked :
    ∃ component, parse {} (boundLoop.toJson.render .compact 0) = .ok component ∧
      ∃ content, read (boundLoop.toJson.render .compact 0) = .ok content ∧
        (∀ child ∈ component.children, child.All Node.Apart) ∧
        (component.check = .ok () ↔
          ∀ block ∈ content.blocks, block.All {} (Element.Collects {})) := by
  have tags (name : String) (bindings : Fields String) (repetition : Option Repetition)
      (children : List Element) (h : ∀ child ∈ children, Importable {} child) :
      Importable {} { tagName := some name, bindings, repetition, children } :=
    .intro _ nofun h
  obtain ⟨component, parsed, -⟩ := @exists_parse_render {} boundLoop
    (by decide) (by decide) (by decide) rfl rfl (by
      simp only [boundLoop, List.forall_mem_singleton]
      exact tags _ _ _ _ (List.forall_mem_singleton.mpr (tags _ _ _ _ nofun)))
  exact ⟨component, parsed, check_parse_iff parsed⟩

def bareLoop : Content :=
  { blocks := [{ tagName := some "For" }] }

/-- A component can be imported and not pass the check: a tag may be called like a loop. -/
theorem bareLoop_defective :
    ∃ component, parse {} (bareLoop.toJson.render .compact 0) = .ok component ∧
      component.check ≠ .ok () := by
  obtain ⟨component, parsed, made⟩ := @exists_parse_render {} bareLoop
    (by decide) (by decide) (by decide) rfl rfl
    (List.forall_mem_singleton.mpr (.intro _ nofun nofun))
  refine ⟨component, parsed, fun passed => ?_⟩
  have collects := (check_toComponent_iff made).2.mp passed _ List.mem_cons_self _ (.self _)
  obtain ⟨code, found⟩ := collects rfl
  cases found

end BlockLoom.Content
