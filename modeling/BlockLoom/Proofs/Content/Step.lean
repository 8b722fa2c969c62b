import BlockLoom.Proofs.Content.Decoded
import BlockLoom.Proofs.Content.GroupRoundTrip
import BlockLoom.Proofs.Content.Imported
import BlockLoom.Proofs.Content.Reached

/-!
One step of the import. The node for an element is made of the nodes for its children, for the
elements of its slots and for the blocks of its groups, all of which are less deep. So what
holds of a node whenever it holds of the nodes that it is made of holds of every imported node.
-/

namespace BlockLoom.Content

variable {settings : ImportSettings}

/-! ## What a node is made of -/

/-- The groups of an element, if its node is called like a component with groups. -/
def Element.groups (settings : ImportSettings) (element : Element) : List Group :=
  match Grouping.of? (element.nodeName settings) with
  | some grouping => groupsIn grouping element.options
  | none => []

/-- What it means for the parts of a node to be what the options and the children of an element
are imported as. -/
structure Element.Imports (settings : ImportSettings) (element : Element) (parts : OptionParts)
    (children : List Node) : Prop where
  plain : parts.plain = element.plainOptions settings
  slots : List.Forall₂ (SlotOf settings)
    (element.options.filter (isSlotOption (Grouping.of? (element.nodeName settings)))) parts.slots
  groups : List.Forall₂ (fun group node => ∃ grouping,
      Grouping.of? (element.nodeName settings) = some grouping ∧
        GroupNode settings grouping group node) (element.groups settings) parts.groups
  children : List.Forall₂ (Element.ImportsTo settings) element.children children

theorem groups_importOptions_none {path : Path} {options : List (String × Json)}
    {parts : OptionParts} (h : importOptions settings path none options = .ok parts) :
    parts.groups = [] := by
  induction options generalizing parts with
  | nil => rw [importOptions] at h; cases h; rfl
  | cons option options ih =>
    obtain ⟨key, value⟩ := option
    rw [importOptions] at h
    dsimp only [Option.filter_none] at h
    split at h
    · cases h
    · split at h
      · cases h
      · split at h
        · cases h
        · next others rest => cases h; have inner := ih rest; exact inner
    · split at h
      · cases h
      · next others rest => cases h; have inner := ih rest; exact inner

theorem groups_importOptions {path : Path} {element : Element} {parts : OptionParts}
    (distinct : Fields.Distinct element.options)
    (h : importOptions settings path (Grouping.of? (element.nodeName settings)) element.options =
      .ok parts) :
    List.Forall₂ (fun group node => ∃ grouping,
      Grouping.of? (element.nodeName settings) = some grouping ∧
        GroupNode settings grouping group node) (element.groups settings) parts.groups := by
  rw [Element.groups]
  cases grouped : Grouping.of? (element.nodeName settings) with
  | none =>
    rw [grouped] at h
    rw [groups_importOptions_none h]
    exact .nil
  | some grouping =>
    rw [grouped] at h
    exact (sorted_importOptions distinct h).groups.imp fun _ _ made => ⟨grouping, rfl, made⟩

theorem plain_importOptions {path : Path} {grouping : Option Grouping}
    {options : List (String × Json)} {parts : OptionParts}
    (h : importOptions settings path grouping options = .ok parts) :
    parts.plain = options.filter (isPlainOption grouping) :=
  ((traced_apart settings).importOptions h).1

/-- The node for an element is its body, made of what its options and its children are imported
as, and repeated if the element is. -/
theorem imports_of_importElement {path : Path} {element : Element} {node : Node}
    (keyed : element.Keyed) (h : importElement settings path element = .ok node) :
    ∃ parts children, node = element.repeated (element.body settings parts children) ∧
      element.Imports settings parts children := by
  rw [importElement] at h
  split at h
  · cases h
  · next parts readOptions =>
    split at h
    · cases h
    · next children readChildren =>
      cases h
      exact ⟨parts, children, rfl, plain_importOptions readOptions, slots_importOptions readOptions,
        groups_importOptions (Json.isSettled_object.mp (Element.isSettled_options keyed)).1
          readOptions, forall₂_of_importElements readChildren⟩

/-! ## Depth -/

namespace Element

variable {element : Element}

theorem depth_child {child : Element} (member : child ∈ element.children) :
    child.depth < element.depth :=
  Nat.lt_of_lt_of_le (depth_lt_depthList member) element.depthList_children

theorem depth_option {option : String × Json} (member : option ∈ element.options) :
    option.2.depth < element.depth :=
  Nat.lt_of_lt_of_le (Json.depth_lt_depthMembers member) element.depthMembers_options

end Element

theorem StandsFor.depth {value : Json} {element : Element} (h : StandsFor value element) :
    element.depth ≤ value.depth :=
  Element.depth_fromJson h.2

/-- An element that an option holds is less deep than the element with the option. -/
theorem Holds.depth {grouping : Option Grouping} {option : String × Json} {element : Element}
    (h : Holds grouping option element) : element.depth ≤ option.2.depth := by
  cases h with
  | slot _ _ item stands =>
    exact Nat.le_trans stands.depth (Nat.le_of_lt (Json.depth_lt_depthItems item))
  | block _ item stands inside =>
    have deep := Group.depth_read ((@Group.read_iff "" _ _).mpr stands)
    have here := Element.depth_lt_depthList inside
    have there := Json.depth_lt_depthItems item
    rw [Json.depth]
    omega

/-! ## Nodes inside -/

theorem exists_of_forall₂ {α β : Type} {related : α → β → Prop} {items : List α} {others : List β}
    (h : List.Forall₂ related items others) {other : β} (member : other ∈ others) :
    ∃ item ∈ items, related item other := by
  induction h with
  | nil => cases member
  | cons first _ ih =>
    rcases List.mem_cons.mp member with rfl | member
    · exact ⟨_, List.mem_cons_self, first⟩
    · obtain ⟨item, listed, here⟩ := ih member
      exact ⟨item, List.mem_cons_of_mem _ listed, here⟩

/-- A node in a slot stands for an element that an option holds. -/
theorem holds_of_slotOf {grouping : Option Grouping} {option : String × Json}
    {slot : String × List Node} (sorted : isSlotOption grouping option = true)
    (h : SlotOf settings option slot) {node : Node} (member : node ∈ slot.2) :
    ∃ inner, Holds grouping option inner ∧ inner.ImportsTo settings node := by
  obtain ⟨items, elements, value, stand, imports⟩ := h.nodes
  obtain ⟨inner, listed, made⟩ := exists_of_forall₂ imports member
  obtain ⟨item, among, stands⟩ :=
    (mem_iff_of_forall₂ (fun _ _ _ first second => first.unique second) stand).mp listed
  obtain ⟨key, _⟩ := option
  cases value
  rw [isSlotOption, Bool.and_eq_true, Bool.not_eq_true'] at sorted
  exact ⟨inner, .slot sorted.1 sorted.2 among stands, made⟩

theorem holds_of_groupsIn {grouping : Grouping} {options : Fields Json} {group : Group}
    {block : Element} (member : group ∈ groupsIn grouping options) (inside : block ∈ group.blocks) :
    ∃ option ∈ options, Holds (some grouping) option block := by
  rw [groupsIn] at member
  split at member
  · next value found =>
    cases read : Group.readList "" value with
    | error failure => rw [read] at member; cases member
    | ok groups =>
      rw [read] at member
      exact ⟨(grouping.optionKey, value), Fields.mem_of_get? found,
        (holds_block_iff (claims_self grouping) read).mpr ⟨group, member, inside⟩⟩
  · cases member

/-- A node in a group stands for an element that an option holds. Such an element is less deep than
the one with the option, and inductions over nodes go down along this step. -/
theorem Element.Imports.held {element : Element} {parts : OptionParts} {children : List Node}
    (h : element.Imports settings parts children) {group node : Node} (listed : group ∈ parts.groups)
    (member : node ∈ group.children) :
    ∃ option ∈ element.options, ∃ inner,
      Holds (Grouping.of? (element.nodeName settings)) option inner ∧
        inner.ImportsTo settings node := by
  obtain ⟨given, among, grouping, grouped, path, blocks, read, rfl⟩ :=
    exists_of_forall₂ h.groups listed
  rw [(grouping.frame_node given blocks).2.2] at member
  obtain ⟨inner, inside, made⟩ := exists_of_forall₂ (forall₂_of_importElements read) member
  rw [Element.groups, grouped] at among
  obtain ⟨option, there, holds⟩ := holds_of_groupsIn among inside
  exact ⟨option, there, inner, grouped ▸ holds, made⟩

/-- What holds of every node that is made of nodes of which it holds, holds of every node that
an element is imported as. -/
theorem importElement_induction {q : Element → Prop} {p : Node → Prop}
    (step : ∀ element parts children, element.Decoded → q element →
      element.Imports settings parts children → (∀ child ∈ children, p child) →
      (∀ slot ∈ parts.slots, ∀ child ∈ slot.2, p child) →
      (∀ group ∈ parts.groups, ∀ child ∈ group.children, p child) →
        p (element.repeated (element.body settings parts children)))
    {element : Element} (decoded : element.Decoded) (all : element.All settings q) {node : Node}
    (h : element.ImportsTo settings node) : p node := by
  induction size : element.depth using Nat.strong_induction_on generalizing element node with
  | _ depth ih =>
    obtain ⟨parts, children, rfl, imports⟩ := imports_of_importElement decoded.keyed (h "")
    obtain ⟨here, inChildren, inOptions⟩ := Element.all_iff.mp all
    have below {option : String × Json} {inner : Element} {child : Node}
        (member : option ∈ element.options)
        (held : Holds (Grouping.of? (element.nodeName settings)) option inner)
        (made : inner.ImportsTo settings child) : p child :=
      ih inner.depth (size ▸ Nat.lt_of_le_of_lt held.depth (Element.depth_option member))
        (decoded.held member held) (inOptions option member inner held) made rfl
    refine step element parts children decoded here imports ?_ ?_ ?_
    · intro child member
      obtain ⟨inner, listed, made⟩ := exists_of_forall₂ imports.children member
      exact ih inner.depth (size ▸ Element.depth_child listed) (decoded.child listed)
        (inChildren inner listed) made rfl
    · intro slot listed child member
      obtain ⟨option, among, made⟩ := exists_of_forall₂ imports.slots listed
      obtain ⟨there, sorted⟩ := List.mem_filter.mp among
      obtain ⟨inner, held, imported⟩ := holds_of_slotOf sorted made member
      exact below there held imported
    · intro group listed child member
      obtain ⟨option, there, inner, held, made⟩ := imports.held listed member
      exact below there held made

end BlockLoom.Content
