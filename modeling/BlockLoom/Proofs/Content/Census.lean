import BlockLoom.Proofs.Content.Layout

/-!
The elements of exported content and the nodes that they are written for. Every node
has one element, apart from loop wrappers and groups, which have none. Further elements
are the fragments around what a loop repeats, and what literal options hold.
-/

namespace BlockLoom.Content

/-! ## The nodes in a node -/

mutual

/-- A node and all nodes in it, each with the grouping whose component it is a child of. -/
def placed (outer : Option Grouping) : Node → List (Option Grouping × Node)
  | ⟨name, properties, bindings, children, slots, scope, metadata⟩ =>
    (outer, ⟨name, properties, bindings, children, slots, scope, metadata⟩) ::
      (placedSlots slots ++ placedList (Grouping.of? name) children)

def placedList (outer : Option Grouping) : List Node → List (Option Grouping × Node)
  | [] => []
  | node :: nodes => placed outer node ++ placedList outer nodes

def placedSlots : List (String × List Node) → List (Option Grouping × Node)
  | [] => []
  | (_, nodes) :: slots => placedList none nodes ++ placedSlots slots

end

/-- Whether a node is written as an element of its own: loop wrappers and groups are not. -/
def isRendered (place : Option Grouping × Node) : Bool :=
  (Loop.head? place.2).isNone && !isGroupOf place.1 place.2

/-- The elements that are there because of a node, those for other nodes aside. -/
def share (place : Option Grouping × Node) : List Element :=
  if isRendered place then
    (exportNode place.2).bare :: (Element.reachedList (literalElements place.2)).map Element.bare
  else if isWrapped place.2 then [(Element.fragment (exportNodes place.2.children)).bare]
  else []

/-! ## The census -/

/-- The elements reached in the element for a node are those that are there because of
the nodes in it. -/
def Counted (outer : Option Grouping) (node : Node) : Prop :=
  ((exportNode node).reached.map Element.bare).Perm ((placed outer node).flatMap share)

def AllCounted (nodes : List Node) : Prop :=
  ((Element.reachedList (exportNodes nodes)).map Element.bare).Perm
    ((placedList none nodes).flatMap share)

theorem flatMap_placed (outer : Option Grouping) (node : Node) :
    (placed outer node).flatMap share =
      share (outer, node) ++ ((placedSlots node.slots).flatMap share ++
        (placedList (Grouping.of? node.name) node.children).flatMap share) := by
  cases node
  rw [placed, List.flatMap_cons, List.flatMap_append]

theorem AllCounted.of_all {nodes : List Node} (h : ∀ node ∈ nodes, Counted none node) :
    AllCounted nodes := by
  induction nodes with
  | nil =>
    rw [AllCounted, exportNodes, Element.reachedList]
    exact .refl _
  | cons node nodes ih =>
    obtain ⟨first, others⟩ := List.forall_mem_cons.mp h
    rw [AllCounted, exportNodes, Element.reachedList, List.map_append, placedList,
      List.flatMap_append]
    exact first.append (ih others)

theorem counted_slots {slots : List (String × List Node)} (h : ∀ slot ∈ slots, AllCounted slot.2) :
    ((Element.reachedList (slots.flatMap fun slot =>
      Element.strippedList (exportNodes slot.2))).map Element.bare).Perm
        ((placedSlots slots).flatMap share) := by
  induction slots with
  | nil =>
    rw [List.flatMap_nil, Element.reachedList]
    exact .refl _
  | cons slot slots ih =>
    obtain ⟨first, others⟩ := List.forall_mem_cons.mp h
    rw [List.flatMap_cons, Element.reachedList_append, List.map_append,
      Element.reachedList_stripped, placedSlots, List.flatMap_append]
    exact first.append (ih others)

/-- No element is there because of a group itself. -/
theorem flatMap_placed_group {grouping : Grouping} {child : Node}
    (named : child.name = grouping.nodeName) (unslotted : child.slots = []) :
    (placed (some grouping) child).flatMap share =
      (placedList none child.children).flatMap share := by
  have ungrouped : Grouping.of? child.name = none := by rw [named]; cases grouping <;> rfl
  have loop : Loop.head? child = none := head?_eq_none (by rw [named]; cases grouping <;> decide)
  have group : isRendered (some grouping, child) = false := by
    rw [isRendered, isGroupOf, Option.any_some, decide_eq_true named, Bool.not_true, Bool.and_false]
  have bare : isWrapped child = false := by rw [isWrapped, loop]; rfl
  rw [flatMap_placed, share, group, bare, unslotted, ungrouped]
  rfl

theorem groupBlocks_cons (grouping : Grouping) (child : Node) (nodes : List Node) :
    groupBlocks grouping (child :: nodes) =
      (if grouping.isGroup child then Element.strippedList (exportNodes child.children) else []) ++
        groupBlocks grouping nodes := by
  rw [groupBlocks, List.filter_cons]
  split
  · rfl
  · rfl

/-- A node has the name of a group if it is written as one or holds default content. -/
theorem isGroupOf_of_grouped {grouping : Grouping} {child : Node}
    (h : grouping.isGroup child = true ∨ grouping = .variants ∧ isDefaultVariant child = true) :
    isGroupOf (some grouping) child = true := by
  refine decide_eq_true ?_
  rcases h with group | ⟨rfl, default⟩
  · exact isGroupOf_of_isGroup group
  · exact eq_of_beq (Bool.and_eq_true_iff.mp default).1

theorem not_isGroupOf {grouping : Grouping} {child : Node} (group : ¬grouping.isGroup child = true)
    (default : ¬(grouping = .variants ∧ isDefaultVariant child = true)) :
    isGroupOf (some grouping) child = false := by
  refine decide_eq_false fun named => ?_
  cases grouping with
  | columns => exact group (decide_eq_true named)
  | variants =>
    have own : isDefaultVariant child = false := Bool.eq_false_iff.mpr fun h => default ⟨rfl, h⟩
    exact group (by rw [Grouping.isGroup, own, decide_eq_true named]; rfl)

/-- The elements of groups and of the nodes beside them are there because of the nodes in
the groups and of the other nodes. -/
theorem counted_groups {grouping : Grouping} {nodes : List Node}
    (h : ∀ child ∈ nodes,
      (isGroupOf (some grouping) child = false → Counted (some grouping) child) ∧
      (isGroupOf (some grouping) child = true → child.slots = [] ∧ AllCounted child.children)) :
    ((Element.reachedList (groupBlocks grouping nodes ++
      exportNodes (beside grouping nodes))).map Element.bare).Perm
        ((placedList (some grouping) nodes).flatMap share) := by
  induction nodes with
  | nil =>
    rw [groupBlocks, beside]
    exact .of_eq (by rw [List.filter_nil, List.flatMap_nil, List.flatMap_nil, exportNodes,
      List.append_nil, Element.reachedList]; rfl)
  | cons child nodes ih =>
    obtain ⟨⟨single, group⟩, others⟩ := List.forall_mem_cons.mp h
    have rest := ih others
    have inside (named : isGroupOf (some grouping) child = true) :
        (placed (some grouping) child).flatMap share =
          (placedList none child.children).flatMap share :=
      flatMap_placed_group (of_decide_eq_true named) (group named).1
    rw [Element.reachedList_append, List.map_append] at rest ⊢
    rw [placedList, List.flatMap_append, groupBlocks_cons, beside, List.flatMap_cons, ← beside,
      exportNodes_append, Element.reachedList_append, Element.reachedList_append, List.map_append,
      List.map_append]
    by_cases grouped : grouping.isGroup child = true
    · have named := isGroupOf_of_grouped (.inl grouped)
      rw [if_pos grouped, if_pos grouped, Element.reachedList_stripped, inside named, exportNodes,
        Element.reachedList, List.map_nil, List.nil_append, List.append_assoc]
      exact (group named).2.append rest
    · rw [if_neg grouped, if_neg grouped, Element.reachedList, List.map_nil, List.nil_append]
      -- What stands beside the groups comes before the rest of it, and after the groups.
      refine List.perm_append_comm_assoc _ _ _ |>.trans (List.Perm.append ?_ rest)
      by_cases default : grouping = .variants ∧ isDefaultVariant child = true
      · have named := isGroupOf_of_grouped (.inr default)
        rw [if_pos default, inside named]
        exact (group named).2
      · rw [if_neg default, exportNodes, exportNodes, Element.reachedList, Element.reachedList,
          List.append_nil]
        exact single (not_isGroupOf grouped default)

/-- The elements for a node that is no loop wrapper and no group: its own, those in its
literals, and those for the nodes in it. -/
theorem counted_rendered {node : Node} (keyed : node.Keyed) (loop : Loop.head? node = none)
    (h : Placeable node) {outer : Option Grouping} (single : isGroupOf outer node = false)
    (slots : ∀ slot ∈ node.slots, AllCounted slot.2) (children : AllCounted node.children)
    (inner : ∀ child ∈ node.children, ∀ outer,
      (isGroupOf outer child = false → Counted outer child) ∧ AllCounted child.children) :
    Counted outer node := by
  have parts := (Element.reachedList_perm (parts_exportNode keyed loop h)).map Element.bare
  have own : share (outer, node) =
      (exportNode node).bare :: (Element.reachedList (literalElements node)).map Element.bare := by
    rw [share, if_pos (by rw [isRendered, loop, single]; rfl)]
  rw [Element.reachedList_append, Element.reachedList_append, List.map_append,
    List.map_append] at parts
  rw [Counted, Element.reached, List.map_cons, flatMap_placed, own]
  refine (parts.trans ?_).cons _
  rw [List.append_assoc]
  refine (List.Perm.refl _).append ((counted_slots slots).append ?_)
  cases named : Grouping.of? node.name with
  | none => exact children
  | some grouping =>
    refine counted_groups fun child member => ⟨(inner child member _).1, fun group => ?_⟩
    exact ⟨h.groups child member (named ▸ group), (inner child member none).2⟩

/-- The elements for a loop wrapper: those for what it repeats, and a fragment around
these if one is needed. -/
theorem counted_loop {node : Node} {head : Loop.Head} (loop : Loop.head? node = some head)
    (h : Placeable node) (outer : Option Grouping) (children : AllCounted node.children)
    (inner : ∀ child ∈ node.children, ∀ outer, isGroupOf outer child = false →
      Counted outer child) : Counted outer node := by
  have named : node.name = Loop.wrapperName := by
    by_contra other
    cases loop.symm.trans (head?_eq_none other)
  have ungrouped : Grouping.of? node.name = none := by rw [named]; rfl
  have unslotted : node.slots = [] := by
    by_contra filled
    cases loop.symm.trans (h.slots filled).1
  have hidden : isRendered (outer, node) = false := by rw [isRendered, loop]; rfl
  rw [Counted, flatMap_placed, share, hidden, if_neg Bool.false_ne_true, unslotted, ungrouped]
  cases wrapped : isWrapped node with
  | true =>
    obtain ⟨repetition, whole⟩ := exportNode_wrapped wrapped
    rw [whole, Element.reached_repeated, Element.reached, List.map_cons, if_pos rfl]
    exact children.cons _
  | false =>
    obtain ⟨child, repetition, only, -, whole⟩ := exportNode_unwrapped loop wrapped
    have single : Counted none child := inner child (only ▸ List.mem_singleton_self child) none rfl
    rw [whole, Element.reached_repeated, if_neg Bool.false_ne_true, only, placedList, placedList,
      List.append_nil]
    exact single

mutual

theorem counted_node (node : Node) (keyed : node.isKeyed = true) (h : node.All Placeable)
    (outer : Option Grouping) :
    (isGroupOf outer node = false → Counted outer node) ∧ AllCounted node.children := by
  match node with
  | ⟨name, properties, bindings, children, slots, scope, metadata⟩ =>
    have maps := Node.keyed_of_isKeyed keyed
    obtain ⟨here, below, inSlots⟩ := Node.all_iff.mp h
    have inner := counted_nodes children maps.children below
    have all : AllCounted children := .of_all fun child member => (inner child member none).1 rfl
    -- A group has no element of its own, so of a group only the children are counted.
    refine ⟨fun single => ?_, all⟩
    cases loop : Loop.head? ⟨name, properties, bindings, children, slots, scope, metadata⟩ with
    | none =>
      exact counted_rendered maps loop here single (counted_inSlots slots maps.slots inSlots) all
        inner
    | some head =>
      exact counted_loop loop here outer all fun child member outer => (inner child member outer).1

theorem counted_nodes (nodes : List Node) (keyed : Node.areKeyed nodes = true)
    (h : ∀ node ∈ nodes, node.All Placeable) :
    ∀ node ∈ nodes, ∀ outer,
      (isGroupOf outer node = false → Counted outer node) ∧ AllCounted node.children := by
  match nodes with
  | [] => simp
  | node :: nodes =>
    rw [Node.areKeyed, Bool.and_eq_true] at keyed
    obtain ⟨first, others⟩ := List.forall_mem_cons.mp h
    rw [List.forall_mem_cons]
    exact ⟨counted_node node keyed.1 first, counted_nodes nodes keyed.2 others⟩

theorem counted_inSlots (slots : List (String × List Node)) (keyed : Node.haveKeyed slots = true)
    (h : ∀ slot ∈ slots, ∀ node ∈ slot.2, node.All Placeable) :
    ∀ slot ∈ slots, AllCounted slot.2 := by
  match slots with
  | [] => simp
  | (key, nodes) :: slots =>
    rw [Node.haveKeyed, Bool.and_eq_true] at keyed
    obtain ⟨first, others⟩ := List.forall_mem_cons.mp h
    rw [List.forall_mem_cons]
    exact ⟨.of_all fun node member => (counted_nodes nodes keyed.1 first node member none).1 rfl,
      counted_inSlots slots keyed.2 others⟩

end

/-- The nodes in a list of nodes that are written as elements of their own. -/
def rendered (nodes : List Node) : List Node :=
  ((placedList none nodes).filter isRendered).map Prod.snd

/-- The loop wrappers in a list of nodes that need a fragment. -/
def wrappers (nodes : List Node) : List Node :=
  ((placedList none nodes).map Prod.snd).filter isWrapped

theorem not_isWrapped {place : Option Grouping × Node} (h : isRendered place = true) :
    isWrapped place.2 = false := by
  have loop := Option.isNone_iff_eq_none.mp (Bool.and_eq_true_iff.mp h).1
  rw [isWrapped, loop]
  rfl

/-- The shares of nodes, sorted: their own elements, those in literals, and fragments. -/
theorem flatMap_share_perm (places : List (Option Grouping × Node)) :
    (places.flatMap share).Perm
      (((places.filter isRendered).map Prod.snd).map (fun node => (exportNode node).bare) ++
        (((places.filter isRendered).map Prod.snd).flatMap fun node =>
          (Element.reachedList (literalElements node)).map Element.bare) ++
        ((places.map Prod.snd).filter isWrapped).map fun node =>
          (Element.fragment (exportNodes node.children)).bare) := by
  induction places with
  | nil => exact .refl _
  | cons place places ih =>
    rw [List.flatMap_cons, share, List.filter_cons, List.map_cons, List.filter_cons]
    by_cases own : isRendered place = true
    · rw [if_pos own, if_pos own, if_neg (by simp [not_isWrapped own])]
      simp only [List.map_cons, List.flatMap_cons, List.cons_append, List.append_assoc]
      refine (((List.Perm.refl _).append ih).trans ?_).cons _
      rw [List.append_assoc]
      exact List.perm_append_comm_assoc _ _ _
    · rw [if_neg own, if_neg own]
      by_cases wrapped : isWrapped place.2 = true
      · rw [if_pos wrapped, if_pos wrapped, List.map_cons]
        exact (ih.cons _).trans List.perm_middle.symm
      · rw [if_neg wrapped, if_neg wrapped]
        exact ih

/-! ## Where the nodes in a node are written -/

mutual

theorem reaches_of_placed (node : Node) (outer : Option Grouping) :
    ∀ place ∈ placed outer node, node.Reaches place.2 := by
  match node with
  | ⟨name, properties, bindings, children, slots, scope, metadata⟩ =>
    rw [placed, List.forall_mem_cons, List.forall_mem_append]
    refine ⟨.self _, fun place member => ?_, fun place member => ?_⟩
    · obtain ⟨slot, listed, child, inside, reached⟩ := reaches_of_placedSlots slots place member
      exact .slot listed inside reached
    · obtain ⟨child, inside, reached⟩ := reaches_of_placedList children _ place member
      exact .child inside reached

theorem reaches_of_placedList (nodes : List Node) (outer : Option Grouping) :
    ∀ place ∈ placedList outer nodes, ∃ node ∈ nodes, node.Reaches place.2 := by
  match nodes with
  | [] => simp [placedList]
  | node :: nodes =>
    rw [placedList, List.forall_mem_append]
    refine ⟨fun place member => ?_, fun place member => ?_⟩
    · exact ⟨node, List.mem_cons_self, reaches_of_placed node outer place member⟩
    · obtain ⟨other, listed, reached⟩ := reaches_of_placedList nodes outer place member
      exact ⟨other, List.mem_cons_of_mem _ listed, reached⟩

theorem reaches_of_placedSlots (slots : List (String × List Node)) :
    ∀ place ∈ placedSlots slots, ∃ slot ∈ slots, ∃ node ∈ slot.2, node.Reaches place.2 := by
  match slots with
  | [] => simp [placedSlots]
  | (key, nodes) :: slots =>
    rw [placedSlots, List.forall_mem_append]
    refine ⟨fun place member => ?_, fun place member => ?_⟩
    · exact ⟨_, List.mem_cons_self, reaches_of_placedList nodes none place member⟩
    · obtain ⟨slot, listed, inner⟩ := reaches_of_placedSlots slots place member
      exact ⟨slot, List.mem_cons_of_mem _ listed, inner⟩

end

theorem isKeyed_of_reaches {node inner : Node} (h : node.Reaches inner)
    (keyed : node.isKeyed = true) : inner.isKeyed = true := by
  induction h with
  | self node => exact keyed
  | child member _ ih =>
    exact ih (Node.areKeyed_iff.mp (Node.keyed_of_isKeyed keyed).children _ member)
  | slot listed member _ ih =>
    have slot := Node.haveKeyed_iff.mp (Node.keyed_of_isKeyed keyed).slots _ listed
    exact ih (Node.areKeyed_iff.mp slot _ member)

/-- The export loses and doubles no node. The elements of the content are, up to their
order, those for the nodes that are neither loop wrappers nor groups, one for each, apart
from the elements that literal options hold and from fragments around what is repeated.
Every node has its name and the nodes of its lists in their order. -/
theorem census_ofComponent (writing : ExportSettings) {component : Component}
    (keyed : Node.areKeyed component.children = true)
    (placeable : ∀ child ∈ component.children, child.All Placeable) :
    ((Element.reachedList (ofComponent writing component).blocks).map Element.bare).Perm
        ((rendered component.children).map (fun node => (exportNode node).bare) ++
          ((rendered component.children).flatMap fun node =>
            (Element.reachedList (literalElements node)).map Element.bare) ++
          (wrappers component.children).map fun node =>
            (Element.fragment (exportNodes node.children)).bare) ∧
      (ofComponent writing component).blocks = component.children.map exportNode ∧
      (∀ node ∈ rendered component.children, Laid node) ∧
      ∀ node ∈ wrappers component.children,
        (exportNode node).children = node.children.map exportNode := by
  have counted : AllCounted component.children := .of_all fun child member =>
    (counted_nodes component.children keyed placeable child member none).1 rfl
  refine ⟨counted.trans (flatMap_share_perm _), exportNodes_eq_map _, fun node member => ?_,
    fun node member => ?_⟩
  · obtain ⟨place, listed, rfl⟩ := List.mem_map.mp member
    obtain ⟨among, own⟩ := List.mem_filter.mp listed
    obtain ⟨child, inside, reached⟩ := reaches_of_placedList component.children none place among
    exact laid_of_placeable (isKeyed_of_reaches reached (Node.areKeyed_iff.mp keyed child inside))
      (Option.isNone_iff_eq_none.mp (Bool.and_eq_true_iff.mp own).1)
      (placeable child inside place.2 reached)
  · obtain ⟨repetition, whole⟩ := exportNode_wrapped (List.mem_filter.mp member).2
    rw [whole, ← exportNodes_eq_map]
    rfl

/-- Two columns beside an image, a loop around two nodes of which one has a slot, and a
variant beside default content. -/
def landingPage : Component :=
  { name := "Landing"
    children :=
      [{ name := "Columns"
         children :=
           [{ name := "Column", properties := [("width", .ofInt 50)],
              children := [{ name := "h1" }, { name := "p" }] },
            { name := "img" }, { name := "Column" }] },
       { name := "For", bindings := [("each", .expression "state.cards")]
         children :=
           [{ name := "Card", slots := [("header", [{ name := "b" }])] }, { name := "hr" }] },
       { name := "PersonalizationContainer"
         children :=
           [{ name := "Variant", children := [{ name := "em" }] },
            { name := "Variant", properties := [("default", .string "")]
              children := [{ name := "i" }] }] }] }

theorem placeable_landingPage : ∀ child ∈ landingPage.children, child.All Placeable := by
  have leaf (name : String) (ungrouped : Grouping.of? name = none) :
      ({ name } : Node).All Placeable :=
    (Placeable.of_plain rfl ungrouped).all rfl (by simp)
  have card : ({ name := "Card", slots := [("header", [{ name := "b" }])] } : Node).All Placeable :=
    Node.all_iff.mpr ⟨⟨fun _ => ⟨rfl, rfl⟩, by simp, by rintro grouping ⟨⟩, by simp⟩, by simp,
      by simpa using leaf "b" rfl⟩
  simp only [landingPage, List.forall_mem_cons, List.not_mem_nil, false_implies, implies_true,
    and_true]
  refine ⟨Placeable.all ?_ rfl ?_, (Placeable.of_plain rfl rfl).all rfl ?_, Placeable.all ?_ rfl ?_⟩
  · exact ⟨by simp, by simp, by simp, fun _ => by simp [Group.blocksKey]⟩
  · simp only [List.forall_mem_cons, List.not_mem_nil, false_implies, implies_true, and_true]
    refine ⟨(Placeable.of_plain rfl rfl).all rfl ?_, leaf "img" rfl, leaf "Column" rfl⟩
    simpa using ⟨leaf "h1" rfl, leaf "p" rfl⟩
  · simpa using ⟨card, leaf "hr" rfl⟩
  · exact ⟨by simp, by simp, by simp, by rintro ⟨⟩⟩
  · simp only [List.forall_mem_cons, List.not_mem_nil, false_implies, implies_true, and_true]
    exact ⟨(Placeable.of_plain rfl rfl).all rfl (by simpa using leaf "em" rfl),
      (Placeable.of_plain rfl rfl).all rfl (by simpa using leaf "i" rfl)⟩

theorem landingPage_counted :
    (∀ child ∈ landingPage.children, child.All Placeable) ∧
      ((Element.reachedList (ofComponent {} landingPage).blocks).map
        fun element => element.bare.title).Perm
          (["Columns", "h1", "p", "img", "Card", "b", "hr", "PersonalizationContainer", "em", "i",
            "Core:Fragment"].map some) ∧
      (∀ node ∈ rendered landingPage.children, Laid node) ∧
      ∀ node ∈ wrappers landingPage.children,
        (exportNode node).children = node.children.map exportNode := by
  obtain ⟨counted, -, laid, wrapped⟩ :=
    @census_ofComponent {} landingPage (by decide) placeable_landingPage
  refine ⟨placeable_landingPage, ?_, laid, wrapped⟩
  have titles := counted.map Element.title
  rw [List.map_map] at titles
  have empty : ∀ node ∈ rendered landingPage.children, (literalElements node).isEmpty = true := by
    decide
  have surplus : ((rendered landingPage.children).flatMap fun node =>
      (Element.reachedList (literalElements node)).map Element.bare) = [] := by
    rw [List.flatMap_eq_nil_iff]
    intro node member
    rw [List.isEmpty_iff.mp (empty node member), Element.reachedList, List.map_nil]
  rw [surplus] at titles
  exact titles

def paragraphData : Json :=
  .object [("@type", .string elementType), ("tagName", .string "p")]

def listedCard : Node :=
  { name := "Card", properties := [("content", .array [paragraphData])] }

def listedColumns : Node :=
  { name := "Columns"
    properties := [("columns", .array [.object [("blocks", .array [paragraphData])]])] }

def literalLists : Component :=
  { name := "MyComponent", children := [listedCard, listedColumns] }

/-- Elements in literals are reached like any others, and no node stands for them. -/
theorem literalLists_surplus :
    literalLists.check = .ok () ∧ literalLists.isKeyed = true ∧
      (∀ child ∈ literalLists.children, child.All Placeable) ∧
      (Element.reachedList (ofComponent {} literalLists).blocks).map Element.title =
        [some "Card", some "p", some "Columns", some "p"] ∧
      (rendered literalLists.children).map Node.name = ["Card", "Columns"] ∧
      wrappers literalLists.children = [] := by
  have leaf : ({ tagName := some "p" } : Element).reached = [{ tagName := some "p" }] := by
    have parts : ({ tagName := some "p" } : Element).parts = [] := rfl
    rw [Element.reached, parts, Element.reachedList]
  have around {element : Element} (parts : element.parts = [{ tagName := some "p" }]) :
      element.reached = [element, { tagName := some "p" }] := by
    rw [Element.reached, parts, Element.reachedList, leaf, Element.reachedList]
    rfl
  have blocks : (ofComponent {} literalLists).blocks =
      [exportNode listedCard, exportNode listedColumns] := rfl
  refine ⟨rfl, by decide, ?_, ?_, by decide, rfl⟩
  · simp only [literalLists, List.forall_mem_cons, List.not_mem_nil, false_implies, implies_true,
      and_true]
    exact ⟨(Placeable.of_plain rfl rfl).all rfl (by simp [listedCard]),
      Placeable.all ⟨absurd rfl, by simp [listedColumns], by simp [listedColumns],
        by simp [listedColumns]⟩ rfl (by simp [listedColumns])⟩
  · rw [blocks, Element.reachedList, Element.reachedList, Element.reachedList, around rfl,
      around rfl]
    rfl

end BlockLoom.Content
