import BlockLoom.Proofs.Content.Layout
import BlockLoom.Proofs.Content.Slots

/-!
Loops after export and import. An element has room for one repetition only, so a loop around
anything but one node that is no loop is written as a fragment that is repeated. What comes
back is a loop with the same collection and the same names around the one node or around that
fragment, and this holds again of the loops inside.
-/

namespace BlockLoom.Content

variable {settings : ImportSettings}

/-! ## Repeated elements and fragments -/

theorem map_eq_ok_iff {α β : Type} {convert : α → β} {result : Except Failure α} {value : β} :
    result.map convert = .ok value ↔ ∃ source, result = .ok source ∧ convert source = value := by
  cases result with
  | error failure => exact ⟨nofun, nofun⟩
  | ok source => simp [Except.map]

theorem importElement_repeated {element : Element} (once : element.repetition = none)
    {repetition : Repetition} (filled : Text.isBlankText repetition.collection = false)
    (path : Path) :
    importElement settings path { element with repetition := some repetition } =
      (importElement settings path element).map fun body =>
        Loop.wrap body repetition.collection repetition.itemName repetition.indexName := by
  have name : Element.nodeName settings { element with repetition := some repetition } =
      element.nodeName settings := rfl
  have options : Element.options { element with repetition := some repetition } =
      element.options := rfl
  rw [importElement, importElement, name, options]
  cases importOptions settings ((path.field "component").field "options")
      (Grouping.of? (element.nodeName settings)) element.options with
  | error failure => rfl
  | ok parts =>
    dsimp only
    cases importElements settings (path.field "children") 0 element.children with
    | error failure => rfl
    | ok children =>
      have bare : element.repeated (element.body settings parts children) =
          element.body settings parts children := by
        rw [Element.repeated, once]
        rfl
      dsimp only
      rw [bare, Element.repeated, Option.filter_some, filled]
      rfl

def fragmentNode (children : List Node) : Node :=
  { name := "Core:Fragment", children }

theorem body_fragment (children : List Element) (nodes : List Node) :
    (Element.fragment children).body settings {} nodes = fragmentNode nodes := by
  have name : (Element.fragment children).nodeName settings = "Core:Fragment" := by rfl
  have own : ownChildren "Core:Fragment" nodes = nodes := if_neg (by decide)
  have bound : Bound.of (Element.fragment children).bindings
      (Element.fragment children).code.bindings = {} := by rfl
  have unrecorded (node : Node) : recordOptions (Element.fragment children) {} node = node := by
    rw [recordOptions]
    exact if_neg (by simp [Fields.names])
  rw [Element.body, name, own, bound]
  dsimp only
  rw [unrecorded]
  rfl

theorem importElement_fragment (children : List Element) (path : Path) :
    importElement settings path (Element.fragment children) =
      (importElements settings (path.field "children") 0 children).map fragmentNode := by
  have options : (Element.fragment children).options = [] := rfl
  rw [importElement, options, importOptions]
  dsimp only
  have inner : (Element.fragment children).children = children := rfl
  rw [inner]
  cases importElements settings (path.field "children") 0 children with
  | error failure => rfl
  | ok nodes =>
    dsimp only
    rw [body_fragment]
    rfl

/-! ## One loop -/

/-- What it means for a node to be a loop over a collection: there is code for the collection,
and the names that it gives are not empty. -/
structure IsLoop (node : Node) (collection : String) : Prop where
  named : node.name = Loop.wrapperName
  bound : ∃ binding, Fields.get? node.bindings Loop.collectionKey = some binding ∧
    binding.code = collection
  filled : Text.isBlankText collection = false
  itemName : node.scope.itemName ≠ some ""
  indexName : node.scope.indexName ≠ some ""

/-- The loop that comes back for a loop: over the same collection, with the names that it gives
or the default names, around one node. -/
def loopNode (node : Node) (collection : String) (child : Node) : Node :=
  { name := Loop.wrapperName
    bindings := [(Loop.collectionKey, .expression collection)]
    scope :=
      { itemName := some (node.scope.itemName.getD (Loop.defaultItemName collection))
        indexName := some (node.scope.indexName.getD Loop.defaultIndexName) }
    children := [child] }

/-- A name that is left out because it is the default is filled in again. -/
theorem nameOr_filter_default {given : Option String} (filled : given ≠ some "")
    (default : String) :
    Loop.nameOr (given.filter fun name => decide (name ≠ default)) default =
      given.getD default := by
  cases given with
  | none => rfl
  | some name =>
    have named : name ≠ "" := fun empty => filled (congrArg some empty)
    rw [Option.filter_some, Option.getD_some]
    by_cases same : name = default
    · simp [same, Loop.nameOr]
    · simp [same, named, Loop.nameOr]

section loop

variable {node inner : Node} {collection : String}

theorem IsLoop.head (h : IsLoop node collection) :
    Loop.head? node = some
      { collection
        itemName := node.scope.itemName.filter fun name =>
          decide (name ≠ Loop.defaultItemName collection)
        indexName := node.scope.indexName.filter fun name =>
          decide (name ≠ Loop.defaultIndexName) } := by
  obtain ⟨binding, found, rfl⟩ := h.bound
  rw [Loop.head?, if_pos h.named, found]
  rfl

/-- A loop is written as the repetition of an element, and comes back around what this element
is imported as. -/
theorem IsLoop.importElement (h : IsLoop node collection) {element : Element}
    (once : element.repetition = none) {repetition : Option Repetition}
    (whole : exportNode node = { element with repetition }) (path : Path) :
    importElement settings path (exportNode node) =
      (importElement settings path element).map (loopNode node collection) := by
  have written := repetition_of_head h.head
  rw [whole] at written
  dsimp only at written
  rw [whole, written, importElement_repeated once h.filled]
  congr 1
  funext child
  rw [Loop.wrap, nameOr_filter_default h.itemName, nameOr_filter_default h.indexName]
  rfl

theorem IsLoop.importElement_wrapped (h : IsLoop node collection)
    (wrapped : isWrapped node = true) (path : Path) :
    Content.importElement settings path (exportNode node) =
      ((importElements settings (path.field "children") 0 (exportNodes node.children)).map
        fragmentNode).map (loopNode node collection) := by
  obtain ⟨repetition, whole⟩ := exportNode_wrapped wrapped
  rw [h.importElement rfl whole, importElement_fragment]

theorem IsLoop.importElement_single (h : IsLoop node collection) {inner : Node}
    (only : node.children = [inner]) (single : Loop.head? inner = none) (path : Path) :
    Content.importElement settings path (exportNode node) =
      (Content.importElement settings path (exportNode inner)).map (loopNode node collection) :=
  h.importElement (repetition_exportNode single)
    (exportNode_loop (repetition_exportNode single) h.head only) path

theorem isWrapped_of_single (only : node.children = [inner]) (single : Loop.head? inner = none) :
    isWrapped node = false := by
  rw [isWrapped, only]
  simp [single]

/-- The nodes for the children of a loop, when a fragment is put around them. -/
theorem forall₂_of_exportNodes {nodes children : List Node} {path : Path} {index : Nat}
    (made : importElements settings path index (exportNodes children) = .ok nodes) :
    List.Forall₂ (fun inner other => (exportNode inner).ImportsTo settings other)
      children nodes := by
  have read := forall₂_of_importElements made
  rwa [exportNodes_eq_map, List.forall₂_map_left_iff] at read

/-- A loop comes back as a loop over the same collection, with the same names or the default
ones. The one node in it is what comes back for its child if that is written without a
repetition of its own, and otherwise a fragment of what comes back for its children in order. -/
theorem loop_of_importElement (h : IsLoop node collection) {path : Path} {imported : Node}
    (made : importElement settings path (exportNode node) = .ok imported) :
    ∃ child, imported = loopNode node collection child ∧
      (∀ inner, node.children = [inner] → (exportNode inner).repetition = none →
        (exportNode inner).ImportsTo settings child) ∧
      ((∀ inner, node.children = [inner] → (exportNode inner).repetition ≠ none) →
        ∃ nodes, child = fragmentNode nodes ∧
          List.Forall₂ (fun inner other => (exportNode inner).ImportsTo settings other)
            node.children nodes) := by
  cases wrapped : isWrapped node with
  | true =>
    rw [h.importElement_wrapped wrapped] at made
    obtain ⟨child, around, rfl⟩ := map_eq_ok_iff.mp made
    obtain ⟨nodes, read, rfl⟩ := map_eq_ok_iff.mp around
    refine ⟨fragmentNode nodes, rfl, ?_, fun _ => ⟨nodes, rfl, forall₂_of_exportNodes read⟩⟩
    intro inner only once
    have single : Loop.head? inner = none := by
      rw [← Option.isSome_eq_false_iff.trans Option.isNone_iff_eq_none, ← isSome_repetition, once]
      rfl
    cases wrapped.symm.trans (isWrapped_of_single only single)
  | false =>
    obtain ⟨inner, -, only, single, -⟩ := exportNode_unwrapped h.head wrapped
    rw [h.importElement_single only single] at made
    obtain ⟨child, read, rfl⟩ := map_eq_ok_iff.mp made
    refine ⟨child, rfl, ?_, ?_⟩
    · intro other also _
      cases only.symm.trans also
      exact importElement_elsewhere read
    · intro several
      exact absurd (repetition_exportNode single) (several inner only)

end loop

def nestedLoops : Node :=
  { name := "For"
    bindings := [("each", .expression "state.rows")]
    scope := { itemName := some "row" }
    children :=
      [{ name := "For"
         bindings := [("each", .expression "row.cells")]
         children := [{ name := "td" }] }] }

theorem nestedLoops_imported :
    IsLoop nestedLoops "state.rows" ∧ ∃ imported nodes,
      importElement {} "" (exportNode nestedLoops) = .ok imported ∧
      imported.scope = { itemName := some "row", indexName := some "index" } ∧
      imported.children = [fragmentNode nodes] ∧
      List.Forall₂ (fun inner other => (exportNode inner).ImportsTo {} other)
        nestedLoops.children nodes := by
  have loop : IsLoop nestedLoops "state.rows" :=
    ⟨rfl, ⟨_, rfl, rfl⟩, by decide, nofun, nofun⟩
  have cell : Exportable {} { name := "td" } := by
    rw [exportable_iff]
    trivial
  have row : AllExportable {} nestedLoops.children := by
    refine ⟨?_, trivial⟩
    rw [exportable_iff]
    exact ⟨cell, trivial⟩
  have outer : Exportable {} nestedLoops := by
    rw [exportable_iff]
    exact row
  obtain ⟨imported, made⟩ := (@importElement_ok_iff {} "" _).mpr
    ((importable_exportNode nestedLoops (by decide)).mpr outer)
  obtain ⟨child, rfl, -, several⟩ := loop_of_importElement loop made
  obtain ⟨nodes, rfl, inside⟩ := several <| by
    intro inner only
    cases only
    rw [← Option.isSome_iff_ne_none, isSome_repetition]
    rfl
  exact ⟨loop, _, nodes, made, rfl, rfl, inside⟩

/-! ## Loops in loops -/

/-- What it means for a node to be no loop, or one that can come back. -/
def IsSound (node : Node) : Prop :=
  ∀ head, Loop.head? node = some head → IsLoop node head.collection

/-- How loops in loops come back: each around what comes back for its one child, or around a
fragment of what comes back for its children, down to the nodes that are no loops. -/
inductive Rewrapped (settings : ImportSettings) : Node → Node → Prop where
  | single {node imported : Node} (plain : Loop.head? node = none)
      (imports : (exportNode node).ImportsTo settings imported) : Rewrapped settings node imported
  | around {node inner child : Node} {collection : String} (loop : IsLoop node collection)
      (only : node.children = [inner]) (plain : Loop.head? inner = none)
      (inside : Rewrapped settings inner child) :
      Rewrapped settings node (loopNode node collection child)
  | fragment {node : Node} {nodes : List Node} {collection : String}
      (loop : IsLoop node collection) (wrapped : isWrapped node = true)
      (inside : List.Forall₂ (Rewrapped settings) node.children nodes) :
      Rewrapped settings node (loopNode node collection (fragmentNode nodes))

/-- No loop is lost or merged with another one, however deeply loops are nested. -/
theorem rewrapped_of_importElement (node : Node) (sound : node.All IsSound) {path : Path}
    {imported : Node} (made : importElement settings path (exportNode node) = .ok imported) :
    Rewrapped settings node imported := by
  obtain ⟨here, below, -⟩ := Node.all_iff.mp sound
  cases loop : Loop.head? node with
  | none => exact .single loop (importElement_elsewhere made)
  | some head =>
    have own := here head loop
    cases wrapped : isWrapped node with
    | true =>
      rw [own.importElement_wrapped wrapped] at made
      obtain ⟨child, around, rfl⟩ := map_eq_ok_iff.mp made
      obtain ⟨nodes, read, rfl⟩ := map_eq_ok_iff.mp around
      have inner : ∀ child ∈ node.children, ∀ other,
          (exportNode child).ImportsTo settings other → Rewrapped settings child other :=
        fun child member other imports =>
          rewrapped_of_importElement child (below child member) (imports "")
      have inside := (List.forall₂_and_left _ _).mpr ⟨inner, forall₂_of_exportNodes read⟩
      exact .fragment own wrapped (inside.imp fun _ other both => both.1 other both.2)
    | false =>
      obtain ⟨inner, -, only, single, -⟩ := exportNode_unwrapped own.head wrapped
      rw [own.importElement_single only single] at made
      obtain ⟨child, read, rfl⟩ := map_eq_ok_iff.mp made
      exact .around own only single (.single single (importElement_elsewhere read))
termination_by node
decreasing_by
  cases node
  dsimp only at member
  have smaller := List.sizeOf_lt_of_mem member
  simp only [Node.mk.sizeOf_spec]
  omega

end BlockLoom.Content
