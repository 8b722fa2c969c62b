import BlockLoom.Proofs.Content.Importable
import BlockLoom.Proofs.Content.Wire

/-!
The elements in an element: its children, the items of its slots and the blocks of its
groups, and whatever is in these. They are listed with their number, as the import would
read them.
-/

namespace BlockLoom.Content

/-! ## The elements in an element -/

def Element.grouping? (element : Element) : Option Grouping :=
  element.component.bind fun use => Grouping.of? use.name

/-- The elements that an option holds: the blocks of its groups where groups are
expected, and its items anywhere else. -/
def heldIn (grouping : Option Grouping) (option : String × Json) : List Element :=
  if Grouping.claims grouping option.1 then
    match Group.readList "" option.2 with
    | .ok groups => groups.flatMap Group.blocks
    | .error _ => []
  else
    match readOption "" option.2 with
    | .ok (.slot elements) => elements
    | _ => []

def Element.parts (element : Element) : List Element :=
  element.options.flatMap (heldIn element.grouping?) ++ element.children

namespace Element

theorem depth_lt_depthList {element : Element} {elements : List Element} (h : element ∈ elements) :
    element.depth < depthList elements := by
  induction elements with
  | nil => cases h
  | cons head tail ih =>
    rw [depthList]
    rcases List.mem_cons.mp h with rfl | h
    · omega
    · have := ih h; omega

theorem depthList_le {elements : List Element} {bound : Nat}
    (h : ∀ element ∈ elements, element.depth < bound) : depthList elements ≤ bound := by
  induction elements with
  | nil => exact Nat.zero_le _
  | cons head tail ih =>
    obtain ⟨first, others⟩ := List.forall_mem_cons.mp h
    rw [depthList]
    have := ih others
    omega

end Element

theorem Group.depth_lt_depthList {group : Group} {groups : List Group} (h : group ∈ groups) :
    Element.depthList group.blocks < Group.depthList groups := by
  induction groups with
  | nil => cases h
  | cons head tail ih =>
    rw [Group.depthList]
    rcases List.mem_cons.mp h with rfl | h
    · omega
    · have := ih h; omega

theorem depth_heldIn {grouping : Option Grouping} {option : String × Json} {element : Element}
    (h : element ∈ heldIn grouping option) : element.depth < option.2.depth := by
  rw [heldIn] at h
  split at h
  · split at h
    · next groups read =>
      obtain ⟨group, member, inside⟩ := List.mem_flatMap.mp h
      have := Group.depth_readList read
      have := Group.depth_lt_depthList member
      have := Element.depth_lt_depthList inside
      omega
    · cases h
  · split at h
    · next elements read =>
      exact Nat.lt_of_lt_of_le (Element.depth_lt_depthList h) (depth_readOption read)
    · cases h

theorem Element.depthList_parts (element : Element) :
    Element.depthList element.parts ≤ element.depth := by
  apply Element.depthList_le
  intro part member
  rcases List.mem_append.mp member with held | child
  · obtain ⟨option, stored, held⟩ := List.mem_flatMap.mp held
    have := depth_heldIn held
    have := Json.depth_lt_depthMembers stored
    have := element.depthMembers_options
    omega
  · exact Nat.lt_of_lt_of_le (Element.depth_lt_depthList child) element.depthList_children

mutual

/-- An element and all elements in it: its children, the items of its slots and the
blocks of its groups, and the elements in these. -/
def Element.reached (element : Element) : List Element :=
  element :: Element.reachedList element.parts
termination_by (element.depth, 1, 0)
decreasing_by exact before_of_le element.depthList_parts (by omega)

def Element.reachedList (elements : List Element) : List Element :=
  match elements with
  | [] => []
  | element :: elements => element.reached ++ Element.reachedList elements
termination_by (Element.depthList elements, 0, elements.length)
decreasing_by
  · exact Prod.Lex.left _ _ (Nat.le_max_left _ _)
  · exact before_of_le (Nat.le_max_right _ _) (.inr ⟨rfl, Nat.lt_succ_self _⟩)

end

namespace Element

theorem reachedList_eq_flatMap (elements : List Element) :
    reachedList elements = elements.flatMap reached := by
  induction elements with
  | nil => rw [reachedList, List.flatMap_nil]
  | cons element elements ih => rw [reachedList, ih, List.flatMap_cons]

theorem reachedList_append (elements others : List Element) :
    reachedList (elements ++ others) = reachedList elements ++ reachedList others := by
  rw [reachedList_eq_flatMap, reachedList_eq_flatMap, reachedList_eq_flatMap, List.flatMap_append]

theorem reachedList_perm {elements others : List Element} (h : elements.Perm others) :
    (reachedList elements).Perm (reachedList others) := by
  rw [reachedList_eq_flatMap, reachedList_eq_flatMap]
  exact h.flatMap_right _

/-! ## Elements as they are read back -/

mutual

theorem stripped_stripped (element : Element) : element.stripped.stripped = element.stripped := by
  match element with
  | ⟨type, version, id, tagName, layerName, component, properties, bindings, styles, repetition,
      code, actions, children⟩ =>
    rw [stripped, stripped, strippedList_strippedList children]
    cases version with
    | none => rfl
    | some value => cases value <;> rfl

theorem strippedList_strippedList (elements : List Element) :
    strippedList (strippedList elements) = strippedList elements := by
  match elements with
  | [] => rfl
  | element :: elements =>
    rw [strippedList, strippedList, stripped_stripped element, strippedList_strippedList elements]

end

/-- An element without its repetition, and without versions that are `null`. -/
def bare (element : Element) : Element :=
  { element.stripped with repetition := none }

theorem bare_stripped (element : Element) : element.stripped.bare = element.bare := by
  rw [bare, bare, stripped_stripped]

theorem bare_repeated (element : Element) (repetition : Option Repetition) :
    bare { element with repetition } = element.bare := by
  cases element
  rfl

theorem parts_stripped (element : Element) :
    element.stripped.parts =
      element.options.flatMap (heldIn element.grouping?) ++ strippedList element.children := by
  cases element
  rfl

mutual

/-- The same elements are reached in an element as it is read back. -/
theorem reached_stripped (element : Element) :
    element.stripped.reached.map bare = element.reached.map bare := by
  match element with
  | ⟨type, version, id, tagName, layerName, component, properties, bindings, styles, repetition,
      code, actions, children⟩ =>
    rw [reached, reached, List.map_cons, List.map_cons, bare_stripped, parts_stripped, parts,
      reachedList_append, reachedList_append, List.map_append, List.map_append,
      reachedList_stripped children]

theorem reachedList_stripped (elements : List Element) :
    (reachedList (strippedList elements)).map bare = (reachedList elements).map bare := by
  match elements with
  | [] => rfl
  | element :: elements =>
    rw [strippedList, reachedList, reachedList, List.map_append, List.map_append,
      reached_stripped element, reachedList_stripped elements]

end

/-- A repeated element holds what the element holds. -/
theorem reached_repeated (element : Element) (repetition : Option Repetition) :
    (reached { element with repetition }).map bare = element.reached.map bare := by
  rw [reached, reached, List.map_cons, List.map_cons, bare_repeated]
  rfl

end Element

end BlockLoom.Content
