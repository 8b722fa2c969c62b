import BlockLoom.Component.Validity
import BlockLoom.Proofs.Fields

/-!
What the check of a component amounts to. It passes just if at every node that can
be reached no field is both literal and bound and, where the node is a loop wrapper,
the collection is bound. Writing one field at a time keeps literal and bound fields
apart.
-/

namespace BlockLoom

namespace Node

/-! ## Nodes in a node -/

/-- A node and the nodes that are reached from it through children and slots. -/
inductive Reaches : Node → Node → Prop where
  | self (node : Node) : Reaches node node
  | child {node child inner : Node} (member : child ∈ node.children) (rest : Reaches child inner) :
      Reaches node inner
  | slot {node child inner : Node} {slot : String × List Node} (placed : slot ∈ node.slots)
      (member : child ∈ slot.2) (rest : Reaches child inner) : Reaches node inner

/-- A property holds of a node and of all nodes in it. -/
def All (p : Node → Prop) (node : Node) : Prop :=
  ∀ inner, node.Reaches inner → p inner

theorem all_iff {p : Node → Prop} {node : Node} :
    node.All p ↔ p node ∧ (∀ child ∈ node.children, child.All p) ∧
      ∀ slot ∈ node.slots, ∀ child ∈ slot.2, child.All p := by
  constructor
  · intro h
    exact ⟨h node (.self node), fun child member inner rest => h inner (.child member rest),
      fun slot placed child member inner rest => h inner (.slot placed member rest)⟩
  · rintro ⟨here, children, slots⟩ inner reached
    cases reached with
    | self => exact here
    | child member rest => exact children _ member inner rest
    | slot placed member rest => exact slots _ placed _ member inner rest

/-! ## The check -/

/-- No field of a node is both literal and bound. -/
def Apart (node : Node) : Prop :=
  ∀ key ∈ Fields.names node.properties, key ∉ Fields.names node.bindings

def Collected (node : Node) : Prop :=
  node.name = Loop.wrapperName → Fields.has node.bindings Loop.collectionKey = true

theorem defect?_eq_none {node : Node} : node.defect? = none ↔ node.Apart ∧ node.Collected := by
  rw [defect?, Apart, Collected]
  split
  · next key value found =>
    have bound : Fields.has node.bindings key = true := by simpa using List.find?_some found
    have clash : key ∈ Fields.names node.properties ∧ key ∈ Fields.names node.bindings :=
      ⟨Fields.mem_names_of_mem (List.mem_of_find?_eq_some found), Fields.has_iff.mp bound⟩
    exact ⟨nofun, fun ⟨apart, _⟩ => absurd clash.2 (apart key clash.1)⟩
  · next none =>
    have apart : ∀ key ∈ Fields.names node.properties, key ∉ Fields.names node.bindings := by
      intro key member
      obtain ⟨value, stored⟩ := Fields.mem_names.mp member
      exact fun bound => List.find?_eq_none.mp none (key, value) stored (Fields.has_iff.mpr bound)
    simp only [ite_eq_right_iff, reduceCtorEq, imp_false, not_and, Bool.not_eq_true,
      Bool.not_eq_false']
    exact ⟨fun h => ⟨apart, by simpa using h⟩, fun h => by simpa using h.2⟩

mutual

/-- The check of a node passes just if no node in it has a defect, wherever it stands among children
and slots. -/
theorem check_ok_iff (path : Path) (node : Node) :
    check path node = .ok () ↔ node.All fun inner => inner.Apart ∧ inner.Collected := by
  match node with
  | ⟨name, properties, bindings, children, slots, scope, metadata⟩ =>
    rw [all_iff, ← defect?_eq_none, check,
      ← checkList_ok_iff (path.field "children") 0 children, ← checkSlots_ok_iff path slots]
    constructor
    · intro h
      split at h
      · cases h
      · next none =>
        split at h
        · cases h
        · next list => exact ⟨none, list, h⟩
    · rintro ⟨none, list, rest⟩
      simp only [none, list, rest]

theorem checkList_ok_iff (path : Path) (index : Nat) (nodes : List Node) :
    checkList path index nodes = .ok () ↔
      ∀ node ∈ nodes, node.All fun inner => inner.Apart ∧ inner.Collected := by
  match nodes with
  | [] => simp [checkList]
  | node :: nodes =>
    rw [List.forall_mem_cons, ← check_ok_iff (path.item index) node,
      ← checkList_ok_iff path (index + 1) nodes, checkList]
    constructor
    · intro h
      split at h
      · cases h
      · next first => exact ⟨first, h⟩
    · rintro ⟨first, rest⟩
      simp only [first, rest]

theorem checkSlots_ok_iff (path : Path) (slots : List (String × List Node)) :
    checkSlots path slots = .ok () ↔
      ∀ slot ∈ slots, ∀ node ∈ slot.2, node.All fun inner => inner.Apart ∧ inner.Collected := by
  match slots with
  | [] => simp [checkSlots]
  | (key, nodes) :: slots =>
    rw [List.forall_mem_cons, ← checkList_ok_iff ((path.field "slots").field key) 0 nodes,
      ← checkSlots_ok_iff path slots, checkSlots]
    constructor
    · intro h
      split at h
      · cases h
      · next first => exact ⟨first, h⟩
    · rintro ⟨first, rest⟩
      simp only [first, rest]

end

/-! ## Writing fields -/

theorem apart_of_no_properties {node : Node} (h : node.properties = []) : node.Apart := by
  intro key literal
  rw [h] at literal
  cases literal

theorem Apart.setProperty {node : Node} (h : node.Apart) (key : String) (value : Json) :
    (node.setProperty key value).Apart := by
  intro name literal bound
  obtain ⟨bound, other⟩ := Fields.mem_names_remove.mp bound
  rcases Fields.mem_names_put.mp literal with rfl | literal
  · exact other rfl
  · exact h name literal bound

theorem Apart.setBinding {node : Node} (h : node.Apart) (key : String) (binding : Binding) :
    (node.setBinding key binding).Apart := by
  intro name literal bound
  obtain ⟨literal, other⟩ := Fields.mem_names_remove.mp literal
  rcases Fields.mem_names_put.mp bound with rfl | bound
  · exact other rfl
  · exact h name literal bound

end Node

/-- The check of a component passes just if no node in it has a defect. -/
theorem Component.check_ok_iff {component : Component} :
    component.check = .ok () ↔
      ∀ child ∈ component.children, child.All fun inner => inner.Apart ∧ inner.Collected :=
  Node.checkList_ok_iff "children" 0 component.children

end BlockLoom
