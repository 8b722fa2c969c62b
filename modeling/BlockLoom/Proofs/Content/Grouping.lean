import BlockLoom.Content.Export
import BlockLoom.Proofs.Fields

/-!
Groups as nodes, and the nodes of a component with groups taken apart again. A node
for a group holds the fields of the group and nothing else. Whether a node is written
as a group is told by its name, and for variants by the mark of the default variant.
-/

namespace BlockLoom.Content

theorem container_of_of? {name : String} {grouping : Grouping}
    (h : Grouping.of? name = some grouping) : grouping.container = name := by
  have := List.find?_some h
  exact of_decide_eq_true this

/-! ## The node for a group -/

/-- The node for a group holds the fields of the group as literals, under the name of its kind and
around the nodes for its elements. -/
theorem Grouping.node_eq (grouping : Grouping) {group : Group}
    (distinct : Fields.Distinct group.fields) (children : List Node) :
    grouping.node group children =
      { name := grouping.nodeName, properties := group.fields, children } := by
  have step (fields : Fields Json) (node : Node) (unbound : node.bindings = [])
      (h : Fields.Distinct (node.properties ++ fields)) :
      fields.foldl (fun node entry => node.setProperty entry.1 entry.2) node =
        { node with properties := node.properties ++ fields } := by
    induction fields generalizing node with
    | nil =>
      cases node
      simp
    | cons entry fields ih =>
      have fresh : entry.1 ∉ Fields.names node.properties := fun member =>
        (Fields.distinct_append.mp h).2.2 _ member List.mem_cons_self
      have regroup : node.properties ++ entry :: fields =
          node.properties ++ [(entry.1, entry.2)] ++ fields := by simp
      have added : node.setProperty entry.1 entry.2 =
          { node with properties := node.properties ++ [(entry.1, entry.2)] } := by
        obtain ⟨name, properties, bindings, children, slots, scope, metadata⟩ := node
        dsimp only at unbound
        subst unbound
        rw [Node.setProperty, Fields.put_of_not_mem fresh]
        rfl
      rw [regroup] at h
      rw [List.foldl_cons, added, regroup]
      exact ih { node with properties := node.properties ++ [(entry.1, entry.2)] } unbound h
  rw [Grouping.node, step group.fields _ rfl (by simpa using distinct)]
  rfl

theorem Grouping.literalFields_node (grouping : Grouping) {group : Group}
    (distinct : Fields.Distinct group.fields) (children : List Node) :
    (grouping.node group children).literalFields = group.fields := by
  rw [grouping.node_eq distinct]
  exact Fields.ofEntries_of_distinct distinct

/-- What the node for a group is apart from its fields, whatever these are. -/
theorem Grouping.frame_node (grouping : Grouping) (group : Group) (children : List Node) :
    (grouping.node group children).name = grouping.nodeName ∧
      (grouping.node group children).slots = [] ∧
      (grouping.node group children).children = children := by
  rw [Grouping.node]
  exact List.foldlRecOn (motive := fun node : Node =>
      node.name = grouping.nodeName ∧ node.slots = [] ∧ node.children = children)
    group.fields _ ⟨rfl, rfl, rfl⟩ fun _ same _ _ => same

/-! ## Groups and what stands beside them -/

def Grouping.isGroup (grouping : Grouping) (node : Node) : Bool :=
  match grouping with
  | .columns => decide (node.name = Grouping.columns.nodeName)
  | .variants => !isDefaultVariant node && decide (node.name = Grouping.variants.nodeName)

def exportGroups (grouping : Grouping) (nodes : List Node) : List Json × List Element :=
  match grouping with
  | .columns => exportColumns nodes
  | .variants => exportVariants nodes

theorem exportGroups_nil (grouping : Grouping) : exportGroups grouping [] = ([], []) := by
  cases grouping <;> rfl

/-- What one more node adds to the groups and to the elements beside them. -/
theorem exportGroups_cons (grouping : Grouping) (node : Node) (nodes : List Node) :
    exportGroups grouping (node :: nodes) =
      if grouping.isGroup node then
        (grouping.entry node (Element.listToJson (exportNodes node.children)) ::
          (exportGroups grouping nodes).1, (exportGroups grouping nodes).2)
      else if grouping = .variants ∧ isDefaultVariant node then
        ((exportGroups grouping nodes).1,
          exportNodes node.children ++ (exportGroups grouping nodes).2)
      else ((exportGroups grouping nodes).1, exportNode node :: (exportGroups grouping nodes).2) := by
  obtain ⟨name, properties, bindings, children, slots, scope, metadata⟩ := node
  cases grouping with
  | columns =>
    rw [exportGroups, exportColumns]
    by_cases named : name = Grouping.columns.nodeName <;>
      simp [Grouping.isGroup, named, exportGroups]
  | variants =>
    rw [exportGroups, exportVariants]
    cases default : isDefaultVariant ⟨name, properties, bindings, children, slots, scope, metadata⟩
    · by_cases named : name = Grouping.variants.nodeName
      · subst named
        simp [Grouping.isGroup, default, exportGroups]
      · simp [Grouping.isGroup, named, default, exportGroups]
    · simp [Grouping.isGroup, default, exportGroups]

theorem isEmpty_exportGroups (grouping : Grouping) (nodes : List Node) :
    (exportGroups grouping nodes).1.isEmpty = !nodes.any grouping.isGroup := by
  induction nodes with
  | nil => rw [exportGroups_nil]; rfl
  | cons node nodes ih =>
    rw [exportGroups_cons, List.any_cons]
    cases grouping.isGroup node with
    | true => rfl
    | false =>
      rw [if_neg Bool.false_ne_true, Bool.false_or]
      split
      · exact ih
      · exact ih

theorem exportGroups_append {grouping : Grouping} {front : List Node}
    (groups : ∀ node ∈ front, grouping.isGroup node = true) (rest : List Node) :
    exportGroups grouping (front ++ rest) =
      ((exportGroups grouping front).1 ++ (exportGroups grouping rest).1,
        (exportGroups grouping rest).2) := by
  induction front with
  | nil => rw [exportGroups_nil]; rfl
  | cons node front ih =>
    obtain ⟨first, others⟩ := List.forall_mem_cons.mp groups
    rw [List.cons_append, exportGroups_cons, exportGroups_cons, if_pos first, if_pos first,
      ih others]
    rfl

theorem exportColumns_beside {nodes : List Node}
    (beside : ∀ node ∈ nodes, Grouping.columns.isGroup node = false) :
    exportGroups .columns nodes = ([], exportNodes nodes) := by
  induction nodes with
  | nil => rfl
  | cons node nodes ih =>
    obtain ⟨first, others⟩ := List.forall_mem_cons.mp beside
    rw [exportGroups_cons, ih others, first, if_neg Bool.false_ne_true, if_neg, exportNodes]
    rintro ⟨columns, -⟩
    cases columns

/-- The own children of a component with groups stay beside the groups. -/
theorem exportGroups_ownChildren {grouping : Grouping} {nodes : List Node}
    (beside : grouping = .columns → ∀ node ∈ nodes, Grouping.columns.isGroup node = false) :
    exportGroups grouping (ownChildren grouping.container nodes) = ([], exportNodes nodes) := by
  cases grouping with
  | columns => exact exportColumns_beside (beside rfl)
  | variants =>
    cases nodes with
    | nil => rfl
    | cons node nodes =>
      have own : ownChildren Grouping.variants.container (node :: nodes) =
          [Node.setProperty { name := Grouping.variants.nodeName, children := node :: nodes }
            defaultKey (.string "")] := rfl
      rw [own, exportGroups_cons, exportGroups_nil, if_neg, if_pos ⟨rfl, rfl⟩]
      · exact congrArg (Prod.mk []) (List.append_nil _)
      · exact Bool.false_ne_true

theorem exportGroups_groups_cons {grouping : Grouping} {node : Node}
    (h : grouping.isGroup node = true) (nodes : List Node) :
    (exportGroups grouping (node :: nodes)).1 =
      grouping.entry node (Element.listToJson (exportNodes node.children)) ::
        (exportGroups grouping nodes).1 := by
  rw [exportGroups_cons, if_pos h]

end BlockLoom.Content
