import BlockLoom.Proofs.Content.Exportable
import BlockLoom.Proofs.Content.Validity

/-!
What the import makes of an element, wherever the element stands: its place only
shows in failures. The slots of the node are the options with elements in them,
each with the nodes for its elements in their order.
-/

namespace BlockLoom.Content

variable {settings : ImportSettings}

/-! ## Places -/

mutual

/-- An element that can be imported gives the same node in any other place. -/
theorem importElement_elsewhere {path : Path} {element : Element} {node : Node}
    (h : importElement settings path element = .ok node) (place : Path) :
    importElement settings place element = .ok node := by
  rw [importElement] at h ⊢
  split at h
  · cases h
  · next parts options =>
    split at h
    · cases h
    · next children rest =>
      rw [importOptions_elsewhere options]
      simp only [importElements_elsewhere rest (place.field "children") 0]
      exact h
termination_by (element.depth, 1, 0)
decreasing_by
  all_goals first
    | exact before_of_le element.depthMembers_options (by omega)
    | exact before_of_le element.depthList_children (by omega)

theorem importElements_elsewhere {path : Path} {index : Nat} {elements : List Element}
    {nodes : List Node} (h : importElements settings path index elements = .ok nodes)
    (place : Path) (position : Nat) :
    importElements settings place position elements = .ok nodes := by
  match elements with
  | [] =>
    rw [importElements] at h ⊢
    exact h
  | element :: elements =>
    rw [importElements] at h ⊢
    split at h
    · cases h
    · next node first =>
      split at h
      · cases h
      · next others rest =>
        rw [importElement_elsewhere first]
        simp only [importElements_elsewhere rest place (position + 1)]
        exact h
termination_by (Element.depthList elements, 0, elements.length)
decreasing_by
  · exact Prod.Lex.left _ _ (Nat.le_max_left _ _)
  · exact before_of_le (Nat.le_max_right _ _) (.inr ⟨rfl, Nat.lt_succ_self _⟩)

theorem importGroups_elsewhere {path : Path} {grouping : Grouping} {index : Nat}
    {groups : List Group} {nodes : List Node}
    (h : importGroups settings path grouping index groups = .ok nodes) (place : Path)
    (position : Nat) : importGroups settings place grouping position groups = .ok nodes := by
  match groups with
  | [] =>
    rw [importGroups] at h ⊢
    exact h
  | group :: groups =>
    rw [importGroups] at h ⊢
    split at h
    · cases h
    · next blocks first =>
      split at h
      · cases h
      · next others rest =>
        rw [importElements_elsewhere first]
        simp only [importGroups_elsewhere rest place (position + 1)]
        exact h
termination_by (Group.depthList groups, 0, groups.length)
decreasing_by
  · exact Prod.Lex.left _ _ (Nat.le_max_left _ _)
  · exact before_of_le (Nat.le_max_right _ _) (.inr ⟨rfl, Nat.lt_succ_self _⟩)

theorem importOptions_elsewhere {path : Path} {grouping : Option Grouping}
    {options : List (String × Json)} {parts : OptionParts}
    (h : importOptions settings path grouping options = .ok parts) (place : Path) :
    importOptions settings place grouping options = .ok parts := by
  match options with
  | [] =>
    rw [importOptions] at h ⊢
    exact h
  | (key, value) :: options =>
    rw [importOptions] at h ⊢
    cases claim : grouping.filter fun grouping => grouping.optionKey = key with
    | some found =>
      rw [claim] at h
      dsimp only at h ⊢
      split at h
      · cases h
      · next groups read =>
        -- What is read does not say where it was read: both readings are one relation.
        have again : Group.readList (place.field key) value = .ok groups :=
          Group.readList_iff.mpr (Group.readList_iff.mp read)
        split at h
        · cases h
        · next nodes first =>
          split at h
          · cases h
          · next others rest =>
            split
            · next failed => cases again.symm.trans failed
            · next same =>
              cases again.symm.trans same
              rw [importGroups_elsewhere first]
              simp only [importOptions_elsewhere rest place]
              exact h
    | none =>
      rw [claim] at h
      dsimp only at h ⊢
      split at h
      · cases h
      · next elements read =>
        have again : readOption (place.field key) value = .ok (.slot elements) :=
          readOption_slot_iff.mpr (readOption_slot_iff.mp read)
        split at h
        · cases h
        · next nodes first =>
          split at h
          · cases h
          · next others rest =>
            split
            · next failed => cases again.symm.trans failed
            · next same =>
              cases again.symm.trans same
              rw [importElements_elsewhere first]
              simp only [importOptions_elsewhere rest place]
              exact h
            · next other => cases again.symm.trans other
      · next plain read =>
        have again : readOption (place.field key) value = .ok (.plain plain) :=
          readOption_plain_iff.mpr (readOption_plain_iff.mp read)
        split at h
        · cases h
        · next others rest =>
          split
          · next failed => cases again.symm.trans failed
          · next other => cases again.symm.trans other
          · next same =>
            cases again.symm.trans same
            simp only [importOptions_elsewhere rest place]
            exact h
termination_by (Json.depthMembers options, 0, options.length)
decreasing_by
  all_goals first
    | exact before_of_le (Nat.le_max_right _ _) (.inr ⟨rfl, Nat.lt_succ_self _⟩)
    | exact Prod.Lex.left _ _ (Nat.lt_of_le_of_lt (Group.depth_readList (by assumption))
        (Nat.le_max_left _ _))
    | exact Prod.Lex.left _ _ (Nat.lt_of_le_of_lt (depth_readOption (by assumption))
        (Nat.le_max_left _ _))

end

/-- The import takes an element for a node, wherever the element stands. -/
def Element.ImportsTo (settings : ImportSettings) (element : Element) (node : Node) : Prop :=
  ∀ place, importElement settings place element = .ok node

/-- The nodes for a list of elements are those for its elements in order. -/
theorem forall₂_of_importElements {path : Path} {index : Nat} {elements : List Element}
    {nodes : List Node} (h : importElements settings path index elements = .ok nodes) :
    List.Forall₂ (Element.ImportsTo settings) elements nodes := by
  induction elements generalizing index nodes with
  | nil =>
    rw [importElements] at h
    cases h
    exact .nil
  | cons element elements ih =>
    rw [importElements] at h
    split at h
    · cases h
    · next node first =>
      split at h
      · cases h
      · next others rest =>
        cases h
        exact .cons (importElement_elsewhere first) (ih rest)

/-! ## Slots -/

/-- Whether an option is a list with elements in it that no groups are expected in. -/
def isSlotOption (grouping : Option Grouping) (option : String × Json) : Bool :=
  !Grouping.claims grouping option.1 && (option.2.items?.getD []).any isElement

/-- What it means for a slot to come from an option: the items of the option stand
for elements, and the nodes of the slot are the nodes for these in order. -/
structure SlotOf (settings : ImportSettings) (option : String × Json)
    (slot : String × List Node) : Prop where
  key : option.1 = slot.1
  nodes : ∃ items elements, option.2 = .array items ∧ List.Forall₂ StandsFor items elements ∧
    List.Forall₂ (Element.ImportsTo settings) elements slot.2

/-- The slots that are imported from options are those for the slot options, in order. Other options
add no slot, and of a slot that is imported its nodes are all there is. -/
theorem slots_importOptions {path : Path} {grouping : Option Grouping}
    {options : List (String × Json)} {parts : OptionParts}
    (h : importOptions settings path grouping options = .ok parts) :
    List.Forall₂ (SlotOf settings) (options.filter (isSlotOption grouping)) parts.slots := by
  induction options generalizing parts with
  | nil =>
    rw [importOptions] at h
    cases h
    exact .nil
  | cons option options ih =>
    obtain ⟨key, value⟩ := option
    rw [importOptions] at h
    cases claim : grouping.filter fun grouping => grouping.optionKey = key with
    | some found =>
      have claimed := Grouping.claims_eq_true_iff.mpr ⟨found, claim⟩
      rw [claim] at h
      dsimp only at h
      split at h
      · cases h
      · split at h
        · cases h
        · split at h
          · cases h
          · next others rest =>
            cases h
            have inner := ih rest
            rw [List.filter_cons, if_neg (by simp [isSlotOption, claimed])]
            exact inner
    | none =>
      have free := Grouping.claims_eq_false_iff.mpr claim
      rw [claim] at h
      dsimp only at h
      split at h
      · cases h
      · next elements read =>
        obtain ⟨items, rfl, marked, stand⟩ := readOption_slot_iff.mp read
        split at h
        · cases h
        · next nodes first =>
          split at h
          · cases h
          · next others rest =>
            cases h
            rw [List.filter_cons, if_pos (by simp [isSlotOption, free, Json.items?, marked])]
            exact .cons ⟨rfl, items, elements, rfl, stand, forall₂_of_importElements first⟩
              (ih rest)
      · next plain read =>
        obtain ⟨rfl, unmarked⟩ := readOption_plain_iff.mp read
        split at h
        · cases h
        · next others rest =>
          cases h
          have plain := isPlainOption_of_isPlain free unmarked
          rw [isPlainOption, free, Bool.not_false, Bool.true_and, Bool.not_eq_true'] at plain
          have inner := ih rest
          rw [List.filter_cons, if_neg (by simp [isSlotOption, plain])]
          exact inner

theorem names_of_slotOf {options : List (String × Json)} {slots : List (String × List Node)}
    (h : List.Forall₂ (SlotOf settings) options slots) :
    Fields.names slots = Fields.names options := by
  induction h with
  | nil => rfl
  | cons first _ ih => rw [Fields.names_cons, Fields.names_cons, ih, first.key]

/-- The slot of an option is found under the key of the option. -/
theorem get?_of_slotOf {options : List (String × Json)} {slots : List (String × List Node)}
    (h : List.Forall₂ (SlotOf settings) options slots) {key : String} {value : Json}
    (found : Fields.get? options key = some value) :
    ∃ nodes, Fields.get? slots key = some nodes ∧ SlotOf settings (key, value) (key, nodes) := by
  induction h with
  | nil => cases found
  | @cons option slot options slots first _ ih =>
    obtain ⟨name, given⟩ := option
    obtain ⟨other, nodes⟩ := slot
    cases first.key
    rw [Fields.get?_cons] at found ⊢
    split at found
    · next same =>
      cases same
      cases found
      exact ⟨nodes, if_pos rfl, first⟩
    · next different =>
      rw [if_neg different]
      exact ih found

/-! ## Elements and documents -/

/-- The node for an element that is not repeated is its body, made of the options that
are plain data and of those that are slots. -/
theorem body_of_importsTo {element : Element} {node : Node} (once : element.repetition = none)
    (h : element.ImportsTo settings node) :
    ∃ parts children, node = element.body settings parts children ∧
      parts.plain = element.plainOptions settings ∧
      List.Forall₂ (SlotOf settings)
        (element.options.filter (isSlotOption (Grouping.of? (element.nodeName settings))))
        parts.slots := by
  have imported := h ""
  rw [importElement] at imported
  split at imported
  · cases imported
  · next parts options =>
    split at imported
    · cases imported
    · next children rest =>
      cases imported
      refine ⟨parts, children, ?_, ((traced_apart settings).importOptions options).1,
        slots_importOptions options⟩
      rw [Element.repeated, once]
      rfl

theorem blocks_ofComponent_single {component : Component} {node : Node}
    (single : component.children = [node]) (writing : ExportSettings) :
    (ofComponent writing component).blocks = [exportNode node] := by
  rw [ofComponent, single, exportNodes, exportNodes]

/-- The export of a component with one node can be imported just if the node is exportable. -/
theorem toComponent_single_ok_iff {writing : ExportSettings} {component : Component} {node : Node}
    (single : component.children = [node]) (keyed : node.isKeyed = true) :
    (∃ result, toComponent settings (ofComponent writing component) = .ok result) ↔
      Exportable settings node := by
  rw [toComponent_ok_iff, blocks_ofComponent_single single, List.forall_mem_singleton,
    importable_exportNode node keyed]

theorem toComponent_single {writing : ExportSettings} {component result : Component} {node : Node}
    (single : component.children = [node])
    (h : toComponent settings (ofComponent writing component) = .ok result) :
    ∃ imported, result.children = [imported] ∧ (exportNode node).ImportsTo settings imported := by
  rw [toComponent] at h
  split at h
  · cases h
  · next nodes read =>
    cases h
    rw [blocks_ofComponent_single single] at read
    cases forall₂_of_importElements read with
    | cons first rest =>
      cases rest
      exact ⟨_, rfl, first⟩

end BlockLoom.Content
