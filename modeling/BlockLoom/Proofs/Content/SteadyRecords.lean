import BlockLoom.Proofs.Content.SteadyStyles
import Mathlib.Data.List.Sort

/-!
The metadata of a node after export and import. The exported element has the same identity, the
same settings called `style` and the same styles. It has properties just where the node lists
them, and the options that a native tag lists stand in the order in which they were listed,
since the bindings of the node do.
-/

namespace BlockLoom.Content

variable {settings : ImportSettings} {element : Element} {parts : OptionParts}
  {children : List Node} {key : String}

/-! ## Identity -/

theorem identity_exportNode {node : Node} (loop : Loop.head? node = none) :
    (exportNode node).id = node.metadataText? idKey ∧
      (exportNode node).version = Fields.get? node.metadata versionKey ∧
      (exportNode node).layerName = node.metadataText? layerNameKey := by
  rw [exportNode_plain loop, assemble, boundElement_eq_merge]
  split <;> exact ⟨rfl, rfl, rfl⟩

theorem identity_exported (h : element.Stays settings parts children) :
    (exportNode (element.body settings parts children)).id = element.id ∧
      (exportNode (element.body settings parts children)).version = element.version ∧
      (exportNode (element.body settings parts children)).layerName = element.layerName := by
  have recorded {entry : String} {value : Option Json} (record : (entry, value) ∈
      element.bodyRecords settings (element.listedOptions (element.filled settings parts children))) :=
    get?_metadata_of_record h.keyed h.imports.plain children record
  obtain ⟨id, version, layerName⟩ := identity_exportNode h.loop
  rw [id, version, layerName, Node.metadataText?, Node.metadataText?,
    recorded (show (idKey, element.id.map Json.string) ∈ _ by simp [Element.bodyRecords]),
    recorded (show (versionKey, element.version) ∈ _ by simp [Element.bodyRecords]),
    recorded (show (layerNameKey, element.layerName.map Json.string) ∈ _ by
      simp [Element.bodyRecords])]
  refine ⟨?_, rfl, ?_⟩
  · cases element.id <;> rfl
  · cases element.layerName <;> rfl

/-! ## Settings called `style` -/

/-- An element that holds a field as another one gives it gives the same. -/
theorem field?_of_holdsField {other : Element} {space : Namespace} (code : other.code = {})
    (named : key ≠ "") (held : other.HoldsField space key (element.field? space key)) :
    other.field? space key = element.field? space key := by
  have bound : other.boundAt? space key =
      (codeOf? (element.field? space key)).filter fun code => !Text.isBlankText code := by
    rw [← held.binding, Element.boundAt?, if_neg named, Element.expressions, code]
    rfl
  rw [Element.field?, bound, held.literal]
  cases given : element.field? space key with
  | none => rfl
  | some value =>
    simp only [Element.field?, Option.or_eq_some_iff, Option.map_eq_some_iff] at given
    obtain ⟨code, given, rfl⟩ | ⟨-, literal, -, made⟩ := given
    · simp [codeOf?, Option.filter_some, isBlankText_of_boundAt? given]
    · cases value with
      | bound code => simp [codeOf?, Option.filter_some, isBlankText_of_ofLiteral made]
      | literal value =>
        obtain ⟨rfl, -⟩ := ofLiteral_eq_literal made
        simp [codeOf?, literalOf?, made]

theorem styleProperty_exported (h : element.Stays settings parts children) :
    (exportNode (element.body settings parts children)).field? .properties styleKey =
      element.field? .properties styleKey :=
  field?_of_holdsField (frame_exportNode h.loop).2.2.1 (by decide)
    (holdsField_property h.keyed h.loop)

/-- A slot called `style` is one again, and any other option of that name is what it was. -/
theorem styleOption?_exported (h : element.Stays settings parts children) :
    (exportNode (element.body settings parts children)).styleOption? settings =
      element.styleOption? settings := by
  rw [Element.styleOption?, Element.styleOption?]
  cases structural : element.isStructural settings styleKey with
  | true =>
    have slot : styleKey ∈ Fields.names (element.options.filter
        (isSlotOption (Grouping.of? (element.nodeName settings)))) := by
      rw [Element.isStructural, Option.any_eq_true] at structural
      obtain ⟨value, found, marked⟩ := structural
      refine Fields.mem_names_of_mem (List.mem_filter.mpr ⟨Fields.mem_of_get? found, ?_⟩)
      have free : Grouping.claims (Grouping.of? (element.nodeName settings)) styleKey = false := by
        cases Grouping.of? (element.nodeName settings) with
        | none => rfl
        | some grouping => cases grouping <;> rfl
      rw [isPlainOption, free] at marked
      rw [isSlotOption, free]
      simpa using marked
    have again : (exportNode (element.body settings parts children)).isStructural settings
        styleKey = true := by
      rw [isStructural_exported_iff h, Fields.names_append, names_exportSlots, names_slots h]
      exact List.mem_append_left _ slot
    rw [again]
    rfl
  | false =>
    rw [isStructural_exported_eq_false h structural]
    have unset : Node.isTagName (element.nodeName settings) = true →
        literalOf? (element.field? .options styleKey) = none := by
      intro tag
      rw [Element.field?, Element.literals, options_of_tag h tag]
      cases element.boundAt? .options styleKey <;> rfl
    exact field?_of_holdsField (frame_exportNode h.loop).2.2.1 (by decide)
      ((holdsField_option_iff h.keyed h.loop h.imports.plain (names_slots h) structural).mpr unset)

/-! ## Properties -/

/-- What is bound under the path of a property or an option is a binding of the node that belongs
there. -/
theorem binding_of_bound (h : element.Stays settings parts children) {space : Namespace}
    (known : space = .options ∨ space = .properties) (other : key ≠ styleKey)
    (member : key ∈ Fields.names
      ((exportNode (element.body settings parts children)).bound.fieldsIn space)) :
    fieldSpace (element.body settings parts children) key = space ∧
      Event.ofHandler? key = none := by
  obtain ⟨style, responsive⟩ : space ≠ .style ∧ space ≠ .responsiveStyles := by
    rcases known with rfl | rfl <;> exact ⟨nofun, nofun⟩
  have keyed := keyed_exported h
  rw [Element.fieldsIn_bound keyed space style responsive, mem_names_within,
    expressions_exportNode h.loop, Fields.mem_names_merge] at member
  obtain ⟨-, restored | written⟩ := member
  · -- The settings that are put back are all called `style`.
    rcases mem_names_restoreBound restored with same | restored
    · cases Namespace.eq_of_path_eq same
      exact absurd (Namespace.path_inj.mp same) other
    · rcases mem_names_restoreBound restored with same | empty
      · cases Namespace.eq_of_path_eq same
        exact absurd (Namespace.path_inj.mp same) other
      · cases empty
  · obtain ⟨code, listed⟩ := Fields.mem_names.mp written
    obtain ⟨_, -, -, unhandled, belongs, -⟩ := (mem_writtenPaths style responsive).mp listed
    exact ⟨belongs, unhandled⟩

theorem isProperty_of_overrides (h : element.Stays settings parts children) (other : key ≠ styleKey)
    (overridden : (exportNode (element.body settings parts children)).overrides key = true) :
    isProperty (element.body settings parts children) key = true := by
  rw [Element.overrides, Bool.or_eq_true, Fields.has_iff, Fields.has_iff] at overridden
  rcases overridden with bound | literal
  · have belongs := (binding_of_bound h (.inr rfl) other bound).1
    rw [fieldSpace] at belongs
    split at belongs
    · next property => exact property
    · cases belongs
  · by_contra option
    have absent := get?_exportedProperties (element.body settings parts children) other
    rw [if_neg option, Fields.get?_eq_none_iff] at absent
    rw [(frame_exportNode h.loop).2.2.2] at literal
    exact absent literal

theorem field?_of_lists (h : element.Stays settings parts children) (other : key ≠ styleKey)
    (component : element.componentName?.isSome = true) (listed : element.Lists settings key) :
    (exportNode (element.body settings parts children)).field? .properties key ≠ none := by
  have property : isProperty (element.body settings parts children) key = true := by
    rw [isProperty_body h other, if_pos component]
    exact listed
  have fields := Element.hasField_body h.keyed h.imports.plain children other
  rw [Element.field?, Element.literals, (frame_exportNode h.loop).2.2.2,
    get?_exportedProperties _ other, if_pos property]
  cases given : element.source? settings key with
  | none =>
    rw [Element.Lists, if_pos component, Element.field?, Element.literals] at listed
    simp only [Element.source?, Option.or_eq_none_iff, Option.map_eq_none_iff] at given
    rw [given.2.1, given.2.2.1] at listed
    exact absurd rfl listed
  | some value =>
    rw [given] at fields
    cases value with
    | literal value => rw [fields.literal]; simp [literalOf?]
    | bound code =>
      obtain ⟨named, free, unlisted⟩ := h.steady.bound key code other given
      have unhandled : Event.ofHandler? key = none := by
        by_contra handled
        exact unlisted handled listed
      have written : isWritten (element.body settings parts children)
          (key, .expression code) = true := by
        rw [isWritten_iff, names_slots h]
        exact ⟨other, not_mem_slots_of_plain h.keyed free, rfl⟩
      rw [boundAt?_exportNode h.loop h.body.bindings fields.binding written
        (isBlankText_of_source? given) named unhandled (.inr rfl), fieldSpace, if_pos property]
      simp

/-- The values of fields hold each key once if literals and expressions do. -/
theorem distinct_fieldValues {literals : Fields Json} {bound : Fields String}
    (h : Fields.Distinct literals) (h' : Fields.Distinct bound) :
    Fields.Distinct (fieldValues literals bound) := by
  let free (name code : String) : Option FieldValue :=
    if Fields.has literals name then none else FieldValue.of? none (some code)
  have unmatched : (bound.filterMap fun entry =>
      if Fields.has literals entry.1 then none
      else (FieldValue.of? none (some entry.2)).map fun value => (entry.1, value)) =
      bound.filterMap fun entry => (free entry.1 entry.2).map fun value => (entry.1, value) := by
    congr 1
    funext entry
    dsimp only [free]
    split <;> rfl
  rw [fieldValues, unmatched, Fields.distinct_append]
  refine ⟨@Fields.distinct_convert _ _
    (fun name value => FieldValue.of? (some value) (Fields.get? bound name)) literals h,
    Fields.distinct_convert h', fun key here there => ?_⟩
  obtain ⟨_, listed⟩ := Fields.mem_names.mp here
  obtain ⟨literal, among, made⟩ := List.mem_filterMap.mp listed
  obtain ⟨_, -, same⟩ := Option.map_eq_some_iff.mp made
  cases same
  obtain ⟨_, listed'⟩ := Fields.mem_names.mp there
  obtain ⟨expression, -, made'⟩ := List.mem_filterMap.mp listed'
  obtain ⟨_, given, same⟩ := Option.map_eq_some_iff.mp made'
  have has := Fields.has_iff.mpr (Fields.mem_names_of_mem among)
  rw [(Prod.mk.inj same).1] at given
  simp [free, has] at given

theorem nodup_propertyKeys (keyed : element.Keyed) : element.propertyKeys.Nodup := by
  have bound : element.bound.properties = within .properties element.expressions :=
    Element.fieldsIn_bound keyed .properties nofun nofun
  have literals := (Json.isSettled_object.mp (Element.isSettled_properties keyed)).1
  apply List.Nodup.filter
  rw [Element.propertyFields, bound]
  exact distinct_fieldValues literals (distinct_within (Element.distinct_expressions keyed) _)

theorem mergeSort_eq {keys others : List String} (perm : keys.Perm others) :
    (keys.mergeSort fun left right => decide (left ≤ right)) =
      others.mergeSort fun left right => decide (left ≤ right) := by
  have sorted : (keys.mergeSort fun left right => decide (left ≤ right)).Perm
      (others.mergeSort fun left right => decide (left ≤ right)) :=
    (List.mergeSort_perm _ _).trans (perm.trans (List.mergeSort_perm _ _).symm)
  exact sorted.eq_of_pairwise' (List.pairwise_mergeSort' _ _) (List.pairwise_mergeSort' _ _)

/-- The properties of a component are listed again. -/
theorem propertyList?_exported (h : element.Stays settings parts children) :
    (exportNode (element.body settings parts children)).propertyList?
        (exportNode (element.body settings parts children)).propertyKeys =
      element.propertyList? element.propertyKeys := by
  have keyed := keyed_exported h
  have overridden {key : String}
      (member : key ∈ (exportNode (element.body settings parts children)).propertyKeys) :
      key ≠ styleKey ∧ isProperty (element.body settings parts children) key = true := by
    obtain ⟨other, given⟩ := (mem_propertyKeys keyed).mp member
    refine ⟨other, isProperty_of_overrides h other ?_⟩
    by_contra free
    exact given (field?_of_not_overrides keyed (Bool.eq_false_of_not_eq_true free))
  cases named : element.componentName? with
  | some name =>
    have component : element.componentName?.isSome = true := by rw [named]; rfl
    have again : (exportNode (element.body settings parts children)).componentName?.isSome =
        true := by
      have filled : element.nodeName settings ≠ "" := by
        have given := (Option.filter_eq_some_iff.mp named).2
        rw [Element.nodeName, named]
        simpa using given
      rw [componentName?_exported h, h.steady.component component]
      simp [filled]
    have same (key : String) :
        key ∈ (exportNode (element.body settings parts children)).propertyKeys ↔
          key ∈ element.propertyKeys := by
      rw [mem_propertyKeys h.keyed]
      constructor
      · intro member
        obtain ⟨other, property⟩ := overridden member
        rw [isProperty_body h other, if_pos component, Element.Lists, if_pos component] at property
        exact ⟨other, property⟩
      · rintro ⟨other, given⟩
        have listed : element.Lists settings key := by rwa [Element.Lists, if_pos component]
        exact (mem_propertyKeys keyed).mpr ⟨other, field?_of_lists h other component listed⟩
    have perm := (List.perm_ext_iff_of_nodup (nodup_propertyKeys keyed)
      (nodup_propertyKeys h.keyed)).mpr same
    rw [Element.propertyList?, Element.propertyList?, again, component, perm.isEmpty_eq,
      mergeSort_eq perm]
  | none =>
    have empty : (exportNode (element.body settings parts children)).componentName?.isSome = true →
        (exportNode (element.body settings parts children)).propertyKeys = [] := by
      intro component
      rw [List.eq_nil_iff_forall_not_mem]
      intro key member
      obtain ⟨other, property⟩ := overridden member
      rw [isProperty_body h other, named, Option.isSome_none, if_neg Bool.false_ne_true] at property
      rw [componentName?_exported h, property.1] at component
      cases component
    rw [Element.propertyList?, Element.propertyList?, named]
    cases component : (exportNode (element.body settings parts children)).componentName?.isSome with
    | true => rw [empty component]; rfl
    | false => rfl

/-! ## The order of options -/

/-- Two parts of a list without repetitions that hold the same are the same. -/
theorem eq_of_sublist {all keys others : List String} (nodup : all.Nodup)
    (h : keys.Sublist all) (h' : others.Sublist all)
    (same : ∀ key, key ∈ keys ↔ key ∈ others) : keys = others := by
  induction h generalizing others with
  | slnil => exact (List.sublist_nil.mp h').symm
  | @cons keys rest key h ih =>
    obtain ⟨fresh, nodup⟩ := List.nodup_cons.mp nodup
    cases h' with
    | cons _ h' => exact ih nodup h' same
    | cons_cons _ h' => exact absurd (h.subset ((same key).mpr List.mem_cons_self)) fresh
  | @cons_cons keys rest key h ih =>
    obtain ⟨fresh, nodup⟩ := List.nodup_cons.mp nodup
    cases h' with
    | cons _ h' => exact absurd (h'.subset ((same key).mp List.mem_cons_self)) fresh
    | @cons_cons others _ _ h' =>
      refine congrArg _ (ih nodup h' fun name => ?_)
      have whole := same name
      rw [List.mem_cons, List.mem_cons] at whole
      constructor
      · intro member
        refine (whole.mp (.inr member)).resolve_left ?_
        rintro rfl
        exact fresh (h.subset member)
      · intro member
        refine (whole.mpr (.inr member)).resolve_left ?_
        rintro rfl
        exact fresh (h'.subset member)

section order

variable {node : Node} {kept : List String}

/-- A binding that is written leaves all others in their order, and itself in its place. -/
theorem sublist_setBinding (h : kept.Sublist (Fields.names node.bindings)) (name : String)
    (binding : Binding) : kept.Sublist (Fields.names (node.setBinding name binding).bindings) := by
  change kept.Sublist (Fields.names (Fields.put node.bindings name _))
  rw [Fields.names_put]
  split
  · exact h
  · exact h.trans (List.sublist_append_left _ _)

/-- Writing a field leaves the bindings with other names in their order. -/
theorem sublist_setField (h : kept.Sublist (Fields.names node.bindings)) {name : String}
    (free : name ∉ kept) (value : FieldValue) :
    kept.Sublist (Fields.names (node.setField name value).bindings) := by
  cases value with
  | literal value =>
    have whole : (kept.filter fun key => decide (key ≠ name)) = kept :=
      List.filter_eq_self.mpr fun key member => decide_eq_true (by rintro rfl; exact free member)
    change kept.Sublist (Fields.names (Fields.remove node.bindings name))
    rw [Fields.remove_eq_filter, Fields.names_filter fun key => decide (key ≠ name), ← whole]
    exact h.filter _
  | bound code => exact sublist_setBinding h name _

theorem sublist_addFields (h : kept.Sublist (Fields.names node.bindings)) (styleEntry : String)
    {fields : Fields FieldValue} (free : ∀ key ∈ Fields.names fields, key ∉ kept) :
    kept.Sublist (Fields.names (addFields styleEntry node fields).bindings) := by
  induction fields generalizing node with
  | nil => exact h
  | cons field fields ih =>
    have first : kept.Sublist (Fields.names (addField styleEntry node field).bindings) := by
      rw [addField]
      split
      · exact h
      · exact sublist_setField h (free _ List.mem_cons_self) field.2
    exact ih first fun key member => free key (List.mem_cons_of_mem _ member)

theorem sublist_addHandlers (h : kept.Sublist (Fields.names node.bindings))
    (handlers : Fields String) :
    kept.Sublist (Fields.names (addHandlers node handlers).bindings) := by
  induction handlers generalizing node with
  | nil => exact h
  | cons handler handlers ih =>
    apply ih
    dsimp only
    split
    · exact h
    · exact sublist_setBinding h _ _

theorem sublist_addStyles (h : kept.Sublist (Fields.names node.bindings)) (element : Element)
    (bound : Bound) : kept.Sublist (Fields.names (addStyles element bound node).bindings) := by
  rw [addStyles]
  split
  · exact sublist_setBinding h _ _
  · exact h

/-- Bound fields of different names are bound in their order. -/
theorem names_addFields_bound {styleEntry : String} {added : Fields String}
    (distinct : (Fields.names node.bindings ++ Fields.names added).Nodup) :
    Fields.names (addFields styleEntry node (Fields.mapValues FieldValue.bound added)).bindings =
      Fields.names node.bindings ++ (Fields.names added).filter fun key => decide (key ≠ styleKey) := by
  induction added generalizing node with
  | nil => exact (List.append_nil _).symm
  | cons entry added ih =>
    obtain ⟨key, code⟩ := entry
    rw [Fields.names_cons] at distinct ⊢
    change Fields.names (addFields styleEntry (addField styleEntry node (key, .bound code))
      (Fields.mapValues FieldValue.bound added)).bindings = _
    rw [addField, List.filter_cons]
    by_cases style : key = styleKey
    · have rest := distinct.sublist ((List.sublist_cons_self key _).append_left _)
      rw [if_pos style, if_neg (by simp [style])]
      exact ih rest
    · have fresh : key ∉ Fields.names node.bindings := by
        intro member
        exact (List.nodup_append.mp distinct).2.2 key member key List.mem_cons_self rfl
      have names : Fields.names (node.setField key (.bound code)).bindings =
          Fields.names node.bindings ++ [key] := by
        change Fields.names (Fields.put node.bindings key _) = _
        rw [Fields.names_put, if_neg fresh]
      rw [if_neg style, if_pos (by simp [style]), ih (by rw [names]; simpa using distinct), names]
      simp

end order

/-- The fields from options of an element that has none are its bound options with code. -/
theorem optionFields_of_tag (h : element.Stays settings parts children)
    (tag : Node.isTagName (element.nodeName settings) = true) :
    element.optionFields element.bound parts =
      Fields.mapValues FieldValue.bound
        (element.bound.options.filter fun entry => !Text.isBlankText entry.2) := by
  have plain := h.imports.plain
  rw [Element.plainOptions, options_of_tag h tag] at plain
  rw [Element.optionFields, plain, options_of_tag h tag]
  change (fieldValues [] element.bound.options).filter (fun _ => true) = _
  rw [List.filter_true, fieldValues]
  simp only [Fields.has, Fields.get?, Option.isSome_none, Bool.false_eq_true, if_false,
    List.filterMap_nil, List.nil_append]
  induction element.bound.options with
  | nil => rfl
  | cons entry bound ih =>
    rw [List.filterMap_cons, ih, FieldValue.of?_eq, Option.filter_some, List.filter_cons]
    cases Text.isBlankText entry.2 <;> rfl

/-- The bound options that a native tag lists stand in the order of the bindings of the node. -/
theorem sublist_listedOptions (h : element.Stays settings parts children)
    (tag : Node.isTagName (element.nodeName settings) = true) :
    (element.listedOptions (element.filled settings parts children)).Sublist
      (Fields.names (element.body settings parts children).bindings) := by
  have listed (key : String) :
      key ∈ element.listedOptions (element.filled settings parts children) ↔ _ :=
    mem_listedOptions h tag
  have distinct : Fields.Distinct element.bound.options := by
    rw [bound_options h.keyed]
    exact distinct_within (Element.distinct_expressions h.keyed) _
  have ordered : (element.listedOptions (element.filled settings parts children)).Sublist
      (Fields.names element.bound.options) := List.filter_sublist
  have codes := distinct.filter fun entry => !Text.isBlankText entry.2
  generalize element.listedOptions (element.filled settings parts children) = kept at listed ordered ⊢
  have options : kept.Sublist (Fields.names (addFields styleOptionKey
      { name := element.nodeName settings
        slots := parts.slots
        children := parts.groups ++ ownChildren (element.nodeName settings) children
        metadata := element.identity }
      (element.optionFields element.bound parts)).bindings) := by
    rw [optionFields_of_tag h tag, names_addFields_bound (by exact codes)]
    change kept.Sublist ([] ++ _)
    rw [List.nil_append]
    -- Of the bound options, only those with code can be listed.
    have same (key : String) : key ∈ kept ↔
        key ∈ ((Fields.names (element.bound.options.filter fun entry =>
          !Text.isBlankText entry.2)).filter fun key => decide (key ≠ styleKey)).filter
            fun key => decide (key ∈ kept) := by
      refine ⟨fun given => ?_, fun given => of_decide_eq_true (List.mem_filter.mp given).2⟩
      obtain ⟨other, lists⟩ := (listed key).mp given
      obtain ⟨code, found⟩ := Option.ne_none_iff_exists'.mp ((lists_of_tag h tag).mp lists).1
      rw [← Element.filter_get?_within h.keyed, ← bound_options h.keyed,
        Option.filter_eq_some_iff] at found
      have stored : (key, code) ∈ element.bound.options.filter fun entry =>
          !Text.isBlankText entry.2 :=
        List.mem_filter.mpr ⟨Fields.mem_of_get? found.1, found.2⟩
      refine List.mem_filter.mpr ⟨List.mem_filter.mpr ⟨?_, decide_eq_true other⟩,
        decide_eq_true given⟩
      exact Fields.mem_names_of_mem stored
    have sorted : kept = _ := eq_of_sublist distinct ordered
      (List.filter_sublist.trans (List.filter_sublist.trans (List.filter_sublist.map _))) same
    rw [sorted]
    exact List.filter_sublist
  have properties : kept.Sublist (Fields.names (element.filled settings parts children).bindings) := by
    refine sublist_addFields options stylePropertyKey fun key member given => ?_
    obtain ⟨-, lists⟩ := (listed key).mp given
    have free := field?_of_not_overrides h.keyed ((lists_of_tag h tag).mp lists).2
    have found : Fields.get? (Fields.ofEntries (element.propertyFields element.bound)) key =
        element.field? .properties key := Element.get?_propertyFields h.keyed key
    rw [free, Fields.get?_eq_none_iff, Fields.mem_names_ofEntries] at found
    exact found member
  have recorded : kept.Sublist (Fields.names (recordOptions element element.bound
      (recordProperties element (element.propertyFields element.bound)
        (element.filled settings parts children))).bindings) := by
    rw [bindings_recordOptions, bindings_recordProperties]
    exact properties
  exact sublist_addStyles (sublist_addHandlers recorded _) element element.bound

/-! ## The order of exported options -/

def isOptionPath (path : String) : Bool :=
  (Namespace.options.key? path).any fun key => decide (key ≠ styleKey)

theorem isOptionPath_iff {path : String} :
    isOptionPath path = true ↔
      ∃ key, path = Namespace.options.path key ∧ key ≠ "" ∧ key ≠ styleKey := by
  rw [isOptionPath, Option.any_eq_true]
  simp only [Namespace.key?_eq_some_iff, decide_eq_true_eq, and_assoc]

theorem within_filter_isOptionPath (bindings : Fields String) :
    within .options (bindings.filter fun entry => isOptionPath entry.1) =
      (within .options bindings).filter fun entry => decide (entry.1 ≠ styleKey) := by
  induction bindings with
  | nil => rfl
  | cons entry bindings ih =>
    rw [List.filter_cons, within_cons, List.filter_append, ← ih, isOptionPath]
    cases found : Namespace.options.key? entry.1 with
    | none => rfl
    | some key =>
      by_cases style : key = styleKey
      · simp [style]
      · simp [style, within_cons, found]

/-- The options that a node is written with stand in the order of its bindings. -/
theorem sublist_writtenPaths (node : Node) (bindings : Fields Binding) :
    (Fields.names ((writtenPaths node bindings).filter fun entry => isOptionPath entry.1)).Sublist
      ((Fields.names bindings).map Namespace.options.path) := by
  induction bindings with
  | nil => exact List.Sublist.slnil
  | cons entry bindings ih =>
    obtain ⟨key, binding⟩ := entry
    have first : writtenPaths node ((key, binding) :: bindings) =
        (stylesOf node (key, binding)).bindings ++ pathOf node (key, binding) ++
          writtenPaths node bindings := rfl
    have styles : ((stylesOf node (key, binding)).bindings.filter fun entry =>
        isOptionPath entry.1) = [] := by
      rw [List.filter_eq_nil_iff]
      rintro ⟨path, code⟩ member option
      obtain ⟨name, rfl, -⟩ := isOptionPath_iff.mp option
      rw [stylesOf] at member
      split at member
      · have style := Style.styled_split _ _ _ (Fields.mem_names_of_mem member)
        exact not_isPath_field (.inl rfl) name style
      · cases member
    have path : (Fields.names ((pathOf node (key, binding)).filter fun entry =>
        isOptionPath entry.1)).Sublist [Namespace.options.path key] := by
      rw [pathOf]
      split
      · exact List.nil_sublist _
      · split
        · rw [List.filter_cons]
          split
          · next option =>
            obtain ⟨name, same, -⟩ := isOptionPath_iff.mp option
            dsimp only at same
            rw [Namespace.eq_of_path_eq same]
            exact List.Sublist.refl _
          · exact List.nil_sublist _
        · exact List.nil_sublist _
    rw [first, List.filter_append, List.filter_append, styles, List.nil_append, Fields.names_append,
      Fields.names_cons, List.map_cons]
    exact path.append ih

theorem sublist_bound_options (h : element.Stays settings parts children) :
    ((Fields.names (exportNode (element.body settings parts children)).bound.options).filter
      fun key => decide (key ≠ styleKey)).Sublist
      (Fields.names (element.body settings parts children).bindings) := by
  have keyed := keyed_exported h
  have written := sublist_writtenPaths (element.body settings parts children)
    (element.body settings parts children).bindings
  have distinct : Fields.Distinct ((writtenPaths (element.body settings parts children)
      (element.body settings parts children).bindings).filter fun entry =>
        isOptionPath entry.1) :=
    (List.Nodup.map (fun _ _ same => Namespace.path_inj.mp same) h.body.bindings).sublist written
  have restored : ((restoreBound .properties
      (keptStyle? (element.body settings parts children) stylePropertyKey)
      (restoreBound .options (keptStyle? (element.body settings parts children) styleOptionKey)
        [])).filter fun entry => isOptionPath entry.1) = [] := by
    rw [List.filter_eq_nil_iff]
    rintro ⟨path, code⟩ member option
    obtain ⟨name, rfl, -, other⟩ := isOptionPath_iff.mp option
    rcases mem_names_restoreBound (Fields.mem_names_of_mem member) with same | inner
    · cases Namespace.eq_of_path_eq same
    · rcases mem_names_restoreBound inner with same | empty
      · exact other (Namespace.path_inj.mp same)
      · cases empty
  have options : ((exportNode (element.body settings parts children)).expressions.filter
      fun entry => isOptionPath entry.1) =
      (writtenPaths (element.body settings parts children)
        (element.body settings parts children).bindings).filter fun entry =>
          isOptionPath entry.1 := by
    rw [expressions_exportNode h.loop, Fields.filter_merge, restored]
    exact Fields.ofEntries_of_distinct distinct
  have sorted := sublist_within .options
    ((exportNode (element.body settings parts children)).expressions.filter fun entry =>
      isOptionPath entry.1)
  rw [within_filter_isOptionPath, ← bound_options keyed,
    Fields.names_filter fun key => decide (key ≠ styleKey), options] at sorted
  obtain ⟨keys, among, same⟩ := List.sublist_map_iff.mp (sorted.trans written)
  rw [List.map_injective_iff.mpr (fun _ _ same => Namespace.path_inj.mp same) same]
  exact among

/-- A field that a native tag lists is bound as an option of the exported element. -/
theorem boundAt?_of_lists (h : element.Stays settings parts children)
    (tag : Node.isTagName (element.nodeName settings) = true) (other : key ≠ styleKey)
    (lists : element.Lists settings key) :
    isProperty (element.body settings parts children) key = false ∧
      (exportNode (element.body settings parts children)).boundAt? .options key ≠ none := by
  obtain ⟨bound, free⟩ := (lists_of_tag h tag).mp lists
  have option : isProperty (element.body settings parts children) key = false := by
    rw [Bool.eq_false_iff, ne_eq, isProperty_body h other, componentName?_of_tag h tag,
      Option.isSome_none, if_neg Bool.false_ne_true]
    exact fun property => property.2 lists
  refine ⟨option, ?_⟩
  -- Nothing but a handler or the bound option can be the source of the field.
  have given : ∃ code, element.source? settings key = some (.bound code) := by
    have property := field?_of_not_overrides h.keyed free
    rw [Element.field?, Option.or_eq_none_iff, Element.literals] at property
    rw [Element.source?, property.1, property.2, Element.isStructural, options_of_tag h tag]
    obtain ⟨code, found⟩ := Option.ne_none_iff_exists'.mp bound
    rw [found]
    cases handlerOf? element.eventHandlers key with
    | none => exact ⟨code, rfl⟩
    | some handler => exact ⟨handler, rfl⟩
  obtain ⟨code, given⟩ := given
  obtain ⟨named, unstructured, unlisted⟩ := h.steady.bound key code other given
  have unhandled : Event.ofHandler? key = none := by
    by_contra handled
    exact unlisted handled lists
  have fields := Element.hasField_body h.keyed h.imports.plain children other
  rw [given] at fields
  have written : isWritten (element.body settings parts children) (key, .expression code) = true := by
    rw [isWritten_iff, names_slots h]
    exact ⟨other, not_mem_slots_of_plain h.keyed unstructured, rfl⟩
  rw [boundAt?_exportNode h.loop h.body.bindings fields.binding written
    (isBlankText_of_source? given) named unhandled (.inl rfl), fieldSpace, option]
  simp

/-- A native tag lists the same options again, in the same order. -/
theorem listedOptions_exported (h : element.Stays settings parts children)
    (tag : Node.isTagName (element.nodeName settings) = true) {others : OptionParts}
    (plain : others.plain =
      (exportNode (element.body settings parts children)).plainOptions settings)
    (nodes : List Node) :
    (exportNode (element.body settings parts children)).listedOptions
        ((exportNode (element.body settings parts children)).filled settings others nodes) =
      element.listedOptions (element.filled settings parts children) := by
  have keyed := keyed_exported h
  have ordered : ((exportNode (element.body settings parts children)).listedOptions
      ((exportNode (element.body settings parts children)).filled settings others nodes)).Sublist
      (Fields.names (element.body settings parts children).bindings) := by
    refine List.Sublist.trans (List.monotone_filter_right _ fun key => ?_) (sublist_bound_options h)
    simp only [Bool.and_eq_true]
    exact fun kept => kept.1.1
  refine eq_of_sublist h.body.bindings ordered (sublist_listedOptions h tag) fun key => ?_
  rw [mem_listedOptions h tag]
  constructor
  · intro member
    obtain ⟨among, kept⟩ := List.mem_filter.mp member
    simp only [Bool.and_eq_true, decide_eq_true_eq] at kept
    have belongs := (binding_of_bound h (.inl rfl) kept.1.1 among).1
    refine ⟨kept.1.1, ?_⟩
    by_contra unlisted
    have property : isProperty (element.body settings parts children) key = true := by
      rw [isProperty_body h kept.1.1, componentName?_of_tag h tag, Option.isSome_none,
        if_neg Bool.false_ne_true]
      exact ⟨tag, unlisted⟩
    rw [fieldSpace, if_pos property] at belongs
    cases belongs
  · rintro ⟨other, lists⟩
    obtain ⟨option, bound⟩ := boundAt?_of_lists h tag other lists
    have free : (exportNode (element.body settings parts children)).overrides key = false := by
      by_contra overridden
      have property := isProperty_of_overrides h other (Bool.eq_true_of_not_eq_false overridden)
      cases option.symm.trans property
    have unstructured : (exportNode (element.body settings parts children)).isStructural settings
        key = false := by
      rw [Element.isStructural, options_exported_of_tag h tag]
      rfl
    exact mem_listedOptions_of_bound keyed plain nodes other free unstructured bound

/-- The metadata of the node are recorded again: the lists of keys are the same, and so are the
settings called `style` that were kept. -/
theorem bodyRecords_exported (h : element.Stays settings parts children) {others : OptionParts}
    (plain : others.plain =
      (exportNode (element.body settings parts children)).plainOptions settings)
    (nodes : List Node) :
    (exportNode (element.body settings parts children)).bodyRecords settings
        ((exportNode (element.body settings parts children)).listedOptions
          ((exportNode (element.body settings parts children)).filled settings others nodes)) =
      element.bodyRecords settings
        (element.listedOptions (element.filled settings parts children)) := by
  obtain ⟨id, version, layerName⟩ := identity_exported h
  have options : optionList? (element.nodeName settings)
      ((exportNode (element.body settings parts children)).listedOptions
        ((exportNode (element.body settings parts children)).filled settings others nodes)) =
      optionList? (element.nodeName settings)
        (element.listedOptions (element.filled settings parts children)) := by
    cases tag : Node.isTagName (element.nodeName settings) with
    | true => rw [listedOptions_exported h tag plain]
    | false => rw [optionList?, optionList?, tag]; rfl
  rw [Element.bodyRecords, Element.bodyRecords, id, version, layerName, styleOption?_exported h,
    styleProperty_exported h, propertyList?_exported h, nodeName_exported h, options,
    merged?_exported h]

end BlockLoom.Content
