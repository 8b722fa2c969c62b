import BlockLoom.Content.Export
import BlockLoom.Proofs.Component.Wire
import BlockLoom.Proofs.Content.Wire

/-!
The export of a component whose maps hold each key once. It repeats no member, so
its text reads back as it was.
-/

namespace BlockLoom

/-! ## Constants -/

namespace Script

theorem isSettled_numberValue {source : String} {value : Json}
    (h : numberValue? source = some value) : value.isSettled = true := by
  rw [numberValue?] at h
  split at h
  · cases h
    rfl
  · cases h

mutual

/-- A constant repeats no member. -/
theorem isSettled_constant (tree : Tree) {value : Json} (h : constant? tree = some value) :
    value.isSettled = true := by
  match tree with
  | ⟨kind, start, text, children⟩ =>
    unfold constant? at h
    split at h
    · obtain ⟨text, _, rfl⟩ := Option.map_eq_some_iff.mp h
      rfl
    · exact isSettled_numberValue h
    · cases h; rfl
    · cases h; rfl
    · split at h
      · exact isSettled_numberValue h
      · cases h
    · exact isSettled_constant _ h
    · obtain ⟨values, read, rfl⟩ := Option.map_eq_some_iff.mp h
      exact isSettled_constants _ read
    · obtain ⟨members, read, rfl⟩ := Option.map_eq_some_iff.mp h
      exact Json.isSettled_ofEntries (isSettled_constantMembers _ read)
    · cases h

theorem isSettled_constants (trees : List Tree) {values : List Json}
    (h : constants? trees = some values) : Json.areSettled values = true := by
  match trees with
  | [] => rw [constants?] at h; cases h; rfl
  | tree :: trees =>
    rw [constants?] at h
    split at h
    · next first rest hfirst hrest =>
      cases h
      rw [Json.areSettled, isSettled_constant tree hfirst, isSettled_constants trees hrest]
      rfl
    · cases h

theorem isSettled_constantMembers (trees : List Tree) {members : List (String × Json)}
    (h : constantMembers? trees = some members) : Json.haveSettled members = true := by
  match trees with
  | [] => rw [constantMembers?] at h; cases h; rfl
  | ⟨kind, start, text, children⟩ :: trees =>
    unfold constantMembers? at h
    split at h
    · next key value =>
      split at h
      · next name read rest hname hread hrest =>
        cases h
        rw [Json.haveSettled, isSettled_constant value hread,
          isSettled_constantMembers trees hrest]
        rfl
      · cases h
    · cases h

end

end Script

theorem Script.isSettled_literalValue {source : String} {value : Json}
    (h : literalValue? source = some value) : value.isSettled = true := by
  obtain ⟨tree, _, read⟩ := Option.bind_eq_some_iff.mp h
  exact isSettled_constant tree read

/-- The constant fields of a node repeat no member. -/
theorem Node.isSettled_literalFields {node : Node}
    (h : (Json.object node.properties).isSettled = true) :
    (Json.object node.literalFields).isSettled = true := by
  refine List.foldlRecOn (motive := fun fields => (Json.object fields).isSettled = true)
    node.bindings _ (Json.isSettled_ofEntries (Json.isSettled_object.mp h).2) ?_
  intro fields settled entry _
  split
  · next value found => exact Json.isSettled_put settled _ (Script.isSettled_literalValue found)
  · exact settled

/-! ## Styles -/

namespace Style

def Literals.Settled (literals : Literals) : Prop :=
  Fields.Distinct literals ∧ ∀ entry ∈ literals, (Json.object entry.2).isSettled = true

theorem Literals.settled_data {literals : Literals} (h : literals.Settled) :
    (Json.object (Fields.mapValues Json.object literals)).isSettled = true := by
  rw [Json.isSettled_object, Json.haveSettled_iff]
  refine ⟨h.1.mapValues _, fun entry member => ?_⟩
  obtain ⟨bucket, stored, rfl⟩ := List.mem_map.mp member
  exact h.2 bucket stored

theorem Literals.Settled.insert {literals : Literals} (h : literals.Settled)
    (breakpoint : Breakpoint) (key : String) {value : Json} (hv : value.isSettled = true) :
    (literals.insert breakpoint key value).Settled := by
  have bucket : (Json.object (literals.forWidth breakpoint)).isSettled = true := by
    rw [Literals.forWidth]
    cases found : Fields.get? literals breakpoint.bucket with
    | none => rfl
    | some bucket => exact h.2 _ (Fields.mem_of_get? found)
  refine ⟨h.1.put _ _, fun entry member => ?_⟩
  rcases Fields.mem_put member with rfl | member
  · exact Json.isSettled_put bucket key hv
  · exact h.2 entry member

theorem isSettled_literal {recorded : Option Json} {breakpoint : Breakpoint} {key code : String}
    {value : Json} (hr : ∀ record, recorded = some record → record.isSettled = true)
    (h : literal? recorded breakpoint key code = some value) : value.isSettled = true := by
  cases recorded with
  | none =>
    obtain ⟨found, _⟩ := Option.filter_eq_some_iff.mp h
    exact Script.isSettled_literalValue found
  | some record =>
    obtain ⟨found, _⟩ := Option.filter_eq_some_iff.mp h
    obtain ⟨bucket, inRecord, inBucket⟩ := Option.bind_eq_some_iff.mp found
    exact Json.isSettled_get? (Json.isSettled_get? (hr record rfl) inRecord) inBucket

/-- What taking styles apart keeps: no key is repeated. -/
def Parts.Settled (parts : Parts) : Prop :=
  parts.literals.Settled ∧ Fields.Distinct parts.bindings

theorem Parts.Settled.addBinding {parts : Parts} (h : parts.Settled) (path code : String) :
    (parts.addBinding path code).Settled :=
  ⟨h.1, h.2.put path code⟩

theorem Parts.Settled.addLiteral {parts : Parts} (h : parts.Settled) (breakpoint : Breakpoint)
    (key : String) {value : Json} (hv : value.isSettled = true) :
    (parts.addLiteral breakpoint key value).Settled :=
  ⟨h.1.insert breakpoint key hv, h.2⟩

theorem Parts.Settled.addResponsive {parts : Parts} (h : parts.Settled) {recorded : Option Json}
    (hr : ∀ record, recorded = some record → record.isSettled = true) (breakpoint : Breakpoint)
    (entry : Script.Entry) : (parts.addResponsive recorded breakpoint entry).Settled := by
  unfold Parts.addResponsive
  split
  · split
    · exact h
    · dsimp only
      split
      · next value found =>
        apply h.addLiteral
        cases breakpoint with
        | small => exact isSettled_literal hr found
        | large => cases found
      · exact h.addBinding _ _
  · exact h

theorem Parts.Settled.add {parts : Parts} (h : parts.Settled) {recorded : Option Json}
    (hr : ∀ record, recorded = some record → record.isSettled = true) (entry : Script.Entry) :
    (parts.add recorded entry).Settled := by
  unfold Parts.add
  split
  · split
    · exact List.foldlRecOn _ _ h fun parts settled entry _ => settled.addResponsive hr _ entry
    · split
      · exact h
      · split
        · next value found => exact h.addLiteral _ _ (isSettled_literal hr found)
        · exact h.addBinding _ _
  · exact h

/-- Styles taken apart repeat no key. -/
theorem settled_split (code : String) {recorded : Option Json}
    (hr : ∀ record, recorded = some record → record.isSettled = true) :
    (split code recorded).Settled :=
  List.foldlRecOn _ _ ⟨⟨Fields.distinct_nil, by simp⟩, Fields.distinct_nil⟩
    fun _ settled entry _ => settled.add hr entry

end Style

/-! ## Elements -/

namespace Content

/-- What it means for the maps of an element to hold each key once. -/
structure Element.Keyed (element : Element) : Prop where
  version : ∀ value, element.version = some value → value.isSettled = true
  options : ∀ use, element.component = some use → (Json.object use.options).isSettled = true
  properties : ∀ members, element.properties = some members →
    (Json.object members).isSettled = true
  bindings : Fields.Distinct element.bindings
  styles : ∀ styles, element.styles = some styles → Style.Literals.Settled styles
  code : Fields.Distinct element.code.actions ∧ Fields.Distinct element.code.bindings
  actions : Fields.Distinct element.actions
  children : Json.areSettled (Element.listToJson element.children) = true

theorem isSettled_texts {texts : Fields String} (h : Fields.Distinct texts) :
    (textsToJson texts).isSettled = true := by
  rw [textsToJson, Json.isSettled_object, Json.haveSettled_iff]
  refine ⟨h.mapValues _, fun entry member => ?_⟩
  obtain ⟨text, _, rfl⟩ := List.mem_map.mp member
  rfl

private theorem isSettled_text {text : Option String} {read : Json}
    (h : text.map Json.string = some read) : read.isSettled = true := by
  obtain ⟨_, _, rfl⟩ := Option.map_eq_some_iff.mp h
  rfl

theorem Repetition.isSettled_toJson (repetition : Repetition) :
    repetition.toJson.isSettled = true := by
  obtain ⟨collection, itemName, indexName⟩ := repetition
  cases itemName <;> cases indexName <;>
    simp [Repetition.toJson, Json.optionalMember, Json.isSettled, Json.haveSettled,
      Fields.distinct_cons, Fields.distinct_nil]

/-- The data of an element whose maps hold each key once repeat no member. -/
theorem Element.Keyed.isSettled_toJson {element : Element} (h : element.Keyed) :
    element.toJson.isSettled = true := by
  rw [Element.toJson_eq, Json.isSettled_object]
  refine ⟨Json.distinct_present element.distinct_entries, Json.haveSettled_present ?_⟩
  simp only [Element.entries, List.forall_mem_cons, List.not_mem_nil, false_implies, implies_true,
    and_true]
  refine ⟨?_, h.version, fun _ => isSettled_text, fun _ => isSettled_text, fun _ => isSettled_text,
    ?_, ?_, ?_, ?_, ?_, ?_, ?_, ?_⟩
  · rintro read ⟨⟩
    rfl
  · intro read found
    obtain ⟨use, given, rfl⟩ := Option.map_eq_some_iff.mp found
    simp [Use.toJson, Json.haveSettled, Fields.distinct_cons, Fields.distinct_nil,
      Json.isSettled_object.mp (h.options use given), Json.isSettled]
  · intro read found
    obtain ⟨members, given, rfl⟩ := Option.map_eq_some_iff.mp found
    exact h.properties members given
  · rintro read ⟨⟩
    exact isSettled_texts h.bindings
  · intro read found
    obtain ⟨styles, given, rfl⟩ := Option.map_eq_some_iff.mp found
    exact Style.Literals.settled_data (h.styles styles given)
  · intro read found
    obtain ⟨repetition, _, rfl⟩ := Option.map_eq_some_iff.mp found
    exact repetition.isSettled_toJson
  · rintro read ⟨⟩
    simp [Code.toJson, Json.isSettled_object, Json.haveSettled, Fields.distinct_cons,
      Fields.distinct_nil, isSettled_texts h.code.1, isSettled_texts h.code.2]
  · rintro read ⟨⟩
    exact isSettled_texts h.actions
  · rintro read ⟨⟩
    exact h.children

/-! ## Exported elements -/

/-- The element for the bindings of a node is its identity with three maps: paths, styles and
actions. None of them repeats a key, whatever the bindings are. -/
theorem boundElement_eq {node : Node} (h : node.Keyed) :
    ∃ bindings styles actions,
      boundElement node =
        { id := node.metadataText? idKey
          version := Fields.get? node.metadata versionKey
          layerName := node.metadataText? layerNameKey
          bindings, styles, actions } ∧
      Fields.Distinct bindings ∧ Fields.Distinct actions ∧
      ∀ literals, styles = some literals → Style.Literals.Settled literals := by
  have restored : Fields.Distinct (restoreBound .properties (keptStyle? node stylePropertyKey)
      (restoreBound .options (keptStyle? node styleOptionKey) [])) := by
    unfold restoreBound
    split <;> split <;> simp [Fields.Distinct.put, Fields.distinct_nil]
  have recorded : ∀ record, Fields.get? node.metadata literalStylesKey = some record →
      record.isSettled = true := fun record found => Json.isSettled_found h.metadata found
  refine List.foldlRecOn (motive := fun element => ∃ bindings styles actions,
    element = ({ id := node.metadataText? idKey
                 version := Fields.get? node.metadata versionKey
                 layerName := node.metadataText? layerNameKey
                 bindings, styles, actions } : Element) ∧
      Fields.Distinct bindings ∧ Fields.Distinct actions ∧
      ∀ literals, styles = some literals → Style.Literals.Settled literals)
    node.bindings _ ⟨_, none, [], rfl, restored, Fields.distinct_nil, by simp⟩ ?_
  rintro _ ⟨bindings, styles, actions, rfl, distinct, apart, settled⟩ ⟨key, binding⟩ _
  unfold exportBinding
  dsimp only
  split
  · refine ⟨_, _, _, rfl, distinct.merge _, apart, ?_⟩
    intro literals found
    split at found
    · exact settled literals found
    · cases found
      exact (Style.settled_split _ recorded).1
  · split
    · exact ⟨_, _, _, rfl, distinct, apart, settled⟩
    · split
      · exact ⟨_, _, _, rfl, distinct, apart.put _ _, settled⟩
      · exact ⟨_, _, _, rfl, distinct.put _ _, apart, settled⟩

theorem isSettled_restoreLiteral {node : Node} (h : node.Keyed) (entry : String)
    {literals : Fields Json} (hl : (Json.object literals).isSettled = true) :
    (Json.object (restoreLiteral (keptStyle? node entry) literals)).isSettled = true := by
  unfold restoreLiteral
  split
  · next value kept =>
    apply Json.isSettled_put hl
    obtain ⟨record, stored, read⟩ := Option.bind_eq_some_iff.mp kept
    split at read
    · cases read
    · obtain ⟨found, member, same⟩ := Option.map_eq_some_iff.mp read
      cases same
      exact Json.isSettled_get? (Json.isSettled_found h.metadata stored) member
  · exact hl

theorem isSettled_exportedProperties {node : Node} (h : node.Keyed) :
    (Json.object (exportedProperties node)).isSettled = true :=
  isSettled_restoreLiteral h _ (Json.isSettled_filter h.properties _)

theorem isSettled_exportedOptions {node : Node} (h : node.Keyed) :
    (Json.object (exportedOptions node)).isSettled = true :=
  isSettled_restoreLiteral h _ (Json.isSettled_filter h.properties _)

theorem keyed_assemble {node : Node} (h : node.Keyed) {parts : Exported}
    (slots : Json.haveSettled parts.slots = true) (groups : Json.areSettled parts.groups = true)
    (children : Json.areSettled (Element.listToJson parts.children) = true) :
    (assemble node parts).Keyed := by
  obtain ⟨bindings, styles, actions, bound, distinct, apart, settled⟩ := boundElement_eq h
  have version : ∀ value, Fields.get? node.metadata versionKey = some value →
      value.isSettled = true := fun value found => Json.isSettled_found h.metadata found
  have properties := isSettled_exportedProperties h
  have options : (Json.object (Fields.merge (exportedOptions node) parts.slots)).isSettled = true :=
    Json.isSettled_merge (isSettled_exportedOptions h) slots
  unfold assemble
  rw [bound]
  dsimp only
  split
  · exact ⟨version, by simp, by rintro _ ⟨⟩; exact properties, distinct, settled,
      ⟨Fields.distinct_nil, Fields.distinct_nil⟩, apart, children⟩
  · refine ⟨version, ?_, ?_, distinct, settled, ⟨Fields.distinct_nil, Fields.distinct_nil⟩, apart,
      children⟩
    · rintro use ⟨⟩
      dsimp only
      split
      · split
        · exact options
        · exact Json.isSettled_put options _ groups
      · exact options
    · intro members found
      dsimp only at found
      split at found
      · cases found
      · cases found
        exact properties

theorem areSettled_listToJson {elements : List Element} (h : ∀ element ∈ elements, element.Keyed) :
    Json.areSettled (Element.listToJson elements) = true := by
  induction elements with
  | nil => rfl
  | cons element elements ih =>
    rw [Element.listToJson, Json.areSettled,
      (h element List.mem_cons_self).isSettled_toJson,
      ih fun other member => h other (List.mem_cons_of_mem _ member)]
    rfl

theorem keyed_fragment {children : List Element} (h : ∀ element ∈ children, element.Keyed) :
    (Element.fragment children).Keyed :=
  ⟨by rintro _ ⟨⟩, by rintro _ ⟨⟩; rfl, by rintro _ ⟨⟩, Fields.distinct_nil, by rintro _ ⟨⟩,
    ⟨Fields.distinct_nil, Fields.distinct_nil⟩, Fields.distinct_nil, areSettled_listToJson h⟩

theorem keyed_repeatElements (head : Loop.Head) {children : List Element}
    (h : ∀ element ∈ children, element.Keyed) : (repeatElements head children).Keyed := by
  have body : ∀ element : Element, element.Keyed → ∀ repetition : Option Repetition,
      Element.Keyed { element with repetition } :=
    fun element keyed _ => ⟨keyed.version, keyed.options, keyed.properties, keyed.bindings,
      keyed.styles, keyed.code, keyed.actions, keyed.children⟩
  unfold repeatElements
  dsimp only
  split
  · next child =>
    split
    · exact body _ (keyed_fragment h) _
    · exact body _ (h child List.mem_cons_self) _
  · exact body _ (keyed_fragment h) _

theorem isSettled_entry (grouping : Grouping) {node : Node}
    (h : (Json.object node.properties).isSettled = true) {blocks : List Json}
    (hb : Json.areSettled blocks = true) : (grouping.entry node blocks).isSettled = true := by
  have fields := Node.isSettled_literalFields h
  cases grouping with
  | columns =>
    refine Json.isSettled_merge ?_ (Json.isSettled_object.mp fields).2
    simp [Json.isSettled, Json.haveSettled, Fields.distinct_cons, Fields.distinct_nil, hb]
  | variants => exact Json.isSettled_put fields _ hb

mutual

/-- The export of a node whose maps hold each key once repeats no key. -/
theorem keyed_exportNode (node : Node) (h : node.isKeyed = true) : (exportNode node).Keyed := by
  match node with
  | ⟨name, properties, bindings, children, slots, scope, metadata⟩ =>
    have keyed := Node.keyed_of_isKeyed h
    unfold exportNode
    dsimp only
    split
    · exact keyed_repeatElements _ (keyed_exportNodes children keyed.children)
    · split
      · exact keyed_assemble keyed (settled_exportSlots slots keyed.slots) rfl
          (areSettled_listToJson (keyed_exportNodes children keyed.children))
      · obtain ⟨groups, others⟩ := keyed_exportColumns children keyed.children
        exact keyed_assemble keyed (settled_exportSlots slots keyed.slots) groups
          (areSettled_listToJson others)
      · obtain ⟨groups, others⟩ := keyed_exportVariants children keyed.children
        exact keyed_assemble keyed (settled_exportSlots slots keyed.slots) groups
          (areSettled_listToJson others)

theorem keyed_exportNodes (nodes : List Node) (h : Node.areKeyed nodes = true) :
    ∀ element ∈ exportNodes nodes, element.Keyed := by
  match nodes with
  | [] => simp [exportNodes]
  | node :: nodes =>
    rw [Node.areKeyed, Bool.and_eq_true] at h
    rw [exportNodes, List.forall_mem_cons]
    exact ⟨keyed_exportNode node h.1, keyed_exportNodes nodes h.2⟩

theorem settled_exportSlots (slots : List (String × List Node)) (h : Node.haveKeyed slots = true) :
    Json.haveSettled (exportSlots slots) = true := by
  match slots with
  | [] => rfl
  | (key, nodes) :: slots =>
    rw [Node.haveKeyed, Bool.and_eq_true] at h
    rw [exportSlots, Json.haveSettled, Json.isSettled,
      areSettled_listToJson (keyed_exportNodes nodes h.1), settled_exportSlots slots h.2]
    rfl

theorem keyed_exportColumns (nodes : List Node) (h : Node.areKeyed nodes = true) :
    Json.areSettled (exportColumns nodes).1 = true ∧
      ∀ element ∈ (exportColumns nodes).2, element.Keyed := by
  match nodes with
  | [] => simp [exportColumns, Json.areSettled]
  | ⟨name, properties, bindings, children, slots, scope, metadata⟩ :: nodes =>
    rw [Node.areKeyed, Bool.and_eq_true] at h
    have keyed := Node.keyed_of_isKeyed h.1
    obtain ⟨groups, others⟩ := keyed_exportColumns nodes h.2
    unfold exportColumns
    dsimp only
    split
    · refine ⟨?_, others⟩
      rw [Json.areSettled, Bool.and_eq_true]
      exact ⟨isSettled_entry .columns keyed.properties
        (areSettled_listToJson (keyed_exportNodes children keyed.children)), groups⟩
    · exact ⟨groups, List.forall_mem_cons.mpr ⟨keyed_exportNode _ h.1, others⟩⟩

theorem keyed_exportVariants (nodes : List Node) (h : Node.areKeyed nodes = true) :
    Json.areSettled (exportVariants nodes).1 = true ∧
      ∀ element ∈ (exportVariants nodes).2, element.Keyed := by
  match nodes with
  | [] => simp [exportVariants, Json.areSettled]
  | ⟨name, properties, bindings, children, slots, scope, metadata⟩ :: nodes =>
    rw [Node.areKeyed, Bool.and_eq_true] at h
    have keyed := Node.keyed_of_isKeyed h.1
    have inner := keyed_exportNodes children keyed.children
    obtain ⟨groups, others⟩ := keyed_exportVariants nodes h.2
    unfold exportVariants
    dsimp only
    split
    · exact ⟨groups, List.forall_mem_append.mpr ⟨inner, others⟩⟩
    · split
      · refine ⟨?_, others⟩
        rw [Json.areSettled, Bool.and_eq_true]
        exact ⟨isSettled_entry .variants keyed.properties (areSettled_listToJson inner), groups⟩
      · exact ⟨groups, List.forall_mem_cons.mpr ⟨keyed_exportNode _ h.1, others⟩⟩

end

/-- The elements of an exported component repeat no member. -/
theorem areSettled_blocks (settings : ExportSettings) {component : Component}
    (h : Node.areKeyed component.children = true) :
    Json.areSettled (Element.listToJson (ofComponent settings component).blocks) = true :=
  areSettled_listToJson (keyed_exportNodes component.children h)

end Content

end BlockLoom
