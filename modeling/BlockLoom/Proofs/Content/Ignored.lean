import BlockLoom.Proofs.Content.Paths
import BlockLoom.Proofs.Content.Reached
import BlockLoom.Style.Split

/-!
What the import ignores: expressions under paths without a meaning, and styles for widths
that are not known. Elements with more of either, at any depth, are imported like the
elements without. The proof follows two imports side by side. They read the same options,
with elements that again differ in nothing else, so that both fail in the same place or
give the same nodes.
-/

namespace BlockLoom

namespace Fields

variable {α : Type}

/-! ## Maps with further entries -/

/-- A map with further entries, each under a key of some kind, anywhere between its own. -/
inductive Inserted (extra : String → Prop) : Fields α → Fields α → Prop where
  | nil : Inserted extra [] []
  | keep {fields others : Fields α} (entry : String × α) (rest : Inserted extra fields others) :
      Inserted extra (entry :: fields) (entry :: others)
  | insert {fields others : Fields α} {entry : String × α} (more : extra entry.1)
      (rest : Inserted extra fields others) : Inserted extra fields (entry :: others)

theorem Inserted.filter {extra : String → Prop} {fields others : Fields α}
    (h : Inserted extra fields others) {keep : String → Bool}
    (drops : ∀ key, extra key → keep key = false) :
    (others.filter fun entry => keep entry.1) = fields.filter fun entry => keep entry.1 := by
  induction h with
  | nil => rfl
  | keep entry _ ih => rw [List.filter_cons, List.filter_cons, ih]
  | insert more _ ih => rw [List.filter_cons, drops _ more, if_neg Bool.false_ne_true, ih]

theorem Inserted.get? {extra : String → Prop} {fields others : Fields α}
    (h : Inserted extra fields others) {key : String} (own : ¬extra key) :
    get? others key = get? fields key := by
  induction h with
  | nil => rfl
  | keep entry _ ih => rw [get?_cons, get?_cons, ih]
  | insert more _ ih =>
    rw [get?_cons, if_neg, ih]
    rintro rfl
    exact own more

end Fields

namespace Content

/-! ## Paths without a meaning -/

/-- The paths that mean something: those of a style for a known width, and those of a key in
any other namespace. -/
inductive Meant : String → Prop where
  | key {space : Namespace} {key : String} (other : space ≠ .responsiveStyles)
      (filled : key ≠ "") : Meant (space.path key)
  | width (breakpoint : Style.Breakpoint) {key : String} (filled : key ≠ "") :
      Meant (Style.responsivePath breakpoint key)

def UnknownWidth (bucket : String) : Prop :=
  ∀ width : Style.Breakpoint, bucket ≠ width.bucket

theorem path_responsive (width : Style.Breakpoint) (key : String) :
    Style.responsivePath width key =
      Namespace.responsiveStyles.path (width.bucket ++ "." ++ key) := by
  unfold Style.responsivePath Namespace.path Namespace.beginning
  dsimp only
  rw [String.append_assoc, String.append_assoc, String.append_assoc]

theorem splitFirst?_eq_some {separator : Char} {text before after : List Char}
    (h : Text.splitFirst? separator text = some (before, after)) :
    text = before ++ separator :: after := by
  induction text generalizing before with
  | nil => cases h
  | cons c rest ih =>
    rw [Text.splitFirst?] at h
    split at h
    · next same =>
      cases h
      rw [same]
      rfl
    · obtain ⟨parts, found, pair⟩ := Option.map_eq_some_iff.mp h
      cases pair
      rw [ih found]
      rfl

theorem splitFirst?_append {separator : Char} {before : List Char} (h : separator ∉ before)
    (after : List Char) :
    Text.splitFirst? separator (before ++ separator :: after) = some (before, after) := by
  induction before with
  | nil => rw [List.nil_append, Text.splitFirst?, if_pos rfl]
  | cons c before ih =>
    obtain ⟨here, later⟩ := not_or.mp (mt List.mem_cons.mpr h)
    rw [List.cons_append, Text.splitFirst?, if_neg (Ne.symm here), ih later]
    rfl

/-- A path outside of all namespaces, or without a key in its namespace, has no meaning. -/
theorem not_meant_of_split? {path : String} (h : Namespace.split? path = none) : ¬Meant path := by
  rintro (⟨_, filled⟩ | ⟨width, filled⟩)
  · cases h.symm.trans (Namespace.split?_path _ filled)
  · rw [path_responsive, Namespace.split?_path] at h
    · cases h
    · cases width <;> simp [Style.Breakpoint.bucket]

/-- The path of a style for an unknown width has no meaning. -/
theorem not_meant_of_unknownWidth {bucket : String} (unknown : UnknownWidth bucket)
    (single : '.' ∉ bucket.toList) (key : String) :
    ¬Meant (Namespace.responsiveStyles.path (bucket ++ "." ++ key)) := by
  generalize whole : Namespace.responsiveStyles.path (bucket ++ "." ++ key) = path
  rintro (⟨other, -⟩ | @⟨width, name, -⟩)
  · exact other (Namespace.eq_of_path_eq whole).symm
  · rw [path_responsive, Namespace.path_inj] at whole
    have letters := congrArg (fun text => Text.splitFirst? '.' text.toList) whole
    have cut (text : String) (single : '.' ∉ text.toList) (rest : String) :
        Text.splitFirst? '.' (text ++ "." ++ rest).toList = some (text.toList, rest.toList) := by
      rw [String.toList_append, String.toList_append, List.append_assoc]
      exact splitFirst?_append single rest.toList
    have bare : '.' ∉ width.bucket.toList := by cases width <;> decide
    rw [cut bucket single, cut width.bucket bare] at letters
    exact unknown width (String.toList_inj.mp (Prod.mk.inj (Option.some.inj letters)).1)

namespace Bound

/-- Expressions that have the same effect: they are the same but for styles of unknown widths. -/
structure Alike (bound other : Bound) : Prop where
  options : other.options = bound.options
  properties : other.properties = bound.properties
  actions : other.actions = bound.actions
  base : other.styles.base = bound.styles.base
  widths : ∀ width, other.styles.forWidth width = bound.styles.forWidth width

namespace Alike

theorem refl (bound : Bound) : bound.Alike bound :=
  ⟨rfl, rfl, rfl, rfl, fun _ => rfl⟩

theorem symm {bound other : Bound} (h : bound.Alike other) : other.Alike bound :=
  ⟨h.options.symm, h.properties.symm, h.actions.symm, h.base.symm,
    fun width => (h.widths width).symm⟩

theorem trans {bound other third : Bound} (h : bound.Alike other) (h' : other.Alike third) :
    bound.Alike third :=
  ⟨h'.options.trans h.options, h'.properties.trans h.properties, h'.actions.trans h.actions,
    h'.base.trans h.base, fun width => (h'.widths width).trans (h.widths width)⟩

end Alike

theorem forWidth_insertResponsive (styles : Style.Expressions) (bucket key code : String)
    (width : Style.Breakpoint) :
    (styles.insertResponsive bucket key code).forWidth width =
      match Text.trimmed? code with
      | some code =>
        if bucket = width.bucket then Fields.put (styles.forWidth width) key code
        else styles.forWidth width
      | none => styles.forWidth width := by
  rw [Style.Expressions.insertResponsive]
  cases Text.trimmed? code with
  | none => rfl
  | some code =>
    dsimp only [Style.Expressions.forWidth]
    rw [Fields.get?_put]
    by_cases same : bucket = width.bucket
    · rw [if_pos same, if_pos same, same]
      rfl
    · rw [if_neg same, if_neg same]

theorem base_insertResponsive (styles : Style.Expressions) (bucket key code : String) :
    (styles.insertResponsive bucket key code).base = styles.base := by
  rw [Style.Expressions.insertResponsive]
  split <;> rfl

/-- Adding an expression has the same effect on expressions with the same effect. -/
theorem Alike.add {bound other : Bound} (h : bound.Alike other) (path code : String) :
    (bound.add path code).Alike (other.add path code) := by
  rw [Bound.add, Bound.add]
  split
  · exact h
  · rw [Style.Expressions.insertBase, Style.Expressions.insertBase]
    split
    · exact { h with base := by rw [h.base] }
    · exact h
  · split
    · refine ⟨h.options, h.properties, h.actions, ?_, fun width => ?_⟩
      · rw [base_insertResponsive, base_insertResponsive, h.base]
      · rw [forWidth_insertResponsive, forWidth_insertResponsive, h.widths]
    · exact h
  · exact { h with options := by rw [h.options] }
  · exact { h with properties := by rw [h.properties] }
  · exact { h with actions := by rw [h.actions] }

/-- The expression for a path without a meaning has no effect. -/
theorem add_ignored (bound : Bound) {path : String} (ignored : ¬Meant path) (code : String) :
    bound.Alike (bound.add path code) := by
  have meant {space : Namespace} {key : String} (h : Namespace.split? path = some (space, key))
      (other : space ≠ .responsiveStyles) : False := by
    obtain ⟨rfl, filled⟩ := Namespace.path_of_split? h
    exact ignored (.key other filled)
  rw [add]
  split
  · exact .refl bound
  · next found => exact (meant found (by decide)).elim
  · next key found =>
    obtain ⟨rfl, -⟩ := Namespace.path_of_split? found
    split
    · next bucket c rest parts =>
      refine ⟨rfl, rfl, rfl, ?_, fun width => ?_⟩
      · rw [base_insertResponsive]
      · -- The bucket of a known width would give the path a meaning.
        have unknown : String.ofList bucket ≠ width.bucket := by
          intro same
          have whole : key = width.bucket ++ "." ++ String.ofList (c :: rest) := by
            rw [← String.toList_inj, splitFirst?_eq_some parts, ← same]
            simp only [String.toList_append, String.toList_ofList, List.append_assoc]
            rfl
          have filled : String.ofList (c :: rest) ≠ "" := fun empty =>
            List.cons_ne_nil c rest (String.ofList_eq_empty_iff.mp empty)
          rw [whole, ← path_responsive] at ignored
          exact ignored (.width width filled)
        rw [forWidth_insertResponsive]
        split
        · rw [if_neg unknown]
        · rfl
    · exact .refl bound
  all_goals next found => exact (meant found (by decide)).elim

open Classical in
/-- Only expressions under paths with a meaning have an effect. -/
theorem alike_of_meant (plain preferred : Fields String) :
    (Bound.of plain preferred).Alike
      (((Fields.merge (plain.filter fun entry => decide (Meant entry.1))
        (preferred.filter fun entry => decide (Meant entry.1)))).foldl
          (fun bound entry => bound.add entry.1 entry.2) {}) := by
  have step (entries : Fields String) (bound other : Bound) (h : bound.Alike other) :
      (entries.foldl (fun bound entry => bound.add entry.1 entry.2) bound).Alike
        ((entries.filter fun entry => decide (Meant entry.1)).foldl
          (fun bound entry => bound.add entry.1 entry.2) other) := by
    induction entries generalizing bound other with
    | nil => exact h
    | cons entry entries ih =>
      rw [List.foldl_cons, List.filter_cons]
      by_cases meant : Meant entry.1
      · rw [if_pos (decide_eq_true meant), List.foldl_cons]
        exact ih _ _ (h.add _ _)
      · rw [if_neg (by simpa using meant)]
        exact ih _ _ ((add_ignored bound meant entry.2).symm.trans h)
  rw [← Fields.filter_merge fun path => decide (Meant path)]
  exact step _ _ _ (.refl _)

/-- Expressions under paths without a meaning have no effect, wherever they are inserted. -/
theorem alike_of_inserted {plain preferred plain' preferred' : Fields String}
    (h : Fields.Inserted (fun path => ¬Meant path) plain plain')
    (h' : Fields.Inserted (fun path => ¬Meant path) preferred preferred') :
    (Bound.of plain preferred).Alike (Bound.of plain' preferred') := by
  classical
  have drops (path : String) (ignored : ¬Meant path) : decide (Meant path) = false := by
    simpa using ignored
  have more := alike_of_meant plain' preferred'
  rw [h.filter drops, h'.filter drops] at more
  exact (alike_of_meant plain preferred).trans more.symm

end Bound

/-! ## Elements with more to ignore -/

mutual

/-- An element, and the same element with more to ignore: further expressions under paths
without a meaning and further styles for unknown widths, in itself and in any elements in
its options and among its children. -/
inductive Padded (settings : ImportSettings) : Element → Element → Prop where
  | same (element : Element) : Padded settings element element
  | more (element : Element) {bindings codeBindings : Fields String}
      {styles : Option Style.Literals} {component : Option Use} {children : List Element}
      (bound : Fields.Inserted (fun path => ¬Meant path) element.bindings bindings)
      (code : Fields.Inserted (fun path => ¬Meant path) element.code.bindings codeBindings)
      (literal : Fields.Inserted UnknownWidth (element.styles.getD []) (styles.getD []))
      (name : component.map Use.name = element.component.map Use.name)
      (options : PaddedOptions settings (Grouping.of? (element.nodeName settings))
        element.options ((component.map Use.options).getD []))
      (inner : List.Forall₂ (Padded settings) element.children children) :
      Padded settings element
        { element with
          bindings, styles, component, children
          code := { element.code with bindings := codeBindings } }

inductive PaddedOptions (settings : ImportSettings) :
    Option Grouping → List (String × Json) → List (String × Json) → Prop where
  | nil {grouping : Option Grouping} : PaddedOptions settings grouping [] []
  | cons {grouping : Option Grouping} {option other : String × Json}
      {options others : List (String × Json)} (first : PaddedOption settings grouping option other)
      (rest : PaddedOptions settings grouping options others) :
      PaddedOptions settings grouping (option :: options) (other :: others)

inductive PaddedOption (settings : ImportSettings) :
    Option Grouping → String × Json → String × Json → Prop where
  | same {grouping : Option Grouping} (option : String × Json) :
      PaddedOption settings grouping option option
  | slot {grouping : Option Grouping} {key : String} {items others : List Json}
      (free : Grouping.claims grouping key = false) (marked : items.any isElement = true)
      (each : List.Forall₂ (PaddedItem settings) items others) :
      PaddedOption settings grouping (key, .array items) (key, .array others)
  | groups {grouping : Option Grouping} {key : String} {items others : List Json}
      (claimed : Grouping.claims grouping key = true)
      (each : List.Forall₂ (PaddedGroup settings) items others) :
      PaddedOption settings grouping (key, .array items) (key, .array others)

/-- Data that stand for an element with more to ignore. -/
inductive PaddedItem (settings : ImportSettings) : Json → Json → Prop where
  | same (value : Json) : PaddedItem settings value value
  | element {value other : Json} {element element' : Element} (stands : StandsFor value element)
      (stands' : StandsFor other element') (padded : Padded settings element element') :
      PaddedItem settings value other

inductive PaddedGroup (settings : ImportSettings) : Json → Json → Prop where
  | same (value : Json) : PaddedGroup settings value value
  | blocks {members : List (String × Json)} {items others : List Json}
      (found : Fields.get? members Group.blocksKey = some (.array items))
      (each : List.Forall₂ (PaddedItem settings) items others) :
      PaddedGroup settings (.object members)
        (.object (Fields.put members Group.blocksKey (.array others)))

end

variable {settings : ImportSettings}

/-! ## What a node is made of -/

theorem PaddedOptions.names {grouping : Option Grouping} {options others : List (String × Json)}
    (h : PaddedOptions settings grouping options others) :
    Fields.names others = Fields.names options := by
  match h with
  | .nil => rfl
  | .cons first rest =>
    rw [Fields.names_cons, Fields.names_cons, names rest]
    cases first <;> rfl

theorem has_of_names {α β : Type} {fields : Fields α} {others : Fields β}
    (h : Fields.names others = Fields.names fields) (key : String) :
    Fields.has others key = Fields.has fields key := by
  rw [Bool.eq_iff_iff, Fields.has_iff, Fields.has_iff, h]

theorem merge_padded {literals others : Style.Literals} {bound other : Bound}
    (literal : Fields.Inserted UnknownWidth literals others) (alike : bound.Alike other) :
    Style.merge others other.styles = Style.merge literals bound.styles := by
  have widths (width : Style.Breakpoint) : others.forWidth width = literals.forWidth width := by
    have known : ¬UnknownWidth width.bucket := fun unknown => unknown width rfl
    rw [Style.Literals.forWidth, literal.get? known]
    rfl
  unfold Style.merge
  simp only [widths, alike.base, alike.widths]

/-- The node for an element does not depend on what is ignored: neither on literals for unknown
widths nor on expressions under paths that lead nowhere. -/
theorem body_padded {element other : Element}
    (name : other.nodeName settings = element.nodeName settings)
    (component : other.componentName? = element.componentName?)
    (options : Fields.names other.options = Fields.names element.options)
    (identity : other.identity = element.identity)
    (properties : other.properties = element.properties)
    (actions : other.actions = element.actions) (code : other.code.actions = element.code.actions)
    (literal : Fields.Inserted UnknownWidth (element.styles.getD []) (other.styles.getD []))
    (alike : (Bound.of element.bindings element.code.bindings).Alike
      (Bound.of other.bindings other.code.bindings))
    (parts : OptionParts) (children : List Node) :
    other.body settings parts children = element.body settings parts children := by
  unfold Element.body
  generalize Bound.of element.bindings element.code.bindings = bound at alike
  generalize Bound.of other.bindings other.code.bindings = bound' at alike
  have fields : other.optionFields bound' parts = element.optionFields bound parts := by
    unfold Element.optionFields
    simp only [alike.options, has_of_names options]
  have known : other.propertyFields bound' = element.propertyFields bound := by
    rw [Element.propertyFields, Element.propertyFields, alike.properties, properties]
  have handlers : other.handlers bound' = element.handlers bound := by
    rw [Element.handlers, Element.handlers, alike.actions, actions, code]
  have record (fields : Fields FieldValue) (node : Node) :
      recordProperties other fields node = recordProperties element fields node := by
    rw [recordProperties, recordProperties, component]
  have listed (node : Node) :
      recordOptions other bound' node = recordOptions element bound node := by
    rw [recordOptions, recordOptions, alike.options, alike.properties, properties]
  have styled (node : Node) : addStyles other bound' node = addStyles element bound node := by
    rw [addStyles, addStyles, merge_padded literal alike]
  simp only [name, identity, fields, known, handlers, record, listed, styled]

/-! ## Two readers side by side -/

/-- Two results that go together: the same failure, or values that are related. -/
def Both {α β : Type} (related : α → β → Prop) (result : Except Failure α)
    (other : Except Failure β) : Prop :=
  (∃ failure, result = .error failure ∧ other = .error failure) ∨
    ∃ value value', result = .ok value ∧ other = .ok value' ∧ related value value'

theorem Both.refl {α : Type} {related : α → α → Prop} (h : ∀ value, related value value)
    (result : Except Failure α) : Both related result result := by
  cases result with
  | error failure => exact .inl ⟨failure, rfl, rfl⟩
  | ok value => exact .inr ⟨value, value, rfl, rfl, h value⟩

structure Group.Padded (settings : ImportSettings) (group other : Group) : Prop where
  fields : other.fields = group.fields
  blocks : List.Forall₂ (Content.Padded settings) group.blocks other.blocks

theorem Group.Padded.refl (group : Group) : Group.Padded settings group group :=
  ⟨rfl, List.forall₂_same.mpr fun element _ => .same element⟩

theorem readElement_padded (path : Path) {value other : Json}
    (h : PaddedItem settings value other) :
    Both (Padded settings) (readElement path value) (readElement path other) := by
  cases h with
  | same => exact .refl Padded.same _
  | element stands stands' padded =>
    exact .inr ⟨_, _, readElement_iff.mpr stands, readElement_iff.mpr stands', padded⟩

theorem readElements_padded (path : Path) (index : Nat) {values others : List Json}
    (h : List.Forall₂ (PaddedItem settings) values others) :
    Both (List.Forall₂ (Padded settings)) (readElements path index values)
      (readElements path index others) := by
  induction h generalizing index with
  | nil => exact .inr ⟨[], [], rfl, rfl, .nil⟩
  | cons first _ ih =>
    rw [readElements, readElements]
    rcases readElement_padded (path.item index) first with
      ⟨failure, left, right⟩ | ⟨element, element', left, right, padded⟩
    · rw [left, right]
      exact .inl ⟨failure, rfl, rfl⟩
    · rw [left, right]
      rcases ih (index + 1) with ⟨failure, left, right⟩ | ⟨elements, elements', left, right, rest⟩
      · simp only [left, right]
        exact .inl ⟨failure, rfl, rfl⟩
      · simp only [left, right]
        exact .inr ⟨_, _, rfl, rfl, .cons padded rest⟩

theorem readGroup_padded (path : Path) {value other : Json} (h : PaddedGroup settings value other) :
    Both (Group.Padded settings) (Group.read path value) (Group.read path other) := by
  cases h with
  | same => exact .refl Group.Padded.refl _
  | @blocks members items others found each =>
    rw [Group.read, Group.read, found, Fields.get?_put, if_pos rfl]
    rcases readElements_padded (path.field Group.blocksKey) 0 each with
      ⟨failure, left, right⟩ | ⟨blocks, blocks', left, right, padded⟩
    · simp only [left, right]
      exact .inl ⟨failure, rfl, rfl⟩
    · simp only [left, right]
      refine .inr ⟨_, _, rfl, rfl, ?_, padded⟩
      rw [Fields.remove_put, if_pos rfl]

theorem readGroups_padded (path : Path) (index : Nat) {values others : List Json}
    (h : List.Forall₂ (PaddedGroup settings) values others) :
    Both (List.Forall₂ (Group.Padded settings)) (Group.readItems path index values)
      (Group.readItems path index others) := by
  induction h generalizing index with
  | nil => exact .inr ⟨[], [], rfl, rfl, .nil⟩
  | cons first _ ih =>
    rw [Group.readItems, Group.readItems]
    rcases readGroup_padded (path.item index) first with
      ⟨failure, left, right⟩ | ⟨group, group', left, right, padded⟩
    · rw [left, right]
      exact .inl ⟨failure, rfl, rfl⟩
    · rw [left, right]
      rcases ih (index + 1) with ⟨failure, left, right⟩ | ⟨groups, groups', left, right, rest⟩
      · simp only [left, right]
        exact .inl ⟨failure, rfl, rfl⟩
      · simp only [left, right]
        exact .inr ⟨_, _, rfl, rfl, .cons padded rest⟩

theorem readGroupList_padded (path : Path) {items others : List Json}
    (h : List.Forall₂ (PaddedGroup settings) items others) :
    Both (List.Forall₂ (Group.Padded settings)) (Group.readList path (.array items))
      (Group.readList path (.array others)) :=
  readGroups_padded path 0 h

/-- A list that holds elements still holds elements. -/
theorem any_isElement_padded {items others : List Json}
    (h : List.Forall₂ (PaddedItem settings) items others) :
    others.any isElement = items.any isElement := by
  induction h with
  | nil => rfl
  | cons first _ ih =>
    rw [List.any_cons, List.any_cons, ih]
    cases first with
    | same => rfl
    | element stands stands' _ => rw [stands.1, stands'.1]

theorem readSlot_padded (path : Path) {items others : List Json}
    (marked : items.any isElement = true) (h : List.Forall₂ (PaddedItem settings) items others) :
    Both (fun left right => ∃ elements elements', left = .slot elements ∧ right = .slot elements' ∧
        List.Forall₂ (Padded settings) elements elements')
      (readOption path (.array items)) (readOption path (.array others)) := by
  rw [readOption, readOption, any_isElement_padded h, if_pos marked, if_pos marked]
  rcases readElements_padded path 0 h with
    ⟨failure, left, right⟩ | ⟨elements, elements', left, right, padded⟩
  · rw [left, right]
    exact .inl ⟨failure, rfl, rfl⟩
  · rw [left, right]
    exact .inr ⟨_, _, rfl, rfl, elements, elements', rfl, rfl, padded⟩

/-! ## Two imports side by side -/

/-- An element is imported alike with more to ignore, wherever it stands. -/
def Ignores (settings : ImportSettings) (element : Element) : Prop :=
  ∀ (path : Path) (other : Element), Padded settings element other →
    importElement settings path other = importElement settings path element

theorem importElements_padded (path : Path) (index : Nat) {elements others : List Element}
    (h : List.Forall₂ (Padded settings) elements others)
    (each : ∀ element ∈ elements, Ignores settings element) :
    importElements settings path index others = importElements settings path index elements := by
  induction h generalizing index with
  | nil => rfl
  | cons first _ ih =>
    obtain ⟨here, later⟩ := List.forall_mem_cons.mp each
    rw [importElements, importElements, here (path.item index) _ first, ih (index + 1) later]

theorem importGroups_padded (path : Path) (grouping : Grouping) (index : Nat)
    {groups others : List Group} (h : List.Forall₂ (Group.Padded settings) groups others)
    (each : ∀ group ∈ groups, ∀ block ∈ group.blocks, Ignores settings block) :
    importGroups settings path grouping index others =
      importGroups settings path grouping index groups := by
  induction h generalizing index with
  | nil => rfl
  | @cons group other groups others first _ ih =>
    obtain ⟨here, later⟩ := List.forall_mem_cons.mp each
    have node (blocks : List Node) : grouping.node other blocks = grouping.node group blocks := by
      rw [Grouping.node, Grouping.node, first.fields]
    rw [importGroups, importGroups, importElements_padded _ 0 first.blocks here,
      ih (index + 1) later]
    simp only [node]

/-- The step for one option: it is imported alike before options that are imported alike. -/
theorem importOptions_cons_padded (path : Path) {grouping : Option Grouping} {key : String}
    {value : Json} {other : String × Json} {options others : List (String × Json)}
    (first : PaddedOption settings grouping (key, value) other)
    (inside : ∀ element : Element, element.depth < value.depth → Ignores settings element)
    (later : importOptions settings path grouping others =
      importOptions settings path grouping options) :
    importOptions settings path grouping (other :: others) =
      importOptions settings path grouping ((key, value) :: options) := by
  cases first with
  | same =>
    rw [importOptions, importOptions]
    simp only [later]
  | slot free marked padded =>
    rcases readSlot_padded (path.field key) marked padded with
      ⟨failure, left, right⟩ | ⟨_, _, left, right, elements, elements', rfl, rfl, padded⟩
    · rw [importOptions_slot_error _ free left, importOptions_slot_error _ free right]
    · have ignores (element : Element) (member : element ∈ elements) :
          Ignores settings element :=
        inside element
          (Nat.lt_of_lt_of_le (Element.depth_lt_depthList member) (depth_readOption left))
      rw [importOptions_slot _ free left, importOptions_slot _ free right,
        importElements_padded (path.field key) 0 padded ignores, later]
  | groups claimed padded =>
    obtain ⟨found, claim⟩ := Grouping.claims_eq_true_iff.mp claimed
    rcases readGroupList_padded (path.field key) padded with
      ⟨failure, left, right⟩ | ⟨groups, groups', left, right, padded⟩
    · rw [importOptions_groups_error _ claim left, importOptions_groups_error _ claim right]
    · have ignores (group : Group) (member : group ∈ groups) (block : Element)
          (held : block ∈ group.blocks) : Ignores settings block := by
        have deep := Group.depth_readList left
        have outer := Group.depth_lt_depthList member
        have inner := Element.depth_lt_depthList held
        exact inside block (by omega)
      rw [importOptions_groups _ claim left, importOptions_groups _ claim right,
        importGroups_padded (path.field key) found 0 padded ignores, later]

theorem importOptions_padded (path : Path) {grouping : Option Grouping}
    {options others : List (String × Json)} (h : PaddedOptions settings grouping options others)
    (each : ∀ element : Element, element.depth < Json.depthMembers options →
      Ignores settings element) :
    importOptions settings path grouping others =
      importOptions settings path grouping options := by
  induction options generalizing others with
  | nil =>
    cases h
    rfl
  | cons option options ih =>
    cases h with
    | cons first rest =>
      refine importOptions_cons_padded path first (fun element deep => ?_)
        (ih rest fun element deep => ?_)
      · exact each element (Nat.lt_trans deep (Nat.le_max_left _ _))
      · exact each element (Nat.lt_of_lt_of_le deep (Nat.le_max_right _ _))

/-- The step for one element: what stands in it is imported alike if its options and its
children are. -/
theorem importElement_padded_of {element : Element}
    (options : ∀ inner : Element, inner.depth < Json.depthMembers element.options →
      Ignores settings inner)
    (children : ∀ child ∈ element.children, Ignores settings child) :
    Ignores settings element := by
  intro path other h
  cases h with
  | same => rfl
  | @more _ bindings codeBindings styles component inner bound code literal name more padded =>
    generalize same : { element with
      bindings, styles, component
      children := inner
      code := { element.code with bindings := codeBindings } } = other
    have named : other.componentName? = element.componentName? := by
      rw [← same, Element.componentName?, Element.componentName?, name]
    have nodeName : other.nodeName settings = element.nodeName settings := by
      rw [Element.nodeName, Element.nodeName, named, ← same]
    have optionsOf : other.options = (component.map Use.options).getD [] := by
      rw [← same]
      rfl
    have childrenOf : other.children = inner := by
      rw [← same]
    have body (parts : OptionParts) (nodes : List Node) :
        other.body settings parts nodes = element.body settings parts nodes := by
      refine body_padded nodeName named ?_ ?_ ?_ ?_ ?_ ?_ ?_ parts nodes
      · rw [optionsOf, more.names]
      all_goals rw [← same]
      all_goals first
        | rfl
        | exact literal
        | exact Bound.alike_of_inserted bound code
    have repeated (node : Node) : other.repeated node = element.repeated node := by
      rw [Element.repeated, Element.repeated, ← same]
    rw [importElement, importElement, nodeName, optionsOf, childrenOf,
      importOptions_padded _ more options, importElements_padded _ 0 padded children]
    simp only [body, repeated]

/-- Every element is imported alike with more to ignore, by induction on its depth. -/
theorem ignores (settings : ImportSettings) (element : Element) : Ignores settings element := by
  generalize bound : element.depth = depth
  induction depth using Nat.strongRecOn generalizing element with
  | _ depth ih =>
    subst bound
    apply importElement_padded_of
    · intro inner deep
      exact ih _ (Nat.lt_of_lt_of_le deep element.depthMembers_options) inner rfl
    · intro child member
      have deep := Element.depth_lt_depthList member
      exact ih _ (Nat.lt_of_lt_of_le deep element.depthList_children) child rfl

/-- What is ignored has no influence: a document is imported alike with more to ignore in any of its
elements, to the same component or with the same failure. The induction is along the document, with
one case for each part in which something may be ignored. -/
theorem toComponent_padded (settings : ImportSettings) (content : Content) {blocks : List Element}
    (h : List.Forall₂ (Padded settings) content.blocks blocks) :
    toComponent settings { content with blocks } = toComponent settings content := by
  rw [toComponent, toComponent]
  dsimp only
  rw [importElements_padded "blocks" 0 h fun element _ => ignores settings element]
  rfl

def card : Content :=
  { blocks :=
      [{ component :=
          some
            { name := "Card"
              options :=
                [("body",
                  .array [.object [("@type", .string elementType), ("tagName", .string "p")]])] }
         bindings := [("style.color", "theme.color")] }] }

/-- The card with a binding of an unknown namespace and styles for a medium width, and with
a path without a key inside the paragraph. -/
def markedCard : Content :=
  { blocks :=
      [{ component :=
          some
            { name := "Card"
              options :=
                [("body",
                  .array
                    [.object
                      [("@type", .string elementType), ("tagName", .string "p"),
                        ("bindings", .object [("properties.", .string "none")])]])] }
         bindings :=
          [("show", "state.open"), ("style.color", "theme.color"),
            ("responsiveStyles.medium.color", "theme.dim")]
         styles := some [("medium", [("color", .string "red")])] }] }

theorem markedCard_padded :
    List.Forall₂ (Padded {}) card.blocks markedCard.blocks ∧
      toComponent {} markedCard = toComponent {} card := by
  have show_ : ¬Meant "show" := not_meant_of_split? (by decide)
  have bare : ¬Meant "properties." := not_meant_of_split? (by decide)
  have medium : UnknownWidth "medium" := by
    intro width
    cases width <;> decide
  have dim : ¬Meant "responsiveStyles.medium.color" :=
    not_meant_of_unknownWidth medium (by decide) "color"
  have stands : StandsFor (.object [("@type", .string elementType), ("tagName", .string "p")])
      { tagName := some "p" } :=
    ⟨by decide, rfl⟩
  have stands' : StandsFor
      (.object
        [("@type", .string elementType), ("tagName", .string "p"),
          ("bindings", .object [("properties.", .string "none")])])
      { tagName := some "p", bindings := [("properties.", "none")] } :=
    ⟨by decide, rfl⟩
  have paragraph := @PaddedItem.element {} _ _ _ _ stands stands'
    (.more _ (.insert bare .nil) .nil .nil rfl .nil .nil)
  have padded : List.Forall₂ (Padded {}) card.blocks markedCard.blocks := by
    refine .cons (.more _ ?_ .nil (.insert medium .nil) rfl ?_ .nil) .nil
    · exact .insert show_ (.keep _ (.insert dim .nil))
    · exact .cons (.slot (by decide) (by decide) (.cons paragraph .nil)) .nil
  exact ⟨padded, toComponent_padded {} card padded⟩

end Content

end BlockLoom
