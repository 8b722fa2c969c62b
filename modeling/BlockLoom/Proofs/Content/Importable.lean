import BlockLoom.Content.Import
import Mathlib.Data.List.Forall2

/-!
Which elements the import takes. Elements are only ever refused for what their
options hold: a list with an element in it must hold nothing else, and the
groups of a component with groups must be objects around such lists.
-/

namespace BlockLoom.Content

/-! ## Elements in data -/

/-- Whether data stand for an element: they are marked as one and have its shape. -/
def StandsFor (value : Json) (element : Element) : Prop :=
  isElement value = true ∧ Element.fromJson value = .ok element

theorem readElement_iff {path : Path} {value : Json} {element : Element} :
    readElement path value = .ok element ↔ StandsFor value element := by
  rw [readElement, StandsFor]
  cases isElement value with
  | false => simp
  | true =>
    cases h : Element.fromJson value with
    | ok read => simp
    | error message => simp

theorem readElements_iff {path : Path} {index : Nat} {values : List Json}
    {elements : List Element} :
    readElements path index values = .ok elements ↔ List.Forall₂ StandsFor values elements := by
  induction values generalizing index elements with
  | nil =>
    rw [readElements]
    constructor
    · rintro ⟨⟩
      exact .nil
    · rintro ⟨⟩
      rfl
  | cons value values ih =>
    rw [readElements]
    constructor
    · intro h
      split at h
      · cases h
      · next element first =>
        split at h
        · cases h
        · next others rest =>
          cases h
          exact .cons (readElement_iff.mp first) (ih.mp rest)
    · rintro (_ | ⟨first, rest⟩)
      rw [readElement_iff.mpr first]
      simp only [ih.mpr rest]

theorem readOption_slot_iff {path : Path} {value : Json} {elements : List Element} :
    readOption path value = .ok (.slot elements) ↔
      ∃ items, value = .array items ∧ items.any isElement = true ∧
        List.Forall₂ StandsFor items elements := by
  rw [readOption.eq_def]
  constructor
  · intro h
    split at h
    · next items =>
      split at h
      · next marked =>
        split at h
        · next read =>
          cases h
          exact ⟨items, rfl, marked, readElements_iff.mp read⟩
        · cases h
      · cases h
    · cases h
  · rintro ⟨items, rfl, marked, read⟩
    simp only [marked, if_true, readElements_iff.mpr read]

def IsPlain (value : Json) : Prop :=
  ∀ items, value = .array items → items.any isElement = false

theorem readOption_plain_iff {path : Path} {value plain : Json} :
    readOption path value = .ok (.plain plain) ↔ plain = value ∧ IsPlain value := by
  rw [readOption.eq_def]
  constructor
  · intro h
    split at h
    · next items =>
      split at h
      · split at h <;> cases h
      · next unmarked =>
        cases h
        refine ⟨rfl, ?_⟩
        rintro _ ⟨⟩
        exact Bool.not_eq_true _ ▸ unmarked
    · next other =>
      cases h
      exact ⟨rfl, fun items heq => absurd heq (other items)⟩
  · rintro ⟨rfl, unmarked⟩
    split
    · next items => simp [unmarked items rfl]
    · rfl

/-- Whether data stand for a group: an object, with a list of elements if it has any blocks. -/
def Group.StandsFor (value : Json) (group : Group) : Prop :=
  ∃ members, value = .object members ∧ group.fields = Fields.remove members blocksKey ∧
    (Fields.get? members blocksKey = none ∧ group.blocks = [] ∨
      ∃ items, Fields.get? members blocksKey = some (.array items) ∧
        List.Forall₂ Content.StandsFor items group.blocks)

theorem Group.read_iff {path : Path} {value : Json} {group : Group} :
    Group.read path value = .ok group ↔ Group.StandsFor value group := by
  rw [Group.read.eq_def]
  constructor
  · intro h
    split at h
    · next members =>
      dsimp only at h
      split at h
      · next absent =>
        cases h
        exact ⟨members, rfl, rfl, .inl ⟨absent, rfl⟩⟩
      · next items found =>
        split at h
        · next blocks read =>
          cases h
          exact ⟨members, rfl, rfl, .inr ⟨items, found, readElements_iff.mp read⟩⟩
        · cases h
      · cases h
    · cases h
  · obtain ⟨fields, blocks⟩ := group
    rintro ⟨members, rfl, rfl, ⟨absent, rfl⟩ | ⟨items, found, read⟩⟩
    · simp only [absent]
    · simp only [found, readElements_iff.mpr read]

theorem Group.readItems_iff {path : Path} {index : Nat} {values : List Json}
    {groups : List Group} :
    Group.readItems path index values = .ok groups ↔
      List.Forall₂ Group.StandsFor values groups := by
  induction values generalizing index groups with
  | nil =>
    rw [readItems]
    constructor
    · rintro ⟨⟩
      exact .nil
    · rintro ⟨⟩
      rfl
  | cons value values ih =>
    rw [readItems]
    constructor
    · intro h
      split at h
      · cases h
      · next group first =>
        split at h
        · cases h
        · next others rest =>
          cases h
          exact .cons (read_iff.mp first) (ih.mp rest)
    · rintro (_ | ⟨first, rest⟩)
      rw [read_iff.mpr first]
      simp only [ih.mpr rest]

theorem Group.readList_iff {path : Path} {value : Json} {groups : List Group} :
    Group.readList path value = .ok groups ↔
      ∃ items, value = .array items ∧ List.Forall₂ Group.StandsFor items groups := by
  rw [readList.eq_def]
  constructor
  · intro h
    split at h
    · next items => exact ⟨items, rfl, readItems_iff.mp h⟩
    · cases h
  · rintro ⟨items, rfl, read⟩
    exact readItems_iff.mpr read

/-! ## What the import takes -/

def Grouping.claims (grouping : Option Grouping) (key : String) : Bool :=
  (grouping.filter fun grouping => grouping.optionKey = key).isSome

mutual

/-- The elements that the import takes: those whose options it takes and whose
children it takes. -/
inductive Importable (settings : ImportSettings) : Element → Prop
  | intro (element : Element)
      (options : ∀ entry ∈ element.options,
        Admitted settings (Grouping.of? (element.nodeName settings)) entry.1 entry.2)
      (children : ∀ child ∈ element.children, Importable settings child) :
      Importable settings element

/-- The values that the import takes for an option of a component. -/
inductive Admitted (settings : ImportSettings) : Option Grouping → String → Json → Prop
  | groups {grouping : Option Grouping} {key : String} {items : List Json}
      (claimed : Grouping.claims grouping key = true)
      (each : ∀ item ∈ items, AdmittedGroup settings item) :
      Admitted settings grouping key (.array items)
  | slot {grouping : Option Grouping} {key : String} {items : List Json}
      (free : Grouping.claims grouping key = false) (marked : items.any isElement = true)
      (each : ∀ item ∈ items, AdmittedElement settings item) :
      Admitted settings grouping key (.array items)
  | plain {grouping : Option Grouping} {key : String} {value : Json}
      (free : Grouping.claims grouping key = false) (unmarked : IsPlain value) :
      Admitted settings grouping key value

inductive AdmittedGroup (settings : ImportSettings) : Json → Prop
  | bare {members : List (String × Json)}
      (absent : Fields.get? members Group.blocksKey = none) :
      AdmittedGroup settings (.object members)
  | filled {members : List (String × Json)} {items : List Json}
      (found : Fields.get? members Group.blocksKey = some (.array items))
      (each : ∀ item ∈ items, AdmittedElement settings item) :
      AdmittedGroup settings (.object members)

inductive AdmittedElement (settings : ImportSettings) : Json → Prop
  | intro {value : Json} {element : Element} (stands : StandsFor value element)
      (importable : Importable settings element) : AdmittedElement settings value

end

variable {settings : ImportSettings}

theorem importable_iff {element : Element} :
    Importable settings element ↔
      (∀ entry ∈ element.options,
        Admitted settings (Grouping.of? (element.nodeName settings)) entry.1 entry.2) ∧
      ∀ child ∈ element.children, Importable settings child :=
  ⟨fun ⟨_, options, children⟩ => ⟨options, children⟩,
    fun ⟨options, children⟩ => .intro element options children⟩

theorem admittedElement_iff {value : Json} :
    AdmittedElement settings value ↔
      ∃ element, StandsFor value element ∧ Importable settings element :=
  ⟨fun ⟨stands, importable⟩ => ⟨_, stands, importable⟩,
    fun ⟨_, stands, importable⟩ => .intro stands importable⟩

theorem admittedElements_iff {values : List Json} :
    (∀ value ∈ values, AdmittedElement settings value) ↔
      ∃ elements, List.Forall₂ StandsFor values elements ∧
        ∀ element ∈ elements, Importable settings element := by
  induction values with
  | nil => exact ⟨fun _ => ⟨[], .nil, by simp⟩, fun _ => by simp⟩
  | cons value values ih =>
    rw [List.forall_mem_cons, ih, admittedElement_iff]
    constructor
    · rintro ⟨⟨element, stands, importable⟩, elements, others, each⟩
      exact ⟨element :: elements, .cons stands others, List.forall_mem_cons.mpr ⟨importable, each⟩⟩
    · rintro ⟨_, _ | ⟨stands, others⟩, each⟩
      obtain ⟨importable, each⟩ := List.forall_mem_cons.mp each
      exact ⟨⟨_, stands, importable⟩, _, others, each⟩

theorem admittedGroup_iff {value : Json} :
    AdmittedGroup settings value ↔
      ∃ group, Group.StandsFor value group ∧ ∀ block ∈ group.blocks, Importable settings block := by
  constructor
  · rintro (absent | ⟨found, each⟩)
    · exact ⟨⟨_, []⟩, ⟨_, rfl, rfl, .inl ⟨absent, rfl⟩⟩, by simp⟩
    · obtain ⟨blocks, stand, importable⟩ := admittedElements_iff.mp each
      exact ⟨⟨_, blocks⟩, ⟨_, rfl, rfl, .inr ⟨_, found, stand⟩⟩, importable⟩
  · rintro ⟨group, ⟨members, rfl, -, ⟨absent, -⟩ | ⟨items, found, stand⟩⟩, importable⟩
    · exact .bare absent
    · exact .filled found (admittedElements_iff.mpr ⟨_, stand, importable⟩)

theorem admittedGroups_iff {values : List Json} :
    (∀ value ∈ values, AdmittedGroup settings value) ↔
      ∃ groups, List.Forall₂ Group.StandsFor values groups ∧
        ∀ group ∈ groups, ∀ block ∈ group.blocks, Importable settings block := by
  induction values with
  | nil => exact ⟨fun _ => ⟨[], .nil, by simp⟩, fun _ => by simp⟩
  | cons value values ih =>
    rw [List.forall_mem_cons, ih, admittedGroup_iff]
    constructor
    · rintro ⟨⟨group, stands, importable⟩, groups, others, each⟩
      exact ⟨group :: groups, .cons stands others, List.forall_mem_cons.mpr ⟨importable, each⟩⟩
    · rintro ⟨_, _ | ⟨stands, others⟩, each⟩
      obtain ⟨importable, each⟩ := List.forall_mem_cons.mp each
      exact ⟨⟨_, stands, importable⟩, _, others, each⟩

theorem Grouping.claims_eq_true_iff {grouping : Option Grouping} {key : String} :
    Grouping.claims grouping key = true ↔
      ∃ found, (grouping.filter fun grouping => grouping.optionKey = key) = some found := by
  rw [claims, Option.isSome_iff_exists]

theorem Grouping.claims_eq_false_iff {grouping : Option Grouping} {key : String} :
    Grouping.claims grouping key = false ↔
      (grouping.filter fun grouping => grouping.optionKey = key) = none := by
  rw [claims, Option.isSome_eq_false_iff, Option.isNone_iff_eq_none]

/-- An option that holds groups is admitted if the groups can be read and imported. -/
theorem admitted_claimed_iff {grouping : Option Grouping} {key : String} {value : Json}
    (claimed : Grouping.claims grouping key = true) (path : Path) :
    Admitted settings grouping key value ↔
      ∃ groups, Group.readList path value = .ok groups ∧
        ∀ group ∈ groups, ∀ block ∈ group.blocks, Importable settings block := by
  simp only [Group.readList_iff]
  constructor
  · rintro (⟨_, each⟩ | ⟨free, _, _⟩ | ⟨free, _⟩)
    · obtain ⟨groups, stand, importable⟩ := admittedGroups_iff.mp each
      exact ⟨groups, ⟨_, rfl, stand⟩, importable⟩
    · simp [claimed] at free
    · simp [claimed] at free
  · rintro ⟨groups, ⟨items, rfl, stand⟩, importable⟩
    exact .groups claimed (admittedGroups_iff.mpr ⟨groups, stand, importable⟩)

/-- Any other option is admitted if it is plain or holds elements that can be imported. -/
theorem admitted_free_iff {grouping : Option Grouping} {key : String} {value : Json}
    (free : Grouping.claims grouping key = false) (path : Path) :
    Admitted settings grouping key value ↔
      (∃ elements, readOption path value = .ok (.slot elements) ∧
        ∀ element ∈ elements, Importable settings element) ∨
      ∃ plain, readOption path value = .ok (.plain plain) := by
  simp only [readOption_slot_iff, readOption_plain_iff]
  constructor
  · rintro (⟨claimed, _⟩ | ⟨_, marked, each⟩ | ⟨_, unmarked⟩)
    · simp [free] at claimed
    · obtain ⟨elements, stand, importable⟩ := admittedElements_iff.mp each
      exact .inl ⟨elements, ⟨_, rfl, marked, stand⟩, importable⟩
    · exact .inr ⟨value, rfl, unmarked⟩
  · rintro (⟨elements, ⟨items, rfl, marked, stand⟩, importable⟩ | ⟨_, rfl, unmarked⟩)
    · exact .slot free marked (admittedElements_iff.mpr ⟨elements, stand, importable⟩)
    · exact .plain free unmarked

/-! ## One option -/

section OneOption

variable {path : Path} {grouping : Option Grouping} {key : String} {value : Json}
  (options : List (String × Json))

theorem importOptions_slot_error (free : Grouping.claims grouping key = false) {failure : Failure}
    (read : readOption (path.field key) value = .error failure) :
    importOptions settings path grouping ((key, value) :: options) = .error failure := by
  rw [importOptions, Grouping.claims_eq_false_iff.mp free]
  dsimp only
  split
  · next again => exact again.symm.trans read |> Except.error.inj |> congrArg _
  · next again => cases again.symm.trans read
  · next again => cases again.symm.trans read

theorem importOptions_slot (free : Grouping.claims grouping key = false) {elements : List Element}
    (read : readOption (path.field key) value = .ok (.slot elements)) :
    importOptions settings path grouping ((key, value) :: options) =
      match importElements settings (path.field key) 0 elements with
      | .error failure => .error failure
      | .ok nodes =>
        match importOptions settings path grouping options with
        | .error failure => .error failure
        | .ok parts => .ok { parts with slots := (key, nodes) :: parts.slots } := by
  rw [importOptions, Grouping.claims_eq_false_iff.mp free]
  dsimp only
  split
  · next again => cases again.symm.trans read
  · next again =>
    cases again.symm.trans read
    rfl
  · next again => cases again.symm.trans read

theorem importOptions_plain (free : Grouping.claims grouping key = false) {plain : Json}
    (read : readOption (path.field key) value = .ok (.plain plain)) :
    importOptions settings path grouping ((key, value) :: options) =
      match importOptions settings path grouping options with
      | .error failure => .error failure
      | .ok parts => .ok { parts with plain := (key, plain) :: parts.plain } := by
  rw [importOptions, Grouping.claims_eq_false_iff.mp free]
  dsimp only
  split
  · next again => cases again.symm.trans read
  · next again => cases again.symm.trans read
  · next again =>
    cases again.symm.trans read
    rfl

variable {found : Grouping}

theorem importOptions_groups_error
    (claim : (grouping.filter fun grouping => grouping.optionKey = key) = some found)
    {failure : Failure} (read : Group.readList (path.field key) value = .error failure) :
    importOptions settings path grouping ((key, value) :: options) = .error failure := by
  rw [importOptions, claim]
  dsimp only
  split
  · next again => exact again.symm.trans read |> Except.error.inj |> congrArg _
  · next again => cases again.symm.trans read

theorem importOptions_groups
    (claim : (grouping.filter fun grouping => grouping.optionKey = key) = some found)
    {groups : List Group} (read : Group.readList (path.field key) value = .ok groups) :
    importOptions settings path grouping ((key, value) :: options) =
      match importGroups settings (path.field key) found 0 groups with
      | .error failure => .error failure
      | .ok nodes =>
        match importOptions settings path grouping options with
        | .error failure => .error failure
        | .ok parts => .ok { parts with groups := nodes ++ parts.groups } := by
  rw [importOptions, claim]
  dsimp only
  split
  · next again => cases again.symm.trans read
  · next again =>
    cases again.symm.trans read
    rfl

end OneOption

/-! ## What can be imported -/

mutual

/-- The import of an element succeeds just if the element is importable, wherever
the element stands. -/
theorem importElement_ok_iff (path : Path) (element : Element) :
    (∃ node, importElement settings path element = .ok node) ↔ Importable settings element := by
  rw [importable_iff]
  constructor
  · rintro ⟨node, h⟩
    rw [importElement] at h
    split at h
    · cases h
    · next parts options =>
      split at h
      · cases h
      · next children rest =>
        exact ⟨(importOptions_ok_iff _ _ element.options).mp ⟨parts, options⟩,
          (importElements_ok_iff _ _ element.children).mp ⟨children, rest⟩⟩
  · rintro ⟨options, children⟩
    obtain ⟨parts, options⟩ := (importOptions_ok_iff ((path.field "component").field "options")
      (Grouping.of? (element.nodeName settings)) element.options).mpr options
    obtain ⟨nodes, children⟩ :=
      (importElements_ok_iff (path.field "children") 0 element.children).mpr children
    rw [importElement, options]
    simp only [children]
    exact ⟨_, rfl⟩
termination_by (element.depth, 1, 0)
decreasing_by
  all_goals first
    | exact before_of_le element.depthMembers_options (by omega)
    | exact before_of_le element.depthList_children (by omega)

theorem importElements_ok_iff (path : Path) (index : Nat) (elements : List Element) :
    (∃ nodes, importElements settings path index elements = .ok nodes) ↔
      ∀ element ∈ elements, Importable settings element := by
  match elements with
  | [] => exact ⟨fun _ => by simp, fun _ => ⟨[], by rw [importElements]⟩⟩
  | element :: elements =>
    rw [List.forall_mem_cons, ← importElement_ok_iff (path.item index) element,
      ← importElements_ok_iff path (index + 1) elements, importElements]
    constructor
    · rintro ⟨nodes, h⟩
      split at h
      · cases h
      · next node first =>
        split at h
        · cases h
        · next others rest => exact ⟨⟨node, first⟩, others, rest⟩
    · rintro ⟨⟨node, first⟩, others, rest⟩
      simp only [first, rest]
      exact ⟨_, rfl⟩
termination_by (Element.depthList elements, 0, elements.length)
decreasing_by
  · exact Prod.Lex.left _ _ (Nat.le_max_left _ _)
  · exact before_of_le (Nat.le_max_right _ _) (.inr ⟨rfl, Nat.lt_succ_self _⟩)

theorem importGroups_ok_iff (path : Path) (grouping : Grouping) (index : Nat)
    (groups : List Group) :
    (∃ nodes, importGroups settings path grouping index groups = .ok nodes) ↔
      ∀ group ∈ groups, ∀ block ∈ group.blocks, Importable settings block := by
  match groups with
  | [] => exact ⟨fun _ => by simp, fun _ => ⟨[], by rw [importGroups]⟩⟩
  | group :: groups =>
    rw [List.forall_mem_cons,
      ← importElements_ok_iff ((path.item index).field Group.blocksKey) 0 group.blocks,
      ← importGroups_ok_iff path grouping (index + 1) groups, importGroups]
    constructor
    · rintro ⟨nodes, h⟩
      split at h
      · cases h
      · next blocks first =>
        split at h
        · cases h
        · next others rest => exact ⟨⟨blocks, first⟩, others, rest⟩
    · rintro ⟨⟨blocks, first⟩, others, rest⟩
      simp only [first, rest]
      exact ⟨_, rfl⟩
termination_by (Group.depthList groups, 0, groups.length)
decreasing_by
  all_goals first
    | exact Prod.Lex.left _ _ (Nat.le_max_left _ _)
    | exact before_of_le (Nat.le_max_right _ _) (.inr ⟨rfl, Nat.lt_succ_self _⟩)

theorem importOptions_ok_iff (path : Path) (grouping : Option Grouping)
    (options : List (String × Json)) :
    (∃ parts, importOptions settings path grouping options = .ok parts) ↔
      ∀ entry ∈ options, Admitted settings grouping entry.1 entry.2 := by
  match options with
  | [] => exact ⟨fun _ => by simp, fun _ => ⟨{}, by rw [importOptions]⟩⟩
  | (key, value) :: options =>
    rw [List.forall_mem_cons, ← importOptions_ok_iff path grouping options]
    cases claim : grouping.filter fun grouping => grouping.optionKey = key with
    | some found =>
      rw [admitted_claimed_iff (Grouping.claims_eq_true_iff.mpr ⟨found, claim⟩) (path.field key)]
      cases read : Group.readList (path.field key) value with
      | error failure =>
        rw [importOptions_groups_error _ claim read]
        simp
      | ok groups =>
        rw [importOptions_groups _ claim read]
        simp only [Except.ok.injEq, exists_eq_left',
          ← importGroups_ok_iff (path.field key) found 0 groups]
        cases importGroups settings (path.field key) found 0 groups with
        | error failure => simp
        | ok nodes => cases importOptions settings path grouping options <;> simp
    | none =>
      have free := Grouping.claims_eq_false_iff.mpr claim
      rw [admitted_free_iff free (path.field key)]
      cases read : readOption (path.field key) value with
      | error failure =>
        rw [importOptions_slot_error _ free read]
        simp
      | ok option =>
        cases option with
        | slot elements =>
          rw [importOptions_slot _ free read]
          simp only [Except.ok.injEq, OptionValue.slot.injEq, exists_eq_left', reduceCtorEq,
            exists_false, or_false, ← importElements_ok_iff (path.field key) 0 elements]
          cases importElements settings (path.field key) 0 elements with
          | error failure => simp
          | ok nodes => cases importOptions settings path grouping options <;> simp
        | plain plain =>
          rw [importOptions_plain _ free read]
          cases importOptions settings path grouping options <;> simp
termination_by (Json.depthMembers options, 0, options.length)
decreasing_by
  all_goals first
    | exact before_of_le (Nat.le_max_right _ _) (.inr ⟨rfl, Nat.lt_succ_self _⟩)
    | exact Prod.Lex.left _ _ (Nat.lt_of_le_of_lt (Group.depth_readList (by assumption))
        (Nat.le_max_left _ _))
    | exact Prod.Lex.left _ _ (Nat.lt_of_le_of_lt (depth_readOption (by assumption))
        (Nat.le_max_left _ _))

end

end BlockLoom.Content
