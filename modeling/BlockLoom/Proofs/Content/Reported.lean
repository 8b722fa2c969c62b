import BlockLoom.Proofs.Content.Offences

/-!
A failed import reports the first offence of the document. Each reader and each part of
the import fails just if there is something wrong with what it is given, and with what is
wrong first; a document without offences is imported.
-/

namespace BlockLoom.Content

variable {settings : ImportSettings}

/-! ## The first failure -/

/-- The failure that an offence is reported as. -/
def Offence.failure (path : Path) (offence : Offence) : Failure :=
  .malformed (path.along offence.steps) offence.defect

theorem Offence.failure_behind (path : Path) (steps : List Step) (offence : Offence) :
    (offence.behind steps).failure path = offence.failure (path.along steps) := by
  rw [failure, failure, behind, Path.along_append]

/-- The failure of what is found at a place, which is its first offence. -/
def failureOf (settings : ImportSettings) (path : Path) (findings : List Finding) :
    Option Failure :=
  (offencesIn settings findings).head?.map (Offence.failure path)

def failure? {α : Type} : Except Failure α → Option Failure
  | .error failure => some failure
  | .ok _ => none

theorem failureOf_nil (path : Path) : failureOf settings path [] = none := by
  rw [failureOf, offencesIn]
  rfl

theorem failureOf_fault (path : Path) (offence : Offence) (findings : List Finding) :
    failureOf settings path (.fault offence :: findings) = some (offence.failure path) := by
  rw [failureOf, offencesIn]
  rfl

theorem failureOf_part (path : Path) (steps : List Step) (element : Element) :
    failureOf settings path [.part steps element] =
      failureOf settings (path.along steps) (element.findings settings) := by
  rw [failureOf, failureOf, offencesIn, offencesIn, List.append_nil, Element.offences,
    List.head?_map, Option.map_map]
  congr 1
  exact funext (Offence.failure_behind path steps)

theorem offencesIn_append (findings others : List Finding) :
    offencesIn settings (findings ++ others) =
      offencesIn settings findings ++ offencesIn settings others := by
  induction findings with
  | nil => rw [offencesIn]; rfl
  | cons finding findings ih =>
    cases finding with
    | fault => rw [List.cons_append, offencesIn, offencesIn, ih, List.cons_append]
    | part => rw [List.cons_append, offencesIn, offencesIn, ih, List.append_assoc]

theorem offencesIn_behind (steps : List Step) (findings : List Finding) :
    offencesIn settings (findings.map (Finding.behind steps)) =
      (offencesIn settings findings).map (Offence.behind steps) := by
  induction findings with
  | nil => rw [List.map_nil, offencesIn]; rfl
  | cons finding findings ih =>
    cases finding with
    | fault => rw [List.map_cons, Finding.behind, offencesIn, offencesIn, ih]; rfl
    | part others element =>
      rw [List.map_cons, Finding.behind, offencesIn, offencesIn, ih, List.map_append, List.map_map]
      congr 2
      funext offence
      simp only [Offence.behind, Function.comp_apply, List.append_assoc]

theorem failureOf_append (path : Path) (findings others : List Finding) :
    failureOf settings path (findings ++ others) =
      (failureOf settings path findings).or (failureOf settings path others) := by
  rw [failureOf, offencesIn_append, List.head?_append, Option.map_or]
  rfl

theorem failureOf_behind (path : Path) (steps : List Step) (findings : List Finding) :
    failureOf settings path (findings.map (Finding.behind steps)) =
      failureOf settings (path.along steps) findings := by
  rw [failureOf, failureOf, offencesIn_behind, List.head?_map, Option.map_map]
  congr 1
  exact funext (Offence.failure_behind path steps)

theorem numbered_cons {α : Type} (findings : α → List Finding) (index : Nat) (item : α)
    (items : List α) :
    numbered findings index (item :: items) =
      (findings item).map (Finding.behind [.item index]) ++
        numbered findings (index + 1) items := by
  rw [numbered, List.zipIdx_cons, List.flatMap_cons]
  rfl

theorem failureOf_numbered_cons {α : Type} (path : Path) (findings : α → List Finding)
    (index : Nat) (item : α) (items : List α) :
    failureOf settings path (numbered findings index (item :: items)) =
      (failureOf settings (path.item index) (findings item)).or
        (failureOf settings path (numbered findings (index + 1) items)) := by
  rw [numbered_cons, failureOf_append, failureOf_behind]
  rfl

theorem numbered_congr {α β : Type} {findings : α → List Finding} {others : β → List Finding}
    {items : List α} {items' : List β}
    (h : List.Forall₂ (fun item item' => findings item = others item') items items')
    (index : Nat) : numbered findings index items = numbered others index items' := by
  induction h generalizing index with
  | nil => rfl
  | cons first _ ih => rw [numbered_cons, numbered_cons, first, ih]

/-! ## Readers -/

theorem failure?_readElement (path : Path) (value : Json) :
    failure? (readElement path value) = failureOf settings path (itemFaults value) := by
  rw [readElement, itemFaults]
  split
  · cases Element.fromJson value with
    | ok element =>
      dsimp only
      rw [failureOf_nil]
      rfl
    | error message =>
      dsimp only
      rw [failureOf_fault]
      rfl
  · rw [failureOf_fault]
    rfl

theorem failure?_readElements (path : Path) (index : Nat) (values : List Json) :
    failure? (readElements path index values) =
      failureOf settings path (numbered itemFaults index values) := by
  induction values generalizing index with
  | nil => exact (failureOf_nil path).symm
  | cons value values ih =>
    rw [failureOf_numbered_cons, ← failure?_readElement, ← ih, readElements]
    cases readElement (path.item index) value with
    | error failure => rfl
    | ok element => cases readElements path (index + 1) values <;> rfl

theorem itemParts_of_standsFor {value : Json} {element : Element} (h : StandsFor value element) :
    itemParts value = [.part [] element] := by
  rw [itemParts, h.2]
  exact if_pos h.1

/-- The elements that were read are those that are found. -/
theorem itemParts_of_read {path : Path} {values : List Json} {elements : List Element}
    (h : readElements path 0 values = .ok elements) :
    numbered itemParts 0 values = childFindings elements :=
  numbered_congr ((readElements_iff.mp h).imp fun _ _ => itemParts_of_standsFor) 0

theorem failureOf_slot_error {path : Path} {value : Json} {failure : Failure}
    (h : readOption path value = .error failure) :
    failureOf settings path (slotFindings value) = some failure := by
  rw [readOption.eq_def] at h
  split at h
  · next items =>
    split at h
    · next marked =>
      split at h
      · cases h
      · next refused =>
        cases h
        have first := @failure?_readElements settings path 0 items
        rw [refused] at first
        rw [slotFindings, if_pos marked, failureOf_append, ← first]
        rfl
    · cases h
  · cases h

theorem failureOf_slot {path : Path} {value : Json} {elements : List Element}
    (h : readOption path value = .ok (.slot elements)) :
    failureOf settings path (slotFindings value) =
      failureOf settings path (childFindings elements) := by
  obtain ⟨items, rfl, marked, stand⟩ := readOption_slot_iff.mp h
  have read := (@readElements_iff path 0 items elements).mpr stand
  have none := @failure?_readElements settings path 0 items
  rw [read] at none
  rw [slotFindings, if_pos marked, failureOf_append, ← none, itemParts_of_read read]
  rfl

theorem slotFindings_plain {path : Path} {value plain : Json}
    (h : readOption path value = .ok (.plain plain)) : slotFindings value = [] := by
  obtain ⟨rfl, unmarked⟩ := readOption_plain_iff.mp h
  rw [slotFindings.eq_def]
  split
  · next items => rw [unmarked items rfl, if_neg Bool.false_ne_true]
  · rfl

theorem failure?_readGroup (path : Path) (value : Json) :
    failure? (Group.read path value) = failureOf settings path (groupFaults value) := by
  rw [Group.read.eq_def, groupFaults.eq_def]
  cases value with
  | object members =>
    dsimp only
    cases Fields.get? members Group.blocksKey with
    | none => exact (failureOf_nil path).symm
    | some blocks =>
      cases blocks with
      | array items =>
        dsimp only
        rw [failureOf_behind]
        change _ = failureOf settings (path.field Group.blocksKey) _
        rw [← failure?_readElements]
        cases readElements (path.field Group.blocksKey) 0 items <;> rfl
      | _ =>
        dsimp only
        rw [failureOf_fault]
        rfl
  | _ =>
    dsimp only
    rw [failureOf_fault]
    rfl

theorem failure?_readGroups (path : Path) (index : Nat) (values : List Json) :
    failure? (Group.readItems path index values) =
      failureOf settings path (numbered groupFaults index values) := by
  induction values generalizing index with
  | nil => exact (failureOf_nil path).symm
  | cons value values ih =>
    rw [failureOf_numbered_cons, ← failure?_readGroup, ← ih, Group.readItems]
    cases Group.read (path.item index) value with
    | error failure => rfl
    | ok group => cases Group.readItems path (index + 1) values <;> rfl

def blockFindings (group : Group) : List Finding :=
  (childFindings group.blocks).map (Finding.behind [.field Group.blocksKey])

theorem groupParts_of_standsFor {value : Json} {group : Group} (h : Group.StandsFor value group) :
    groupParts value = blockFindings group := by
  obtain ⟨members, rfl, -, ⟨absent, bare⟩ | ⟨items, found, stand⟩⟩ := h
  · have none : (Json.object members).get? Group.blocksKey = none := absent
    rw [groupParts, blockFindings, bare, none]
    rfl
  · have held : (Json.object members).get? Group.blocksKey = some (.array items) := found
    rw [groupParts, blockFindings, held, ← itemParts_of_read ((@readElements_iff "" 0 _ _).mpr stand)]

theorem failureOf_groups_error {path : Path} {value : Json} {failure : Failure}
    (h : Group.readList path value = .error failure) :
    failureOf settings path (groupFindings value) = some failure := by
  rw [Group.readList.eq_def] at h
  split at h
  · next items =>
    have first := @failure?_readGroups settings path 0 items
    rw [h] at first
    rw [groupFindings, failureOf_append, ← first]
    rfl
  · next noList =>
    cases h
    rw [groupFindings]
    · exact failureOf_fault path _ []
    · exact noList

theorem failureOf_groups {path : Path} {value : Json} {groups : List Group}
    (h : Group.readList path value = .ok groups) :
    failureOf settings path (groupFindings value) =
      failureOf settings path (numbered blockFindings 0 groups) := by
  obtain ⟨items, rfl, stand⟩ := Group.readList_iff.mp h
  have none := @failure?_readGroups settings path 0 items
  rw [(@Group.readItems_iff path 0 items groups).mpr stand] at none
  rw [groupFindings, failureOf_append, ← none,
    numbered_congr (stand.imp fun _ _ => groupParts_of_standsFor)]
  rfl

/-! ## The import -/

theorem failureOf_options_cons (path : Path) (grouping : Option Grouping)
    (option : String × Json) (options : List (String × Json)) :
    failureOf settings path ((option :: options).flatMap (optionFindings grouping)) =
      (failureOf settings (path.field option.1)
        (if Grouping.claims grouping option.1 then groupFindings option.2
          else slotFindings option.2)).or
        (failureOf settings path (options.flatMap (optionFindings grouping))) := by
  rw [List.flatMap_cons, failureOf_append, optionFindings, failureOf_behind]
  rfl

mutual

/-- The import of an element fails just if something is wrong in it, and with what is
wrong first. -/
theorem failure?_importElement (path : Path) (element : Element) :
    failure? (importElement settings path element) =
      failureOf settings path (element.findings settings) := by
  rw [Element.findings, failureOf_append, failureOf_behind, failureOf_behind]
  change _ = (failureOf settings ((path.field "component").field "options") _).or
    (failureOf settings (path.field "children") _)
  rw [← failure?_importOptions _ _ element.options, childFindings,
    ← failure?_importElements _ 0 element.children, importElement]
  cases importOptions settings ((path.field "component").field "options")
      (Grouping.of? (element.nodeName settings)) element.options with
  | error failure => rfl
  | ok parts => cases importElements settings (path.field "children") 0 element.children <;> rfl
termination_by (element.depth, 1, 0)
decreasing_by
  all_goals first
    | exact before_of_le element.depthMembers_options (by omega)
    | exact before_of_le element.depthList_children (by omega)

theorem failure?_importElements (path : Path) (index : Nat) (elements : List Element) :
    failure? (importElements settings path index elements) =
      failureOf settings path (numbered (fun child => [.part [] child]) index elements) := by
  match elements with
  | [] => rw [importElements]; exact (failureOf_nil path).symm
  | element :: elements =>
    rw [failureOf_numbered_cons, failureOf_part,
      ← failure?_importElements path (index + 1) elements, importElements]
    change _ = (failureOf settings (path.item index) (element.findings settings)).or _
    rw [← failure?_importElement (path.item index) element]
    cases importElement settings (path.item index) element with
    | error failure => rfl
    | ok node => cases importElements settings path (index + 1) elements <;> rfl
termination_by (Element.depthList elements, 0, elements.length)
decreasing_by
  all_goals first
    | exact Prod.Lex.left _ _ (Nat.le_max_left _ _)
    | exact before_of_le (Nat.le_max_right _ _) (.inr ⟨rfl, Nat.lt_succ_self _⟩)

theorem failure?_importGroups (path : Path) (grouping : Grouping) (index : Nat)
    (groups : List Group) :
    failure? (importGroups settings path grouping index groups) =
      failureOf settings path (numbered blockFindings index groups) := by
  match groups with
  | [] => rw [importGroups]; exact (failureOf_nil path).symm
  | group :: groups =>
    rw [failureOf_numbered_cons, blockFindings, failureOf_behind, childFindings,
      ← failure?_importGroups path grouping (index + 1) groups,
      ← failure?_importElements _ 0 group.blocks, importGroups]
    change _ = (failure? (importElements settings ((path.item index).field Group.blocksKey) 0
      group.blocks)).or _
    cases importElements settings ((path.item index).field Group.blocksKey) 0 group.blocks with
    | error failure => rfl
    | ok blocks => cases importGroups settings path grouping (index + 1) groups <;> rfl
termination_by (Group.depthList groups, 0, groups.length)
decreasing_by
  all_goals first
    | exact Prod.Lex.left _ _ (Nat.le_max_left _ _)
    | exact before_of_le (Nat.le_max_right _ _) (.inr ⟨rfl, Nat.lt_succ_self _⟩)

theorem failure?_importOptions (path : Path) (grouping : Option Grouping)
    (options : List (String × Json)) :
    failure? (importOptions settings path grouping options) =
      failureOf settings path (options.flatMap (optionFindings grouping)) := by
  match options with
  | [] => rw [importOptions]; exact (failureOf_nil path).symm
  | (key, value) :: options =>
    have rest := failure?_importOptions path grouping options
    rw [failureOf_options_cons, ← rest]
    cases claim : grouping.filter fun grouping => grouping.optionKey = key with
    | some found =>
      rw [if_pos (Grouping.claims_eq_true_iff.mpr ⟨found, claim⟩)]
      cases read : Group.readList (path.field key) value with
      | error failure =>
        rw [importOptions_groups_error _ claim read, failureOf_groups_error read]
        rfl
      | ok groups =>
        rw [importOptions_groups _ claim read, failureOf_groups read,
          ← failure?_importGroups (path.field key) found 0 groups]
        cases importGroups settings (path.field key) found 0 groups with
        | error failure => rfl
        | ok nodes => cases importOptions settings path grouping options <;> rfl
    | none =>
      have free := Grouping.claims_eq_false_iff.mpr claim
      rw [if_neg (Bool.not_eq_true _ ▸ free)]
      cases read : readOption (path.field key) value with
      | error failure =>
        rw [importOptions_slot_error _ free read, failureOf_slot_error read]
        rfl
      | ok option =>
        cases option with
        | slot elements =>
          rw [importOptions_slot _ free read, failureOf_slot read, childFindings,
            ← failure?_importElements (path.field key) 0 elements]
          cases importElements settings (path.field key) 0 elements with
          | error failure => rfl
          | ok nodes => cases importOptions settings path grouping options <;> rfl
        | plain plain =>
          rw [importOptions_plain _ free read, slotFindings_plain read, failureOf_nil,
            Option.none_or]
          cases importOptions settings path grouping options <;> rfl
termination_by (Json.depthMembers options, 0, options.length)
decreasing_by
  all_goals first
    | exact before_of_le (Nat.le_max_right _ _) (.inr ⟨rfl, Nat.lt_succ_self _⟩)
    | exact Prod.Lex.left _ _ (Nat.lt_of_le_of_lt (Group.depth_readList (by assumption))
        (Nat.le_max_left _ _))
    | exact Prod.Lex.left _ _ (Nat.lt_of_le_of_lt (depth_readOption (by assumption))
        (Nat.le_max_left _ _))

end

/-! ## Well-formed options -/

/-- What an option must hold. Where groups are expected, it is a list of objects, each
with a list of elements if it has any blocks. Anywhere else, a list with an element in it
holds elements only. -/
def WellFormed (grouping : Option Grouping) (option : String × Json) : Prop :=
  if Grouping.claims grouping option.1 then
    ∃ items, option.2 = .array items ∧ ∀ item ∈ items, ∃ members, item = .object members ∧
      ∀ blocks, Fields.get? members Group.blocksKey = some blocks →
        ∃ inner, blocks = .array inner ∧ ∀ block ∈ inner, ∃ element, StandsFor block element
  else
    ∀ items, option.2 = .array items → (∃ item ∈ items, isElement item = true) →
      ∀ item ∈ items, ∃ element, StandsFor item element

/-- Whether all options of an element are well-formed. -/
def Element.WellFormed (settings : ImportSettings) (element : Element) : Prop :=
  ∀ option ∈ element.options, Content.WellFormed (Grouping.of? (element.nodeName settings)) option

theorem exists_forall₂_iff {α β : Type} {related : α → β → Prop} {items : List α} :
    (∃ others, List.Forall₂ related items others) ↔
      ∀ item ∈ items, ∃ other, related item other := by
  induction items with
  | nil => exact ⟨fun _ => nofun, fun _ => ⟨[], .nil⟩⟩
  | cons item items ih =>
    rw [List.forall_mem_cons, ← ih]
    constructor
    · rintro ⟨_, _ | ⟨first, rest⟩⟩
      exact ⟨⟨_, first⟩, _, rest⟩
    · rintro ⟨⟨_, first⟩, _, rest⟩
      exact ⟨_, .cons first rest⟩

theorem Group.exists_standsFor_iff {value : Json} :
    (∃ group, Group.StandsFor value group) ↔ ∃ members, value = .object members ∧
      ∀ blocks, Fields.get? members blocksKey = some blocks →
        ∃ inner, blocks = .array inner ∧
          ∀ block ∈ inner, ∃ element, Content.StandsFor block element := by
  constructor
  · rintro ⟨group, members, rfl, -, ⟨absent, -⟩ | ⟨items, found, stand⟩⟩
    · exact ⟨members, rfl, fun blocks present => nomatch absent.symm.trans present⟩
    · refine ⟨members, rfl, fun blocks present => ?_⟩
      cases found.symm.trans present
      exact ⟨items, rfl, exists_forall₂_iff.mp ⟨_, stand⟩⟩
  · rintro ⟨members, rfl, each⟩
    cases found : Fields.get? members blocksKey with
    | none => exact ⟨⟨_, []⟩, members, rfl, rfl, .inl ⟨found, rfl⟩⟩
    | some blocks =>
      obtain ⟨inner, rfl, stand⟩ := each blocks found
      obtain ⟨elements, stand⟩ := exists_forall₂_iff.mpr stand
      exact ⟨⟨_, elements⟩, members, rfl, rfl, .inr ⟨inner, found, stand⟩⟩

theorem wellFormed_claimed_iff {grouping : Option Grouping} {key : String} {value : Json}
    (claimed : Grouping.claims grouping key = true) (path : Path) :
    WellFormed grouping (key, value) ↔ ∃ groups, Group.readList path value = .ok groups := by
  rw [WellFormed, if_pos claimed]
  simp only [← Group.exists_standsFor_iff]
  simp only [Group.readList_iff, ← exists_forall₂_iff]
  exact ⟨fun ⟨items, same, groups, stand⟩ => ⟨groups, items, same, stand⟩,
    fun ⟨groups, items, same, stand⟩ => ⟨items, same, groups, stand⟩⟩

theorem wellFormed_free_iff {grouping : Option Grouping} {key : String} {value : Json}
    (free : Grouping.claims grouping key = false) (path : Path) :
    WellFormed grouping (key, value) ↔
      (∃ elements, readOption path value = .ok (.slot elements)) ∨
      ∃ plain, readOption path value = .ok (.plain plain) := by
  rw [WellFormed, if_neg (by simp [free])]
  simp only [readOption_slot_iff, readOption_plain_iff, ← exists_forall₂_iff]
  constructor
  · intro each
    by_cases slot : ∃ items, value = .array items ∧ items.any isElement = true
    · obtain ⟨items, rfl, marked⟩ := slot
      obtain ⟨elements, stand⟩ := each items rfl (List.any_eq_true.mp marked)
      exact .inl ⟨elements, items, rfl, marked, stand⟩
    · refine .inr ⟨value, rfl, fun items same => ?_⟩
      exact Bool.eq_false_iff.mpr fun marked => slot ⟨items, same, marked⟩
  · rintro (⟨elements, items, rfl, -, stand⟩ | ⟨_, rfl, plain⟩) others same marked
    · cases same
      exact ⟨elements, stand⟩
    · cases (plain others same).symm.trans (List.any_eq_true.mpr marked)

theorem admitted_iff {grouping : Option Grouping} {key : String} {value : Json} :
    Admitted settings grouping key value ↔ WellFormed grouping (key, value) ∧
      ∀ element, Holds grouping (key, value) element → Importable settings element := by
  cases claim : Grouping.claims grouping key with
  | true =>
    rw [admitted_claimed_iff claim "", wellFormed_claimed_iff claim ""]
    constructor
    · rintro ⟨groups, read, importable⟩
      exact ⟨⟨groups, read⟩, (forall_holds_block_iff claim read).mpr importable⟩
    · rintro ⟨⟨groups, read⟩, importable⟩
      exact ⟨groups, read, (forall_holds_block_iff claim read).mp importable⟩
  | false =>
    rw [admitted_free_iff claim "", wellFormed_free_iff claim ""]
    constructor
    · rintro (⟨elements, read, importable⟩ | ⟨plain, read⟩)
      · exact ⟨.inl ⟨elements, read⟩, (forall_holds_slot_iff claim read).mpr importable⟩
      · exact ⟨.inr ⟨plain, read⟩,
          fun element held => absurd held (not_holds_plain claim read element)⟩
    · rintro ⟨⟨elements, read⟩ | ⟨plain, read⟩, importable⟩
      · exact .inl ⟨elements, read, (forall_holds_slot_iff claim read).mp importable⟩
      · exact .inr ⟨plain, read⟩

theorem Holds.depth_lt {grouping : Option Grouping} {option : String × Json} {element : Element}
    (h : Holds grouping option element) : element.depth < option.2.depth := by
  cases h with
  | slot _ _ member stands =>
    exact Nat.lt_of_le_of_lt (Element.depth_fromJson stands.2) (Json.depth_lt_depthItems member)
  | block _ member stands inside =>
    have within := Group.depth_read ((@Group.read_iff "" _ _).mpr stands)
    have entered := Element.depth_lt_depthList inside
    exact Nat.lt_trans (Nat.lt_of_lt_of_le entered within) (Json.depth_lt_depthItems member)

/-- The elements that the import takes are those with well-formed options all through. -/
theorem importable_iff_wellFormed {element : Element} :
    Importable settings element ↔ element.All settings (Element.WellFormed settings) := by
  constructor
  · intro importable part reached
    induction reached with
    | self element =>
      intro option member
      exact (admitted_iff.mp ((importable_iff.mp importable).1 option member)).1
    | child member _ ih => exact ih ((importable_iff.mp importable).2 _ member)
    | option member held _ ih =>
      exact ih ((admitted_iff.mp ((importable_iff.mp importable).1 _ member)).2 _ held)
  · generalize bound : element.depth = depth
    induction depth using Nat.strongRecOn generalizing element with
    | _ depth ih =>
      subst bound
      intro all
      obtain ⟨here, children, options⟩ := Element.all_iff.mp all
      refine importable_iff.mpr ⟨fun option member => admitted_iff.mpr ⟨here option member, ?_⟩, ?_⟩
      · intro part held
        have inside := Nat.lt_trans held.depth_lt (Json.depth_lt_depthMembers member)
        exact ih _ (Nat.lt_of_lt_of_le inside element.depthMembers_options) rfl
          (options option member part held)
      · intro child member
        have inside := Element.depth_lt_depthList member
        exact ih _ (Nat.lt_of_lt_of_le inside element.depthList_children) rfl
          (children child member)

/-! ## Documents -/

theorem failure?_eq_some_iff {α : Type} {result : Except Failure α} {failure : Failure} :
    failure? result = some failure ↔ result = .error failure := by
  cases result <;> simp [failure?]

theorem toComponent_error_iff {content : Content} {failure : Failure} :
    toComponent settings content = .error failure ↔
      importElements settings "blocks" 0 content.blocks = .error failure := by
  rw [toComponent]
  split
  · next refused => rw [refused]; simp
  · next children imported => rw [imported]; simp

theorem head?_offences (settings : ImportSettings) (content : Content) :
    (content.offences settings).head?.map
        (fun offence => Failure.malformed (.of offence.steps) offence.defect) =
      failureOf settings "blocks" (childFindings content.blocks) := by
  rw [Content.offences, offencesIn_behind, failureOf, List.head?_map, Option.map_map]
  rfl

/-- The import of a document fails just if an element that is reached in it has an option
that is not well-formed. The failure names the first offence of the document, and every
offence stands where its steps lead. -/
theorem toComponent_reports_first (settings : ImportSettings) (content : Content) :
    ((∃ failure, toComponent settings content = .error failure) ↔
      ∃ block ∈ content.blocks, ∃ part, block.Reaches settings part ∧
        ∃ option ∈ part.options,
          ¬WellFormed (Grouping.of? (part.nodeName settings)) option) ∧
    ∀ failure, toComponent settings content = .error failure →
      ∃ offence, (content.offences settings).head? = some offence ∧
        failure = .malformed (.of offence.steps) offence.defect ∧
        (Site.document content).Leads offence.steps (.data offence.value) ∧
        Offends offence.value offence.defect := by
  constructor
  · simp only [toComponent_error_iff]
    have fails : (∃ failure, importElements settings "blocks" 0 content.blocks = .error failure) ↔
        ¬∃ nodes, importElements settings "blocks" 0 content.blocks = .ok nodes := by
      cases importElements settings "blocks" 0 content.blocks <;> simp
    rw [fails, importElements_ok_iff]
    simp only [importable_iff_wellFormed, Element.All, Element.WellFormed, not_forall, exists_prop]
  · intro failure failed
    have reported := head?_offences settings content
    rw [childFindings, ← failure?_importElements,
      failure?_eq_some_iff.mpr (toComponent_error_iff.mp failed)] at reported
    obtain ⟨offence, first, rfl⟩ := Option.map_eq_some_iff.mp reported
    have found := content.offences_at settings offence (List.mem_of_mem_head? first)
    exact ⟨offence, first, rfl, found.1, found.2⟩

/-- Columns whose second group has blocks that are no list, before a child with a further
offence. -/
def unevenGroups : Element :=
  { component :=
      some
        { name := "Columns"
          options :=
            [("gap", .array [.string "1"]),
              ("columns", .array [.object [], .object [("blocks", .string "")]])] }
    children := [{ component := some { name := "Columns", options := [("columns", .null)] } }] }

def unevenColumns : Content :=
  { blocks := [{ tagName := some "section", children := [unevenGroups] }] }

def unevenPlace : Path := ((Path.item "blocks" 0).field "children").item 0

def unevenFailure : Failure :=
  .malformed "blocks[0].children[0].component.options.columns[1].blocks" .listExpected

theorem toComponent_unevenColumns : toComponent {} unevenColumns = .error unevenFailure := by
  have shown : ((((unevenPlace.field "component").field "options").field "columns").item 1).field
      "blocks" = "blocks[0].children[0].component.options.columns[1].blocks" := by
    decide +kernel
  have plain : readOption (((unevenPlace.field "component").field "options").field "gap")
      (.array [.string "1"]) = .ok (.plain (.array [.string "1"])) := rfl
  have groups : Group.readList (((unevenPlace.field "component").field "options").field "columns")
      (.array [.object [], .object [("blocks", .string "")]]) = .error unevenFailure := by
    rw [unevenFailure, ← shown]
    rfl
  have options : importOptions {} ((unevenPlace.field "component").field "options")
      (Grouping.of? (unevenGroups.nodeName {})) unevenGroups.options = .error unevenFailure := by
    change importOptions {} _ (some .columns) [_, _] = _
    rw [importOptions_plain _ rfl plain, importOptions_groups_error _ rfl groups]
  have columns : importElement {} unevenPlace unevenGroups = .error unevenFailure := by
    rw [importElement, options]
  have children : importElements {} ((Path.item "blocks" 0).field "children") 0 [unevenGroups] =
      .error unevenFailure := by
    rw [importElements, ← unevenPlace, columns]
  have noOptions (path : Path) (grouping : Option Grouping) :
      importOptions {} path grouping [] = .ok {} := by
    rw [importOptions]
  rw [toComponent, unevenColumns, importElements, importElement]
  dsimp only [Element.options, Option.map_none, Option.getD_none]
  rw [noOptions, children]

theorem unevenColumns_reported :
    toComponent {} unevenColumns = .error unevenFailure ∧
      ∃ offence, (unevenColumns.offences {}).head? = some offence ∧
        unevenFailure = .malformed (.of offence.steps) offence.defect ∧
        (Site.document unevenColumns).Leads offence.steps (.data offence.value) ∧
        Offends offence.value offence.defect :=
  ⟨toComponent_unevenColumns,
    (toComponent_reports_first {} unevenColumns).2 _ toComponent_unevenColumns⟩

end BlockLoom.Content
