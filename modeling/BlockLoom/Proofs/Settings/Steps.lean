import BlockLoom.Proofs.Settings.Layers

/-!
Settings loaded in steps. Each step adds a file or gives a single value, in any order. What
results depends only on the files among themselves and on the single values among themselves:
each setting is the last value given by its name, or else that of the last file that gives it
one, or else the default. A file that is missing where it may be changes nothing, and one that
has to be there stops the loading wherever it stands.

Names are compared without regard to case, and a single value may stand for a whole section, so
that a value can reach a setting under another name than the setting's own. Between values under
different names there is no order, and in that case it is only known that one of them counts.
-/

namespace BlockLoom.Settings

/-- A step of loading: a file that has to be there, a file that may be missing, or a single
value. A file comes with its text, which is none if there is no such file. -/
inductive Step where
  | file (text : Option String)
  | optionalFile (text : Option String)
  | override (name : String) (value : Value)

namespace Step

/-- Whether a step gives a single value. -/
def isOverride : Step → Bool
  | .override .. => true
  | .file _ | .optionalFile _ => false

/-- The single value that a step gives, with its name. -/
def override? : Step → Option (String × Value)
  | .override name value => some (name, value)
  | .file _ | .optionalFile _ => none

def files : Step → List (Except Problem (Fields Value))
  | .file text => (Loader.new.withFile text).files
  | .optionalFile text => (Loader.new.withOptionalFile text).files
  | .override .. => []

def layer? : Step → Option (Fields Value)
  | .file text | .optionalFile text => text.bind Toml.parse?
  | .override .. => none

end Step

/-- Takes one step. -/
def Loader.take (loader : Loader) : Step → Except Problem Loader
  | .file text => .ok (loader.withFile text)
  | .optionalFile text => .ok (loader.withOptionalFile text)
  | .override name value => loader.setOverride name value

/-- The settings that result from steps, taken one after another. -/
def load (steps : List Step) : Except Problem Settings :=
  steps.foldlM Loader.take Loader.new >>= Loader.build

/-! ## What the steps add up to -/

/-- The values in the files of steps, in order. -/
def layersOf (steps : List Step) : List (Fields Value) :=
  steps.filterMap Step.layer?

/-- The single values of steps: for each name the last one that is given. -/
def overridesOf (steps : List Step) : Fields Value :=
  Fields.ofEntries (steps.filterMap Step.override?)

/-- Whether all single values are given by names that are well formed. -/
def areNamed (steps : List Step) : Bool :=
  (steps.filterMap Step.override?).all fun entry => (nameKeys? entry.1).isSome

theorem addFile_files (loader : Loader) (required : Bool) (text : Option String) :
    (loader.addFile required text).files =
      loader.files ++ (Loader.new.addFile required text).files := by
  cases text with
  | some text => rfl
  | none =>
    cases required with
    | true => rfl
    | false => exact (List.append_nil _).symm

theorem addFile_eq (loader : Loader) (required : Bool) (text : Option String) :
    loader.addFile required text =
      ⟨loader.files ++ (Loader.new.addFile required text).files, loader.overrides⟩ := by
  rw [← addFile_files, ← addFile_overrides loader required text]

theorem filterMap_override (name : String) (value : Value) (steps : List Step) :
    (Step.override name value :: steps).filterMap Step.override? =
      (name, value) :: steps.filterMap Step.override? := rfl

theorem foldlM_take (steps : List Step) (loader : Loader) :
    steps.foldlM Loader.take loader =
      if areNamed steps then
        .ok ⟨loader.files ++ steps.flatMap Step.files,
          Fields.merge loader.overrides (steps.filterMap Step.override?)⟩
      else .error .malformedName := by
  induction steps generalizing loader with
  | nil => simp [areNamed, Fields.merge, pure, Except.pure]
  | cons step steps ih =>
    rw [List.foldlM_cons]
    cases step with
    | file text =>
      change steps.foldlM Loader.take (loader.addFile true text) = _
      rw [ih, addFile_eq, List.append_assoc]
      rfl
    | optionalFile text =>
      change steps.foldlM Loader.take (loader.addFile false text) = _
      rw [ih, addFile_eq, List.append_assoc]
      rfl
    | override name value =>
      change (loader.setOverride name value >>= fun loader => steps.foldlM Loader.take loader) = _
      rw [Loader.setOverride, areNamed, filterMap_override, List.all_cons]
      cases named : nameKeys? name with
      | none => rfl
      | some keys => exact ih _

/-- Loading sees the files and the single values, but not which of them came before which. -/
theorem load_eq (steps : List Step) :
    load steps =
      if areNamed steps then Loader.build ⟨steps.flatMap Step.files, overridesOf steps⟩
      else .error .malformedName := by
  rw [load, foldlM_take]
  split <;> rfl

/-- The settings that may result from steps. Single values under different names are written in
any order, of which loading takes the one in which the names came up first. -/
def MayLoad (steps : List Step) (settings : Settings) : Prop :=
  areNamed steps = true ∧ ∃ overrides : Fields Value, overrides.Perm (overridesOf steps) ∧
    Loader.build ⟨steps.flatMap Step.files, overrides⟩ = .ok settings

theorem mayLoad_of_load {steps : List Step} {settings : Settings} (h : load steps = .ok settings) :
    MayLoad steps settings := by
  rw [load_eq] at h
  split at h
  · next named => exact ⟨named, overridesOf steps, .refl _, h⟩
  · cases h

/-- Steps that load leave nothing wrong with any file. -/
theorem MayLoad.read {steps : List Step} {settings : Settings} (h : MayLoad steps settings) :
    ∃ (layers : List (Fields Value)) (overrides : Fields Value),
      steps.flatMap Step.files = layers.map .ok ∧ overrides.Perm (overridesOf steps) ∧
        ofValues (applyLayer (layers.foldl applyLayer (toValues standard)) overrides) =
          .ok settings := by
  obtain ⟨-, overrides, order, built⟩ := h
  obtain ⟨layers, files, read⟩ := build_eq_ok built
  exact ⟨layers, overrides, files, order, read⟩

/-! ## The order of files and single values -/

theorem files_filter (steps : List Step) :
    (steps.filter fun step => !step.isOverride).flatMap Step.files = steps.flatMap Step.files := by
  induction steps with
  | nil => rfl
  | cons step steps ih =>
    cases step with
    | file text => exact congrArg (Step.files (.file text) ++ ·) ih
    | optionalFile text => exact congrArg (Step.files (.optionalFile text) ++ ·) ih
    | override name value => exact ih

theorem overrides_filter (steps : List Step) :
    (steps.filter Step.isOverride).filterMap Step.override? = steps.filterMap Step.override? := by
  induction steps with
  | nil => rfl
  | cons step steps ih =>
    cases step with
    | file text => exact ih
    | optionalFile text => exact ih
    | override name value => exact congrArg ((name, value) :: ·) ih

/-- Steps with the same files in order and the same single values in order load the same,
however the two stand among each other. -/
theorem load_congr {steps others : List Step}
    (files : (steps.filter fun step => !step.isOverride) =
      others.filter fun step => !step.isOverride)
    (overrides : steps.filter Step.isOverride = others.filter Step.isOverride) :
    load steps = load others := by
  rw [load_eq, load_eq, areNamed, areNamed, overridesOf, overridesOf, ← files_filter steps,
    ← files_filter others, ← overrides_filter steps, ← overrides_filter others, files, overrides]

/-- A file that may be missing and is missing changes nothing. -/
theorem load_missing_optional (before after : List Step) :
    load (before ++ .optionalFile none :: after) = load (before ++ after) := by
  have files : (before ++ .optionalFile none :: after).flatMap Step.files =
      (before ++ after).flatMap Step.files := by
    rw [List.flatMap_append, List.flatMap_append]
    rfl
  have overrides : (before ++ .optionalFile none :: after).filterMap Step.override? =
      (before ++ after).filterMap Step.override? := by
    rw [List.filterMap_append, List.filterMap_append]
    rfl
  rw [load_eq, load_eq, areNamed, areNamed, overridesOf, overridesOf, files, overrides]

theorem load_missing_required (before after : List Step) :
    ∃ problem, load (before ++ .file none :: after) = .error problem := by
  cases loaded : load (before ++ .file none :: after) with
  | error problem => exact ⟨problem, rfl⟩
  | ok settings =>
    obtain ⟨layers, -, files, -⟩ := (mayLoad_of_load loaded).read
    have missing : Except.error Problem.missingFile ∈
        (before ++ .file none :: after).flatMap Step.files :=
      List.mem_flatMap.mpr ⟨.file none, by simp, List.mem_singleton_self _⟩
    rw [files] at missing
    obtain ⟨_, _, wrong⟩ := List.mem_map.mp missing
    cases wrong

/-! ## The value of a setting -/

/-- Every setting obeys a rule about how its values are read, what its default is and what it
is. -/
structure Obeys (rule : ∀ {α : Type}, Setting → (Value → Option α) → α → α → Prop)
    (settings : Settings) : Prop where
  componentName :
    rule .componentName Value.text? standard.reading.componentName settings.reading.componentName
  placeholderTag :
    rule .placeholderTag Value.text? standard.reading.placeholderTag
      settings.reading.placeholderTag
  emitEmptyCode :
    rule .emitEmptyCode Value.truth? standard.writing.emitEmptyCode
      settings.writing.emitEmptyCode
  pretty : rule .pretty Value.truth? standard.writing.pretty settings.writing.pretty

def Setting.name (setting : Setting) : String :=
  setting.part ++ "." ++ setting.key

/-- The last single value that steps give by a name. -/
def lastOverride? (name : String) : List Step → Option Value
  | [] => none
  | .override other value :: later =>
    (lastOverride? name later).or (if other = name then some value else none)
  | _ :: later => lastOverride? name later

/-- What a setting is by steps: the last single value that is given by its name, or else the
value of the last file that gives it one, or else the default. -/
def Setting.ranked? {α : Type} (setting : Setting) (convert : Value → Option α) (default : α)
    (steps : List Step) : Option α :=
  match (plain (lastOverride? setting.name steps)).or (setting.lastGiven? (layersOf steps)) with
  | some value => convert value
  | none => some default

/-- No single value reaches a setting under another name than its own, such as that of its section
or the same name in capitals. -/
def Setting.OwnName (setting : Setting) (steps : List Step) : Prop :=
  ∀ entry ∈ steps.filterMap Step.override?,
    (setting.given? [entry]).isSome → entry.1 = setting.name

/-- A setting is what some single value makes it, of which the last one counts for each name,
or else what the files say. -/
def Setting.Traced {α : Type} (setting : Setting) (convert : Value → Option α) (default : α)
    (steps : List Step) (value : α) : Prop :=
  (∃ entry ∈ overridesOf steps, ∃ given, setting.given? [entry] = some given ∧
    convert given = some value) ∨
  (∀ entry ∈ overridesOf steps, setting.given? [entry] = none) ∧
    setting.chosen? convert default (layersOf steps) = some value

theorem get?_overridesOf (steps : List Step) (name : String) :
    Fields.get? (overridesOf steps) name = lastOverride? name steps := by
  rw [overridesOf]
  induction steps with
  | nil => rfl
  | cons step steps ih =>
    cases step with
    | file text => exact ih
    | optionalFile text => exact ih
    | override other value =>
      rw [filterMap_override, Fields.get?_ofEntries_cons, ih]
      rfl

/-- The files of steps in which nothing is wrong are those with values. -/
theorem layersOf_eq {steps : List Step} {layers : List (Fields Value)}
    (h : steps.flatMap Step.files = layers.map .ok) : layersOf steps = layers := by
  have added {required : Bool} {text : Option String} {values : List (Fields Value)}
      (h : (Loader.new.addFile required text).files = values.map .ok) :
      (text.bind Toml.parse?).toList = values := by
    obtain ⟨earlier, none, rfl⟩ := addFile_ok h
    rw [List.map_eq_nil_iff.mp none.symm, List.nil_append]
  have single (step : Step) {values : List (Fields Value)}
      (h : step.files = values.map .ok) : step.layer?.toList = values := by
    cases step with
    | file text => exact added h
    | optionalFile text => exact added h
    | override name value => exact (List.map_eq_nil_iff.mp h.symm).symm
  induction steps generalizing layers with
  | nil => exact (List.map_eq_nil_iff.mp h.symm).symm
  | cons step steps ih =>
    rw [List.flatMap_cons] at h
    obtain ⟨first, later, rfl, here, others⟩ := List.map_eq_append_iff.mp h.symm
    rw [← single step here.symm, ← ih others.symm, layersOf, List.filterMap_cons]
    cases step.layer? <;> rfl

theorem applyLayer_singles (stored layer : Fields Value) :
    applyLayer stored layer = (layer.map fun entry => [entry]).foldl applyLayer stored := by
  rw [List.foldl_map]
  rfl

theorem lastGiven?_eq_none_iff {setting : Setting} {layers : List (Fields Value)} :
    setting.lastGiven? layers = none ↔ ∀ layer ∈ layers, setting.given? layer = none := by
  induction layers with
  | nil => simp [Setting.lastGiven?]
  | cons layer later ih => simp [Setting.lastGiven?, ih, and_comm]

theorem exists_given? {setting : Setting} {layers : List (Fields Value)} {value : Value}
    (h : setting.lastGiven? layers = some value) :
    ∃ layer ∈ layers, setting.given? layer = some value := by
  induction layers with
  | nil => cases h
  | cons layer later ih =>
    rcases Option.or_eq_some_iff.mp h with found | ⟨-, here⟩
    · obtain ⟨other, mem, given⟩ := ih found
      exact ⟨other, List.mem_cons_of_mem _ mem, given⟩
    · exact ⟨layer, List.mem_cons_self, here⟩

/-- What is chosen last among single values and before them among files. -/
theorem traced_of_chosen {α : Type} {setting : Setting} {convert : Value → Option α}
    {default value : α} {steps : List Step} {overrides : Fields Value}
    (order : overrides.Perm (overridesOf steps))
    (h : setting.chosen? convert default
      (layersOf steps ++ overrides.map fun entry => [entry]) = some value) :
    setting.Traced convert default steps value := by
  rw [Setting.chosen?, lastGiven?_append] at h
  cases last : setting.lastGiven? (overrides.map fun entry => [entry]) with
  | some given =>
    rw [last, Option.some_or] at h
    obtain ⟨_, among, given⟩ := exists_given? last
    obtain ⟨entry, mem, rfl⟩ := List.mem_map.mp among
    exact .inl ⟨entry, order.mem_iff.mp mem, _, given, h⟩
  | none =>
    rw [last, Option.none_or] at h
    refine .inr ⟨fun entry mem => ?_, h⟩
    exact lastGiven?_eq_none_iff.mp last _ (List.mem_map_of_mem (order.mem_iff.mpr mem))

theorem MayLoad.traced {steps : List Step} {settings : Settings} (h : MayLoad steps settings) :
    Obeys (fun setting convert default value => setting.Traced convert default steps value)
      settings := by
  obtain ⟨layers, overrides, files, order, read⟩ := h.read
  rw [applyLayer_singles, ← List.foldl_append, ← layersOf_eq files] at read
  obtain ⟨name, tag, emit, indent⟩ := layered_of_ofValues read
  exact ⟨traced_of_chosen order name, traced_of_chosen order tag, traced_of_chosen order emit,
    traced_of_chosen order indent⟩

/-! ## Own names -/

structure Setting.Named (setting : Setting) : Prop where
  keys : nameKeys? setting.name = some [setting.part, setting.key]
  part : foldCase setting.part = setting.part
  key : foldCase setting.key = setting.key

theorem Setting.Named.given? {setting : Setting} (h : setting.Named) (value : Value) :
    setting.given? [(setting.name, value)] = plain (some value) := by
  have written : applyLayer [] [(setting.name, value)] =
      [(setting.part, .table (overlayAt [] setting.key value))] := by
    change overlayPath [] ((nameKeys? setting.name).getD _) value = _
    rw [h.keys, Option.getD_some, overlayPath_cons, h.part, overlayPath, h.key]
    rfl
  rw [Setting.given?, Setting.held?, written, Fields.get?_cons_self, Option.bind_some]
  change plain (Fields.get? (overlayAt [] setting.key value) setting.key) = _
  rw [get?_overlayAt, if_pos rfl]
  cases value with
  | table entries =>
    rw [overlaid]
    split <;> rfl
  | _ => rfl

theorem Setting.Traced.ranked {α : Type} {setting : Setting} {convert : Value → Option α}
    {default value : α} {steps : List Step} (h : setting.Traced convert default steps value)
    (named : setting.Named) (own : setting.OwnName steps) :
    setting.ranked? convert default steps = some value := by
  have distinct : Fields.Distinct (overridesOf steps) := Fields.distinct_ofEntries _
  rw [Setting.ranked?, ← get?_overridesOf]
  rcases h with ⟨⟨name, last⟩, mem, given, alone, read⟩ | ⟨none, files⟩
  · obtain rfl : name = setting.name := own _ (Fields.mem_ofEntries mem) (by rw [alone]; rfl)
    rw [(Fields.get?_eq_some_iff distinct).mpr mem, ← named.given?, alone, Option.some_or]
    exact read
  · have nothing : plain (Fields.get? (overridesOf steps) setting.name) = Option.none := by
      cases found : Fields.get? (overridesOf steps) setting.name with
      | none => rfl
      | some last =>
        rw [← named.given?]
        exact none _ ((Fields.get?_eq_some_iff distinct).mp found)
    rw [nothing, Option.none_or]
    exact files

/-! ## Order -/

/-- A setting is that of the last value by its name, of the last file that gives it one, or of
the defaults, unless a value reaches it under another name, and then one of those values. -/
def Setting.Ranked {α : Type} (setting : Setting) (convert : Value → Option α) (default : α)
    (steps : List Step) (value : α) : Prop :=
  (setting.OwnName steps → setting.ranked? convert default steps = some value) ∧
    setting.Traced convert default steps value

theorem Setting.Traced.isRanked {α : Type} {setting : Setting} {convert : Value → Option α}
    {default value : α} {steps : List Step} (h : setting.Traced convert default steps value)
    (named : setting.Named) : setting.Ranked convert default steps value :=
  ⟨h.ranked named, h⟩

theorem named_settings : Setting.componentName.Named ∧ Setting.placeholderTag.Named ∧
    Setting.emitEmptyCode.Named ∧ Setting.pretty.Named := by
  refine ⟨⟨?_, ?_, ?_⟩, ⟨?_, ?_, ?_⟩, ⟨?_, ?_, ?_⟩, ⟨?_, ?_, ?_⟩⟩ <;> decide +kernel

theorem MayLoad.ranked {steps : List Step} {settings : Settings} (h : MayLoad steps settings) :
    Obeys (fun setting convert default value => setting.Ranked convert default steps value)
      settings := by
  obtain ⟨name, tag, emit, indent⟩ := h.traced
  obtain ⟨named, tagged, emitted, indented⟩ := named_settings
  exact ⟨name.isRanked named, tag.isRanked tagged, emit.isRanked emitted,
    indent.isRanked indented⟩

/-- Settings are layered in order. In what loads, a setting is the last value given by its name,
or else that of the last file that gives it one, or else the default, if no value reaches it under
another name; if one does, the setting is one of the values that reach it. Neither the place of
single values among the files nor a file that may be missing and is missing changes what results,
and a file that has to be there and is missing stops the loading anywhere. -/
theorem load_layered :
    (∀ steps settings, load steps = .ok settings → MayLoad steps settings) ∧
    (∀ steps settings, MayLoad steps settings →
      Obeys (fun setting convert default value => setting.Ranked convert default steps value)
        settings) ∧
    (∀ steps others : List Step,
      (steps.filter fun step => !step.isOverride) =
          (others.filter fun step => !step.isOverride) →
        steps.filter Step.isOverride = others.filter Step.isOverride → load steps = load others) ∧
    (∀ before after, load (before ++ .optionalFile none :: after) = load (before ++ after)) ∧
    ∀ before after, ∃ problem, load (before ++ .file none :: after) = .error problem :=
  ⟨fun _ _ => mayLoad_of_load, fun _ _ => MayLoad.ranked, fun _ _ => load_congr,
    load_missing_optional, load_missing_required⟩

def teamSteps : List Step :=
  [.override "export.pretty" (.boolean true), .file (some "[export]\npretty = true"),
    .optionalFile none, .override "export.pretty" (.text "no"),
    .file (some "[import]\ncomponent_name = \"Team\"\n[export]\nemit_empty_code = 0")]

/-- The name comes from the last file and the layout from the last value, before both files. -/
theorem teamSteps_layered :
    load teamSteps = .ok ⟨⟨"Team", "div"⟩, ⟨false, false⟩⟩ ∧
      Setting.pretty.OwnName teamSteps ∧
      Setting.pretty.ranked? Value.truth? standard.writing.pretty teamSteps = some false ∧
      Obeys (fun setting convert default value => setting.Ranked convert default teamSteps value)
        ⟨⟨"Team", "div"⟩, ⟨false, false⟩⟩ := by
  have loads : load teamSteps = .ok ⟨⟨"Team", "div"⟩, ⟨false, false⟩⟩ := by decide +kernel
  have own : Setting.pretty.OwnName teamSteps := by
    unfold Setting.OwnName
    decide +kernel
  have ranked := load_layered.2.1 _ _ (load_layered.1 _ _ loads)
  exact ⟨loads, own, ranked.pretty.1 own, ranked⟩

def sectionSteps : List Step :=
  [.override "import.component_name" (.text "First"),
    .override "import" (.table [("component_name", .text "Second")])]

def capitalSteps : List Step :=
  [.override "export.PRETTY" (.boolean false)]

/-- Values under other names than the setting's own count as well. The last value by the name of
the component is replaced with its section, and the layout is not the default although no value
is given by its name. -/
theorem otherNames_count :
    load sectionSteps = .ok ⟨⟨"Second", "div"⟩, {}⟩ ∧
      Setting.componentName.ranked? Value.text? standard.reading.componentName sectionSteps =
        some "First" ∧
    load capitalSteps = .ok ⟨{}, ⟨true, false⟩⟩ ∧
      Setting.pretty.ranked? Value.truth? standard.writing.pretty capitalSteps = some true := by
  refine ⟨?_, ?_, ?_, ?_⟩ <;> decide +kernel

end BlockLoom.Settings
