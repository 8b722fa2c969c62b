import BlockLoom.Proofs.Fields
import BlockLoom.Settings.Loader

/-!
Settings in layers. Layers that are written over one another decide about each setting by
itself: what is read at the end is the value of the last layer that gives the setting one, and
without such a layer what was stored before. A layer gives a setting the value that the layer
holds for it when it stands alone; a table is no value of a setting. Nothing is said of a
setting that cannot be read at the end, as when its whole section has been replaced.
-/

namespace BlockLoom.Settings

def Value.isTable : Value → Bool
  | .table _ => true
  | _ => false

def plain (slot : Option Value) : Option Value :=
  slot.filter fun value => !value.isTable

/-- A setting: its section, its key there, and its place in a section that is a list. -/
structure Setting where
  part : String
  key : String
  place : Nat

namespace Setting

def componentName : Setting := ⟨"import", "component_name", 0⟩

def placeholderTag : Setting := ⟨"import", "placeholder_tag", 1⟩

def emitEmptyCode : Setting := ⟨"export", "emit_empty_code", 0⟩

def pretty : Setting := ⟨"export", "pretty", 1⟩

def field? (setting : Setting) (value : Value) : Option Value :=
  sectionField value setting.place setting.key

def held? (setting : Setting) (stored : Fields Value) : Option Value :=
  (Fields.get? stored setting.part).bind setting.field?

/-- The value that a layer gives a setting: what the layer holds for it by itself. -/
def given? (setting : Setting) (layer : Fields Value) : Option Value :=
  plain (setting.held? (applyLayer [] layer))

/-- The value that the last of the layers that give a setting one gives it. -/
def lastGiven? (setting : Setting) : List (Fields Value) → Option Value
  | [] => none
  | layer :: later => (setting.lastGiven? later).or (setting.given? layer)

end Setting

/-! ## Writing over one key -/

def inner (slot : Option Value) : Fields Value :=
  (slot.map Value.entries).getD []

/-- What stands under a key after a value is written over it. An empty table takes the place
of nothing. -/
def overlaid (slot : Option Value) : Value → Option Value
  | .table entries =>
    if entries = [] ∧ slot.any (fun value => !value.isTable) then slot
    else some (.table (overlay (inner slot) entries))
  | value => some value

theorem get?_overlayAt (stored : Fields Value) (key other : String) (value : Value) :
    Fields.get? (overlayAt stored key value) other =
      if key = other then overlaid (Fields.get? stored key) value else Fields.get? stored other := by
  cases value with
  | table entries =>
    unfold overlayAt
    rw [overlaid]
    cases found : Fields.get? stored key with
    | none => simp [Fields.get?_put, inner]
    | some value =>
      cases value with
      | table _ => simp [Fields.get?_put, inner, Value.isTable, Value.entries]
      | _ =>
        cases entries with
        | nil =>
          by_cases same : key = other
          · subst same
            simp [found, Value.isTable]
          · simp [same]
        | cons entry entries => simp [Fields.get?_put, inner, Value.entries]
  | _ => exact Fields.get?_put _ _ _ _

/-! ## One setting -/

/-- What is found for a setting, if it can be read, comes from the layer that is being written,
which holds `alone` for the setting by itself, or else from before. -/
def Covers (before found alone : Option Value) : Prop :=
  ∀ value, found = some value → value.isTable = false → (plain alone).or before = some value

theorem covers_start (before : Option Value) : Covers before before none :=
  fun _ found _ => found

theorem covers_none (before alone : Option Value) : Covers before none alone :=
  nofun

theorem covers_self (before alone : Option Value) : Covers before alone alone := by
  rintro value rfl isTable
  simp [plain, isTable]

theorem covers_table (before alone : Option Value) (entries : Fields Value) :
    Covers before (some (.table entries)) alone := by
  rintro value ⟨⟩ isTable
  cases isTable

theorem plain_overlaid_empty (slot : Option Value) :
    plain (overlaid slot (.table [])) = plain slot := by
  rcases slot with _ | _ | _ <;> rfl

variable {before found alone : Option Value}

/-- A value is written over what is found and over what the layer holds by itself. -/
theorem Covers.overlaid (h : Covers before found alone) (value : Value) :
    Covers before (overlaid found value) (overlaid alone value) := by
  cases value with
  | table entries =>
    rw [Settings.overlaid]
    split
    · next kept =>
      obtain ⟨rfl, -⟩ := kept
      rw [Covers, plain_overlaid_empty]
      exact h
    · exact covers_table _ _ _
  | _ =>
    rintro value ⟨⟩ -
    rfl

variable {stored layered : Fields Value} {key : String}

theorem Covers.overlay (entries : List (String × Value))
    (h : Covers before (Fields.get? stored key) (Fields.get? layered key)) :
    Covers before (Fields.get? (overlay stored entries) key)
      (Fields.get? (overlay layered entries) key) := by
  induction entries generalizing stored layered with
  | nil => exact h
  | cons entry entries ih =>
    rw [Settings.overlay, Settings.overlay]
    refine ih ?_
    rw [get?_overlayAt, get?_overlayAt]
    split
    · next same =>
      subst same
      exact h.overlaid entry.2
    · exact h

theorem overlayPath_cons (stored : Fields Value) (key next : String) (path : List String)
    (value : Value) :
    overlayPath stored (key :: next :: path) value =
      Fields.put stored (foldCase key)
        (.table (overlayPath (inner (Fields.get? stored (foldCase key))) (next :: path) value)) :=
  rfl

theorem Covers.overlayPath (path : List String) (value : Value)
    (h : Covers before (Fields.get? stored key) (Fields.get? layered key)) :
    Covers before (Fields.get? (overlayPath stored path value) key)
      (Fields.get? (overlayPath layered path value) key) := by
  match path with
  | [] => exact h
  | [name] =>
    rw [Settings.overlayPath, Settings.overlayPath, get?_overlayAt, get?_overlayAt]
    split
    · next same =>
      subst same
      exact h.overlaid value
    · exact h
  | name :: next :: path =>
    rw [overlayPath_cons, overlayPath_cons, Fields.get?_put, Fields.get?_put]
    split
    · exact covers_table _ _ _
    · exact h

/-! ## The section of a setting -/

variable {setting : Setting}

/-- What is found under the section of a setting, when `alone` is what the layer that is being
written holds there by itself. -/
structure Tracks (setting : Setting) (before found alone : Option Value) : Prop where
  /-- A section that is no table replaces what was there. -/
  replaced : ∀ value, alone = some value → value.isTable = false → found = some value
  covers : Covers (before.bind setting.field?) (found.bind setting.field?)
    (alone.bind setting.field?)

/-- A table in the place of a section has the entries that were there, with some of them
written over. -/
theorem Tracks.table (h : Tracks setting before found alone)
    {write : Fields Value → Fields Value}
    (keeps : ∀ {before : Option Value} {stored layered : Fields Value},
      Covers before (Fields.get? stored setting.key) (Fields.get? layered setting.key) →
        Covers before (Fields.get? (write stored) setting.key)
          (Fields.get? (write layered) setting.key)) :
    Tracks setting before (some (.table (write (inner found))))
      (some (.table (write (inner alone)))) where
  replaced := by
    rintro value ⟨⟩ isTable
    cases isTable
  covers := by
    refine keeps ?_
    cases found with
    | none => exact covers_none _ _
    | some value =>
      cases value with
      | table entries =>
        cases alone with
        | none => exact h.covers
        | some other =>
          cases other with
          | table _ => exact h.covers
          | _ => cases h.replaced _ rfl rfl
      | _ => exact covers_none _ _

/-- An empty table in the place of nothing is a section without fields. -/
theorem Tracks.overlaid_empty (h : Tracks setting before found alone) :
    Tracks setting before found (overlaid alone (.table [])) := by
  cases alone with
  | none => exact ⟨by rintro value ⟨⟩ ⟨⟩, h.covers⟩
  | some value => cases value <;> exact h

theorem Tracks.overlaid (h : Tracks setting before found alone) (value : Value) :
    Tracks setting before (overlaid found value) (overlaid alone value) := by
  cases value with
  | table entries =>
    by_cases kept : entries = [] ∧ found.any fun value => !value.isTable
    · obtain ⟨rfl, stays⟩ := kept
      rw [Settings.overlaid, if_pos ⟨rfl, stays⟩]
      exact h.overlaid_empty
    · have written : ¬ (entries = [] ∧ alone.any fun value => !value.isTable) := by
        rintro ⟨empty, stays⟩
        obtain ⟨value, rfl, isValue⟩ := (Option.any_eq_true _ _).mp stays
        rw [h.replaced value rfl (Bool.not_eq_true' _ |>.mp isValue)] at kept
        exact kept ⟨empty, stays⟩
      rw [Settings.overlaid, Settings.overlaid, if_neg kept, if_neg written]
      exact h.table fun covers => covers.overlay entries
  | _ => exact ⟨fun _ same _ => same, covers_self _ _⟩

theorem Tracks.overlayPath (path : List String) (value : Value)
    (h : Tracks setting before (Fields.get? stored setting.part)
      (Fields.get? layered setting.part)) :
    Tracks setting before (Fields.get? (overlayPath stored path value) setting.part)
      (Fields.get? (overlayPath layered path value) setting.part) := by
  match path with
  | [] => exact h
  | [name] =>
    rw [Settings.overlayPath, Settings.overlayPath, get?_overlayAt, get?_overlayAt]
    split
    · next same =>
      rw [same]
      exact h.overlaid value
    · exact h
  | name :: next :: path =>
    rw [overlayPath_cons, overlayPath_cons, Fields.get?_put, Fields.get?_put]
    split
    · next same =>
      rw [same]
      exact h.table fun covers => covers.overlayPath (next :: path) value
    · exact h

/-- Writing a layer over what is stored goes along with writing it over nothing. -/
theorem tracks_applyLayer (setting : Setting) (before layer : Fields Value) :
    Tracks setting (Fields.get? before setting.part)
      (Fields.get? (applyLayer before layer) setting.part)
      (Fields.get? (applyLayer [] layer) setting.part) := by
  -- Both are written entry by entry, and what is found goes along at each of them.
  have along (stored layered : Fields Value)
      (h : Tracks setting (Fields.get? before setting.part) (Fields.get? stored setting.part)
        (Fields.get? layered setting.part)) :
      Tracks setting (Fields.get? before setting.part)
        (Fields.get? (applyLayer stored layer) setting.part)
        (Fields.get? (applyLayer layered layer) setting.part) := by
    induction layer generalizing stored layered with
    | nil => exact h
    | cons entry layer ih => exact ih _ _ (h.overlayPath _ entry.2)
  exact along before [] ⟨nofun, covers_start _⟩

/-- A setting that can be read after a layer has the value that the layer gives it, or else
the one from before. -/
theorem held?_applyLayer {before layer : Fields Value} {value : Value}
    (h : setting.held? (applyLayer before layer) = some value) (isValue : value.isTable = false) :
    (setting.given? layer).or (setting.held? before) = some value :=
  (tracks_applyLayer setting before layer).covers value h isValue

/-- After layers, a setting that can be read has the value that the last layer gives it, or else
the one from before all of them. -/
theorem held?_layers {before : Fields Value} {layers : List (Fields Value)} {value : Value}
    (h : setting.held? (layers.foldl applyLayer before) = some value)
    (isValue : value.isTable = false) :
    (setting.lastGiven? layers).or (setting.held? before) = some value := by
  induction layers generalizing before with
  | nil => exact h
  | cons layer later ih =>
    have found := ih h
    rw [Setting.lastGiven?, Option.or_assoc]
    cases last : setting.lastGiven? later with
    | some given =>
      rw [last] at found
      exact found
    | none =>
      rw [last, Option.none_or] at found
      rw [Option.none_or]
      exact held?_applyLayer found isValue

/-- Later layers count before earlier ones. -/
theorem lastGiven?_append (setting : Setting) (layers later : List (Fields Value)) :
    setting.lastGiven? (layers ++ later) =
      (setting.lastGiven? later).or (setting.lastGiven? layers) := by
  induction layers with
  | nil => exact (Option.or_none).symm
  | cons layer layers ih =>
    rw [List.cons_append, Setting.lastGiven?, ih, Setting.lastGiven?, Option.or_assoc]

/-- A layer without entries gives nothing. -/
theorem lastGiven?_empty (setting : Setting) (layers : List (Fields Value)) :
    setting.lastGiven? (layers ++ [[]]) = setting.lastGiven? layers := by
  rw [lastGiven?_append]
  rfl

/-! ## Loading -/

def standard : Settings := {}

/-- The value that is chosen for a setting: that of the last layer that gives it one, if any. -/
def Setting.chosen? {α : Type} (setting : Setting) (convert : Value → Option α) (default : α)
    (layers : List (Fields Value)) : Option α :=
  match setting.lastGiven? layers with
  | some value => convert value
  | none => some default

structure Layered (layers : List (Fields Value)) (settings : Settings) : Prop where
  componentName :
    Setting.componentName.chosen? Value.text? standard.reading.componentName layers =
      some settings.reading.componentName
  placeholderTag :
    Setting.placeholderTag.chosen? Value.text? standard.reading.placeholderTag layers =
      some settings.reading.placeholderTag
  emitEmptyCode :
    Setting.emitEmptyCode.chosen? Value.truth? standard.writing.emitEmptyCode layers =
      some settings.writing.emitEmptyCode
  pretty :
    Setting.pretty.chosen? Value.truth? standard.writing.pretty layers =
      some settings.writing.pretty

/-- A setting that is read after layers is the one that is chosen from them. -/
theorem chosen?_of_held? {α : Type} {convert : Value → Option α} {default chosen : α}
    {layers : List (Fields Value)}
    (tables : ∀ entries, convert (.table entries) = none)
    (start : (setting.held? (toValues standard)).bind convert = some default)
    (h : (setting.held? (layers.foldl applyLayer (toValues standard))).bind convert = some chosen) :
    setting.chosen? convert default layers = some chosen := by
  obtain ⟨value, held, converted⟩ := Option.bind_eq_some_iff.mp h
  have isValue : value.isTable = false := by
    cases value with
    | table entries => rw [tables] at converted; cases converted
    | _ => rfl
  have found := held?_layers held isValue
  rw [Setting.chosen?]
  cases given : setting.lastGiven? layers with
  | some last =>
    rw [given] at found
    cases found
    exact converted
  | none =>
    rw [given, Option.none_or] at found
    rw [found] at start
    exact start.symm.trans converted

theorem readSection_ok {α : Type} {name first second : String} {convert : Value → Option α}
    {value : Option Value} {fields : List α}
    (h : readSection name [first, second] convert value = .ok fields) :
    ∃ one two, fields = [one, two] ∧
      (value.bind fun value => sectionField value 0 first).bind convert = some one ∧
      (value.bind fun value => sectionField value 1 second).bind convert = some two := by
  rw [readSection] at h
  split at h
  · cases h
  · split at h
    · next values read =>
      cases h
      simp only [List.zipIdx, List.map_cons, List.map_nil, List.mapM_cons, List.mapM_nil,
        Option.bind_eq_bind, Option.pure_def, Option.bind_some, Option.bind_eq_some_iff,
        Option.some.injEq] at read
      obtain ⟨one, first, _, ⟨two, second, rfl⟩, rfl⟩ := read
      simp only [Option.bind_eq_some_iff]
      exact ⟨one, two, rfl, first, second⟩
    · cases h

theorem ofValues_ok {stored : Fields Value} {settings : Settings}
    (h : ofValues stored = .ok settings) :
    (Setting.componentName.held? stored).bind Value.text? = some settings.reading.componentName ∧
    (Setting.placeholderTag.held? stored).bind Value.text? = some settings.reading.placeholderTag ∧
    (Setting.emitEmptyCode.held? stored).bind Value.truth? = some settings.writing.emitEmptyCode ∧
    (Setting.pretty.held? stored).bind Value.truth? = some settings.writing.pretty := by
  rw [ofValues] at h
  split at h
  · cases h
  · next texts readTexts =>
    split at h
    · cases h
    · next flags readFlags =>
      obtain ⟨componentName, placeholderTag, rfl, name, tag⟩ := readSection_ok readTexts
      obtain ⟨emitEmptyCode, pretty, rfl, emit, indent⟩ := readSection_ok readFlags
      cases h
      exact ⟨name, tag, emit, indent⟩

theorem applyFiles_ok {stored result : Fields Value} {files : List (Except Problem (Fields Value))}
    (h : Loader.applyFiles stored files = .ok result) :
    ∃ layers : List (Fields Value),
      files = layers.map .ok ∧ result = layers.foldl applyLayer stored := by
  induction files generalizing stored with
  | nil =>
    cases h
    exact ⟨[], rfl, rfl⟩
  | cons file files ih =>
    cases file with
    | error problem => cases h
    | ok values =>
      obtain ⟨layers, rfl, same⟩ := ih h
      exact ⟨values :: layers, rfl, same⟩

/-- Settings that are read after layers are chosen from them. -/
theorem layered_of_ofValues {layers : List (Fields Value)} {settings : Settings}
    (h : ofValues (layers.foldl applyLayer (toValues standard)) = .ok settings) :
    Layered layers settings := by
  obtain ⟨name, tag, emit, indent⟩ := ofValues_ok h
  exact
    { componentName := chosen?_of_held? (fun _ => rfl) rfl name
      placeholderTag := chosen?_of_held? (fun _ => rfl) rfl tag
      emitEmptyCode := chosen?_of_held? (fun _ => rfl) rfl emit
      pretty := chosen?_of_held? (fun _ => rfl) rfl indent }

/-- Settings that can be loaded are read after the files and then the single values. -/
theorem build_eq_ok {loader : Loader} {settings : Settings} (h : loader.build = .ok settings) :
    ∃ layers : List (Fields Value), loader.files = layers.map .ok ∧
      ofValues (applyLayer (layers.foldl applyLayer (toValues standard)) loader.overrides) =
        .ok settings := by
  rw [Loader.build] at h
  split at h
  · cases h
  · next stored applied =>
    obtain ⟨layers, files, rfl⟩ := applyFiles_ok applied
    exact ⟨layers, files, h⟩

/-- Settings that can be loaded are chosen from the files and the single values, of which the
last count most. -/
theorem build_ok {loader : Loader} {settings : Settings} (h : loader.build = .ok settings) :
    ∃ layers : List (Fields Value), loader.files = layers.map .ok ∧
      Layered (layers ++ [loader.overrides]) settings := by
  obtain ⟨layers, files, read⟩ := build_eq_ok h
  refine ⟨layers, files, layered_of_ofValues ?_⟩
  rw [List.foldl_append]
  exact read

theorem Layered.of_empty {layers : List (Fields Value)} {settings : Settings}
    (h : Layered (layers ++ [[]]) settings) : Layered layers settings := by
  obtain ⟨name, tag, emit, indent⟩ := h
  rw [Setting.chosen?, lastGiven?_empty] at name tag emit indent
  exact ⟨name, tag, emit, indent⟩

/-- If nothing is wrong with any file once one has been added, that file adds its values behind
those of the others, or nothing if it is missing. -/
theorem addFile_ok {loader : Loader} {required : Bool} {text : Option String}
    {layers : List (Fields Value)} (h : (loader.addFile required text).files = layers.map .ok) :
    ∃ earlier : List (Fields Value), loader.files = earlier.map .ok ∧
      layers = earlier ++ (text.bind Toml.parse?).toList := by
  have added {file : Except Problem (Fields Value)} (h : loader.files ++ [file] = layers.map .ok) :
      ∃ (earlier : List (Fields Value)) (values : Fields Value),
        loader.files = earlier.map .ok ∧ file = .ok values ∧ layers = earlier ++ [values] := by
    obtain ⟨earlier, last, rfl, files, single⟩ := List.map_eq_append_iff.mp h.symm
    obtain ⟨values, rfl, same⟩ := List.map_eq_singleton_iff.mp single
    exact ⟨earlier, values, files.symm, same.symm, rfl⟩
  cases text with
  | none =>
    cases required with
    | true =>
      obtain ⟨_, _, _, wrong, _⟩ := added h
      cases wrong
    | false => exact ⟨layers, h, (List.append_nil _).symm⟩
  | some text =>
    obtain ⟨earlier, values, files, parsed, rfl⟩ := added h
    refine ⟨earlier, files, ?_⟩
    rw [Option.bind_some]
    cases read : Toml.parse? text with
    | none =>
      rw [read] at parsed
      cases parsed
    | some _ =>
      rw [read] at parsed
      cases parsed
      rfl

theorem addFile_overrides (loader : Loader) (required : Bool) (text : Option String) :
    (loader.addFile required text).overrides = loader.overrides := by
  cases text with
  | none => cases required <;> rfl
  | some _ => rfl

end BlockLoom.Settings
