import BlockLoom.Proofs.CommandLine.Precedence
import BlockLoom.Proofs.Format.Registrations

/-!
What is left of the parameters for the format. The settings of the import are taken out of
them, one parameter for each setting. The name of the component has two parameters, and only
the first that is given is taken, so a format is handed a setting that it does not know just
if both are given.
-/

namespace BlockLoom.CommandLine

/-! ## Settings and options -/

/-- The parameters that are settings of the import. -/
def importKeys : List String := ["component-name", "name", "placeholder-tag"]

/-- The parameters that are no settings of the import. -/
def formatOptions (options : Options) : Options :=
  options.filter fun entry => !importKeys.contains entry.1

/-- The name of the component is given by both of its parameters. -/
def NamedTwice (options : Options) : Prop :=
  Fields.has options "component-name" = true ∧ Fields.has options "name" = true

instance (options : Options) : Decidable (NamedTwice options) :=
  inferInstanceAs (Decidable (_ ∧ _))

/-- The parameter by which the name of the component is given, if it is given. -/
def nameKey (options : Options) : String :=
  if Fields.has options "component-name" then "component-name" else "name"

theorem takeFirst_nil (options : Options) : (takeFirst options []).2 = options := rfl

/-- A parameter that is not given leaves nothing behind when it is taken out. -/
theorem takeFirst_cons_snd (options : Options) (key : String) (keys : List String) :
    (takeFirst options (key :: keys)).2 =
      if Fields.has options key then Fields.remove options key else (takeFirst options keys).2 := by
  rw [takeFirst, Fields.has]
  cases Fields.get? options key <;> rfl

theorem takeFirst_single (options : Options) (key : String) :
    (takeFirst options [key]).2 = Fields.remove options key := by
  rw [takeFirst_cons_snd, takeFirst_nil]
  split
  · rfl
  · next absent =>
    rw [Fields.remove_of_not_mem]
    exact Fields.has_eq_false_iff.mp (eq_false_of_ne_true absent)

theorem takeFirst_name (options : Options) :
    (takeFirst options ["component-name", "name"]).2 =
      Fields.remove options (nameKey options) := by
  rw [takeFirst_cons_snd, takeFirst_single, nameKey]
  split <;> rfl

/-- The format is handed all parameters but the two that settings were taken from. -/
theorem applyOverrides_left (settings : Settings) (options : Options) :
    (applyOverrides settings options).2 =
      Fields.remove (Fields.remove options (nameKey options)) "placeholder-tag" := by
  rw [applyOverrides_options, takeFirst_single, takeFirst_name]

theorem mem_names_left {settings : Settings} {options : Options} {key : String} :
    key ∈ Fields.names (applyOverrides settings options).2 ↔
      key ∈ Fields.names options ∧ key ≠ nameKey options ∧ key ≠ "placeholder-tag" := by
  rw [applyOverrides_left, Fields.mem_names_remove, Fields.mem_names_remove, and_assoc]

/-- A setting is left for the format just if the name of the component is given twice. -/
theorem importKey_left_iff {settings : Settings} {options : Options} :
    (∃ key ∈ importKeys, key ∈ Fields.names (applyOverrides settings options).2) ↔
      NamedTwice options := by
  simp only [mem_names_left, importKeys, List.mem_cons, List.not_mem_nil, or_false,
    exists_eq_or_imp, exists_eq_left]
  rw [NamedTwice, Fields.has_iff, Fields.has_iff, nameKey]
  split
  · next first =>
    have given := Fields.has_iff.mp first
    simp [given]
  · next first =>
    have absent := Fields.has_eq_false_iff.mp (eq_false_of_ne_true first)
    simp [absent]

theorem nameKey_mem (options : Options) : nameKey options ∈ importKeys := by
  rw [nameKey]
  split <;> decide

theorem left_eq_iff {settings : Settings} {options : Options} :
    (applyOverrides settings options).2 = formatOptions options ↔ ¬ NamedTwice options := by
  rw [← @importKey_left_iff settings]
  constructor
  · rintro same ⟨key, setting, left⟩
    rw [same, formatOptions, Fields.names_filter fun key => !importKeys.contains key] at left
    have kept := (List.mem_filter.mp left).2
    simp [setting] at kept
  · intro clear
    rw [applyOverrides_left, Fields.remove_eq_filter, Fields.remove_eq_filter, List.filter_filter,
      formatOptions]
    apply List.filter_congr
    intro entry member
    have taken : entry.1 ≠ "placeholder-tag" ∧ entry.1 ≠ nameKey options ↔
        entry.1 ∉ importKeys := by
      constructor
      · rintro ⟨tag, name⟩ setting
        exact clear ⟨entry.1, setting,
          mem_names_left.mpr ⟨Fields.mem_names_of_mem member, name, tag⟩⟩
      · intro other
        exact ⟨fun tag => other (tag ▸ by decide), fun name => other (name ▸ nameKey_mem options)⟩
    rw [Bool.eq_iff_iff, Bool.and_eq_true, decide_eq_true_eq, decide_eq_true_eq, taken,
      Bool.not_eq_true', List.contains_eq_mem, decide_eq_false_iff_not]

/-! ## Refused options -/

/-- A component is not written because a setting is among the options. -/
def RefusedForSetting (registry : Registry) (target : String) (options : Options)
    (component : Component) : Prop :=
  ∃ keys, registry.write target options component =
      .error (.unsupported (.unknownOptions target keys)) ∧
    ∃ key ∈ keys, key ∈ importKeys

/-- The check of options fails with the unknown ones, or it does not matter. -/
theorem checkOptionKeys_bind {α : Type} (name : String) (known : List String) (options : Options)
    (next : Except Failure α) :
    (Format.checkOptionKeys name known options >>= fun _ => next) =
      match (Fields.names options).filter fun key => !known.contains key with
      | [] => next
      | unknown => .error (.unsupported (.unknownOptions name (Format.sorted unknown))) := by
  rw [Format.checkOptionKeys]
  cases (Fields.names options).filter fun key => !known.contains key <;> rfl

/-- A choice that is no truth value is not reported as an unknown option. -/
theorem booleanOption_bind_ne {α : Type} {name : String} {keys : List String} {options : Options}
    {key : String} {default : Bool} {next : Bool → Except Failure α}
    (others : ∀ value, next value ≠ .error (.unsupported (.unknownOptions name keys))) :
    (Format.booleanOption options key default >>= next) ≠
      .error (.unsupported (.unknownOptions name keys)) := by
  rw [Format.booleanOption]
  split
  · exact others _
  · split
    · exact others _
    · intro same
      cases same

/-- A format that checks its options first refuses settings just if it is handed any. -/
theorem refuses_iff {name : String} {known : List String} {options : Options}
    {next : Except Failure String} (apart : ∀ key ∈ importKeys, key ∉ known)
    (others : ∀ keys, next ≠ .error (.unsupported (.unknownOptions name keys))) :
    (∃ keys, (Format.checkOptionKeys name known options >>= fun _ => next) =
        .error (.unsupported (.unknownOptions name keys)) ∧ ∃ key ∈ keys, key ∈ importKeys) ↔
      ∃ key ∈ importKeys, key ∈ Fields.names options := by
  rw [checkOptionKeys_bind]
  constructor
  · rintro ⟨keys, refused, key, listed, setting⟩
    split at refused
    · exact absurd refused (others keys)
    · cases refused
      exact ⟨key, setting, (List.mem_filter.mp (Format.mem_sorted.mp listed)).1⟩
  · rintro ⟨key, setting, given⟩
    have unknown : key ∈ (Fields.names options).filter fun key => !known.contains key := by
      rw [List.mem_filter]
      exact ⟨given, by simpa using apart key setting⟩
    split
    · next none =>
      rw [none] at unknown
      cases unknown
    · exact ⟨_, rfl, key, Format.mem_sorted.mpr unknown, setting⟩

/-- Both formats of the program check their options first. -/
theorem refusedForSetting_iff {settings : Settings} {target : String} {format : Format}
    (found : (registryOf settings).find target = .ok format) (options : Options)
    (component : Component) :
    RefusedForSetting (registryOf settings) target options component ↔
      ∃ key ∈ importKeys, key ∈ Fields.names options := by
  have named : target = "builder" ∨ target = "mitosis-json" := by
    rw [Registry.find] at found
    split at found
    · next stored =>
      have listed : target ∈ ["builder", "mitosis-json"] :=
        Fields.mem_names_of_mem (Fields.mem_of_get? stored)
      simpa using listed
    · cases found
  rcases named with rfl | rfl
  · refine @refuses_iff _ ["pretty", "emit-empty-code"] _ _ (by decide) fun keys => ?_
    refine booleanOption_bind_ne fun _ => booleanOption_bind_ne fun _ same => ?_
    cases same
  · refine @refuses_iff _ ["pretty"] _ _ (by decide) fun keys => ?_
    refine booleanOption_bind_ne fun _ same => ?_
    cases same

/-! ## Runs -/

/-- A conversion hands the format what is left of the parameters. -/
theorem runOn_conversion {folder : Folder} {arguments : List String} {config : Option String}
    {conversion : Conversion} {settings : Settings}
    (asked : request (separate arguments).cleaned = .ok ⟨config, false, some conversion⟩)
    (loads : ((loadSettings Folder.access config).run folder).1 = .ok settings) :
    runOn folder arguments =
      (convert Folder.access
        (registryOf (applyOverrides settings (separate arguments).options).1)
        (applyOverrides settings (separate arguments).options).2 conversion).run folder := by
  rw [runOn, run, asked]
  dsimp only
  rw [perform, run_bind, loads, loadSettings_readsOnly]
  rfl

/-- Settings of the import never reach the format, unless both parameters for the name of the
component are given. For all arguments and settings, the format is handed just the parameters
that are no settings, and refuses none because it is a setting, if and only if the name is not
given twice; and what it is handed is what a conversion with the arguments writes with. -/
theorem settings_kept_iff (settings : Settings) (arguments : List String) :
    ((applyOverrides settings (separate arguments).options).2 =
        formatOptions (separate arguments).options ↔
      ¬ NamedTwice (separate arguments).options) ∧
    (∀ (target : String) (format : Format) (component : Component),
      (registryOf (applyOverrides settings (separate arguments).options).1).find target =
          .ok format →
        (¬ RefusedForSetting (registryOf (applyOverrides settings (separate arguments).options).1)
            target (applyOverrides settings (separate arguments).options).2 component ↔
          ¬ NamedTwice (separate arguments).options)) ∧
    ∀ (folder : Folder) (config : Option String) (conversion : Conversion),
      request (separate arguments).cleaned = .ok ⟨config, false, some conversion⟩ →
      ((loadSettings Folder.access config).run folder).1 = .ok settings →
        runOn folder arguments =
          (convert Folder.access
            (registryOf (applyOverrides settings (separate arguments).options).1)
            (applyOverrides settings (separate arguments).options).2 conversion).run folder := by
  refine ⟨left_eq_iff, ?_, fun _ _ _ => runOn_conversion⟩
  intro target format component found
  rw [refusedForSetting_iff found, importKey_left_iff]

def namedArguments : List String :=
  ["page.json", "--to", "builder", "--extra-name", "Shop", "--extra-pretty", "no"]

def twiceNamedArguments : List String :=
  ["page.json", "--to", "builder", "--extra-component-name", "Shop", "--extra-name", "Shop"]

def namedConversion : Conversion := ⟨"page.json", none, "builder", none⟩

theorem loadSettings_emptyPage :
    ((loadSettings Folder.access none).run emptyPage).1 = .ok {} := rfl

/-- With one name the format is handed its own option and nothing else. -/
theorem namedArguments_kept :
    request (separate namedArguments).cleaned = .ok ⟨none, false, some namedConversion⟩ ∧
      (applyOverrides {} (separate namedArguments).options).2 = [("pretty", "no")] ∧
      (∀ component, ¬ RefusedForSetting (registryOf ⟨⟨"Shop", "div"⟩, {}⟩) "builder"
        [("pretty", "no")] component) ∧
      runOn emptyPage namedArguments =
        (convert Folder.access (registryOf ⟨⟨"Shop", "div"⟩, {}⟩) [("pretty", "no")]
          namedConversion).run emptyPage := by
  have asked : request (separate namedArguments).cleaned =
      .ok ⟨none, false, some namedConversion⟩ := by decide +kernel
  have overrides : applyOverrides {} (separate namedArguments).options =
      (⟨⟨"Shop", "div"⟩, {}⟩, [("pretty", "no")]) := by decide +kernel
  have once : ¬ NamedTwice (separate namedArguments).options := by decide +kernel
  obtain ⟨left, refused, runs⟩ := settings_kept_iff {} namedArguments
  have kept : formatOptions (separate namedArguments).options = [("pretty", "no")] := by
    decide +kernel
  rw [overrides] at refused runs
  exact ⟨asked, (left.mpr once).trans kept,
    fun component => (refused "builder" _ component rfl).mpr once,
    runs _ _ _ asked loadSettings_emptyPage⟩

def shop : Component := { name := "Shop" }

/-- With two names the second is handed to the format, which refuses it. -/
theorem twiceNamed_refused :
    (applyOverrides {} (separate twiceNamedArguments).options).2 ≠
        formatOptions (separate twiceNamedArguments).options ∧
      runOn emptyPage twiceNamedArguments =
        (.failed ("Serialization error: Operation not supported: " ++
          "Format 'builder' does not support option(s): name"), emptyPage) := by
  have asked : request (separate twiceNamedArguments).cleaned =
      .ok ⟨none, false, some namedConversion⟩ := by decide +kernel
  have overrides : applyOverrides {} (separate twiceNamedArguments).options =
      (⟨⟨"Shop", "div"⟩, {}⟩, [("name", "Shop")]) := by decide +kernel
  have formats : formatsOf (registryOf ⟨⟨"Shop", "div"⟩, {}⟩) namedConversion =
      .ok "builder" := rfl
  have reads : Folder.readFile emptyPage namedConversion.input = .ok "\x7b\x7d" := rfl
  have read : Content.read "\x7b\x7d" = .ok {} := rfl
  have made : Content.toComponent ⟨"Shop", "div"⟩ {} = .ok shop := by
    rw [Content.toComponent, Content.importElements]
    rfl
  have parses : (registryOf ⟨⟨"Shop", "div"⟩, {}⟩).parse "builder" "\x7b\x7d" = .ok shop := by
    change Content.parse ⟨"Shop", "div"⟩ "\x7b\x7d" = _
    rw [Content.parse, read]
    exact made
  have refuses : (registryOf ⟨⟨"Shop", "div"⟩, {}⟩).write "builder" [("name", "Shop")] shop =
      .error (.unsupported (.unknownOptions "builder" ["name"])) := by
    have alone : Format.sorted ["name"] = ["name"] := List.mergeSort_singleton _
    rw [← alone]
    rfl
  refine ⟨by rw [overrides]; decide +kernel, ?_⟩
  rw [runOn_conversion asked loadSettings_emptyPage, overrides, convert, formats]
  dsimp only
  rw [run_bind, read_run, reads]
  dsimp only [namedConversion]
  rw [convertText, parses]
  dsimp only
  rw [refuses]
  rfl

end BlockLoom.CommandLine
