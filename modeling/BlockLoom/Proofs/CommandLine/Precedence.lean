import BlockLoom.Proofs.CommandLine.Run
import BlockLoom.Proofs.Settings.Layers

/-!
Where the settings of a conversion come from. Page content that is converted to page content
is read with one name and one tag, and written with two choices. Each of the four is, by
itself, the last value that the arguments give it, or else that of the file that is named, or
else that of the usual file, or else the default.
-/

namespace BlockLoom.CommandLine

open Settings

/-! ## Values among the arguments -/

/-- The value of a parameter by the arguments after its name: the next one, unless there is
none or it starts with a dash. -/
def valueAfter : List String → String
  | [] => "true"
  | next :: _ => if isDashed next then "true" else next

/-- The last value that arguments give to a parameter with one of the names. -/
def lastValue? (names : List String) : List String → Option String
  | [] => none
  | argument :: rest =>
    (lastValue? names rest).or
      (if (extraKey? argument).any names.contains then some (valueAfter rest) else none)

/-- The name of a parameter starts with a dash, so no value of another is one. -/
theorem extraKey?_of_undashed {argument : String} (h : isDashed argument = false) :
    extraKey? argument = none := by
  have unmarked (mark : List Char) : Text.after? ('-' :: mark) argument.toList = none := by
    rw [Text.after?, if_neg]
    intro starts
    cases text : argument.toList with
    | nil =>
      rw [text] at starts
      cases starts
    | cons c rest =>
      have first : '-' = c ∧ mark <+: rest := by simpa [text] using starts
      simp [isDashed, text, ← first.1] at h
  exact congrArg (Option.map String.ofList) (congrArg₂ Option.or (unmarked _) (unmarked _))

theorem get?_ofEntries_given (key name value : String) (given : List (String × String)) :
    Fields.get? (Fields.ofEntries ((key, value) :: given)) name =
      (Fields.get? (Fields.ofEntries given) name).or
        (if (some key).any [name].contains then some value else none) := by
  rw [Fields.get?_ofEntries_cons]
  simp

theorem get?_options (arguments : List String) (name : String) :
    Fields.get? (separate arguments).options name = lastValue? [name] arguments := by
  rw [Separated.options]
  fun_induction separate arguments with
  | case1 => rfl
  | case2 argument key marked => rw [get?_ofEntries_given, lastValue?, marked]; rfl
  | case3 argument unmarked => rw [lastValue?, unmarked]; rfl
  | case4 argument next rest unmarked others ih =>
    rw [lastValue?, unmarked, ← ih]
    exact (Option.or_none).symm
  | case5 argument next rest key marked dashed others ih =>
    rw [get?_ofEntries_given, lastValue?, marked, ih, valueAfter, if_pos dashed]
  | case6 argument next rest key marked undashed others ih =>
    have none := extraKey?_of_undashed (eq_false_of_ne_true undashed)
    rw [get?_ofEntries_given, lastValue?, marked, ih, valueAfter, if_neg undashed, lastValue?,
      none, Option.any_none, if_neg Bool.false_ne_true, Option.or_none]

theorem lastValue?_congr {names others arguments : List String}
    (same : ∀ argument ∈ arguments,
      (extraKey? argument).any names.contains = (extraKey? argument).any others.contains) :
    lastValue? names arguments = lastValue? others arguments := by
  induction arguments with
  | nil => rfl
  | cons argument rest ih =>
    obtain ⟨here, later⟩ := List.forall_mem_cons.mp same
    rw [lastValue?, lastValue?, ih later, here]

theorem lastValue?_eq_none {names arguments : List String} :
    lastValue? names arguments = none ↔
      ∀ argument ∈ arguments, (extraKey? argument).any names.contains = false := by
  induction arguments with
  | nil => simp [lastValue?]
  | cons argument rest ih =>
    rw [lastValue?, Option.or_eq_none_iff, ih, List.forall_mem_cons, and_comm]
    simp

/-! ## The settings of a conversion -/

/-- The text of a settings file, whose ending may be left out. -/
def settingsText? (folder : Folder) (path : String) : Option String :=
  (Folder.readFile folder path).toOption.or (Folder.readFile folder (path ++ ".toml")).toOption

def settingsLayer? (folder : Folder) (path : String) : Option (Fields Value) :=
  (settingsText? folder path).bind Toml.parse?

/-- The settings files of a run: the usual one, and then the one that is named. -/
def settingsLayers (folder : Folder) (config : Option String) : List (Fields Value) :=
  (settingsLayer? folder "mitosis.toml").toList ++ (config.bind (settingsLayer? folder)).toList

/-- What a setting is: what the arguments give it, and otherwise what the files say. -/
def chosenBy? {α : Type} (given : Option String) (read : String → Option α)
    (otherwise : Option α) : Option α :=
  match given with
  | some text => read text
  | none => otherwise

theorem chosenBy?_some (given : Option String) (otherwise : String) :
    chosenBy? given some (some otherwise) = some (given.getD otherwise) := by
  cases given <;> rfl

/-- Every setting comes from the arguments, or else from the files, or else from the defaults. A
parameter counts with the last value that the arguments give it under any of its names. -/
structure Precedence (folder : Folder) (config : Option String) (arguments : List String)
    (settings : Settings) : Prop where
  componentName :
    chosenBy? (lastValue? ["component-name", "name"] arguments) some
      (Setting.componentName.chosen? Value.text? standard.reading.componentName
        (settingsLayers folder config)) = some settings.reading.componentName
  placeholderTag :
    chosenBy? (lastValue? ["placeholder-tag"] arguments) some
      (Setting.placeholderTag.chosen? Value.text? standard.reading.placeholderTag
        (settingsLayers folder config)) = some settings.reading.placeholderTag
  emitEmptyCode :
    chosenBy? (lastValue? ["emit-empty-code"] arguments) Format.readBoolean?
      (Setting.emitEmptyCode.chosen? Value.truth? standard.writing.emitEmptyCode
        (settingsLayers folder config)) = some settings.writing.emitEmptyCode
  pretty :
    chosenBy? (lastValue? ["pretty"] arguments) Format.readBoolean?
      (Setting.pretty.chosen? Value.truth? standard.writing.pretty
        (settingsLayers folder config)) = some settings.writing.pretty

/-- There is one choice of all settings. -/
theorem Precedence.unique {folder : Folder} {config : Option String} {arguments : List String}
    {settings others : Settings} (h : Precedence folder config arguments settings)
    (h' : Precedence folder config arguments others) : settings = others := by
  obtain ⟨⟨name, tag⟩, ⟨emit, indent⟩⟩ := settings
  obtain ⟨⟨name', tag'⟩, ⟨emit', indent'⟩⟩ := others
  cases h.componentName.symm.trans h'.componentName
  cases h.placeholderTag.symm.trans h'.placeholderTag
  cases h.emitEmptyCode.symm.trans h'.emitEmptyCode
  cases h.pretty.symm.trans h'.pretty
  rfl

/-! ## Loading -/

theorem readSettings_run (folder : Folder) (path : String) :
    (readSettings Folder.access path).run folder = (settingsText? folder path, folder) := by
  rw [readSettings, run_bind, read_run, settingsText?]
  cases Folder.readFile folder path with
  | ok text => rfl
  | error error =>
    dsimp only
    rw [run_bind, read_run]
    cases Folder.readFile folder (path ++ ".toml") <;> rfl

/-- Settings that are loaded are chosen from the settings files. -/
theorem loadSettings_ok {folder : Folder} {config : Option String} {settings : Settings}
    (h : ((loadSettings Folder.access config).run folder).1 = .ok settings) :
    Layered (settingsLayers folder config) settings := by
  rw [loadSettings, run_bind, readSettings_run] at h
  let usual := Loader.new.addFile false (settingsText? folder "mitosis.toml")
  have first {layers : List (Fields Value)} (files : usual.files = layers.map .ok) :
      layers = (settingsLayer? folder "mitosis.toml").toList := by
    obtain ⟨earlier, none, rfl⟩ := addFile_ok files
    rw [List.map_eq_nil_iff.mp none.symm, List.nil_append, settingsLayer?]
  cases config with
  | none =>
    change usual.build = .ok settings at h
    obtain ⟨layers, files, layered⟩ := build_ok h
    rw [addFile_overrides] at layered
    rw [settingsLayers, ← first files]
    exact (List.append_nil layers).symm ▸ layered.of_empty
  | some path =>
    dsimp only at h
    rw [run_bind, readSettings_run] at h
    change (usual.addFile true (settingsText? folder path)).build = .ok settings at h
    obtain ⟨layers, files, layered⟩ := build_ok h
    rw [addFile_overrides, addFile_overrides] at layered
    obtain ⟨earlier, before, rfl⟩ := addFile_ok files
    rw [settingsLayers, ← first before]
    exact layered.of_empty

/-! ## Options of the format -/

/-- One of two names is given at most, so the last value of both is the value of that one. -/
theorem lastValue?_pair {first second : String} {arguments : List String}
    (h : lastValue? [first] arguments = none ∨ lastValue? [second] arguments = none) :
    lastValue? [first, second] arguments =
      (lastValue? [first] arguments).or (lastValue? [second] arguments) := by
  rcases h with absent | absent
  · rw [absent, Option.none_or]
    refine lastValue?_congr fun argument member => ?_
    have other := lastValue?_eq_none.mp absent argument member
    cases named : extraKey? argument <;> simp_all
  · rw [absent, Option.or_none]
    refine lastValue?_congr fun argument member => ?_
    have other := lastValue?_eq_none.mp absent argument member
    cases named : extraKey? argument <;> simp_all

/-- Taking out parameters leaves all others. -/
theorem get?_takeFirst {keys : List String} {key : String} (options : Options) (h : key ∉ keys) :
    Fields.get? (takeFirst options keys).2 key = Fields.get? options key := by
  induction keys with
  | nil => rfl
  | cons first keys ih =>
    obtain ⟨different, others⟩ := not_or.mp (List.mem_cons.not.mp h)
    rw [takeFirst]
    cases Fields.get? options first with
    | none => exact ih others
    | some value =>
      dsimp only
      rw [Fields.get?_remove, if_neg different]

theorem takeFirst_cons_fst (options : Options) (key : String) (keys : List String) :
    (takeFirst options (key :: keys)).1 =
      (Fields.get? options key).or (takeFirst options keys).1 := by
  rw [takeFirst]
  cases Fields.get? options key <;> rfl

theorem applyOverrides_options (settings : Settings) (options : Options) :
    (applyOverrides settings options).2 =
      (takeFirst (takeFirst options ["component-name", "name"]).2 ["placeholder-tag"]).2 := rfl

/-- The options that are left have what the settings do not take. -/
theorem get?_applyOverrides (settings : Settings) (options : Options) {key : String}
    (h : key ∉ ["component-name", "name", "placeholder-tag"]) :
    Fields.get? (applyOverrides settings options).2 key = Fields.get? options key := by
  have names : key ∉ ["component-name", "name"] := by simp_all
  have tag : key ∉ ["placeholder-tag"] := by simp_all
  rw [applyOverrides_options, get?_takeFirst _ tag, get?_takeFirst _ names]

/-- Of the two names of a setting, the second is left if both are given. -/
theorem get?_applyOverrides_name {settings : Settings} {options : Options} {value : String}
    (h : Fields.get? options "component-name" = some value) :
    Fields.get? (applyOverrides settings options).2 "name" = Fields.get? options "name" := by
  rw [applyOverrides_options, get?_takeFirst _ (by decide), takeFirst, h]
  dsimp only
  rw [Fields.get?_remove, if_neg (by decide)]

theorem checkOptionKeys_ok {name : String} {known : List String} {options : Options}
    (h : Format.checkOptionKeys name known options = .ok ()) {key : String} (other : key ∉ known) :
    Fields.get? options key = none := by
  rw [Format.checkOptionKeys] at h
  split at h
  · next unknown =>
    rw [Fields.get?_eq_none_iff]
    intro member
    have kept := List.filter_eq_nil_iff.mp unknown key member
    simp [other] at kept
  · cases h

theorem booleanOption_ok {options : Options} {key : String} {default value : Bool}
    (h : Format.booleanOption options key default = .ok value) :
    chosenBy? (Fields.get? options key) Format.readBoolean? (some default) = some value := by
  rw [Format.booleanOption] at h
  cases given : Fields.get? options key with
  | none =>
    rw [given] at h
    cases h
    rfl
  | some text =>
    rw [given] at h
    rw [chosenBy?]
    cases read : Format.readBoolean? text with
    | none => simp [read] at h
    | some truth => simpa [read] using h

theorem bind_ok_iff {α β : Type} {action : Except Failure α} {next : α → Except Failure β}
    {result : β} :
    (action >>= next) = .ok result ↔ ∃ value, action = .ok value ∧ next value = .ok result := by
  cases action <;> simp [bind, Except.bind]

/-- Page content is written if all options are known and stand for truth values, which then
count before those of the settings. -/
theorem writeWith_ok_iff {reading : Content.ImportSettings} {writing : Content.ExportSettings}
    {options : Options} {component : Component} {output : String} :
    (Format.pageContent reading writing).writeWith options component = .ok output ↔
      ∃ chosen : Content.ExportSettings, output = Content.write chosen component ∧
        Format.checkOptionKeys "builder" ["pretty", "emit-empty-code"] options = .ok () ∧
        Format.booleanOption options "pretty" writing.pretty = .ok chosen.pretty ∧
        Format.booleanOption options "emit-empty-code" writing.emitEmptyCode =
          .ok chosen.emitEmptyCode := by
  change (do
    Format.checkOptionKeys "builder" ["pretty", "emit-empty-code"] options
    let pretty ← Format.booleanOption options "pretty" writing.pretty
    let emitEmptyCode ← Format.booleanOption options "emit-empty-code" writing.emitEmptyCode
    return Content.write { emitEmptyCode, pretty } component) = Except.ok output ↔ _
  simp only [bind_ok_iff]
  constructor
  · rintro ⟨_, known, pretty, indent, emitEmptyCode, emit, written⟩
    cases written
    exact ⟨⟨emitEmptyCode, pretty⟩, rfl, known, indent, emit⟩
  · rintro ⟨chosen, rfl, known, indent, emit⟩
    exact ⟨(), known, chosen.pretty, indent, chosen.emitEmptyCode, emit, rfl⟩

/-! ## Converting -/

/-- What a run hands over: what it prints, or else what it leaves in the file of its output. -/
def handed (folder : Folder) (output : Option String) (result : Ending × Folder) :
    Option String :=
  match output with
  | none => some result.1.output
  | some path => (Folder.target? folder path).bind (Fields.get? result.2)

/-- A conversion that succeeds hands over the text that its input is converted to, printed or
written to the file of its output. -/
theorem convert_ok {registry : Registry} {options : Options} {conversion : Conversion}
    {folder : Folder}
    (h : ((convert Folder.access registry options conversion).run folder).1.status = 0) :
    ∃ source text output, formatsOf registry conversion = .ok source ∧
      Folder.readFile folder conversion.input = .ok text ∧
      convertText registry source conversion.target options text = .ok output ∧
      handed folder conversion.output
        ((convert Folder.access registry options conversion).run folder) =
          some (output ++ "\n") := by
  rw [convert] at h ⊢
  cases formats : formatsOf registry conversion with
  | error message =>
    rw [formats] at h
    cases h
  | ok source =>
    rw [formats] at h
    dsimp only at h ⊢
    rw [run_bind, read_run] at h ⊢
    dsimp only at h ⊢
    cases reads : Folder.readFile folder conversion.input with
    | error error =>
      rw [reads] at h
      cases h
    | ok text =>
      rw [reads] at h
      dsimp only at h ⊢
      cases converts : convertText registry source conversion.target options text with
      | error message =>
        rw [converts] at h
        cases h
      | ok output =>
        rw [converts] at h
        refine ⟨source, text, output, rfl, rfl, converts, ?_⟩
        dsimp only at h ⊢
        cases target : conversion.output with
        | none => rfl
        | some path =>
          rw [target] at h
          dsimp only at h ⊢
          rw [run_bind, write_run] at h ⊢
          cases written : Folder.writeFile folder path (output ++ "\n") with
          | error error =>
            rw [written] at h
            cases h
          | ok after =>
            obtain ⟨name, place, rfl⟩ := writeFile_ok written
            change (Folder.target? folder path).bind (Fields.get? (Fields.put _ _ _)) = _
            rw [place, Option.bind_some, Fields.get?_put, if_pos rfl]

theorem convertText_ok {settings : Settings} {options : Options} {text output : String}
    (h : convertText (registryOf settings) "builder" "builder" options text = .ok output) :
    ∃ component, Content.parse settings.reading text = .ok component ∧
      (Format.pageContent settings.reading settings.writing).writeWith options component =
        .ok output := by
  rw [convertText] at h
  have parses : (registryOf settings).parse "builder" text =
      Content.parse settings.reading text := rfl
  rw [parses] at h
  cases parsed : Content.parse settings.reading text with
  | error failure =>
    rw [parsed] at h
    cases h
  | ok component =>
    have writes : (registryOf settings).write "builder" options component =
        (Format.pageContent settings.reading settings.writing).writeWith options component := rfl
    rw [parsed] at h
    dsimp only at h
    rw [writes] at h
    refine ⟨component, rfl, ?_⟩
    cases written : (Format.pageContent settings.reading settings.writing).writeWith options
        component with
    | error failure =>
      rw [written] at h
      cases h
    | ok output =>
      rw [written] at h
      cases h
      rfl

theorem candidates_registryOf (settings : Settings) (file : List Char) :
    (registryOf settings).candidates file = Registry.standard.candidates file := by
  have here : registryOf settings =
      [("builder", Format.pageContent settings.reading settings.writing),
        ("mitosis-json", Format.tree settings.writing.pretty)] := rfl
  have there : Registry.standard =
      [("builder", Format.pageContent {} {}), ("mitosis-json", Format.tree true)] := rfl
  rw [here, there]
  rfl

/-- Which format a file is read in does not depend on the settings. -/
theorem sourceFormat_of_formatsOf {settings : Settings} {conversion : Conversion} {source : String}
    (h : formatsOf (registryOf settings) conversion = .ok source) :
    sourceFormat Registry.standard conversion = .ok source := by
  have detects (path : String) :
      (registryOf settings).detect? path = Registry.standard.detect? path := by
    simp only [Registry.detect?, candidates_registryOf]
  rw [formatsOf, sourceFormat, detects, ← sourceFormat] at h
  split at h
  · cases h
  · next found detected =>
    split at h
    · cases h
    · cases h
    · cases h
      exact detected

/-- With options that are all known, every setting comes from the first place that gives it: the
arguments, the file that is named, the usual file, and the defaults. -/
theorem precedence_of_layered {folder : Folder} {config : Option String} {arguments : List String}
    {settings : Settings} {chosen : Content.ExportSettings}
    (layered : Layered (settingsLayers folder config) settings)
    (known : Format.checkOptionKeys "builder" ["pretty", "emit-empty-code"]
      (applyOverrides settings (separate arguments).options).2 = .ok ())
    (pretty : Format.booleanOption (applyOverrides settings (separate arguments).options).2
      "pretty" settings.writing.pretty = .ok chosen.pretty)
    (emitEmptyCode : Format.booleanOption
      (applyOverrides settings (separate arguments).options).2 "emit-empty-code"
      settings.writing.emitEmptyCode = .ok chosen.emitEmptyCode) :
    Precedence folder config arguments
      ⟨(applyOverrides settings (separate arguments).options).1.reading, chosen⟩ where
  componentName := by
    have one : lastValue? ["component-name"] arguments = none ∨
        lastValue? ["name"] arguments = none := by
      rw [← get?_options, ← get?_options]
      cases given : Fields.get? (separate arguments).options "component-name" with
      | none => exact .inl rfl
      | some value =>
        right
        rw [← @get?_applyOverrides_name settings _ _ given]
        exact checkOptionKeys_ok known (by decide)
    rw [lastValue?_pair one, ← get?_options, ← get?_options, layered.componentName, chosenBy?_some]
    change _ = some ((takeFirst _ ["component-name", "name"]).1.getD _)
    rw [takeFirst_cons_fst, takeFirst_cons_fst, takeFirst, Option.or_none]
  placeholderTag := by
    rw [← get?_options, layered.placeholderTag, chosenBy?_some]
    change _ = some ((takeFirst (takeFirst _ ["component-name", "name"]).2
      ["placeholder-tag"]).1.getD _)
    rw [takeFirst_cons_fst, get?_takeFirst _ (by decide), takeFirst, Option.or_none]
  emitEmptyCode := by
    rw [← get?_options, layered.emitEmptyCode, ← get?_applyOverrides settings _ (by decide)]
    exact booleanOption_ok emitEmptyCode
  pretty := by
    rw [← get?_options, layered.pretty, ← get?_applyOverrides settings _ (by decide)]
    exact booleanOption_ok pretty

/-- A run that succeeds in converting page content to page content reads the content and writes it
again with the settings that take precedence, and hands over what is written. Each of them is what
the arguments give it last, or what the settings files say, the named one before the usual one. -/
theorem run_precedence {folder : Folder} {arguments : List String} {config : Option String}
    {conversion : Conversion}
    (asked : request (separate arguments).cleaned = .ok ⟨config, false, some conversion⟩)
    (source : sourceFormat Registry.standard conversion = .ok "builder")
    (target : conversion.target = "builder")
    (succeeds : (runOn folder arguments).1.status = 0) :
    ∃ text settings component, Folder.readFile folder conversion.input = .ok text ∧
      Precedence folder config arguments settings ∧
      Content.parse settings.reading text = .ok component ∧
      handed folder conversion.output (runOn folder arguments) =
        some (Content.write settings.writing component ++ "\n") := by
  have runs : runOn folder arguments =
      (perform Folder.access (separate arguments).options
        ⟨config, false, some conversion⟩).run folder := by
    rw [runOn, run, asked]
  rw [runs] at succeeds ⊢
  rw [perform, run_bind, loadSettings_readsOnly] at succeeds ⊢
  cases loads : ((loadSettings Folder.access config).run folder).1 with
  | error problem =>
    rw [loads] at succeeds
    cases succeeds
  | ok settings =>
    rw [loads] at succeeds
    dsimp only at succeeds ⊢
    obtain ⟨_, text, output, formats, reads, converts, hands⟩ := convert_ok succeeds
    rw [sourceFormat_of_formatsOf formats] at source
    cases source
    rw [target] at converts
    obtain ⟨component, parsed, written⟩ := convertText_ok converts
    obtain ⟨chosen, rfl, known, pretty, emitEmptyCode⟩ := writeWith_ok_iff.mp written
    exact ⟨text, _, component, reads,
      precedence_of_layered (loadSettings_ok loads) known pretty emitEmptyCode, parsed, hands⟩

/-- A page with the usual settings file and another one. -/
def siteFolder : Folder :=
  [("mitosis.toml", "import.component_name = 'Site'\nexport.emit_empty_code = true"),
    ("team.toml", "import.placeholder_tag = 'p'\nexport.emit_empty_code = false"),
    ("page.json", "\x7b\x7d")]

def siteArguments : List String :=
  ["--extra-pretty", "yes", "--extra-name", "Shop", "page.json", "--to", "builder", "--config",
    "team.toml", "--extra-placeholder-tag", "section", "--extras-pretty", "no"]

def siteConversion : Conversion := ⟨"page.json", none, "builder", none⟩

def fileSettings : Settings := ⟨⟨"Site", "p"⟩, ⟨false, true⟩⟩

def siteSettings : Settings := ⟨⟨"Shop", "section"⟩, ⟨false, true⟩⟩

def siteCard : Component := { name := "Shop" }

theorem siteArguments_asked :
    request (separate siteArguments).cleaned =
      .ok ⟨some "team.toml", false, some siteConversion⟩ := by
  decide +kernel

theorem siteFolder_loads :
    ((loadSettings Folder.access (some "team.toml")).run siteFolder).1 = .ok fileSettings := by
  decide +kernel

theorem siteArguments_overrides :
    applyOverrides fileSettings (separate siteArguments).options =
      (siteSettings, [("pretty", "no")]) := by
  decide +kernel

theorem parse_siteSettings : Content.parse siteSettings.reading "\x7b\x7d" = .ok siteCard := by
  have read : Content.read "\x7b\x7d" = .ok {} := rfl
  have made : Content.toComponent siteSettings.reading {} = .ok siteCard := by
    rw [Content.toComponent, Content.importElements]
    rfl
  rw [Content.parse, read]
  exact made

theorem write_siteSettings :
    (registryOf siteSettings).write "builder" [("pretty", "no")] siteCard =
      .ok (Content.write ⟨false, false⟩ siteCard) :=
  writeWith_ok_iff.mpr
    ⟨⟨false, false⟩, rfl, by decide +kernel, by decide +kernel, by decide +kernel⟩

/-- The run on the page succeeds, one step of it after the other. -/
theorem runOn_siteFolder : (runOn siteFolder siteArguments).1.status = 0 := by
  have formats : formatsOf (registryOf siteSettings) siteConversion = .ok "builder" := rfl
  have reads : Folder.readFile siteFolder siteConversion.input = .ok "\x7b\x7d" := rfl
  have parses : (registryOf siteSettings).parse "builder" "\x7b\x7d" = .ok siteCard :=
    parse_siteSettings
  rw [runOn, run, siteArguments_asked]
  dsimp only
  rw [perform, run_bind, siteFolder_loads, loadSettings_readsOnly]
  dsimp only
  rw [siteArguments_overrides]
  dsimp only
  rw [if_neg Bool.false_ne_true, convert, formats]
  dsimp only
  rw [run_bind, read_run, reads]
  dsimp only [siteConversion]
  rw [convertText, parses]
  dsimp only
  rw [write_siteSettings]
  rfl

/-- The page has the name and the tag from the arguments, before those in either file, and is
written with the last layout among them, and as to empty code as the file that they name says. -/
theorem siteFolder_precedence :
    ∃ component, Content.parse siteSettings.reading "\x7b\x7d" = .ok component ∧
      handed siteFolder none (runOn siteFolder siteArguments) =
        some (Content.write ⟨false, false⟩ component ++ "\n") := by
  obtain ⟨text, settings, component, reads, chosen, parses, hands⟩ :=
    run_precedence siteArguments_asked rfl rfl runOn_siteFolder
  have content : Folder.readFile siteFolder siteConversion.input = .ok "\x7b\x7d" := rfl
  have expected : Precedence siteFolder (some "team.toml") siteArguments
      ⟨siteSettings.reading, ⟨false, false⟩⟩ := by
    constructor <;> decide +kernel
  rw [content] at reads
  cases reads
  cases chosen.unique expected
  exact ⟨component, parses, hands⟩

end BlockLoom.CommandLine
