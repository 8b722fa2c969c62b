import BlockLoom.Content.Settings
import BlockLoom.Settings.Layer
import BlockLoom.Settings.Toml

/-!
Settings from defaults, files and single values. Files come in the order in
which they are added; single values come after all files, whenever they are
given.
-/

namespace BlockLoom

structure Settings where
  reading : Content.ImportSettings := {}
  writing : Content.ExportSettings := {}
  deriving DecidableEq, Repr, Inhabited

namespace Settings

/-- Why settings cannot be loaded. -/
inductive Problem where
  /-- A file that has to be there is not. -/
  | missingFile
  | malformedFile
  /-- A value is given under a name that is none. -/
  | malformedName
  /-- A value does not stand for one of the kind that is needed. -/
  | wrongKind (key : String)
  /-- Settings are not in a table of the section that they belong to. -/
  | wrongSection (name : String)
  deriving DecidableEq, Repr

/-! ## Sections -/

/-- The value of a field of a section. A section may also be a list of its values in order. -/
def sectionField (value : Value) (index : Nat) (key : String) : Option Value :=
  match value with
  | .table entries => Fields.get? entries key
  | .list items => items[index]?
  | _ => none

/-- The fields of a section. Wrong kinds are reported before missing fields. -/
def readSection {α : Type} (name : String) (keys : List String) (convert : Value → Option α)
    (value : Option Value) : Except Problem (List α) :=
  let fields := keys.zipIdx.map fun entry =>
    (entry.1, value.bind fun value => sectionField value entry.2 entry.1)
  match fields.find? fun field => (field.2.map fun value => (convert value).isNone).getD false with
  | some field => .error (.wrongKind field.1)
  | none =>
    match fields.mapM fun field => field.2.bind convert with
    | some values => .ok values
    | none => .error (.wrongSection name)

def ofValues (stored : Fields Value) : Except Problem Settings :=
  match readSection "import" ["component_name", "placeholder_tag"] Value.text?
      (Fields.get? stored "import") with
  | .error problem => .error problem
  | .ok texts =>
    match readSection "export" ["emit_empty_code", "pretty"] Value.truth?
        (Fields.get? stored "export") with
    | .error problem => .error problem
    | .ok flags =>
      match texts, flags with
      | [componentName, placeholderTag], [emitEmptyCode, pretty] =>
        .ok ⟨⟨componentName, placeholderTag⟩, ⟨emitEmptyCode, pretty⟩⟩
      | _, _ => .error (.wrongSection "import")

def toValues (settings : Settings) : Fields Value :=
  [("import", .table
      [("component_name", .text settings.reading.componentName),
        ("placeholder_tag", .text settings.reading.placeholderTag)]),
    ("export", .table
      [("emit_empty_code", .boolean settings.writing.emitEmptyCode),
        ("pretty", .boolean settings.writing.pretty)])]

/-! ## Loading -/

/-- Files and single values to load settings from. -/
structure Loader where
  /-- Each file with its values, or what is wrong with it. -/
  files : List (Except Problem (Fields Value)) := []
  overrides : Fields Value := []

namespace Loader

def new : Loader := {}

def addFile (loader : Loader) (required : Bool) (text : Option String) : Loader :=
  match text with
  | some text =>
    let values :=
      match Toml.parse? text with
      | some values => .ok values
      | none => .error .malformedFile
    { loader with files := loader.files ++ [values] }
  | none =>
    if required then { loader with files := loader.files ++ [.error .missingFile] } else loader

/-- Adds a file that has to be there. -/
def withFile (loader : Loader) (text : Option String) : Loader :=
  loader.addFile true text

/-- Adds a file that may be missing. -/
def withOptionalFile (loader : Loader) (text : Option String) : Loader :=
  loader.addFile false text

/-- Gives a single value by the name of its setting. -/
def setOverride (loader : Loader) (name : String) (value : Value) : Except Problem Loader :=
  match nameKeys? name with
  | none => .error .malformedName
  | some _ => .ok { loader with overrides := Fields.put loader.overrides name value }

/-- Writes the files over what is stored, one after another. -/
def applyFiles (stored : Fields Value) :
    List (Except Problem (Fields Value)) → Except Problem (Fields Value)
  | [] => .ok stored
  | .error problem :: _ => .error problem
  | .ok values :: files => applyFiles (applyLayer stored values) files

/-- The settings that result: the defaults, with the files over them in order, and the single values
over all files. -/
def build (loader : Loader) : Except Problem Settings :=
  match applyFiles (toValues {}) loader.files with
  | .error problem => .error problem
  | .ok stored => ofValues (applyLayer stored loader.overrides)

end Loader

end Settings

end BlockLoom
