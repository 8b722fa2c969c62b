import BlockLoom.CommandLine.Arguments
import BlockLoom.CommandLine.Extras
import BlockLoom.CommandLine.Files
import BlockLoom.CommandLine.Help
import BlockLoom.Format.Registry

/-!
The program: it loads settings, reads a component from one file, and writes it in
another format to the standard output or to a file.
-/

namespace BlockLoom.CommandLine

inductive Ending where
  | stopped (halt : Halt)
  | badSettings (problem : Settings.Problem)
  | failed (message : String)
  | printed (output : String)
  /-- The output went to a file. -/
  | written
  deriving DecidableEq, Repr

/-- The words for errors that are not the program's own: those in arguments, which may depend on
all the arguments that were read, and those in settings. -/
structure Wording where
  misuse : List String → Mistake → String
  settings : Settings.Problem → String

namespace Ending

def status : Ending → Nat
  | .stopped ⟨_, .misuse _⟩ => 2
  | .stopped _ | .printed _ | .written => 0
  | .badSettings _ | .failed _ => 1

/-- What goes to the standard output. -/
def output : Ending → String
  | .stopped ⟨_, .version⟩ => versionText ++ "\n"
  | .stopped ⟨_, .help topic long⟩ => helpText topic long
  | .printed output => output
  | _ => ""

/-- What goes to the standard error, in the given words. -/
def error (wording : Wording) : Ending → String
  | .stopped ⟨arguments, .misuse mistake⟩ => wording.misuse arguments mistake
  | .badSettings problem => "Failed to load configuration: " ++ wording.settings problem ++ "\n"
  | .failed message => message ++ "\n"
  | _ => ""

end Ending

def registryOf (settings : Settings) : Registry :=
  (Registry.empty.register (Format.pageContent settings.reading settings.writing)).register
    (Format.tree settings.writing.pretty)

def formatList (registry : Registry) : String :=
  let line (format : Format) : String :=
    let gap := String.ofList (List.replicate (14 - format.name.length) ' ')
    "  " ++ format.name ++ gap ++ " " ++ format.description ++ " (*." ++
      ", *.".intercalate format.extensions ++ ")\n"
  "Available formats:\n\n" ++
    String.join ((registry.formatNames.filterMap (Fields.get? registry)).map line)

/-- The text of the component in a source, in another format. -/
def convertText (registry : Registry) (source target : String) (options : Options)
    (text : String) : Except String String :=
  match registry.parse source text with
  | .error failure => .error ("Parse error: " ++ failure.message)
  | .ok component =>
    match registry.write target options component with
    | .error failure => .error ("Serialization error: " ++ failure.message)
    | .ok output => .ok output

/-- The source format of a conversion: the one given, or else by the name of the input. -/
def sourceFormat (registry : Registry) (conversion : Conversion) : Except String String :=
  match conversion.source with
  | some source => .ok source
  | none =>
    match registry.detect? conversion.input with
    | some source => .ok source
    | none =>
      .error ("Error: Could not detect format from filename '" ++ conversion.input ++
        "'\nPlease specify --from explicitly")

def formatsOf (registry : Registry) (conversion : Conversion) : Except String String :=
  match sourceFormat registry conversion with
  | .error message => .error message
  | .ok source =>
    match registry.find source, registry.find conversion.target with
    | .error failure, _ => .error ("Error: " ++ failure.message)
    | _, .error failure => .error ("Error: " ++ failure.message)
    | .ok _, .ok _ => .ok source

section

variable {m : Type → Type} [Monad m]

/-- Converts one file. Both formats are looked up before the input is read, and the output is only
opened once it is complete, so that a failure leaves no part of it behind. -/
def convert (files : FileAccess m) (registry : Registry) (options : Options)
    (conversion : Conversion) : m Ending := do
  match formatsOf registry conversion with
  | .error message => return .failed message
  | .ok source =>
    match ← files.read conversion.input with
    | .error error =>
      return .failed ("Error reading file '" ++ conversion.input ++ "': " ++ error.message)
    | .ok text =>
      match convertText registry source conversion.target options text with
      | .error message => return .failed message
      | .ok output =>
        match conversion.output with
        | none => return .printed (output ++ "\n")
        | some path =>
          match ← files.write path (output ++ "\n") with
          | .ok () => return .written
          | .error error =>
            return .failed ("Error writing file '" ++ path ++ "': " ++ error.message)

/-- The text of a settings file, whose ending may be left out. -/
def readSettings (files : FileAccess m) (path : String) : m (Option String) := do
  match ← files.read path with
  | .ok text => return some text
  | .error _ =>
    match ← files.read (path ++ ".toml") with
    | .ok text => return some text
    | .error _ => return none

/-- The settings from the usual file, which may be missing, and then from the file that is named,
which may not. -/
def loadSettings (files : FileAccess m) (config : Option String) :
    m (Except Settings.Problem Settings) := do
  let loader := Settings.Loader.new.withOptionalFile (← readSettings files "mitosis.toml")
  match config with
  | none => return loader.build
  | some path => return (loader.withFile (← readSettings files path)).build

/-- Does what a request asks for. The settings among the extra parameters are taken out of them
first; what remains are options of the format that is written. -/
def perform (files : FileAccess m) (options : Options) (request : Request) : m Ending := do
  match ← loadSettings files request.config with
  | .error problem => return .badSettings problem
  | .ok settings =>
    let (settings, options) := applyOverrides settings options
    let registry := registryOf settings
    if request.listFormats then return .printed (formatList registry)
    else
      match request.conversion with
      | none => return .failed "Unknown subcommand. Use --help for usage information."
      | some conversion => convert files registry options conversion

/-- Runs the program with the given arguments: separates the extra parameters from them, reads what
the others ask for, and does that. What is wrong with the arguments ends the run before any file is
looked at. -/
def run (files : FileAccess m) (arguments : List String) : m Ending := do
  let separated := separate arguments
  match request separated.cleaned with
  | .error halt => return .stopped halt
  | .ok found => perform files separated.options found

end

end BlockLoom.CommandLine
