import BlockLoom.Format.Basic
import BlockLoom.Settings.Loader
import BlockLoom.Text.Search

/-!
Extra parameters on the command line. An argument that starts with one of two
marks names a parameter; the next argument is its value unless that starts with
a dash, and the value is `true` without one. A few parameters are settings of the
program itself, and all others are options of the format that is written.
-/

namespace BlockLoom.CommandLine

/-- The parameter that an argument names, if it starts with a mark. -/
def extraKey? (argument : String) : Option String :=
  ((Text.after? "--extra-".toList argument.toList).or
    (Text.after? "--extras-".toList argument.toList)).map String.ofList

def isDashed (argument : String) : Bool :=
  argument.toList.head? == some '-'

/-- The values that a list of arguments gives to parameters, in order. -/
structure Separated where
  /-- The arguments that have nothing to do with parameters. -/
  cleaned : List String
  /-- The parameters with their values, in the order of the arguments. -/
  given : List (String × String)
  deriving DecidableEq, Repr

/-- Separates parameters and their values from all other arguments. A parameter without a value, at
the end or before another argument with a dash, is set to `true`. -/
def separate : List String → Separated
  | [] => ⟨[], []⟩
  | [argument] =>
    match extraKey? argument with
    | some key => ⟨[], [(key, "true")]⟩
    | none => ⟨[argument], []⟩
  | argument :: next :: rest =>
    match extraKey? argument with
    | none =>
      let others := separate (next :: rest)
      { others with cleaned := argument :: others.cleaned }
    | some key =>
      if isDashed next then
        let others := separate (next :: rest)
        { others with given := (key, "true") :: others.given }
      else
        let others := separate rest
        { others with given := (key, next) :: others.given }

def Separated.options (separated : Separated) : Options :=
  Fields.ofEntries separated.given

/-- Takes the first of the given parameters that has a value out of the options. -/
def takeFirst (options : Options) : List String → Option String × Options
  | [] => (none, options)
  | key :: keys =>
    match Fields.get? options key with
    | some value => (some value, Fields.remove options key)
    | none => takeFirst options keys

def applyOverrides (settings : Settings) (options : Options) : Settings × Options :=
  let (name, options) := takeFirst options ["component-name", "name"]
  let (tag, options) := takeFirst options ["placeholder-tag"]
  let reading : Content.ImportSettings :=
    { componentName := name.getD settings.reading.componentName
      placeholderTag := tag.getD settings.reading.placeholderTag }
  ({ settings with reading }, options)

end BlockLoom.CommandLine
