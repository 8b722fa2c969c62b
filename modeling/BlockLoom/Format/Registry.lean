import BlockLoom.Format.Plugin
import BlockLoom.Format.Standard
import BlockLoom.Text.Search

/-!
The formats that can be chosen by name or found by the name of a file. A format
takes the place of an earlier one with the same name.
-/

namespace BlockLoom

abbrev Registry := Fields Format

namespace Registry

def empty : Registry := []

/-- Adds a format under its name. -/
def register (registry : Registry) (format : Format) : Registry :=
  Fields.put registry format.name format

/-- The registry with the standard formats in their default settings. -/
def standard : Registry :=
  (empty.register (Format.pageContent {} {})).register (Format.tree true)

def find (registry : Registry) (name : String) : Except Failure Format :=
  match Fields.get? registry name with
  | some format => .ok format
  | none => .error (.unknownFormat name)

def formatNames (registry : Registry) : List String :=
  Format.sorted (Fields.names registry)

/-! ## File names -/

def pathParts : List Char → List (List Char)
  | [] => [[]]
  | c :: rest =>
    if c = '/' then [] :: pathParts rest
    else
      match pathParts rest with
      | part :: parts => (c :: part) :: parts
      | [] => [[c]]

/-- The last part of a path, if it names a file: empty parts and single dots do
not count, and two dots name no file. -/
def fileName? (path : String) : Option (List Char) :=
  let named := (pathParts path.toList).filter fun part => part ≠ [] ∧ part ≠ ['.']
  named.getLast?.filter fun part => part ≠ ['.', '.']

/-- Whether a file name has an extension and something before its dot. -/
def hasExtension (file : List Char) (extension : String) : Bool :=
  match Text.before? extension.toList file with
  | some stem => stem.length > 1 && stem.getLast? == some '.'
  | none => false

/-- The extensions of all formats that a file has, each with the name of its format. -/
def candidates (registry : Registry) (file : List Char) : List (String × String) :=
  registry.flatMap fun entry =>
    (entry.2.extensions.filter (hasExtension file)).map fun extension =>
      (extension, entry.2.name)

def longest : List (String × String) → Option (String × String)
  | [] => none
  | candidate :: candidates =>
    match longest candidates with
    | some other =>
      if candidate.1.utf8ByteSize > other.1.utf8ByteSize then some candidate else some other
    | none => some candidate

/-- The name of the format of a file, by the longest extension that it has. Of two extensions of the
same length the later one counts. -/
def detect? (registry : Registry) (path : String) : Option String :=
  (fileName? path).bind fun file => (longest (registry.candidates file)).map Prod.snd

/-! ## Conversion -/

/-- Reads a text in a format that is meant to be read. -/
def parse (registry : Registry) (format source : String) : Except Failure Component :=
  match registry.find format with
  | .error failure => .error failure
  | .ok found =>
    if found.reads then found.parse source else .error (.unsupported (.reading format))

/-- Writes a component in a format that is meant to be written. -/
def write (registry : Registry) (format : String) (options : Options) (component : Component) :
    Except Failure String :=
  match registry.find format with
  | .error failure => .error failure
  | .ok found =>
    if found.writes then found.writeWith options component
    else .error (.unsupported (.writing format))

/-- Writes a component with the changes that plugins make before and after. The component is checked
after each of the former, and the first failure ends the writing. -/
def writeWithPlugins (registry : Registry) (format : String) (options : Options)
    (plugins : List Plugin) (component : Component) : Except Failure String :=
  match Plugin.applyBefore plugins component with
  | .error failure => .error failure
  | .ok changed =>
    match registry.write format options changed with
    | .error failure => .error failure
    | .ok output => Plugin.applyAfter plugins output

end Registry

end BlockLoom
