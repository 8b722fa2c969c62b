import BlockLoom.Component.Basic
import BlockLoom.Failure

/-!
Formats: named ways to write a component as text and to read it back. A format
may do only one of the two, and may take options when it writes.
-/

namespace BlockLoom

abbrev Options := Fields String

/-- A format for components. What it says about itself is checked by those who
use it and not enforced here: `reads` and `writes` tell what it is meant to do,
and `parse` and `write` what it does. -/
structure Format where
  name : String
  description : String := ""
  /-- Ends of file names, without the dot before them. -/
  extensions : List String := []
  reads : Bool := false
  writes : Bool := false
  optionKeys : List String := []
  parse : String → Except Failure Component := fun _ => .error (.unsupported (.reading name))
  write : Component → Except Failure String := fun _ => .error (.unsupported (.writing name))
  writeWith : Options → Component → Except Failure String := fun options component =>
    if options.isEmpty then write component else .error (.unsupported (.anyOption name))

namespace Format

def sorted (texts : List String) : List String :=
  texts.mergeSort fun left right => decide (left ≤ right)

/-- Refuses options that a format does not know. -/
def checkOptionKeys (name : String) (known : List String) (options : Options) :
    Except Failure Unit :=
  match (Fields.names options).filter fun key => !known.contains key with
  | [] => .ok ()
  | unknown => .error (.unsupported (.unknownOptions name (sorted unknown)))

/-- The truth value that an option is written as. -/
def readBoolean? (text : String) : Option Bool :=
  let lower := text.map Char.toLower
  if ["true", "yes", "1"].contains lower then some true
  else if ["false", "no", "0"].contains lower then some false
  else none

/-- The truth value of an option, or the given one if the option is absent. -/
def booleanOption (options : Options) (key : String) (default : Bool) : Except Failure Bool :=
  match Fields.get? options key with
  | none => .ok default
  | some text =>
    match readBoolean? text with
    | some value => .ok value
    | none => .error (.unsupported (.notBoolean key text))

end Format

end BlockLoom
