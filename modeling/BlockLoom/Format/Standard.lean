import BlockLoom.Component.Json
import BlockLoom.Component.Validity
import BlockLoom.Content.Export
import BlockLoom.Format.Basic

/-!
The formats that are always there: page content, and the component tree itself.
-/

namespace BlockLoom.Format

def pageContent (reading : Content.ImportSettings) (writing : Content.ExportSettings) : Format where
  name := "builder"
  description := "Builder content JSON"
  extensions := ["builder.json", "json"]
  reads := true
  writes := true
  optionKeys := ["pretty", "emit-empty-code"]
  parse := Content.parse reading
  write component := .ok (Content.write writing component)
  writeWith options component := do
    checkOptionKeys "builder" ["pretty", "emit-empty-code"] options
    let pretty ← booleanOption options "pretty" writing.pretty
    let emitEmptyCode ← booleanOption options "emit-empty-code" writing.emitEmptyCode
    return Content.write { emitEmptyCode, pretty } component

/-- Reads the text of a component and checks the tree. -/
def parseTree (source : String) : Except Failure Component :=
  match Component.read source with
  | .error message => .error (.unreadable message)
  | .ok component =>
    match component.check with
    | .error failure => .error failure
    | .ok () => .ok component

def tree (pretty : Bool) : Format where
  name := "mitosis-json"
  description := "Mitosis component IR as JSON"
  extensions := ["mitosis.json"]
  reads := true
  writes := true
  optionKeys := ["pretty"]
  parse := parseTree
  write component := .ok (component.write pretty)
  writeWith options component := do
    checkOptionKeys "mitosis-json" ["pretty"] options
    return component.write (← booleanOption options "pretty" pretty)

end BlockLoom.Format
