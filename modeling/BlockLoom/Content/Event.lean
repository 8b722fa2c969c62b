import BlockLoom.Text.Search
import BlockLoom.Text.UpperCase

/-!
Events and the fields of nodes that handle them: the handler of an event is
named `on` and the event with a capital letter at its start.
-/

namespace BlockLoom.Content.Event

def handlerName (event : String) : String :=
  match event.toList with
  | [] => "on"
  | c :: rest => String.ofList ('o' :: 'n' :: Text.upperCase c ++ rest)

/-- The event that a field handles, if its name is that of a handler. Only ASCII
capitals mark a handler. -/
def ofHandler? (field : String) : Option String :=
  match field.toList with
  | 'o' :: 'n' :: c :: rest => if c.isUpper then some (String.ofList (c.toLower :: rest)) else none
  | _ => none

end BlockLoom.Content.Event
